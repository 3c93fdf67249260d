import RQuery.Sql.Tokenizer

/-!
# The lexical grammar

`Scans slice rest text type` says that the characters `slice` in front of `rest` are a token with
this text and kind, and `Lexes offset cs tokens` that the characters `cs`, which start at `offset`,
are these tokens with white space around them.

The tokenizer returns tokens exactly where the text is in the grammar (`tokenize_eq_ok_iff`). Each
scanner is described on the characters from its start on, once for what it returns
(`scanChars_string` and so on) and once for when it does.
-/

namespace RQuery

/-! ## Characters -/

/-- The quote of identifiers. -/
def backQuote : Char := Char.ofNat 0x60

/-- The back quote is the character of its number. -/
theorem toNat_eq_backQuote_iff {c : Char} : c.toNat = 0x60 ↔ c = backQuote :=
  ⟨fun h => Text.char_eq_of_toNat h, fun h => h ▸ rfl⟩

/-- What holds of all characters of the symbols holds of a character that begins one. -/
theorem Symbol.isSymbol_all {p : Char → Bool}
    (h : (Symbol.texts.all fun entry => entry.2.toList.all p) = true) {c : Char}
    (hc : Symbol.isSymbol c = true) : p c = true := by
  obtain ⟨entry, hentry, hmem⟩ := List.any_eq_true.mp hc
  exact List.all_eq_true.mp (List.all_eq_true.mp h entry hentry) c (by simpa using hmem)

/-- The digits are a range of characters. -/
theorem isDigit_toNat {c : Char} : c.isDigit = true ↔ 48 ≤ c.toNat ∧ c.toNat ≤ 57 := by
  simp [Char.isDigit, UInt32.le_iff_toNat_le]

/-! ## Tokens and what follows them -/

/-- The text of a string literal, with its quotes doubled. -/
def escape (q : Char) (text : List Char) : List Char :=
  text.flatMap fun c => if c = q then [q, q] else [c]

/-- Whether the next two characters behind white space are `BY`. -/
def beforeBy (rest : List Char) : Bool :=
  Text.eqIgnoreAsciiCase (String.ofList ((rest.dropWhile Text.isWhitespace).take 2)) "BY"

section

variable [UnicodeTables]

/-- The kind of a word in front of the given characters. -/
def wordType (text : String) (rest : List Char) : TokenType :=
  if SqlTokenizer.isAmbiguousIdentifier text && !beforeBy rest then .literal .identifier
  else ((Keyword.textOf text).map .keyword).getD (.literal .identifier)

/-- The first characters in front of the second are a token with this text and kind. -/
inductive Scans : List Char → List Char → String → TokenType → Prop
  | word {c : Char} {cs rest : List Char} (hstart : UnicodeTables.isAlphabetic c = true)
      (hpart : ∀ d ∈ cs, Literal.isIdentifierPart d = true)
      (hend : ∀ d ∈ rest.head?, Literal.isIdentifierPart d = false) :
    Scans (c :: cs) rest (String.ofList (c :: cs)) (wordType (String.ofList (c :: cs)) rest)
  | backQuoted {text rest : List Char} (hquote : backQuote ∉ text) :
    Scans (backQuote :: (text ++ [backQuote])) rest (String.ofList text) (.literal .identifier)
  | long {digits rest : List Char} (hne : digits ≠ []) (hdigits : ∀ d ∈ digits, d.isDigit = true)
      (hend : ∀ d ∈ rest.head?, d.isDigit = false ∧ d ≠ '.') :
    Scans digits rest (String.ofList digits) (.literal .long)
  | double {digits decimals rest : List Char} (hdigits : ∀ d ∈ digits, d.isDigit = true)
      (hdecimals : ∀ d ∈ decimals, d.isDigit = true)
      (hend : ∀ d ∈ rest.head?, d.isDigit = false) :
    Scans (digits ++ '.' :: decimals) rest (String.ofList (digits ++ '.' :: decimals))
      (.literal .double)
  /-- The longest symbol. A point starts a number. -/
  | symbol {slice rest : List Char} {s : Symbol} (hpoint : slice.head? ≠ some '.')
      (hslice : Symbol.textOf (String.ofList slice) = some s)
      (hlongest : ∀ more, more ≠ [] → more <+: rest →
        Symbol.textOf (String.ofList (slice ++ more)) = none) :
    Scans slice rest (String.ofList slice) (.symbol s)
  | string {q : Char} {text rest : List Char} (hq : Literal.isCharsStart q = true)
      (hend : rest.head? ≠ some q) :
    Scans (q :: (escape q text ++ [q])) rest (String.ofList text) (.literal .string)

/-- The characters from an offset on are tokens with white space around them. -/
inductive Lexes : ℕ → List Char → List Token → Prop
  | done {offset : ℕ} {space : List Char} (hspace : ∀ c ∈ space, Text.isWhitespace c = true) :
    Lexes offset space []
  | token {offset : ℕ} {space slice rest : List Char} {t : Token} {ts : List Token}
      (hspace : ∀ c ∈ space, Text.isWhitespace c = true)
      (hhead : ∀ c ∈ slice.head?, Text.isWhitespace c = false)
      (hscan : Scans slice rest t.text t.tokenType)
      (hend : t.endOffset = offset + space.length + slice.length)
      (hrest : Lexes t.endOffset rest ts) : Lexes offset (space ++ (slice ++ rest)) (t :: ts)

end

namespace SqlTokenizer

variable {z : SqlTokenizer} {start : ℕ}

/-! ## Runs of characters -/

/-- A list begins with its longest run. -/
theorem exists_run (p : Char → Bool) (cs : List Char) : ∃ run rest, cs = run ++ rest ∧
    (∀ c ∈ run, p c = true) ∧ ∀ c ∈ rest.head?, p c = false :=
  ⟨cs.takeWhile p, cs.dropWhile p, List.takeWhile_append_dropWhile.symm,
    List.all_eq_true.mp List.all_takeWhile, fun c hc => by
      have hnot := List.head?_dropWhile_not p cs
      rw [hc] at hnot
      simpa using hnot⟩

/-- Dropping a run leaves what is behind it. -/
theorem dropWhile_run {p : Char → Bool} {run rest : List Char} (hrun : ∀ c ∈ run, p c = true)
    (hrest : ∀ c ∈ rest.head?, p c = false) : (run ++ rest).dropWhile p = rest := by
  rw [List.dropWhile_append_of_pos hrun]
  obtain _ | ⟨c, rest⟩ := rest
  · rfl
  · rw [List.dropWhile_cons, hrest c rfl, if_neg Bool.false_ne_true]

/-- The first character of what is left is the one at the place. -/
theorem getElem?_of_drop {c : Char} {cs : List Char} (h : z.chars.drop start = c :: cs) :
    z.chars[start]? = some c := by
  have hhead := congrArg List.head? h
  rwa [List.head?_drop] at hhead

/-- What is left behind a slice. -/
theorem drop_add_of_drop {slice rest : List Char} (h : z.chars.drop start = slice ++ rest) :
    z.chars.drop (start + slice.length) = rest := by
  rw [← List.drop_drop, h, List.drop_left]

/-- The slice in front is the substring at its place. -/
theorem substring_of_drop {slice rest : List Char} (h : z.chars.drop start = slice ++ rest) :
    z.substring start (start + slice.length) = String.ofList slice := by
  rw [substring, h, Nat.add_sub_cancel_left, List.take_left]

/-- The first character with a property is behind the run of those without it. -/
theorem indexOfFirst_of_drop {p : Char → Bool} {run rest : List Char}
    (hstart : start ≤ z.chars.length) (h : z.chars.drop start = run ++ rest)
    (hrun : ∀ c ∈ run, p c = false) (hrest : ∀ c ∈ rest.head?, p c = true) :
    z.indexOfFirst start p = start + run.length := by
  have hlength := congrArg List.length h
  rw [List.length_drop, List.length_append] at hlength
  unfold indexOfFirst
  rw [h, List.findIdx?_append, List.findIdx?_eq_none_iff.mpr hrun, Option.none_or]
  obtain _ | ⟨c, rest⟩ := rest
  · simp only [List.findIdx?_nil, Option.map_none]
    rw [List.length_nil] at hlength
    omega
  · rw [List.findIdx?_cons, if_pos (hrest c rfl)]
    simp

/-! ## Numbers -/

/-- Digits without a point behind them. -/
theorem scanNumber_long {digits rest : List Char} (hstart : start ≤ z.chars.length)
    (hne : digits ≠ []) (hdigits : ∀ d ∈ digits, d.isDigit = true)
    (hend : ∀ d ∈ rest.head?, d.isDigit = false ∧ d ≠ '.')
    (h : z.chars.drop start = digits ++ rest) :
    z.scanNumber start =
      ⟨String.ofList digits, .literal .long, start + digits.length⟩ := by
  obtain ⟨d, ds, rfl⟩ := List.exists_cons_of_ne_nil hne
  have hminus : z.chars[start]? ≠ some '-' := by
    rw [getElem?_of_drop h]
    rintro ⟨⟩
    exact absurd (hdigits '-' List.mem_cons_self) (by decide)
  have hstop : z.indexOfFirst start (fun c => !c.isDigit) = start + (d :: ds).length :=
    indexOfFirst_of_drop hstart h (fun c hc => by simp [hdigits c hc])
      fun c hc => by simp [(hend c hc).1]
  have hpoint : z.chars[start + (d :: ds).length]? ≠ some '.' := by
    rw [← List.head?_drop, drop_add_of_drop h]
    exact fun hdot => (hend '.' hdot).2 rfl
  simp only [scanNumber, if_neg hminus, hstop, if_neg hpoint, substring_of_drop h]

/-- Digits around a point. -/
theorem scanNumber_double {digits decimals rest : List Char} (hstart : start ≤ z.chars.length)
    (hdigits : ∀ d ∈ digits, d.isDigit = true) (hdecimals : ∀ d ∈ decimals, d.isDigit = true)
    (hend : ∀ d ∈ rest.head?, d.isDigit = false)
    (h : z.chars.drop start = (digits ++ '.' :: decimals) ++ rest) :
    z.scanNumber start = ⟨String.ofList (digits ++ '.' :: decimals), .literal .double,
      start + (digits ++ '.' :: decimals).length⟩ := by
  have hparts : z.chars.drop start = digits ++ ('.' :: (decimals ++ rest)) := by
    rw [h, List.append_assoc, List.cons_append]
  -- A minus sign is no digit and no point, so the scan starts at the slice itself.
  have hminus : z.chars[start]? ≠ some '-' := by
    rw [← List.head?_drop, hparts]
    obtain _ | ⟨d, ds⟩ := digits
    · exact fun hdot => absurd (Option.some.inj hdot) (by decide)
    · rintro ⟨⟩
      exact absurd (hdigits '-' List.mem_cons_self) (by decide)
  -- The first scan stops at the point, the second behind the decimals.
  have hpoint : z.indexOfFirst start (fun c => !c.isDigit) = start + digits.length :=
    indexOfFirst_of_drop hstart hparts (fun c hc => by simp [hdigits c hc])
      fun c hc => by cases hc; rfl
  have hbehind := drop_add_of_drop hparts
  have hdot : z.chars[start + digits.length]? = some '.' := getElem?_of_drop hbehind
  have hlt := (List.getElem?_eq_some_iff.mp hdot).1
  have hdrop : z.chars.drop (start + digits.length + 1) = decimals ++ rest := by
    rw [← List.drop_drop, hbehind, List.drop_one, List.tail_cons]
  have hstop : z.indexOfFirst (start + digits.length + 1) (fun c => !c.isDigit) =
      start + (digits ++ '.' :: decimals).length := by
    rw [indexOfFirst_of_drop hlt hdrop (fun c hc => by simp [hdecimals c hc])
      fun c hc => by simp [hend c hc], List.length_append, List.length_cons]
    omega
  simp only [scanNumber, if_neg hminus, hpoint, if_pos hdot, hstop, substring_of_drop h]

/-- A number is digits, or digits around a point. -/
theorem scanNumber_scans [UnicodeTables] {c : Char} {cs : List Char}
    (h : z.chars.drop start = c :: cs) (hc : Literal.isNumberStart c = true) :
    ∃ slice rest, c :: cs = slice ++ rest ∧
      Scans slice rest (z.scanNumber start).text (z.scanNumber start).tokenType ∧
      (z.scanNumber start).endOffset = start + slice.length := by
  have hstart : start ≤ z.chars.length :=
    Nat.le_of_lt (List.getElem?_eq_some_iff.mp (getElem?_of_drop h)).1
  obtain ⟨digits, rest, hparts, hdigits, hrest⟩ := exists_run Char.isDigit (c :: cs)
  -- A point behind the digits makes the number a double.
  by_cases hdot : rest.head? = some '.'
  · obtain _ | ⟨d, rest⟩ := rest
    · cases hdot
    obtain rfl : d = '.' := Option.some.inj hdot
    obtain ⟨decimals, rest, rfl, hdecimals, hend⟩ := exists_run Char.isDigit rest
    have hslice : c :: cs = (digits ++ '.' :: decimals) ++ rest := by
      rw [hparts, List.append_assoc, List.cons_append]
    rw [scanNumber_double hstart hdigits hdecimals hend (h.trans hslice)]
    exact ⟨_, _, hslice, .double hdigits hdecimals hend, rfl⟩
  · have hne : digits ≠ [] := by
      rintro rfl
      rw [List.nil_append] at hparts
      subst hparts
      have hdigit := hrest c rfl
      simp only [Literal.isNumberStart, hdigit, Bool.false_or, decide_eq_true_eq] at hc
      exact hdot (congrArg some hc)
    have hend : ∀ d ∈ rest.head?, d.isDigit = false ∧ d ≠ '.' := fun d hd =>
      ⟨hrest d hd, fun heq => hdot (heq ▸ hd)⟩
    rw [scanNumber_long hstart hne hdigits hend (h.trans hparts)]
    exact ⟨_, _, hparts, .long hne hdigits hend, rfl⟩

/-! ## Symbols -/

/-- The longest prefix that is a symbol. -/
theorem shrinkSymbol_eq_some_iff {text : List Char} {n k : ℕ} {s : Symbol} :
    shrinkSymbol text n = some (s, k) ↔
      0 < k ∧ k ≤ n ∧ Symbol.textOf (String.ofList (text.take k)) = some s ∧
        ∀ j, k < j → j ≤ n → Symbol.textOf (String.ofList (text.take j)) = none := by
  -- The text is shrunk by a character at a time, so the longest symbol is found first.
  induction n with
  | zero =>
    refine iff_of_false (fun h => by cases h) ?_
    rintro ⟨hpos, hle, -⟩
    omega
  | succ n ih =>
    rw [shrinkSymbol]
    cases htext : Symbol.textOf (String.ofList (text.take (n + 1))) with
    | some s' =>
      simp only [Option.some.injEq, Prod.mk.injEq]
      constructor
      · rintro ⟨rfl, rfl⟩
        exact ⟨Nat.succ_pos n, Nat.le_refl _, htext, fun j hj hle => by omega⟩
      · rintro ⟨-, hle, hs, hlonger⟩
        -- A shorter symbol is ruled out by the one just found.
        rcases Nat.lt_or_ge k (n + 1) with hlt | hge
        · rw [hlonger (n + 1) hlt (Nat.le_refl _)] at htext
          cases htext
        · obtain rfl : k = n + 1 := Nat.le_antisymm hle hge
          rw [htext] at hs
          exact ⟨Option.some.inj hs, rfl⟩
    | none =>
      dsimp only
      rw [ih]
      constructor
      · rintro ⟨hpos, hle, hs, hlonger⟩
        refine ⟨hpos, Nat.le_succ_of_le hle, hs, fun j hj hle => ?_⟩
        rcases Nat.lt_or_ge j (n + 1) with hlt | hge
        · exact hlonger j hj (Nat.le_of_lt_succ hlt)
        · rwa [Nat.le_antisymm hle hge]
      · rintro ⟨hpos, hle, hs, hlonger⟩
        have hk : k ≠ n + 1 := by
          rintro rfl
          rw [htext] at hs
          cases hs
        exact ⟨hpos, by omega, hs, fun j hj hle => hlonger j hj (Nat.le_succ_of_le hle)⟩

/-- The characters of a symbol. -/
theorem isSymbol_of_textOf {slice : List Char} {s : Symbol}
    (h : Symbol.textOf (String.ofList slice) = some s) {c : Char} (hc : c ∈ slice) :
    Symbol.isSymbol c = true := by
  obtain ⟨entry, hentry, -⟩ := Option.map_eq_some_iff.mp h
  refine List.any_eq_true.mpr ⟨entry, List.mem_of_find?_eq_some hentry, ?_⟩
  have htext : entry.2 = String.ofList slice := by simpa using List.find?_some hentry
  rw [htext, String.toList_ofList]
  simpa using hc

/-- No symbol is empty. -/
theorem ne_nil_of_textOf {slice : List Char} {s : Symbol}
    (h : Symbol.textOf (String.ofList slice) = some s) : slice ≠ [] := by
  rintro rfl
  rw [show Symbol.textOf (String.ofList []) = none by decide] at h
  cases h

/-- A character of a symbol is one, unless it is a point. -/
theorem textOf_singleton {c : Char} (hc : Symbol.isSymbol c = true) :
    ∃ s, Symbol.textOf (String.ofList [c]) = some s := by
  have hall : (Symbol.texts.all fun entry => entry.2.toList.all fun c =>
      (Symbol.textOf (String.ofList [c])).isSome) = true := by decide
  exact Option.isSome_iff_exists.mp (Symbol.isSymbol_all hall hc)

/-- The longest symbol in front is scanned. -/
theorem scanSymbol_symbol {slice rest : List Char} {s : Symbol} (hstart : start ≤ z.chars.length)
    (hslice : Symbol.textOf (String.ofList slice) = some s)
    (hlongest : ∀ more, more ≠ [] → more <+: rest →
      Symbol.textOf (String.ofList (slice ++ more)) = none)
    (h : z.chars.drop start = slice ++ rest) :
    z.scanSymbol start = .ok ⟨String.ofList slice, .symbol s, start + slice.length⟩ := by
  -- The scanner first takes every symbol character that follows, then gives back what is too much.
  obtain ⟨more, rest, rfl, hmore, hrest⟩ := exists_run Symbol.isSymbol rest
  rw [← List.append_assoc] at h
  have hrun : ∀ c ∈ slice ++ more, Symbol.isSymbol c = true := by
    intro c hc
    rcases List.mem_append.mp hc with hc | hc
    · exact isSymbol_of_textOf hslice hc
    · exact hmore c hc
  have hstop : z.indexOfFirst start (fun c => !Symbol.isSymbol c) =
      start + (slice ++ more).length :=
    indexOfFirst_of_drop hstart h (fun c hc => by simp [hrun c hc])
      fun c hc => by simp [hrest c hc]
  have hshrink : shrinkSymbol (slice ++ more) (slice ++ more).length = some (s, slice.length) := by
    rw [shrinkSymbol_eq_some_iff, List.take_left]
    refine ⟨List.length_pos_iff.mpr (ne_nil_of_textOf hslice), by simp, hslice, fun j hj hle => ?_⟩
    rw [List.length_append] at hle
    rw [List.take_append, List.take_of_length_le (Nat.le_of_lt hj)]
    -- Every longer text is the slice with more characters, and no symbol by assumption.
    refine hlongest _ ?_ ( (List.take_prefix _ more).trans (List.prefix_append more rest))
    rw [← List.length_pos_iff, List.length_take]
    omega
  rw [scanSymbol, hstop, Nat.add_sub_cancel_left, h, List.take_left]
  simp only [hshrink]
  rw [List.append_assoc] at h
  rw [substring_of_drop h]

/-- A character that begins a symbol, but for the point, is scanned to the longest one. -/
theorem scanSymbol_scans [UnicodeTables] {c : Char} {cs : List Char}
    (h : z.chars.drop start = c :: cs) (hc : Symbol.isSymbol c = true) (hpoint : c ≠ '.') :
    ∃ slice rest t, c :: cs = slice ++ rest ∧ z.scanSymbol start = .ok t ∧
      Scans slice rest t.text t.tokenType ∧ t.endOffset = start + slice.length := by
  have hstart : start ≤ z.chars.length :=
    Nat.le_of_lt (List.getElem?_eq_some_iff.mp (getElem?_of_drop h)).1
  -- Some prefix is a symbol, so that there is a longest one.
  obtain ⟨slice, s, rest, hparts, hslice, hlongest⟩ : ∃ slice s rest, c :: cs = slice ++ rest ∧
      Symbol.textOf (String.ofList slice) = some s ∧ ∀ more, more ≠ [] → more <+: rest →
        Symbol.textOf (String.ofList (slice ++ more)) = none := by
    have hsome : ∀ n, 0 < n → ∃ s k, shrinkSymbol (c :: cs) n = some (s, k) := by
      intro n hn
      induction n with
      | zero => omega
      | succ n ih =>
        rw [shrinkSymbol]
        cases htext : Symbol.textOf (String.ofList ((c :: cs).take (n + 1))) with
        | some s => exact ⟨s, n + 1, rfl⟩
        | none =>
          rcases Nat.eq_zero_or_pos n with rfl | hpos
          · obtain ⟨s, hs⟩ := textOf_singleton hc
            rw [show (c :: cs).take 1 = [c] from rfl, hs] at htext
            cases htext
          · exact ih hpos
    obtain ⟨s, k, hshrink⟩ := hsome (c :: cs).length (Nat.succ_pos _)
    obtain ⟨-, hk, hs, hlonger⟩ := shrinkSymbol_eq_some_iff.mp hshrink
    refine ⟨(c :: cs).take k, s, (c :: cs).drop k, (List.take_append_drop k _).symm, hs,
      fun more hne hmore => ?_⟩
    obtain ⟨after, hafter⟩ := hmore
    have hlength := congrArg List.length hafter
    have hpos := List.length_pos_iff.mpr hne
    rw [List.length_append, List.length_drop] at hlength
    have htake : (c :: cs).take k ++ more = (c :: cs).take (k + more.length) := by
      rw [List.take_add, ← hafter, List.take_left]
    rw [htake]
    exact hlonger _ (by omega) (by omega)
  have hhead : slice.head? ≠ some '.' := by
    obtain ⟨d, ds, rfl⟩ := List.exists_cons_of_ne_nil (ne_nil_of_textOf hslice)
    rintro ⟨⟩
    exact hpoint (List.cons.inj hparts).1
  exact ⟨slice, rest, _, hparts,
    scanSymbol_symbol hstart hslice hlongest (h.trans hparts), .symbol hhead hslice hlongest, rfl⟩

/-! ## Strings -/

/-- A quote is doubled. -/
theorem escape_cons_self (q : Char) (text : List Char) :
    escape q (q :: text) = q :: q :: escape q text := by simp [escape]

/-- Another character is not. -/
theorem escape_cons_of_ne {q c : Char} (hc : c ≠ q) (text : List Char) :
    escape q (c :: text) = c :: escape q text := by simp [escape, hc]

/-- A literal is read up to the first quote that is not doubled. -/
theorem charsUntil_eq_some_iff {q : Char} {cs text : List Char} {n : ℕ} :
    charsUntil q cs = some (text, n) ↔
      ∃ rest, cs = escape q text ++ q :: rest ∧ rest.head? ≠ some q ∧
        n = (escape q text).length + 1 := by
  constructor
  · intro h
    -- The cases are those of the loop: the end of the text, a closing quote, a doubled quote and
    -- any other character.
    fun_induction charsUntil q cs generalizing text n with
    | case1 => cases h
    | case2 => cases h; exact ⟨[], rfl, by simp, rfl⟩
    | case3 => cases h
    | case4 cs ih =>
      obtain ⟨⟨text', n'⟩, hread, heq⟩ := Option.map_eq_some_iff.mp h
      cases heq
      obtain ⟨rest, rfl, hrest, rfl⟩ := ih hread
      refine ⟨rest, ?_, hrest, ?_⟩ <;> simp [escape_cons_self]
    | case5 c' cs hc' =>
      cases h
      exact ⟨c' :: cs, rfl, by simpa using hc', rfl⟩
    | case6 c c' cs hc ih =>
      obtain ⟨⟨text', n'⟩, hread, heq⟩ := Option.map_eq_some_iff.mp h
      cases heq
      obtain ⟨rest, hcs, hrest, rfl⟩ := ih hread
      refine ⟨rest, ?_, hrest, ?_⟩ <;> simp [escape_cons_of_ne hc, hcs]
  · rintro ⟨rest, rfl, hrest, rfl⟩
    induction text with
    | nil =>
      obtain _ | ⟨c, rest⟩ := rest
      · simp [charsUntil, escape]
      · have hc : c ≠ q := fun h => hrest (congrArg some h)
        simp [charsUntil, escape, hc]
    | cons c text ih =>
      by_cases hc : c = q
      · subst hc
        simp [escape_cons_self, charsUntil, ih]
      · rw [escape_cons_of_ne hc, List.cons_append]
        obtain ⟨c', cs, hcs⟩ : ∃ c' cs, escape q text ++ q :: rest = c' :: cs :=
          List.exists_cons_of_ne_nil (by simp)
        rw [hcs] at ih ⊢
        rw [charsUntil, if_neg hc, ih]
        rfl

/-- A quoted text whose quotes are doubled is scanned to the text. -/
theorem scanChars_string {q : Char} {text rest : List Char} (hend : rest.head? ≠ some q)
    (h : z.chars.drop start = (q :: (escape q text ++ [q])) ++ rest) :
    z.scanChars start q = .ok ⟨String.ofList text, .literal .string,
      start + (q :: (escape q text ++ [q])).length⟩ := by
  have hdrop : z.chars.drop (start + 1) = escape q text ++ q :: rest := by
    rw [← List.drop_drop, h]
    simp
  have hread := charsUntil_eq_some_iff.mpr ⟨rest, hdrop, hend, rfl⟩
  simp only [scanChars, hread, List.length_cons, List.length_append, List.length_nil]
  congr 2
  omega

/-- What is scanned behind a quote is a quoted text. -/
theorem scanChars_scans [UnicodeTables] {q : Char} {cs : List Char} {t : Token}
    (h : z.chars.drop start = q :: cs) (hq : Literal.isCharsStart q = true)
    (ht : z.scanChars start q = .ok t) :
    ∃ slice rest, q :: cs = slice ++ rest ∧ Scans slice rest t.text t.tokenType ∧
      t.endOffset = start + slice.length := by
  have hdrop : z.chars.drop (start + 1) = cs := by
    rw [← List.drop_drop, h, List.drop_one, List.tail_cons]
  unfold scanChars at ht
  rw [hdrop] at ht
  split at ht
  · rename_i text n hread
    cases ht
    obtain ⟨rest, rfl, hrest, rfl⟩ := charsUntil_eq_some_iff.mp hread
    refine ⟨q :: (escape q text ++ [q]), rest, by simp, .string hq hrest, ?_⟩
    simp only [List.length_cons, List.length_append, List.length_nil]
    omega
  · cases ht

/-! ## Identifiers -/

variable [UnicodeTables]

omit [UnicodeTables] in
/-- White space is skipped to its end. -/
theorem skipWhitespace_of_drop {space rest : List Char} (hstart : start ≤ z.chars.length)
    (h : z.chars.drop start = space ++ rest) (hspace : ∀ c ∈ space, Text.isWhitespace c = true)
    (hrest : ∀ c ∈ rest.head?, Text.isWhitespace c = false) :
    z.skipWhitespace start = start + space.length :=
  indexOfFirst_of_drop hstart h (fun c hc => by simp [hspace c hc])
    fun c hc => by simp [hrest c hc]

omit [UnicodeTables] in
/-- The look ahead behind an ambiguous word. -/
theorem lookahead_eq {rest : List Char} (hstart : start ≤ z.chars.length)
    (h : z.chars.drop start = rest) :
    (decide (z.skipWhitespace start + 2 ≤ z.chars.length) && Text.eqIgnoreAsciiCase
      (z.substring (z.skipWhitespace start) (z.skipWhitespace start + 2)) Keyword.«by».name) =
        beforeBy rest := by
  obtain ⟨space, after, hparts, hspace, hafter⟩ := exists_run Text.isWhitespace rest
  have hskip := skipWhitespace_of_drop hstart (h.trans hparts) hspace hafter
  have hdrop := drop_add_of_drop (h.trans hparts)
  have hlength : after.length = z.chars.length - (start + space.length) := by
    rw [← hdrop, List.length_drop]
  have hwhile : rest.dropWhile Text.isWhitespace = after := by
    rw [hparts, dropWhile_run hspace hafter]
  rw [beforeBy, hwhile, hskip, substring, hdrop, Nat.add_sub_cancel_left,
    show Keyword.«by».name = "BY" by decide]
  -- Two characters that spell BY are two characters that are there.
  cases heq : Text.eqIgnoreAsciiCase (String.ofList (after.take 2)) "BY" with
  | false => simp
  | true =>
    have hlist := congrArg List.length (of_decide_eq_true heq)
    -- The comparison is of two letters, so that many stand behind the space.
    rw [List.length_map, List.length_map, String.toList_ofList, List.length_take] at hlist
    have htwo : "BY".toList.length = 2 := by decide
    rw [htwo] at hlist
    have hle : start + space.length + 2 ≤ z.chars.length := by omega
    simp [hle]

/-- `ORDER` and `GROUP` are keywords, in any case. -/
theorem textOf_of_isAmbiguousIdentifier {text : String} (h : isAmbiguousIdentifier text = true) :
    ∃ k, Keyword.textOf text = some k ∧ (k = .order ∨ k = .group) := by
  have hletters : ∀ name ∈ ["ORDER", "GROUP"],
      name.toList.all (fun c => decide (c.toNat < 128) && decide (c.toUpper = c)) = true := by
    decide
  have hupper : ∀ name ∈ ["ORDER", "GROUP"], ∀ c ∈ name.toList, c.toNat < 128 ∧ c.toUpper = c := by
    intro name hname c hc
    simpa using List.all_eq_true.mp (hletters name hname) c hc
  rcases Bool.or_eq_true_iff.mp h with horder | hgroup
  · exact ⟨.order, keyword_textOf_eq horder (hupper _ (by decide)) (by decide), .inl rfl⟩
  · exact ⟨.group, keyword_textOf_eq hgroup (hupper _ (by decide)) (by decide), .inr rfl⟩

/-- `ORDER` and `GROUP` are what the characters behind them make of them. -/
theorem processAmbiguousIdentifier_eq {text : String} {rest : List Char}
    (hstart : start ≤ z.chars.length) (h : z.chars.drop start = rest)
    (htext : isAmbiguousIdentifier text = true) :
    z.processAmbiguousIdentifier start text = .ok (wordType text rest) := by
  obtain ⟨k, hk, -⟩ := textOf_of_isAmbiguousIdentifier htext
  have hlook := lookahead_eq hstart h
  unfold processAmbiguousIdentifier wordType
  dsimp only
  rw [hlook, htext, hk]
  cases beforeBy rest <;> rfl

/-- The longest word in front is scanned. -/
theorem scanIdentifier_word {c : Char} {cs rest : List Char}
    (hstart : UnicodeTables.isAlphabetic c = true)
    (hpart : ∀ d ∈ cs, Literal.isIdentifierPart d = true)
    (hend : ∀ d ∈ rest.head?, Literal.isIdentifierPart d = false)
    (h : z.chars.drop start = (c :: cs) ++ rest) :
    z.scanIdentifier start = .ok ⟨String.ofList (c :: cs),
      wordType (String.ofList (c :: cs)) rest, start + (c :: cs).length⟩ := by
  have hc := getElem?_of_drop h
  have hle : start ≤ z.chars.length := Nat.le_of_lt (List.getElem?_eq_some_iff.mp hc).1
  -- A quoted name starts with the quote, which is no letter.
  have hquote : ¬ c.toNat = 0x60 := by
    intro hquote
    rw [UnicodeTables.isAlphabetic_ascii c (by omega), toNat_eq_backQuote_iff.mp hquote] at hstart
    exact absurd hstart (by decide)
  have hparts : ∀ d ∈ c :: cs, Literal.isIdentifierPart d = true :=
    List.forall_mem_cons.mpr ⟨by simp [Literal.isIdentifierPart, hstart], hpart⟩
  have hstop : z.indexOfFirst start (fun ch => !Literal.isIdentifierPart ch) =
      start + (c :: cs).length :=
    indexOfFirst_of_drop hle h (fun d hd => by simp [hparts d hd]) fun d hd => by simp [hend d hd]
  have hbound : start + (c :: cs).length ≤ z.chars.length :=
    hstop ▸ z.indexOfFirst_le start _
  unfold scanIdentifier
  rw [hc, hstop]
  simp only [Option.any_some, hquote, decide_false, Bool.false_eq_true, if_false,
    substring_of_drop h]
  -- ORDER and GROUP are decided by what follows; any other word by the table of keywords.
  by_cases hambiguous : isAmbiguousIdentifier (String.ofList (c :: cs)) = true
  · rw [if_pos hambiguous, processAmbiguousIdentifier_eq hbound (drop_add_of_drop h) hambiguous]
    rfl
  · rw [if_neg hambiguous, wordType, eq_false_of_ne_true hambiguous]
    cases Keyword.textOf (String.ofList (c :: cs)) <;> rfl

/-- A text between back quotes is an identifier. -/
theorem scanIdentifier_backQuoted {text rest : List Char} (hquote : backQuote ∉ text)
    (h : z.chars.drop start = (backQuote :: (text ++ [backQuote])) ++ rest) :
    z.scanIdentifier start = .ok ⟨String.ofList text, .literal .identifier,
      start + (backQuote :: (text ++ [backQuote])).length⟩ := by
  have hdrop : z.chars.drop (start + 1) = text ++ (backQuote :: rest) := by
    rw [← List.drop_drop, h]
    simp
  -- No quote in the name, so the first one found is the one that ends it.
  have hnone : text.findIdx? (· = backQuote) = none :=
    List.findIdx?_eq_none_iff.mpr fun c hc => decide_eq_false fun heq => hquote (heq ▸ hc)
  have hquotes : (z.chars.drop (start + 1)).findIdx? (· = backQuote) = some text.length := by
    rw [hdrop, List.findIdx?_append, hnone]
    simp [List.findIdx?_cons]
  have hfind : (z.chars.drop (start + 1)).findIdx? (· = Char.ofNat 0x60) = some text.length :=
    hquotes
  have hsubstring := substring_of_drop hdrop
  unfold scanIdentifier offsetUntilTerminatedChar
  rw [getElem?_of_drop h, hfind]
  simp only [Option.any_some, toNat_eq_backQuote_iff, decide_true, if_true, Outcome.ok_bind,
    hsubstring, Outcome.pure_eq_ok, List.length_cons, List.length_append, List.length_nil]
  congr 2
  omega

/-- What is scanned from the beginning of an identifier is a word or a text between back quotes. -/
theorem scanIdentifier_scans {c : Char} {cs : List Char} {t : Token}
    (h : z.chars.drop start = c :: cs) (hc : Literal.isIdentifierStart c = true)
    (ht : z.scanIdentifier start = .ok t) :
    ∃ slice rest, c :: cs = slice ++ rest ∧ Scans slice rest t.text t.tokenType ∧
      t.endOffset = start + slice.length := by
  -- The first character decides: a quoted name, or a word.
  by_cases hquote : c = backQuote
  · subst hquote
    obtain ⟨text, rest, hparts, htext, hrest⟩ := exists_run (fun d => d ≠ backQuote) cs
    have hnot : backQuote ∉ text := fun hmem => by simpa using htext _ hmem
    obtain _ | ⟨d, rest⟩ := rest
    · -- no end quote
      have hdrop : z.chars.drop (start + 1) = cs := by
        rw [← List.drop_drop, h, List.drop_one, List.tail_cons]
      have hfind : (z.chars.drop (start + 1)).findIdx? (· = Char.ofNat 0x60) = none := by
        rw [hdrop, List.findIdx?_eq_none_iff, hparts, List.append_nil]
        exact fun d hd => decide_eq_false fun heq : d = backQuote => hnot (heq ▸ hd)
      unfold scanIdentifier offsetUntilTerminatedChar at ht
      rw [getElem?_of_drop h, hfind] at ht
      simp [toNat_eq_backQuote_iff] at ht
    · obtain rfl : d = backQuote := by simpa using hrest d rfl
      have hslice : backQuote :: cs = (backQuote :: (text ++ [backQuote])) ++ rest := by
        rw [hparts]
        simp
      rw [scanIdentifier_backQuoted hnot (h.trans hslice)] at ht
      cases ht
      exact ⟨_, _, hslice, .backQuoted hnot, rfl⟩
  · have halpha : UnicodeTables.isAlphabetic c = true := by
      have hne : ¬ c.toNat = 0x60 := fun h => hquote (toNat_eq_backQuote_iff.mp h)
      simpa [Literal.isIdentifierStart, hne] using hc
    obtain ⟨ds, rest, rfl, hds, hrest⟩ := exists_run Literal.isIdentifierPart cs
    rw [scanIdentifier_word halpha hds hrest h] at ht
    cases ht
    exact ⟨c :: ds, rest, rfl, .word halpha hds hrest, rfl⟩

/-! ## The classes of characters are apart -/

/-- An ASCII character that is no letter begins no identifier. -/
theorem isIdentifierStart_of_ascii {c : Char} (hascii : c.toNat < 128) (hletter : c.isAlpha = false)
    (hquote : c ≠ backQuote) : Literal.isIdentifierStart c = false := by
  have hne : ¬ c.toNat = 0x60 := fun h => hquote (toNat_eq_backQuote_iff.mp h)
  simp [Literal.isIdentifierStart, UnicodeTables.isAlphabetic_ascii c hascii, hletter, hne]

/-- What begins a number begins no identifier. -/
theorem isIdentifierStart_of_isNumberStart {c : Char} (hc : Literal.isNumberStart c = true) :
    Literal.isIdentifierStart c = false := by
  have hletter : c.isAlpha = (decide (65 ≤ c.toNat ∧ c.toNat ≤ 90) ||
      (decide (97 ≤ c.toNat) && decide (c.toNat ≤ 122))) := rfl
  have hcase : (48 ≤ c.toNat ∧ c.toNat ≤ 57) ∨ c = '.' := by
    simpa [Literal.isNumberStart, isDigit_toNat] using hc
  rcases hcase with hdigit | rfl
  · refine isIdentifierStart_of_ascii (by omega) ?_ ?_
    · rw [hletter]
      simp only [Bool.or_eq_false_iff, Bool.and_eq_false_iff, decide_eq_false_iff_not]
      omega
    · rintro rfl
      exact absurd hdigit (by decide)
  · exact isIdentifierStart_of_ascii (by decide) (by decide) (by decide)

/-- What begins a symbol, but for the point, begins nothing else. -/
theorem classes_of_isSymbol {c : Char} (hc : Symbol.isSymbol c = true) (hpoint : c ≠ '.') :
    Literal.isIdentifierStart c = false ∧ Literal.isNumberStart c = false := by
  have hall : (Symbol.texts.all fun entry => entry.2.toList.all fun c =>
      decide (c.toNat < 128) && !c.isAlpha && decide (c ≠ backQuote) && !c.isDigit) = true := by
    decide
  have hplain := Symbol.isSymbol_all hall hc
  simp only [Bool.and_eq_true, decide_eq_true_eq, Bool.not_eq_true', ne_eq] at hplain
  obtain ⟨⟨⟨hascii, hletter⟩, hquote⟩, hdigit⟩ := hplain
  exact ⟨isIdentifierStart_of_ascii hascii hletter hquote,
    by simp [Literal.isNumberStart, hdigit, hpoint]⟩

omit [UnicodeTables] in
/-- The quotes are the single and the double one. -/
theorem isCharsStart_iff {q : Char} : Literal.isCharsStart q = true ↔ q = Char.ofNat 0x27 ∨ q = '"' := by
  have hquote : q.toNat = 0x27 ↔ q = Char.ofNat 0x27 :=
    ⟨fun h => Text.char_eq_of_toNat h, fun h => h ▸ rfl⟩
  simp [Literal.isCharsStart, hquote]

/-- A quote begins nothing but a quoted text. -/
theorem classes_of_isCharsStart {q : Char} (hq : Literal.isCharsStart q = true) :
    Literal.isIdentifierStart q = false ∧ Literal.isNumberStart q = false ∧
      Symbol.isSymbol q = false := by
  rcases isCharsStart_iff.mp hq with rfl | rfl <;>
    exact ⟨isIdentifierStart_of_ascii (by decide) (by decide) (by decide), by decide, by decide⟩

/-! ## The next token -/

/-- A token has characters. -/
theorem ne_nil_of_scans {slice rest : List Char} {text : String} {tokenType : TokenType}
    (h : Scans slice rest text tokenType) : slice ≠ [] := by
  cases h with
  | long hne => exact hne
  | double => simp
  | symbol _ hslice => exact ne_nil_of_textOf hslice
  | _ => simp

/-- The next token is the one that is scanned behind the white space. -/
theorem nextToken_of_drop {offset : ℕ} {space slice rest : List Char} {text : String}
    {tokenType : TokenType} (hoffset : offset ≤ z.chars.length)
    (h : z.chars.drop offset = space ++ (slice ++ rest))
    (hspace : ∀ c ∈ space, Text.isWhitespace c = true)
    (hhead : ∀ c ∈ slice.head?, Text.isWhitespace c = false)
    (hscan : Scans slice rest text tokenType) :
    z.nextToken offset = .ok (some ⟨text, tokenType, offset + space.length + slice.length⟩) := by
  obtain ⟨c, cs, rfl⟩ := List.exists_cons_of_ne_nil (ne_nil_of_scans hscan)
  have hskip : z.skipWhitespace offset = offset + space.length :=
    skipWhitespace_of_drop hoffset h hspace hhead
  have hdrop := drop_add_of_drop h
  have hc := getElem?_of_drop hdrop
  have hstart : offset + space.length ≤ z.chars.length :=
    Nat.le_of_lt (List.getElem?_eq_some_iff.mp hc).1
  unfold nextToken
  simp only [hskip, hc]
  -- The scanner goes through its classes in the source's order; a lexeme falls into the first that
  -- its first character is in.
  generalize hslice : c :: cs = slice at hscan hdrop
  cases hscan with
  | @word c' cs' _ halpha hpart hend =>
    obtain ⟨rfl, rfl⟩ := List.cons.inj hslice
    rw [if_pos (by simp [Literal.isIdentifierStart, halpha]),
      scanIdentifier_word halpha hpart hend hdrop]
    rfl
  | backQuoted hquote =>
    obtain ⟨rfl, rfl⟩ := List.cons.inj hslice
    rw [if_pos (by simp [Literal.isIdentifierStart, toNat_eq_backQuote_iff]),
      scanIdentifier_backQuoted hquote hdrop]
    rfl
  | long hne hdigits hend =>
    have hnumber : Literal.isNumberStart c = true := by
      simp [Literal.isNumberStart, hdigits c (hslice ▸ List.mem_cons_self)]
    rw [isIdentifierStart_of_isNumberStart hnumber, if_neg Bool.false_ne_true, if_pos hnumber,
      scanNumber_long hstart hne hdigits hend hdrop]
  | @double digits decimals _ hdigits hdecimals hend =>
    have hnumber : Literal.isNumberStart c = true := by
      obtain _ | ⟨d, ds⟩ := digits
      · obtain ⟨rfl, -⟩ := List.cons.inj hslice
        rfl
      · obtain ⟨rfl, -⟩ := List.cons.inj hslice
        simp [Literal.isNumberStart, hdigits c List.mem_cons_self]
    rw [isIdentifierStart_of_isNumberStart hnumber, if_neg Bool.false_ne_true, if_pos hnumber,
      scanNumber_double hstart hdigits hdecimals hend hdrop]
  | symbol hpoint htext hlongest =>
    subst hslice
    have hsymbol : Symbol.isSymbol c = true := isSymbol_of_textOf htext List.mem_cons_self
    obtain ⟨hident, hnumber⟩ := classes_of_isSymbol hsymbol fun heq => hpoint (congrArg some heq)
    rw [hident, if_neg Bool.false_ne_true, hnumber, if_neg Bool.false_ne_true, if_pos hsymbol,
      scanSymbol_symbol hstart htext hlongest hdrop]
    rfl
  -- A quote starts neither a name, nor a number, nor a symbol.
  | string hq hend =>
    obtain ⟨rfl, rfl⟩ := List.cons.inj hslice
    obtain ⟨hident, hnumber, hsymbol⟩ := classes_of_isCharsStart hq
    rw [hident, if_neg Bool.false_ne_true, hnumber, if_neg Bool.false_ne_true, hsymbol,
      if_neg Bool.false_ne_true, if_pos hq, scanChars_string hend hdrop]
    rfl

/-- Behind the last token there is only white space. -/
theorem nextToken_done {offset : ℕ} (hoffset : offset ≤ z.chars.length)
    (h : ∀ c ∈ z.chars.drop offset, Text.isWhitespace c = true) : z.nextToken offset = .ok none := by
  have hskip : z.skipWhitespace offset = offset + (z.chars.drop offset).length :=
    skipWhitespace_of_drop hoffset (List.append_nil _).symm h fun c hc => by cases hc
  have hend : z.chars[z.skipWhitespace offset]? = none := by
    rw [hskip, List.length_drop, List.getElem?_eq_none_iff]
    omega
  unfold nextToken
  simp only [hend]

/-- What the next token is, and where. -/
theorem nextToken_scans {offset : ℕ} {next : Option Token} (hoffset : offset ≤ z.chars.length)
    (h : z.nextToken offset = .ok next) :
    (next = none ∧ ∀ c ∈ z.chars.drop offset, Text.isWhitespace c = true) ∨
    ∃ space slice rest t, next = some t ∧ z.chars.drop offset = space ++ (slice ++ rest) ∧
      (∀ c ∈ space, Text.isWhitespace c = true) ∧
      (∀ c ∈ slice.head?, Text.isWhitespace c = false) ∧
      Scans slice rest t.text t.tokenType ∧
      t.endOffset = offset + space.length + slice.length := by
  obtain ⟨space, after, hparts, hspace, hafter⟩ := exists_run Text.isWhitespace (z.chars.drop offset)
  obtain _ | ⟨c, cs⟩ := after
  · rw [List.append_nil] at hparts
    rw [nextToken_done hoffset (hparts ▸ hspace)] at h
    cases h
    exact .inl ⟨rfl, hparts ▸ hspace⟩
  · right
    have hskip : z.skipWhitespace offset = offset + space.length :=
      skipWhitespace_of_drop hoffset hparts hspace hafter
    have hdrop := drop_add_of_drop hparts
    have hc := getElem?_of_drop hdrop
    -- A scanned slice of the rest is one of the text, with its white space.
    have hslice : ∀ t : Token, (∃ slice rest, c :: cs = slice ++ rest ∧
        Scans slice rest t.text t.tokenType ∧
        t.endOffset = offset + space.length + slice.length) → next = some t →
        ∃ space slice rest t, next = some t ∧ z.chars.drop offset = space ++ (slice ++ rest) ∧
          (∀ c ∈ space, Text.isWhitespace c = true) ∧
          (∀ c ∈ slice.head?, Text.isWhitespace c = false) ∧
          Scans slice rest t.text t.tokenType ∧
          t.endOffset = offset + space.length + slice.length := by
      rintro t ⟨slice, rest, hcs, hscan, hend⟩ hnext
      refine ⟨space, slice, rest, t, hnext, hcs ▸ hparts, hspace, fun d hd => ?_, hscan, hend⟩
      obtain ⟨e, es, rfl⟩ := List.exists_cons_of_ne_nil (ne_nil_of_scans hscan)
      obtain rfl : e = d := Option.some.inj hd
      obtain ⟨rfl, -⟩ := List.cons.inj hcs
      exact hafter _ rfl
    unfold nextToken at h
    simp only [hskip, hc] at h
    split at h
    · rename_i hident
      obtain ⟨t, ht, rfl⟩ := Outcome.map_eq_ok_iff.mp h
      exact hslice t (scanIdentifier_scans hdrop hident ht) rfl
    · split at h
      · rename_i hnumber
        cases h
        exact hslice _ (scanNumber_scans hdrop hnumber) rfl
      · rename_i hnumber
        split at h
        · rename_i hsymbol
          have hpoint : c ≠ '.' := fun heq => hnumber (by rw [heq]; rfl)
          obtain ⟨slice, rest, t, hcs, ht, hscan, hend⟩ :=
            scanSymbol_scans hdrop hsymbol hpoint
          rw [ht] at h
          cases h
          exact hslice t ⟨slice, rest, hcs, hscan, hend⟩ rfl
        · split at h
          · rename_i hq
            obtain ⟨t, ht, rfl⟩ := Outcome.map_eq_ok_iff.mp h
            exact hslice t (scanChars_scans hdrop hq ht) rfl
          · cases h

/-- The tokens from an offset on are those of the rest of the text. -/
theorem tokenizeFrom_eq_ok_iff {fuel offset : ℕ} {tokens : List Token}
    (hoffset : offset ≤ z.chars.length) (hfuel : z.chars.length - offset < fuel) :
    z.tokenizeFrom fuel offset = .ok tokens ↔ Lexes offset (z.chars.drop offset) tokens := by
  induction fuel generalizing offset tokens with
  | zero => omega
  | succ fuel ih =>
    rw [tokenizeFrom, Outcome.bind_eq_ok_iff]
    have hbehind : ∀ {space slice rest : List Char} {stop : ℕ},
        z.chars.drop offset = space ++ (slice ++ rest) → slice ≠ [] →
        stop = offset + space.length + slice.length →
        stop ≤ z.chars.length ∧ z.chars.length - stop < fuel ∧ z.chars.drop stop = rest := by
      intro space slice rest stop hparts hne hstop
      have hdrop := drop_add_of_drop (drop_add_of_drop hparts)
      have hlength := congrArg List.length hparts
      have hpos := List.length_pos_iff.mpr hne
      rw [List.length_drop, List.length_append, List.length_append] at hlength
      exact ⟨by omega, by omega, hstop ▸ hdrop⟩
    constructor
    · rintro ⟨next, hnext, h⟩
      rcases nextToken_scans hoffset hnext with
        ⟨rfl, hspace⟩ | ⟨space, slice, rest, t, rfl, hparts, hspace, hhead, hscan, hend⟩
      · cases h
        exact .done hspace
      · obtain ⟨ts, hts, rfl⟩ := Outcome.bind_pure_eq_ok_iff.mp h
        obtain ⟨hle, hlt, hrest⟩ := hbehind hparts (ne_nil_of_scans hscan) hend
        have hlexes := (ih hle hlt).mp hts
        rw [hrest] at hlexes
        rw [hparts]
        exact .token hspace hhead hscan hend hlexes
    · intro h
      generalize hcs : z.chars.drop offset = cs at h
      cases h with
      | done hspace => exact ⟨none, nextToken_done hoffset (hcs ▸ hspace), rfl⟩
      | @token _ space slice rest t ts hspace hhead hscan hend hrest =>
        obtain ⟨hle, hlt, hdrop⟩ := hbehind hcs (ne_nil_of_scans hscan) hend
        refine ⟨some t, ?_, Outcome.bind_pure_eq_ok_iff.mpr
          ⟨ts, (ih hle hlt).mpr (hdrop ▸ hrest), rfl⟩⟩
        rw [nextToken_of_drop hoffset hcs hspace hhead hscan, ← hend]

end SqlTokenizer

/-- A text is tokenized as the grammar says. -/
theorem tokenize_eq_ok_iff [UnicodeTables] {sql : String} {tokens : List Token} :
    tokenize sql = .ok tokens ↔ Lexes 0 sql.toList tokens :=
  SqlTokenizer.tokenizeFrom_eq_ok_iff (z := ⟨sql.toList⟩) (Nat.zero_le _) (Nat.lt_succ_self _)

end RQuery
