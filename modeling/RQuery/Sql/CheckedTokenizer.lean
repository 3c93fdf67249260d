import RQuery.Sql.LexicalGrammar

/-!
# The tokenizer with its panics

`SqlTokenizer` as it is run: every index and slice is checked, `end -= 1` can underflow, and the loops
are loops over an offset, with a bound on their rounds. No check fails and no bound is used up, so
that it returns what the tokenizer does (`Checked.tokenize_eq`). What it panics with is one of three
documented errors, and the tokens that it returns lie end to end in the text with white space between
them (`tokenize_safe`).
-/

namespace RQuery

namespace SqlTokenizer

namespace Checked

/-! ## The code -/

/-- `chars[start..end]` as a string. -/
def substring (z : SqlTokenizer) (start stop : ℕ) : Result String :=
  if stop < start then .error (.indexOutOfBounds start stop)
  else if z.chars.length < stop then .error (.indexOutOfBounds stop z.chars.length)
  else .ok (String.ofList ((z.chars.drop start).take (stop - start)))

/-- The loop of `index_of_first`. -/
def indexOfFirstLoop (z : SqlTokenizer) (predicate : Char → Bool) : ℕ → ℕ → Result ℕ
  | 0, _ => .error (.other "out of fuel")
  | fuel + 1, idx =>
    if idx < z.chars.length then do
      if predicate (← index z.chars idx) then return idx
      else indexOfFirstLoop z predicate fuel (idx + 1)
    else
      return z.chars.length

/-- `index_of_first`. -/
def indexOfFirst (z : SqlTokenizer) (start : ℕ) (predicate : Char → Bool) : Result ℕ :=
  indexOfFirstLoop z predicate (z.chars.length + 1) start

/-- `skip_whitespace`. -/
def skipWhitespace (z : SqlTokenizer) (start : ℕ) : Result ℕ :=
  indexOfFirst z start fun ch => !Text.isWhitespace ch

/-- `scan_number`. -/
def scanNumber (z : SqlTokenizer) (start : ℕ) : Result Token := do
  let first ← index z.chars start
  let stop ← indexOfFirst z (if first = '-' then start + 1 else start) fun ch => !ch.isDigit
  if stop = z.chars.length then
    return ⟨← substring z start stop, .literal .long, stop⟩
  else do
    let point ← index z.chars stop
    if point = '.' then do
      let stop ← indexOfFirst z (stop + 1) fun ch => !ch.isDigit
      return ⟨← substring z start stop, .literal .double, stop⟩
    else
      return ⟨← substring z start stop, .literal .long, stop⟩

/-- `offset_until_terminated_char`. -/
def offsetUntilTerminatedChar (z : SqlTokenizer) (terminated : Char) (start : ℕ) : Result ℕ :=
  if z.chars.length < start then .error (.indexOutOfBounds start z.chars.length)
  else
    match (z.chars.drop start).findIdx? (· = terminated) with
    | some pos => .ok (start + pos)
    | none => .error (.other s!"Must contain {terminated} in remain sql[{start} .. end]")

/-- The loop of `scan_symbol`, which gives up a character in every round. -/
def shrinkLoop (z : SqlTokenizer) (start : ℕ) : ℕ → ℕ → Result Token
  | 0, _ => .error (.other "out of fuel")
  | fuel + 1, stop => do
    let text ← substring z start stop
    match Symbol.textOf text with
    | some symbol => return ⟨text, .symbol symbol, stop⟩
    | none => if stop = 0 then throw .overflow else shrinkLoop z start fuel (stop - 1)

/-- `scan_symbol`. -/
def scanSymbol (z : SqlTokenizer) (start : ℕ) : Result Token := do
  let stop ← indexOfFirst z start fun ch => !Symbol.isSymbol ch
  shrinkLoop z start (z.chars.length + 1) stop

/-- The loop of `scan_chars`, with the text read so far. -/
def scanCharsLoop (z : SqlTokenizer) (start : ℕ) (terminated : Char) :
    ℕ → ℕ → List Char → Result Token
  | 0, _, _ => .error (.other "out of fuel")
  | fuel + 1, i, builder =>
    if i < z.chars.length then do
      let ch ← index z.chars i
      if ch = terminated then
        if i + 1 < z.chars.length then do
          if (← index z.chars (i + 1)) = terminated then
            scanCharsLoop z start terminated fuel (i + 2) (builder ++ [terminated])
          else
            return ⟨String.ofList builder, .literal .string, i + 1⟩
        else
          return ⟨String.ofList builder, .literal .string, i + 1⟩
      else
        scanCharsLoop z start terminated fuel (i + 1) (builder ++ [ch])
    else
      throw (.other s!"Unterminated string starting at position {start}")

/-- `scan_chars`. -/
def scanChars (z : SqlTokenizer) (start : ℕ) (terminated : Char) : Result Token :=
  scanCharsLoop z start terminated (z.chars.length + 1) (start + 1) []

variable [UnicodeTables]

/-- `process_ambiguous_identifier`. -/
def processAmbiguousIdentifier (z : SqlTokenizer) (start : ℕ) (text : String) :
    Result TokenType := do
  let skip ← skipWhitespace z start
  if skip + 2 ≤ z.chars.length then do
    if Text.eqIgnoreAsciiCase (← substring z skip (skip + 2)) Keyword.«by».name then
      match Keyword.textOf text with
      | some keyword => return .keyword keyword
      | none => throw (.other "ambiguous identifier must be a keyword")
    else
      return .literal .identifier
  else
    return .literal .identifier

/-- `scan_identifier`. -/
def scanIdentifier (z : SqlTokenizer) (start : ℕ) : Result Token := do
  let first ← index z.chars start
  if first.toNat = 0x60 then do
    let stop ← offsetUntilTerminatedChar z (Char.ofNat 0x60) (start + 1)
    return ⟨← substring z (start + 1) stop, .literal .identifier, stop + 1⟩
  else do
    let stop ← indexOfFirst z start fun ch => !Literal.isIdentifierPart ch
    let text ← substring z start stop
    if isAmbiguousIdentifier text then
      return ⟨text, ← processAmbiguousIdentifier z stop text, stop⟩
    else
      match Keyword.textOf text with
      | some keyword => return ⟨text, .keyword keyword, stop⟩
      | none => return ⟨text, .literal .identifier, stop⟩

/-- `next_token`. -/
def nextToken (z : SqlTokenizer) (offset : ℕ) : Result (Option Token) := do
  let offset ← skipWhitespace z offset
  if z.chars.length ≤ offset then
    return none
  else do
    let ch ← index z.chars offset
    if Literal.isIdentifierStart ch then some <$> scanIdentifier z offset
    else if Literal.isNumberStart ch then some <$> scanNumber z offset
    else if Symbol.isSymbol ch then some <$> scanSymbol z offset
    else if Literal.isCharsStart ch then some <$> scanChars z offset ch
    else throw (.other s!"Unexpected character '{ch}' at position {offset}")

/-- The loop of `tokenize`. -/
def tokenizeFrom (z : SqlTokenizer) : ℕ → ℕ → Result (List Token)
  | 0, _ => .error (.other "out of fuel")
  | fuel + 1, offset => do
    match ← nextToken z offset with
    | none => return []
    | some token => return token :: (← tokenizeFrom z fuel token.endOffset)

/-- `tokenize`. -/
def tokenize (sql : String) : Result (List Token) :=
  tokenizeFrom ⟨sql.toList⟩ (sql.toList.length + 1) 0

/-! ## No check fails -/

section

omit [UnicodeTables]

variable (z : SqlTokenizer)

/-- A substring within the text is cut without a panic. -/
theorem substring_eq {start stop : ℕ} (hle : start ≤ stop) (hstop : stop ≤ z.chars.length) :
    substring z start stop = .ok (z.substring start stop) := by
  rw [substring, if_neg (Nat.not_lt.mpr hle), if_neg (Nat.not_lt.mpr hstop)]
  rfl

/-- A character of the text is indexed without a panic. -/
theorem index_eq {i : ℕ} {c : Char} (h : z.chars[i]? = some c) : index z.chars i = .ok c :=
  index_eq_ok_iff.mpr h

/-- The search loop indexes within the text. -/
theorem indexOfFirstLoop_eq (predicate : Char → Bool) {fuel start : ℕ}
    (hfuel : z.chars.length - start < fuel) :
    indexOfFirstLoop z predicate fuel start = .ok (z.indexOfFirst start predicate) := by
  induction fuel generalizing start with
  | zero => omega
  | succ fuel ih =>
    rw [indexOfFirstLoop]
    -- The loop indexes the character at its position, which is there.
    split
    · rename_i hlt
      have hdrop := List.drop_eq_getElem_cons hlt
      rw [index_of_lt hlt, Outcome.ok_bind]
      by_cases hp : predicate z.chars[start] = true
      · have hfound : z.indexOfFirst start predicate = start + [].length :=
          indexOfFirst_of_drop (Nat.le_of_lt hlt) (hdrop.trans (List.nil_append _).symm) (by simp)
            fun c hc => by cases hc; exact hp
        rw [if_pos hp, hfound]
        rfl
      · rw [if_neg hp, ih (by omega)]
        congr 1
        unfold SqlTokenizer.indexOfFirst
        rw [hdrop, List.findIdx?_cons, if_neg hp]
        cases (z.chars.drop (start + 1)).findIdx? predicate with
        | none => rfl
        | some k =>
          simp only [Option.map_some]
          omega
    -- At the end of the text the loop stops where the search does.
    · rename_i hge
      unfold SqlTokenizer.indexOfFirst
      rw [List.drop_eq_nil_of_le (Nat.le_of_not_lt hge)]
      rfl

/-- So does the search. -/
theorem indexOfFirst_eq (start : ℕ) (predicate : Char → Bool) :
    indexOfFirst z start predicate = .ok (z.indexOfFirst start predicate) :=
  indexOfFirstLoop_eq z predicate (by omega)

/-- So does skipping white space. -/
theorem skipWhitespace_eq (start : ℕ) : skipWhitespace z start = .ok (z.skipWhitespace start) :=
  indexOfFirst_eq z start _

/-- So does scanning a number. -/
theorem scanNumber_eq {start : ℕ} {c : Char} (hc : z.chars[start]? = some c) :
    scanNumber z start = .ok (z.scanNumber start) := by
  have hlt := (List.getElem?_eq_some_iff.mp hc).1
  have hminus : (z.chars[start]? = some '-') = (c = '-') := by rw [hc, Option.some.injEq]
  unfold scanNumber SqlTokenizer.scanNumber
  simp only [index_eq z hc, Outcome.ok_bind, indexOfFirst_eq, hminus]
  generalize hfrom : (if c = '-' then start + 1 else start) = digits
  have hdigits : start ≤ digits ∧ digits ≤ z.chars.length := by
    subst hfrom
    split <;> omega
  have hle := z.le_indexOfFirst (fun ch => !ch.isDigit) hdigits.2
  have hbound := z.indexOfFirst_le digits fun ch => !ch.isDigit
  generalize z.indexOfFirst digits (fun ch => !ch.isDigit) = stop at hle hbound ⊢
  have hlong := substring_eq z (Nat.le_trans hdigits.1 hle) hbound
  by_cases hend : stop = z.chars.length
  · have hpoint : z.chars[stop]? ≠ some '.' := by simp [hend]
    simp only [if_pos hend, if_neg hpoint, hlong, Outcome.ok_bind, Outcome.pure_eq_ok]
  · have hstop : stop < z.chars.length := by omega
    have hget : (z.chars[stop]? = some '.') = (z.chars[stop] = '.') := by
      rw [List.getElem?_eq_getElem hstop, Option.some.injEq]
    rw [if_neg hend]
    simp only [index_of_lt hstop, Outcome.ok_bind, hget]
    split
    · have hle' := z.le_indexOfFirst (fun ch => !ch.isDigit) (Nat.succ_le_of_lt hstop)
      have hdouble := substring_eq z (Nat.le_trans (by omega : start ≤ stop + 1) hle')
        (z.indexOfFirst_le (stop + 1) fun ch => !ch.isDigit)
      simp only [hdouble, Outcome.ok_bind, Outcome.pure_eq_ok]
    · simp only [hlong, Outcome.ok_bind, Outcome.pure_eq_ok]

/-- The checked search for a closing character fails only where the search does. -/
theorem offsetUntilTerminatedChar_eq (terminated : Char) {start : ℕ}
    (hstart : start ≤ z.chars.length) :
    offsetUntilTerminatedChar z terminated start =
      z.offsetUntilTerminatedChar terminated start := by
  rw [offsetUntilTerminatedChar, if_neg (Nat.not_lt.mpr hstart)]
  rfl

/-- The rounds of the loop are those of the model, and one of them finds a symbol. -/
theorem shrinkLoop_eq {start n k fuel : ℕ} {s : Symbol} {text : List Char}
    (hbound : start + n ≤ z.chars.length) (htext : ∀ j ≤ n, text.take j = (z.chars.drop start).take j)
    (hfuel : n < fuel) (h : shrinkSymbol text n = some (s, k)) :
    shrinkLoop z start fuel (start + n) =
      .ok ⟨z.substring start (start + k), .symbol s, start + k⟩ := by
  -- The loop shrinks the slice exactly as the search for the longest symbol does.
  induction n generalizing fuel with
  | zero => cases h
  | succ n ih =>
    obtain _ | fuel := fuel
    · omega
    have hsubstring : z.substring start (start + (n + 1)) = String.ofList (text.take (n + 1)) := by
      rw [SqlTokenizer.substring, Nat.add_sub_cancel_left, htext _ (Nat.le_refl _)]
    rw [shrinkLoop, substring_eq z (Nat.le_add_right _ _) hbound, Outcome.ok_bind]
    rw [shrinkSymbol, ← hsubstring] at h
    cases hs : Symbol.textOf (z.substring start (start + (n + 1))) with
    | some s' =>
      rw [hs] at h
      cases h
      rfl
    | none =>
      rw [hs] at h
      -- The source checks that the end is not zero before it steps back.
      have hne : start + (n + 1) ≠ 0 := by omega
      simp only [if_neg hne]
      exact ih (by omega) (fun j hj => htext j (Nat.le_succ_of_le hj)) (by omega) h

/-- Scanning a symbol adds no panic where the text has a character. -/
theorem scanSymbol_eq {start : ℕ} {c : Char} {cs : List Char} (h : z.chars.drop start = c :: cs)
    (hc : Symbol.isSymbol c = true) (hpoint : c ≠ '.') [UnicodeTables] :
    scanSymbol z start = z.scanSymbol start := by
  obtain ⟨slice, rest, t, -, ht, -⟩ := scanSymbol_scans h hc hpoint
  have hlt := (List.getElem?_eq_some_iff.mp (getElem?_of_drop h)).1
  rw [scanSymbol, indexOfFirst_eq, Outcome.ok_bind]
  unfold SqlTokenizer.scanSymbol at ht ⊢
  dsimp only at ht ⊢
  have hle := z.le_indexOfFirst (fun ch => !Symbol.isSymbol ch) (Nat.le_of_lt hlt)
  have hbound := z.indexOfFirst_le start fun ch => !Symbol.isSymbol ch
  generalize z.indexOfFirst start (fun ch => !Symbol.isSymbol ch) = stop at hle hbound ht ⊢
  -- A symbol is found by assumption, so the loop finds it too.
  split at ht
  · rename_i s n hn
    have hloop : shrinkLoop z start (z.chars.length + 1) (start + (stop - start)) =
        .ok ⟨z.substring start (start + n), .symbol s, start + n⟩ :=
      shrinkLoop_eq z (by omega) (fun j hj => by rw [List.take_take, Nat.min_eq_left hj])
        (by omega) hn
    rwa [Nat.add_sub_cancel' hle] at hloop
  · cases ht

/-- The loop reads what is left of a literal. -/
theorem scanCharsLoop_eq (start : ℕ) (q : Char) {fuel i : ℕ} (builder : List Char)
    (hfuel : z.chars.length - i < fuel) :
    scanCharsLoop z start q fuel i builder =
      match charsUntil q (z.chars.drop i) with
      | some (text, n) => .ok ⟨String.ofList (builder ++ text), .literal .string, i + n⟩
      | none => .error (.other s!"Unterminated string starting at position {start}") := by
  induction fuel generalizing i builder with
  | zero => omega
  | succ fuel ih =>
    rw [scanCharsLoop]
    by_cases hi : i < z.chars.length
    · have hdrop := List.drop_eq_getElem_cons hi
      rw [if_pos hi, index_of_lt hi, Outcome.ok_bind, hdrop]
      by_cases hnext : i + 1 < z.chars.length
      · have hdrop' := List.drop_eq_getElem_cons hnext
        rw [hdrop', charsUntil]
        by_cases hq : z.chars[i] = q
        · rw [if_pos hq, if_pos hq, if_pos hnext, index_of_lt hnext, Outcome.ok_bind]
          by_cases hdouble : z.chars[i + 1] = q
          · rw [if_pos hdouble, if_pos hdouble, ih (builder ++ [q]) (by omega)]
            cases charsUntil q (z.chars.drop (i + 1 + 1)) with
            | none => rfl
            | some r =>
              simp only [Option.map_some, List.append_assoc, List.singleton_append]
              congr 2
              omega
          · rw [if_neg hdouble, if_neg hdouble]
            simp
        · rw [if_neg hq, if_neg hq, ih (builder ++ [z.chars[i]]) (by omega), hdrop']
          cases charsUntil q (z.chars[i + 1] :: z.chars.drop (i + 1 + 1)) with
          | none => rfl
          | some r =>
            simp only [Option.map_some, List.append_assoc, List.singleton_append]
            congr 2
            omega
      -- At the last character a quote ends the literal and anything else runs to the end.
      · have hnil : z.chars.drop (i + 1) = [] := List.drop_eq_nil_of_le (Nat.le_of_not_lt hnext)
        rw [hnil, charsUntil]
        by_cases hq : z.chars[i] = q
        · rw [if_pos hq, if_pos hq, if_neg hnext]
          simp
        · rw [if_neg hq, if_neg hq, ih (builder ++ [z.chars[i]]) (by omega), hnil]
          rfl
    · rw [if_neg hi, List.drop_eq_nil_of_le (Nat.le_of_not_lt hi)]
      rfl

/-- Scanning a quoted text adds no panic. -/
theorem scanChars_eq (start : ℕ) (q : Char) : scanChars z start q = z.scanChars start q := by
  rw [scanChars, scanCharsLoop_eq z start q [] (by omega)]
  rfl

end

variable (z : SqlTokenizer)

/-- Looking behind `ORDER` and `GROUP` adds no panic. -/
theorem processAmbiguousIdentifier_eq (start : ℕ) (text : String) :
    processAmbiguousIdentifier z start text = z.processAmbiguousIdentifier start text := by
  unfold processAmbiguousIdentifier SqlTokenizer.processAmbiguousIdentifier
  rw [skipWhitespace_eq, Outcome.ok_bind]
  dsimp only
  by_cases hskip : z.skipWhitespace start + 2 ≤ z.chars.length
  · rw [if_pos hskip, substring_eq z (Nat.le_add_right _ _) hskip, Outcome.ok_bind,
      decide_eq_true hskip, Bool.true_and]
    rfl
  · rw [if_neg hskip, decide_eq_false hskip, Bool.false_and, if_neg Bool.false_ne_true]
    rfl

/-- Scanning a word adds no panic where the text has a character. -/
theorem scanIdentifier_eq {start : ℕ} {c : Char} (hc : z.chars[start]? = some c) :
    scanIdentifier z start = z.scanIdentifier start := by
  have hlt := (List.getElem?_eq_some_iff.mp hc).1
  unfold scanIdentifier SqlTokenizer.scanIdentifier
  rw [index_eq z hc, Outcome.ok_bind, hc, Option.any_some]
  by_cases hquote : c.toNat = 0x60
  · rw [if_pos hquote, if_pos (decide_eq_true hquote),
      offsetUntilTerminatedChar_eq z _ (Nat.succ_le_of_lt hlt)]
    cases hstop : z.offsetUntilTerminatedChar (Char.ofNat 0x60) (start + 1) with
    | error e => rfl
    | ok stop =>
      have hbounds : start + 1 ≤ stop ∧ stop ≤ z.chars.length := by
        unfold SqlTokenizer.offsetUntilTerminatedChar at hstop
        split at hstop
        · rename_i pos hpos
          cases hstop
          have hpos := (List.findIdx?_eq_some_iff_getElem.mp hpos).1
          rw [List.length_drop] at hpos
          omega
        · cases hstop
      simp only [Outcome.ok_bind, substring_eq z hbounds.1 hbounds.2]
  · have hdecide : ¬ decide (c.toNat = 0x60) = true := by simpa using hquote
    have hle := z.le_indexOfFirst (fun ch => !Literal.isIdentifierPart ch) (Nat.le_of_lt hlt)
    have hbound := z.indexOfFirst_le start fun ch => !Literal.isIdentifierPart ch
    rw [if_neg hquote, if_neg hdecide]
    simp only [indexOfFirst_eq, Outcome.ok_bind, substring_eq z hle hbound,
      processAmbiguousIdentifier_eq]
    rfl

/-- Scanning a token adds no panic. -/
theorem nextToken_eq (offset : ℕ) : nextToken z offset = z.nextToken offset := by
  unfold nextToken SqlTokenizer.nextToken
  rw [skipWhitespace_eq, Outcome.ok_bind]
  dsimp only
  generalize z.skipWhitespace offset = start
  by_cases hend : z.chars.length ≤ start
  · rw [if_pos hend, List.getElem?_eq_none_iff.mpr hend]
    rfl
  · have hlt : start < z.chars.length := Nat.lt_of_not_le hend
    have hc := List.getElem?_eq_getElem hlt
    have hdrop := List.drop_eq_getElem_cons hlt
    generalize z.chars[start] = c at hc hdrop
    rw [if_neg hend, index_eq z hc, Outcome.ok_bind, hc, scanIdentifier_eq z hc,
      scanNumber_eq z hc, scanChars_eq]
    dsimp only
    split
    · rfl
    · split
      · rfl
      · rename_i hnumber
        split
        · rename_i hsymbol
          rw [scanSymbol_eq z hdrop hsymbol fun heq => hnumber (by rw [heq]; rfl)]
        · rfl

/-- Tokenizing adds no panic. -/
theorem tokenizeFrom_eq (fuel offset : ℕ) :
    tokenizeFrom z fuel offset = z.tokenizeFrom fuel offset := by
  induction fuel generalizing offset with
  | zero => rfl
  | succ fuel ih =>
    rw [tokenizeFrom, SqlTokenizer.tokenizeFrom, nextToken_eq]
    refine bind_congr fun found => ?_
    cases found with
    | none => rfl
    | some t => exact congrArg (· >>= _) (ih t.endOffset)

/-- The checks do not change what is returned. -/
theorem tokenize_eq (sql : String) : Checked.tokenize sql = RQuery.tokenize sql :=
  tokenizeFrom_eq ⟨sql.toList⟩ _ 0

end Checked

/-! ## The documented errors -/

variable [UnicodeTables]

/-- The panics of the tokenizer, with what raises them. -/
inductive DocumentedPanic (z : SqlTokenizer) : Panic → Prop
  /-- A character that starts no token. -/
  | unexpectedCharacter {position : ℕ} {ch : Char} (hch : z.chars[position]? = some ch)
      (hident : Literal.isIdentifierStart ch = false) (hnumber : Literal.isNumberStart ch = false)
      (hsymbol : Symbol.isSymbol ch = false) (hchars : Literal.isCharsStart ch = false) :
    DocumentedPanic z (.other s!"Unexpected character '{ch}' at position {position}")
  /-- No back-quote closes the one in front of `start`. -/
  | missingBackQuote {start : ℕ} (hopen : z.chars[start]? = some backQuote)
      (hmissing : backQuote ∉ z.chars.drop (start + 1)) :
    DocumentedPanic z (.other s!"Must contain {backQuote} in remain sql[{start + 1} .. end]")
  /-- Every quote behind the one at `start` is doubled. -/
  | unterminatedString {start : ℕ} {q : Char} (hopen : z.chars[start]? = some q)
      (hq : Literal.isCharsStart q = true)
      (hmissing : ∀ text rest, z.chars.drop (start + 1) = escape q text ++ q :: rest →
        rest.head? = some q) :
    DocumentedPanic z (.other s!"Unterminated string starting at position {start}")

variable {z : SqlTokenizer}

/-- Scanning a word fails only as documented. -/
theorem scanIdentifier_error {start : ℕ} {c : Char} {cs : List Char} {e : Panic}
    (hdrop : z.chars.drop start = c :: cs) (hc : Literal.isIdentifierStart c = true)
    (h : z.scanIdentifier start = .error e) : DocumentedPanic z e := by
  by_cases hquote : c = backQuote
  · subst hquote
    have hdrop' : z.chars.drop (start + 1) = cs := by
      rw [← List.drop_drop, hdrop, List.drop_one, List.tail_cons]
    by_cases hmem : backQuote ∈ cs
    · obtain ⟨text, rest, hparts, htext, hrest⟩ := exists_run (fun d => d ≠ backQuote) cs
      have hnot : backQuote ∉ text := fun hmem => by simpa using htext _ hmem
      obtain _ | ⟨d, rest⟩ := rest
      · rw [hparts, List.append_nil] at hmem
        exact absurd hmem hnot
      · obtain rfl : d = backQuote := by simpa using hrest d rfl
        have hslice : z.chars.drop start =
            (backQuote :: (text ++ [backQuote])) ++ rest := by
          rw [hdrop, hparts]
          simp
        rw [scanIdentifier_backQuoted hnot hslice] at h
        cases h
    -- Without one the source panics with the message that names the quote.
    · have hfind : (z.chars.drop (start + 1)).findIdx? (· = backQuote) = none := by
        rw [hdrop', List.findIdx?_eq_none_iff]
        exact fun d hd => decide_eq_false fun heq => hmem (heq ▸ hd)
      have hmissing : z.offsetUntilTerminatedChar (Char.ofNat 0x60) (start + 1) =
          .error (.other s!"Must contain {backQuote} in remain sql[{start + 1} .. end]") := by
        unfold offsetUntilTerminatedChar
        change (z.chars.drop (start + 1)).findIdx? (· = Char.ofNat 0x60) = none at hfind
        rw [hfind]
        rfl
      unfold scanIdentifier at h
      rw [getElem?_of_drop hdrop, Option.any_some,
        if_pos (decide_eq_true (toNat_eq_backQuote_iff.mpr rfl)), hmissing] at h
      cases h
      exact .missingBackQuote (getElem?_of_drop hdrop) (hdrop' ▸ hmem)
  · have halpha : UnicodeTables.isAlphabetic c = true := by
      have hne : ¬ c.toNat = 0x60 := fun h => hquote (toNat_eq_backQuote_iff.mp h)
      simpa [Literal.isIdentifierStart, hne] using hc
    obtain ⟨ds, rest, rfl, hds, hrest⟩ := exists_run Literal.isIdentifierPart cs
    rw [scanIdentifier_word halpha hds hrest hdrop] at h
    cases h

/-- Scanning a quoted text fails only as documented. -/
theorem scanChars_error {start : ℕ} {q : Char} {cs : List Char} {e : Panic}
    (hdrop : z.chars.drop start = q :: cs) (hq : Literal.isCharsStart q = true)
    (h : z.scanChars start q = .error e) : DocumentedPanic z e := by
  unfold scanChars at h
  split at h
  · cases h
  · rename_i hnone
    cases h
    refine .unterminatedString (getElem?_of_drop hdrop) hq fun text rest htext => ?_
    by_contra hrest
    rw [charsUntil_eq_some_iff.mpr ⟨rest, htext, hrest, rfl⟩] at hnone
    cases hnone

/-- Scanning a token fails only as documented. -/
theorem nextToken_error {offset : ℕ} {e : Panic} (h : z.nextToken offset = .error e) :
    DocumentedPanic z e := by
  unfold nextToken at h
  dsimp only at h
  generalize z.skipWhitespace offset = start at h
  split at h
  · cases h
  · rename_i ch hch
    have hlt := (List.getElem?_eq_some_iff.mp hch).1
    have hdrop : z.chars.drop start = ch :: z.chars.drop (start + 1) := by
      rw [List.drop_eq_getElem_cons hlt, (List.getElem?_eq_some_iff.mp hch).2]
    have hmap : ∀ {x : Result Token}, some <$> x = .error e → x = .error e := by
      intro x hx
      cases x with
      | error e' =>
        cases hx
        rfl
      | ok t => cases hx
    -- Of the classes only names and strings can fail, and a character in none of them.
    split at h
    · rename_i hident
      exact scanIdentifier_error hdrop hident (hmap h)
    · rename_i hident
      split at h
      · cases h
      · rename_i hnumber
        split at h
        · rename_i hsymbol
          obtain ⟨slice, rest, t, -, ht, -⟩ :=
            scanSymbol_scans hdrop hsymbol fun heq => hnumber (by rw [heq]; rfl)
          rw [ht] at h
          cases h
        · rename_i hsymbol
          split at h
          · rename_i hchars
            exact scanChars_error hdrop hchars (hmap h)
          · rename_i hchars
            cases h
            exact .unexpectedCharacter hch (eq_false_of_ne_true hident)
              (eq_false_of_ne_true hnumber) (eq_false_of_ne_true hsymbol)
              (eq_false_of_ne_true hchars)

/-- Tokenizing fails only as documented. -/
theorem tokenizeFrom_error {fuel offset : ℕ} {e : Panic}
    (hfuel : z.chars.length - offset < fuel) (h : z.tokenizeFrom fuel offset = .error e) :
    DocumentedPanic z e := by
  -- The fuel is more than the characters left, and every token takes at least one.
  induction fuel generalizing offset with
  | zero => omega
  | succ fuel ih =>
    rw [tokenizeFrom] at h
    cases hnext : z.nextToken offset with
    | error e' =>
      rw [hnext] at h
      cases h
      exact nextToken_error hnext
    | ok next =>
      rw [hnext, Outcome.ok_bind] at h
      cases next with
      | none => cases h
      | some token =>
        have hprogress := z.nextToken_progress hnext
        dsimp only at h
        cases hrest : z.tokenizeFrom fuel token.endOffset with
        | error e' =>
          rw [hrest] at h
          cases h
          exact ih (by omega) hrest
        | ok ts =>
          rw [hrest] at h
          cases h

end SqlTokenizer

/-! ## The tokens in the text -/

/-- What a token shows of its slice of the text: all of it, or what is between its quotes. -/
inductive Token.Shows (t : Token) (slice : List Char) : Prop
  | plain (hstring : t.tokenType ≠ .literal .string) (htext : t.text = String.ofList slice)
  | backQuoted (hidentifier : t.tokenType = .literal .identifier)
      (htext : slice = backQuote :: (t.text.toList ++ [backQuote]))
  | string (q : Char) (hq : q = Char.ofNat 0x27 ∨ q = '"') (hstring : t.tokenType = .literal .string)
      (htext : slice = q :: (escape q t.text.toList ++ [q]))

/-- The characters from an offset on are the slices of the tokens with white space around them. -/
inductive Covers : ℕ → List Char → List Token → Prop
  | done {offset : ℕ} {space : List Char} (hspace : ∀ c ∈ space, Text.isWhitespace c = true) :
    Covers offset space []
  | token {offset : ℕ} {space slice rest : List Char} {t : Token} {ts : List Token}
      (hspace : ∀ c ∈ space, Text.isWhitespace c = true) (hne : slice ≠ []) (hshows : t.Shows slice)
      (hend : t.endOffset = offset + space.length + slice.length)
      (hrest : Covers t.endOffset rest ts) : Covers offset (space ++ (slice ++ rest)) (t :: ts)

/-- The ends of the slices ascend and stay in the text. -/
theorem Covers.endOffsets {offset : ℕ} {cs : List Char} {tokens : List Token}
    (h : Covers offset cs tokens) :
    tokens.Pairwise (fun t t' => t.endOffset < t'.endOffset) ∧
      ∀ t ∈ tokens, offset < t.endOffset ∧ t.endOffset ≤ offset + cs.length := by
  induction h with
  | done _ => exact ⟨.nil, by simp⟩
  | @token offset space slice rest t ts _ hne _ hend _ ih =>
    obtain ⟨hpairwise, hbounds⟩ := ih
    have hpos := List.length_pos_iff.mpr hne
    simp only [List.length_append]
    refine ⟨List.pairwise_cons.mpr ⟨fun t' ht' => (hbounds t' ht').1, hpairwise⟩, ?_⟩
    intro t' ht'
    rcases List.mem_cons.mp ht' with rfl | ht'
    · omega
    · have := hbounds t' ht'
      omega

variable [UnicodeTables]

/-- A token shows the characters that it was scanned from. -/
theorem Scans.shows {slice rest : List Char} {t : Token} (h : Scans slice rest t.text t.tokenType) :
    t.Shows slice := by
  obtain ⟨text, tokenType, endOffset⟩ := t
  dsimp only at h
  cases h with
  | word hstart hpart hend =>
    refine .plain (fun heq => ?_) rfl
    dsimp only [wordType] at heq
    split at heq
    · cases heq
    · cases hk : Keyword.textOf (String.ofList (_ :: _)) <;> rw [hk] at heq <;> cases heq
  | backQuoted hquote => exact .backQuoted rfl (by rw [String.toList_ofList])
  | long _ _ _ | double _ _ _ | symbol _ _ _ => exact .plain (fun heq => by cases heq) rfl
  | @string q _ _ hq hend =>
    exact .string q (SqlTokenizer.isCharsStart_iff.mp hq) rfl (by rw [String.toList_ofList])

/-- The tokens and the white space between them cover the text. -/
theorem Lexes.covers {offset : ℕ} {cs : List Char} {tokens : List Token}
    (h : Lexes offset cs tokens) : Covers offset cs tokens := by
  induction h with
  | done hspace => exact .done hspace
  | token hspace _ hscan hend _ ih =>
    exact .token hspace (SqlTokenizer.ne_nil_of_scans hscan) hscan.shows hend ih

/-- Run with all its checks, the tokenizer panics with a documented error, or it returns tokens
whose slices, in order and with white space around them, make up the text. -/
theorem tokenize_safe (sql : String) :
    match SqlTokenizer.Checked.tokenize sql with
    | .error e => SqlTokenizer.DocumentedPanic ⟨sql.toList⟩ e
    | .ok tokens =>
      Covers 0 sql.toList tokens ∧
      tokens.Pairwise (fun t t' => t.endOffset < t'.endOffset) ∧
      ∀ t ∈ tokens, t.endOffset ≤ sql.toList.length := by
  rw [SqlTokenizer.Checked.tokenize_eq]
  cases h : tokenize sql with
  | error e =>
    exact SqlTokenizer.tokenizeFrom_error (z := ⟨sql.toList⟩) (Nat.lt_succ_self _) h
  | ok tokens =>
    have hcovers := (tokenize_eq_ok_iff.mp h).covers
    obtain ⟨hpairwise, hbounds⟩ := hcovers.endOffsets
    exact ⟨hcovers, hpairwise, fun t ht => by simpa using (hbounds t ht).2⟩

end RQuery
