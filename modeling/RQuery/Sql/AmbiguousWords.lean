import RQuery.Sql.LexicalGrammar
import RQuery.Sql.Respelling

/-!
# ORDER and GROUP

An unquoted `ORDER` or `GROUP` is a keyword in front of the keyword `BY` and an identifier elsewhere
(`ByDecides`). The tokenizer looks at the next two characters behind white space and not at the next
word, so that it decides otherwise exactly in front of a longer word that starts with `BY`
(`byDecides_iff`). A word is compared in its upper case, and of that it is used that no character
outside ASCII has a part of `BY` as its upper case.
-/

namespace RQuery

/-! ## Slices -/

/-- A text is split in one way into white space and what begins with another character. -/
theorem eq_of_append_eq_append {space space' after after' : List Char}
    (h : space ++ after = space' ++ after') (hspace : ∀ c ∈ space, Text.isWhitespace c = true)
    (hspace' : ∀ c ∈ space', Text.isWhitespace c = true)
    (hafter : ∀ c ∈ after.head?, Text.isWhitespace c = false)
    (hafter' : ∀ c ∈ after'.head?, Text.isWhitespace c = false) : space = space' ∧ after = after' := by
  obtain rfl : after = after' := by
    rw [← SqlTokenizer.dropWhile_run hspace hafter, h, SqlTokenizer.dropWhile_run hspace' hafter']
  exact ⟨List.append_cancel_right h, rfl⟩

section

variable [UnicodeTables]

/-- The slice at the front of a text is the only one. -/
theorem Scans.unique {slice slice' rest rest' : List Char} {text text' : String}
    {tokenType tokenType' : TokenType} (h : Scans slice rest text tokenType)
    (h' : Scans slice' rest' text' tokenType') (heq : slice ++ rest = slice' ++ rest')
    (hhead : ∀ c ∈ slice.head?, Text.isWhitespace c = false)
    (hhead' : ∀ c ∈ slice'.head?, Text.isWhitespace c = false) :
    slice = slice' ∧ rest = rest' ∧ text = text' ∧ tokenType = tokenType' := by
  have hnone : ∀ c ∈ ([] : List Char), Text.isWhitespace c = true := List.forall_mem_nil _
  let z : SqlTokenizer := ⟨slice ++ rest⟩
  have hdrop : z.chars.drop 0 = [] ++ (slice ++ rest) := rfl
  have hdrop' : z.chars.drop 0 = [] ++ (slice' ++ rest') := heq
  have hnext := SqlTokenizer.nextToken_of_drop (Nat.zero_le _) hdrop hnone hhead h
  rw [SqlTokenizer.nextToken_of_drop (Nat.zero_le _) hdrop' hnone hhead' h'] at hnext
  simp only [Except.ok.injEq, Option.some.injEq, Token.mk.injEq] at hnext
  obtain ⟨rfl, rfl, hlength⟩ := hnext
  have hparts := List.append_inj heq (by omega)
  exact ⟨hparts.1, hparts.2, rfl, rfl⟩

/-- A text starts with one slice behind its white space. -/
theorem Scans.unique_behind {space space' slice slice' rest rest' : List Char} {text text' : String}
    {tokenType tokenType' : TokenType} (h : Scans slice rest text tokenType)
    (h' : Scans slice' rest' text' tokenType')
    (heq : space ++ (slice ++ rest) = space' ++ (slice' ++ rest'))
    (hspace : ∀ c ∈ space, Text.isWhitespace c = true)
    (hspace' : ∀ c ∈ space', Text.isWhitespace c = true)
    (hhead : ∀ c ∈ slice.head?, Text.isWhitespace c = false)
    (hhead' : ∀ c ∈ slice'.head?, Text.isWhitespace c = false) :
    slice = slice' ∧ rest = rest' ∧ text = text' ∧ tokenType = tokenType' := by
  have hslice : (slice ++ rest).head? = slice.head? :=
    List.head?_append_of_ne_nil _ (SqlTokenizer.ne_nil_of_scans h)
  have hslice' : (slice' ++ rest').head? = slice'.head? :=
    List.head?_append_of_ne_nil _ (SqlTokenizer.ne_nil_of_scans h')
  obtain ⟨-, hafter⟩ :=
    eq_of_append_eq_append heq hspace hspace' (hslice ▸ hhead) (hslice' ▸ hhead')
  exact h.unique h' hafter hhead hhead'

/-! ## The words -/

/-- The text of the token stands in front of its end, without quotes. -/
def Token.Unquoted (sql : String) (t : Token) : Prop :=
  t.text.toList <:+ sql.toList.take t.endOffset

/-- A word that is a keyword in front of `BY` is one there, and elsewhere an identifier. -/
def Token.DecidedBy (t : Token) (next : Option Token) : Prop :=
  ((∃ k, t.tokenType = .keyword k) ↔ next.map Token.tokenType = some (.keyword .«by»)) ∧
    (next.map Token.tokenType ≠ some (.keyword .«by») → t.tokenType = .literal .identifier)

/-- The token behind an unquoted `ORDER` or `GROUP` decides what it is. -/
def ByDecides (sql : String) (tokens : List Token) : Prop :=
  ∀ t ts, t :: ts <:+ tokens → t.Unquoted sql → SqlTokenizer.isAmbiguousIdentifier t.text = true →
    t.DecidedBy ts.head?

/-- The next word behind white space starts with `BY` and goes on. -/
def beforeLonger (rest : List Char) : Bool :=
  beforeBy rest &&
    (rest.dropWhile Text.isWhitespace)[2]?.any fun c => Literal.isIdentifierPart c

/-- An unquoted `ORDER` or `GROUP` of the text is in front of a longer word that starts with `BY`. -/
inductive BeforeLongerWord : List Char → Prop
  | here {space word rest : List Char} (hspace : ∀ c ∈ space, Text.isWhitespace c = true)
      (hword : SqlTokenizer.isAmbiguousIdentifier (String.ofList word) = true)
      (hend : ∀ c ∈ rest.head?, Literal.isIdentifierPart c = false)
      (hlonger : beforeLonger rest = true) : BeforeLongerWord (space ++ (word ++ rest))
  | later {space slice rest : List Char} {text : String} {tokenType : TokenType}
      (hspace : ∀ c ∈ space, Text.isWhitespace c = true)
      (hhead : ∀ c ∈ slice.head?, Text.isWhitespace c = false)
      (hscan : Scans slice rest text tokenType) (hlater : BeforeLongerWord rest) :
    BeforeLongerWord (space ++ (slice ++ rest))

/-! ## Words of letters -/

omit [UnicodeTables] in
/-- A text that is equal to letters up to case has the same number of letters. -/
theorem letters_of_eqIgnoreAsciiCase {cs : List Char} {name : String}
    (h : Text.eqIgnoreAsciiCase (String.ofList cs) name = true)
    (hname : (name.toList.all fun c => decide (IsLetter c)) = true) :
    cs.length = name.toList.length ∧ ∀ c ∈ cs, IsLetter c := by
  have hlower : cs.map Char.toLower = name.toList.map Char.toLower := by
    rw [← String.toList_ofList (l := cs)]
    exact of_decide_eq_true h
  refine ⟨by simpa using congrArg List.length hlower, fun c hc => ?_⟩
  have hmem : c.toLower ∈ name.toList.map Char.toLower := hlower ▸ List.mem_map_of_mem hc
  obtain ⟨d, hd, hcase⟩ := List.mem_map.mp hmem
  have hletter : IsLetter d := of_decide_eq_true (List.all_eq_true.mp hname d hd)
  have hsame : SameLetter c d := hcase.symm
  rcases hsame.eq_or_isLetter with rfl | ⟨hc, -⟩
  · exact hletter
  · exact hc

omit [UnicodeTables] in
/-- `ORDER` and `GROUP` are five letters. -/
theorem letters_of_isAmbiguousIdentifier {cs : List Char}
    (h : SqlTokenizer.isAmbiguousIdentifier (String.ofList cs) = true) :
    cs.length = 5 ∧ ∀ c ∈ cs, IsLetter c := by
  rcases Bool.or_eq_true_iff.mp h with horder | hgroup
  · exact letters_of_eqIgnoreAsciiCase horder (by decide)
  · exact letters_of_eqIgnoreAsciiCase hgroup (by decide)

/-- A slice of letters is a word. -/
theorem Scans.word_of_letters {slice rest : List Char} {text : String} {tokenType : TokenType}
    (h : Scans slice rest text tokenType) (hletters : ∀ c ∈ slice, IsLetter c) :
    text = String.ofList slice ∧ tokenType = wordType text rest ∧
      ∀ c ∈ rest.head?, Literal.isIdentifierPart c = false := by
  cases h with
  | word _ _ hend => exact ⟨rfl, rfl, hend⟩
  -- Quotes, digits, points and symbols are no letters.
  | backQuoted _ => exact absurd (hletters backQuote List.mem_cons_self) (by decide)
  | long hne hdigits hend =>
    obtain ⟨d, ds, rfl⟩ := List.exists_cons_of_ne_nil hne
    have hdigit := hdigits d List.mem_cons_self
    rw [(hletters d List.mem_cons_self).isDigit] at hdigit
    cases hdigit
  | double _ _ _ => exact absurd (hletters '.' (by simp)) (by decide)
  | symbol _ hslice _ =>
    obtain ⟨c, cs, rfl⟩ := List.exists_cons_of_ne_nil (SqlTokenizer.ne_nil_of_textOf hslice)
    have hsymbol := SqlTokenizer.isSymbol_of_textOf hslice List.mem_cons_self
    rw [(hletters c List.mem_cons_self).isSymbol] at hsymbol
    cases hsymbol
  | string hq _ =>
    rw [(hletters _ List.mem_cons_self).isCharsStart] at hq
    cases hq

/-- A word of letters is scanned where nothing of a word is behind it. -/
theorem scans_letters {word rest : List Char} (hne : word ≠ []) (hletters : ∀ c ∈ word, IsLetter c)
    (hend : ∀ c ∈ rest.head?, Literal.isIdentifierPart c = false) :
    Scans word rest (String.ofList word) (wordType (String.ofList word) rest) := by
  obtain ⟨c, cs, rfl⟩ := List.exists_cons_of_ne_nil hne
  exact .word (hletters c List.mem_cons_self).isAlphabetic
    (fun d hd => (hletters d (List.mem_cons_of_mem c hd)).isIdentifierPart) hend

omit [UnicodeTables] in
/-- A word of letters does not begin with white space. -/
theorem head_not_whitespace_of_letters {word : List Char} (hletters : ∀ c ∈ word, IsLetter c) :
    ∀ c ∈ word.head?, Text.isWhitespace c = false :=
  fun c hc => (hletters c (List.mem_of_mem_head? hc)).isWhitespace

/-- A token of letters is unquoted where its slice is its text. -/
theorem Token.unquoted_iff {sql : String} {before space slice rest : List Char} {t : Token}
    (hsql : sql.toList = before ++ (space ++ (slice ++ rest)))
    (hend : t.endOffset = before.length + space.length + slice.length)
    (hscan : Scans slice rest t.text t.tokenType) (hne : t.text.toList ≠ [])
    (hletters : ∀ c ∈ t.text.toList, IsLetter c) : t.Unquoted sql ↔ slice = t.text.toList := by
  have htake : sql.toList.take t.endOffset = before ++ (space ++ slice) := by
    rw [hsql, hend, ← List.append_assoc, ← List.append_assoc, ← List.append_assoc]
    exact List.take_left' (by simp [Nat.add_assoc])
  -- A text without the quotes ends in a letter.
  have hquoted : ∀ {cs : List Char} {q : Char}, slice = cs ++ [q] → ¬ IsLetter q →
      ¬ t.Unquoted sql := by
    rintro cs q rfl hq hunquoted
    unfold Token.Unquoted at hunquoted
    rw [htake, ← List.append_assoc, ← List.append_assoc] at hunquoted
    have hlast := hunquoted.getLast hne
    rw [List.getLast_append_singleton] at hlast
    exact hq (hlast ▸ hletters _ (List.getLast_mem hne))
  constructor
  · intro hunquoted
    obtain ⟨text, tokenType, endOffset⟩ := t
    cases hscan with
    | backQuoted _ => exact absurd hunquoted (hquoted (List.cons_append ..).symm (by decide))
    | @string q _ _ hq _ =>
      have hnot : ¬ IsLetter q := fun hletter => by
        rw [hletter.isCharsStart] at hq
        cases hq
      exact absurd hunquoted (hquoted (List.cons_append ..).symm hnot)
    | _ => exact (String.toList_ofList ..).symm
  · intro heq
    unfold Token.Unquoted
    rw [htake, heq]
    exact (List.suffix_append space _).trans (List.suffix_append before _)

/-! ## The keyword BY -/

/-- Only characters of ASCII have `BY` as their upper case. -/
def ByOfAscii : Prop :=
  ∀ cs : List Char, cs.flatMap UnicodeTables.toUppercase = "BY".toList → ∀ c ∈ cs, c.toNat < 128

omit [UnicodeTables] in
/-- A capital is lowered to the letter that was raised. -/
theorem toLower_toUpper (c : Char) : c.toUpper.toLower = c.toLower := by
  apply Text.char_eq_of_toNat
  rw [Text.toNat_toLower, Text.toNat_toLower, Text.toNat_toUpper]
  grind

/-- The keyword `BY` is the word of these letters, where only ASCII letters are raised to them. -/
theorem textOf_eq_by_iff (hascii : ByOfAscii) {cs : List Char} :
    Keyword.textOf (String.ofList cs) = some .«by» ↔
      Text.eqIgnoreAsciiCase (String.ofList cs) "BY" = true := by
  constructor
  · intro h
    obtain ⟨entry, hentry, hby⟩ := Option.map_eq_some_iff.mp h
    have hall : (Keyword.names.all fun entry =>
        decide (entry.1 = .«by» → entry.2 = "BY")) = true := by decide
    have hname := of_decide_eq_true
      (List.all_eq_true.mp hall entry (List.mem_of_find?_eq_some hentry)) hby
    have hupper : cs.flatMap UnicodeTables.toUppercase = "BY".toList := by
      have htext : entry.2 = Text.toUppercase (String.ofList cs) := by
        simpa using List.find?_some hentry
      rw [hname, Text.toUppercase, String.toList_ofList] at htext
      rw [htext, String.toList_ofList]
    -- The characters are ASCII by assumption, where the two ways to upper-case agree.
    have hchars : cs.flatMap UnicodeTables.toUppercase = cs.map Char.toUpper := by
      rw [← List.flatMap_pure_eq_map]
      exact List.flatMap_congr fun c hc => UnicodeTables.toUppercase_ascii c (hascii cs hupper c hc)
    have hlower : cs.map Char.toLower = (cs.map Char.toUpper).map Char.toLower := by
      rw [List.map_map]
      exact List.map_congr_left fun c _ => (toLower_toUpper c).symm
    refine decide_eq_true ?_
    rw [String.toList_ofList, hlower, ← hchars, hupper]
  · intro h
    refine keyword_textOf_eq h (fun c hc => ?_) (by decide)
    have hall : ("BY".toList.all fun c => decide (c.toNat < 128 ∧ c.toUpper = c)) = true := by decide
    exact of_decide_eq_true (List.all_eq_true.mp hall c hc)

/-- A word that is scanned as a keyword is the text of one. -/
theorem textOf_of_wordType {text : String} {rest : List Char} {k : Keyword}
    (h : wordType text rest = .keyword k) : Keyword.textOf text = some k := by
  unfold wordType at h
  split at h
  · cases h
  · cases htext : Keyword.textOf text with
    | none =>
      rw [htext] at h
      cases h
    | some k' =>
      rw [htext] at h
      cases h
      rfl

omit [UnicodeTables] in
/-- What is looked at, on a text with its white space set apart. -/
theorem beforeBy_append {space after : List Char}
    (hspace : ∀ c ∈ space, Text.isWhitespace c = true)
    (hafter : ∀ c ∈ after.head?, Text.isWhitespace c = false) :
    beforeBy (space ++ after) = Text.eqIgnoreAsciiCase (String.ofList (after.take 2)) "BY" := by
  rw [beforeBy, SqlTokenizer.dropWhile_run hspace hafter]

/-- White space in front of a longer word is skipped. -/
theorem beforeLonger_append {space after : List Char}
    (hspace : ∀ c ∈ space, Text.isWhitespace c = true)
    (hafter : ∀ c ∈ after.head?, Text.isWhitespace c = false) :
    beforeLonger (space ++ after) =
      (beforeBy (space ++ after) && after[2]?.any fun c => Literal.isIdentifierPart c) := by
  rw [beforeLonger, SqlTokenizer.dropWhile_run hspace hafter]

/-- The next token is `BY` where the next two characters are and the word ends behind them. -/
theorem next_by_iff (hascii : ByOfAscii) {offset : ℕ} {rest : List Char} {tokens : List Token}
    (h : Lexes offset rest tokens) :
    tokens.head?.map Token.tokenType = some (.keyword .«by») ↔
      beforeBy rest = true ∧ beforeLonger rest = false := by
  constructor
  · intro hby
    -- The first token decides: it is a word of two letters that ends there.
    cases h with
    | done _ => cases hby
    | @token _ space slice rest t ts hspace hhead hscan hend hrest =>
      have hafter : ∀ c ∈ (slice ++ rest).head?, Text.isWhitespace c = false := by
        rwa [List.head?_append_of_ne_nil _ (SqlTokenizer.ne_nil_of_scans hscan)]
      rw [beforeLonger_append hspace hafter, beforeBy_append hspace hafter]
      replace hby : t.tokenType = .keyword .«by» := Option.some.inj hby
      rw [hby] at hscan
      generalize t.text = text at hscan
      generalize htype : TokenType.keyword .«by» = tokenType at hscan
      cases hscan with
      | @word c cs _ hstart hpart hend =>
        have hword := (textOf_eq_by_iff hascii).mp (textOf_of_wordType htype.symm)
        obtain ⟨hlength, -⟩ := letters_of_eqIgnoreAsciiCase hword (by decide)
        replace hlength : (c :: cs).length = 2 := hlength
        have hlast : ((c :: cs) ++ rest)[2]? = rest.head? := by
          rw [← hlength, List.getElem?_append_right (Nat.le_refl _), Nat.sub_self, List.head?_eq_getElem?]
        rw [List.take_left' hlength, hword, hlast, Bool.true_and]
        refine ⟨rfl, ?_⟩
        cases hd : rest.head? with
        | none => rfl
        | some d => exact hend d hd
      | _ => cases htype
  · rintro ⟨hby, hlonger⟩
    obtain ⟨space, after, rfl, hspace, hafter⟩ := SqlTokenizer.exists_run Text.isWhitespace rest
    rw [beforeLonger_append hspace hafter, hby, Bool.true_and] at hlonger
    rw [beforeBy_append hspace hafter] at hby
    obtain ⟨hlength, hletters⟩ := letters_of_eqIgnoreAsciiCase hby (by decide)
    replace hlength : (after.take 2).length = 2 := hlength
    have hne : after.take 2 ≠ [] := List.ne_nil_of_length_pos (by omega)
    -- No identifier goes on behind the two letters, so they are a word of their own.
    have hend : ∀ c ∈ (after.drop 2).head?, Literal.isIdentifierPart c = false := by
      intro c hc
      rw [List.head?_drop] at hc
      rw [hc] at hlonger
      exact hlonger
    have hscan' := scans_letters hne hletters hend
    have hhead' := head_not_whitespace_of_letters hletters
    rw [← List.take_append_drop 2 after] at h
    generalize hcs : space ++ (after.take 2 ++ after.drop 2) = cs at h
    cases h with
    | done hblank =>
      obtain ⟨c, word, hword⟩ := List.exists_cons_of_ne_nil hne
      have hspace := hblank c (by rw [← hcs, hword]; simp)
      rw [(hletters c (hword ▸ List.mem_cons_self)).isWhitespace] at hspace
      cases hspace
    | @token _ space' slice rest t ts hspace' hhead hscan hend' hrest =>
      obtain ⟨-, -, -, htype⟩ := hscan'.unique_behind hscan hcs hspace hspace' hhead' hhead
      have hshort : SqlTokenizer.isAmbiguousIdentifier (String.ofList (after.take 2)) = false := by
        rw [← Bool.not_eq_true]
        intro hambiguous
        have := (letters_of_isAmbiguousIdentifier hambiguous).1
        omega
      rw [List.head?_cons, Option.map_some, ← htype, wordType, hshort,
        (textOf_eq_by_iff hascii).mpr hby]
      rfl

/-! ## One word -/

/-- `ORDER` and `GROUP` are keywords in front of `BY`, and identifiers otherwise. -/
theorem wordType_of_isAmbiguousIdentifier (rest : List Char) {text : String}
    (h : SqlTokenizer.isAmbiguousIdentifier text = true) :
    ∃ k, wordType text rest = if beforeBy rest then .keyword k else .literal .identifier := by
  obtain ⟨k, hk, -⟩ := SqlTokenizer.textOf_of_isAmbiguousIdentifier h
  refine ⟨k, ?_⟩
  rw [wordType, h, hk]
  cases beforeBy rest <;> rfl

/-- A word is decided by `BY` unless it is in front of a longer word. -/
theorem decidedBy_iff (hascii : ByOfAscii) {offset : ℕ} {rest : List Char} {t : Token}
    {ts : List Token} (hword : SqlTokenizer.isAmbiguousIdentifier t.text = true)
    (htype : t.tokenType = wordType t.text rest) (hrest : Lexes offset rest ts) :
    t.DecidedBy ts.head? ↔ beforeLonger rest = false := by
  obtain ⟨k, hk⟩ := wordType_of_isAmbiguousIdentifier rest hword
  rw [Token.DecidedBy, next_by_iff hascii hrest, ne_eq, next_by_iff hascii hrest, htype, hk]
  cases hby : beforeBy rest with
  | false => simp [beforeLonger, hby]
  | true => simp

/-- The first word of a text is in front of a longer one, or one of the others is. -/
theorem beforeLongerWord_iff {space slice rest : List Char} {text : String} {tokenType : TokenType}
    (hspace : ∀ c ∈ space, Text.isWhitespace c = true)
    (hhead : ∀ c ∈ slice.head?, Text.isWhitespace c = false)
    (hscan : Scans slice rest text tokenType) :
    BeforeLongerWord (space ++ (slice ++ rest)) ↔
      SqlTokenizer.isAmbiguousIdentifier (String.ofList slice) = true ∧ beforeLonger rest = true ∨
        BeforeLongerWord rest := by
  constructor
  · intro h
    generalize hcs : space ++ (slice ++ rest) = cs at h
    cases h with
    -- The same text has one first token, so the word found is the one scanned.
    | here hspace' hword hend hlonger =>
      obtain ⟨hlength, hletters⟩ := letters_of_isAmbiguousIdentifier hword
      have hword' := scans_letters (List.ne_nil_of_length_pos (by omega)) hletters hend
      obtain ⟨rfl, rfl, -⟩ := hscan.unique_behind hword' hcs hspace hspace' hhead
        (head_not_whitespace_of_letters hletters)
      exact .inl ⟨hword, hlonger⟩
    | later hspace' hhead' hscan' hlater =>
      obtain ⟨-, rfl, -⟩ := hscan.unique_behind hscan' hcs hspace hspace' hhead hhead'
      exact .inr hlater
  · rintro (⟨hword, hlonger⟩ | hlater)
    · obtain ⟨-, -, hend⟩ :=
        hscan.word_of_letters (letters_of_isAmbiguousIdentifier hword).2
      exact .here hspace hword hend hlonger
    · exact .later hspace hhead hscan hlater

/-- There is no longer word among white space. -/
theorem not_beforeLongerWord_of_blank {cs : List Char}
    (h : ∀ c ∈ cs, Text.isWhitespace c = true) : ¬ BeforeLongerWord cs := by
  have hslice : ∀ {space slice rest : List Char}, cs = space ++ (slice ++ rest) → slice ≠ [] →
      ¬ ∀ c ∈ slice.head?, Text.isWhitespace c = false := by
    rintro space slice rest rfl hne hhead
    obtain ⟨c, slice, rfl⟩ := List.exists_cons_of_ne_nil hne
    have hblank := h c (by simp)
    rw [hhead c rfl] at hblank
    cases hblank
  intro hlonger
  generalize hcs : cs = cs' at hlonger
  cases hlonger with
  | here hspace hword hend hlonger =>
    obtain ⟨hlength, hletters⟩ := letters_of_isAmbiguousIdentifier hword
    exact hslice hcs (List.ne_nil_of_length_pos (by omega)) (head_not_whitespace_of_letters hletters)
  | later hspace hhead hscan hlater => exact hslice hcs (SqlTokenizer.ne_nil_of_scans hscan) hhead

/-! ## All words -/

omit [UnicodeTables] in
/-- `BY` decides a list of tokens if it decides the first one and the rest. -/
theorem byDecides_cons_iff {sql : String} {t : Token} {ts : List Token} :
    ByDecides sql (t :: ts) ↔
      (t.Unquoted sql → SqlTokenizer.isAmbiguousIdentifier t.text = true → t.DecidedBy ts.head?) ∧
        ByDecides sql ts := by
  constructor
  · exact fun h => ⟨h t ts (List.suffix_refl _),
      fun t' ts' hsuffix => h t' ts' (hsuffix.trans (List.suffix_cons t ts))⟩
  · rintro ⟨hfirst, hrest⟩ t' ts' hsuffix
    rcases List.suffix_cons_iff.mp hsuffix with heq | hsuffix
    · cases heq
      exact hfirst
    · exact hrest t' ts' hsuffix

/-- `BY` decides the tokens of a text exactly if no ambiguous word is in front of a longer one that
begins with it. -/
theorem Lexes.decides_iff (hascii : ByOfAscii) {sql : String} {before cs : List Char} {offset : ℕ}
    {tokens : List Token} (h : Lexes offset cs tokens) (hsql : sql.toList = before ++ cs)
    (hoffset : offset = before.length) : ByDecides sql tokens ↔ ¬ BeforeLongerWord cs := by
  induction h generalizing before with
  | done hspace =>
    refine iff_of_true (fun t ts hsuffix => ?_) (not_beforeLongerWord_of_blank hspace)
    cases List.suffix_nil.mp hsuffix
  | @token offset space slice rest t ts hspace hhead hscan hend hrest ih =>
    have hbehind : sql.toList = (before ++ (space ++ slice)) ++ rest := by
      rw [hsql]
      simp
    have hlength : t.endOffset = (before ++ (space ++ slice)).length := by
      rw [hend, hoffset]
      simp [Nat.add_assoc]
    rw [byDecides_cons_iff, ih hbehind hlength, beforeLongerWord_iff hspace hhead hscan, not_or]
    refine and_congr_left fun _ => ?_
    subst hoffset
    constructor
    -- A word that is unquoted in the text is its own slice of it.
    · rintro hdecided ⟨hword, hlonger⟩
      obtain ⟨hlength, hletters⟩ := letters_of_isAmbiguousIdentifier hword
      obtain ⟨htext, htype, -⟩ := hscan.word_of_letters hletters
      have hslice : slice = t.text.toList := by rw [htext, String.toList_ofList]
      have hunquoted : t.Unquoted sql :=
        (Token.unquoted_iff hsql hend hscan (hslice ▸ List.ne_nil_of_length_pos (by omega))
          (hslice ▸ hletters)).mpr hslice
      rw [← htext] at hword
      rw [(decidedBy_iff hascii hword htype hrest).mp (hdecided hunquoted hword)] at hlonger
      cases hlonger
    · intro hlonger hunquoted hword
      have hword' : SqlTokenizer.isAmbiguousIdentifier (String.ofList t.text.toList) = true := by
        rwa [String.ofList_toList]
      obtain ⟨hlength, hletters⟩ := letters_of_isAmbiguousIdentifier hword'
      obtain rfl := (Token.unquoted_iff hsql hend hscan (List.ne_nil_of_length_pos (by omega))
        hletters).mp hunquoted
      obtain ⟨-, htype, -⟩ := hscan.word_of_letters hletters
      rw [decidedBy_iff hascii hword htype hrest, ← Bool.not_eq_true]
      rw [String.ofList_toList] at hlonger
      exact fun h => hlonger ⟨hword, h⟩

/-- What an unquoted `ORDER` or `GROUP` is is decided by the token behind it exactly if none of them
is in front of a longer word that starts with `BY`. -/
theorem byDecides_iff (hascii : ByOfAscii) {sql : String} {tokens : List Token}
    (h : tokenize sql = .ok tokens) :
    ByDecides sql tokens ↔ ¬ BeforeLongerWord sql.toList :=
  (tokenize_eq_ok_iff.mp h).decides_iff hascii (List.nil_append _).symm rfl

end

section

attribute [local instance] asciiTables

/-- The ASCII tables raise only ASCII letters to `BY`. -/
theorem byOfAscii_asciiTables : ByOfAscii := by
  intro cs hupper c hc
  have hmap : cs.map Char.toUpper = "BY".toList := by
    rw [← hupper, ← List.flatMap_pure_eq_map]
    rfl
  have hmem : c.toUpper ∈ "BY".toList := hmap ▸ List.mem_map_of_mem hc
  have hall : ("BY".toList.all fun c => decide (c.toNat < 96)) = true := by decide
  have hlt : c.toUpper.toNat < 96 := of_decide_eq_true (List.all_eq_true.mp hall _ hmem)
  rw [Text.toNat_toUpper] at hlt
  split at hlt <;> omega

/-- The condition for a text with both words. -/
theorem byDecides_groupBy : ByDecides "GROUP BY order"
      [⟨"GROUP", .keyword .group, 5⟩, ⟨"BY", .keyword .«by», 8⟩,
        ⟨"order", .literal .identifier, 14⟩] ↔ ¬ BeforeLongerWord "GROUP BY order".toList :=
  byDecides_iff byOfAscii_asciiTables (by decide)

/-- The table `order` with the alias `bytes`: a keyword in front of an identifier. -/
theorem order_bytes_not_byDecides :
    tokenize "FROM order bytes" = .ok [⟨"FROM", .keyword .«from», 4⟩, ⟨"order", .keyword .order, 10⟩,
        ⟨"bytes", .literal .identifier, 16⟩] ∧
      ¬ ByDecides "FROM order bytes" [⟨"FROM", .keyword .«from», 4⟩,
        ⟨"order", .keyword .order, 10⟩, ⟨"bytes", .literal .identifier, 16⟩] := by
  refine ⟨by decide, fun h => ?_⟩
  have hunquoted : (⟨"order", .keyword .order, 10⟩ : Token).Unquoted "FROM order bytes" := by
    show "order".toList <:+ "FROM order bytes".toList.take 10
    decide
  have horder := (h _ _ (List.suffix_cons _ _) hunquoted (by decide)).2 (by decide)
  cases horder

end

end RQuery
