import RQuery.Sql.Tokenizer
import RQuery.Common.Related
import Mathlib.Data.List.Find

/-!
# Respelled texts

Two texts with the same letters up to ASCII case have the same tokens up to the case of their texts:
every class of characters that the tokenizer tells apart contains all letters or none. Where the
texts are equal inside of a token, the token's text is the same.
-/

namespace RQuery

/-- The same character, or one letter of ASCII in two cases. -/
def SameLetter (c d : Char) : Prop := c.toLower = d.toLower

/-! ## Classes of characters -/

/-- A letter of ASCII. -/
def IsLetter (c : Char) : Prop := 65 ≤ c.toNat ∧ c.toNat ≤ 90 ∨ 97 ≤ c.toNat ∧ c.toNat ≤ 122

/-- Characters that are the same letter but not the same are letters. -/
theorem SameLetter.eq_or_isLetter {c d : Char} (h : SameLetter c d) :
    c = d ∨ IsLetter c ∧ IsLetter d := by
  rcases eq_or_ne c d with rfl | hne
  · exact .inl rfl
  · have hne : c.toNat ≠ d.toNat := fun heq => hne (Text.char_eq_of_toNat heq)
    have hlower := congrArg Char.toNat h
    rw [Text.toNat_toLower, Text.toNat_toLower] at hlower
    unfold IsLetter
    grind

/-- A class that contains all letters or none. -/
theorem SameLetter.congr {α : Type} {p : Char → α} {a : α} {c d : Char} (h : SameLetter c d)
    (hp : ∀ c, IsLetter c → p c = a) : p c = p d := by
  rcases h.eq_or_isLetter with rfl | ⟨hc, hd⟩
  · rfl
  · rw [hp c hc, hp d hd]

/-- The letters of the respelling are letters. -/
theorem IsLetter.isAlpha {c : Char} (h : IsLetter c) : c.isAlpha = true := by
  have hupper : c.isUpper = decide (65 ≤ c.toNat ∧ c.toNat ≤ 90) := rfl
  have hlower : c.isLower = (decide (97 ≤ c.toNat) && decide (c.toNat ≤ 122)) := rfl
  show (c.isUpper || c.isLower) = true
  rw [hupper, hlower]
  unfold IsLetter at h
  simpa using h

/-- A letter is not skipped as white space. -/
theorem IsLetter.isWhitespace {c : Char} (h : IsLetter c) : Text.isWhitespace c = false := by
  unfold IsLetter at h
  simp only [Text.isWhitespace, Bool.or_eq_false_iff, Bool.and_eq_false_iff, decide_eq_false_iff_not]
  omega

/-- A letter is no digit. -/
theorem IsLetter.isDigit {c : Char} (h : IsLetter c) : c.isDigit = false := by
  have hdigit : c.isDigit = (decide (48 ≤ c.toNat) && decide (c.toNat ≤ 57)) := rfl
  unfold IsLetter at h
  rw [hdigit, Bool.and_eq_false_iff, decide_eq_false_iff_not, decide_eq_false_iff_not]
  omega

/-- A letter is none of the characters that the tokenizer asks for otherwise. -/
theorem IsLetter.ne {c d : Char} (h : IsLetter c) (hd : ¬ IsLetter d) : c ≠ d := by
  rintro rfl
  exact hd h

/-- A character that is no letter is equal to the same letter only. -/
theorem SameLetter.eq_iff {c d q : Char} (h : SameLetter c d) (hq : ¬ IsLetter q) :
    c = q ↔ d = q := by
  rcases h.eq_or_isLetter with rfl | ⟨hc, hd⟩
  · rfl
  · exact iff_of_false (hc.ne hq) (hd.ne hq)

/-- No symbol begins with a letter. -/
theorem IsLetter.isSymbol {c : Char} (h : IsLetter c) : Symbol.isSymbol c = false := by
  rw [← Bool.not_eq_true]
  intro hsymbol
  obtain ⟨entry, hentry, hc⟩ := List.any_eq_true.mp hsymbol
  have hall : Symbol.texts.all fun entry => entry.2.toList.all fun c => !c.isAlpha := by decide
  have hplain := List.all_eq_true.mp (List.all_eq_true.mp hall entry hentry) c (by simpa using hc)
  exact absurd h.isAlpha (by simpa using hplain)

instance (c : Char) : Decidable (IsLetter c) := inferInstanceAs (Decidable (_ ∨ _))

/-- No quoted text begins with a letter. -/
theorem IsLetter.isCharsStart {c : Char} (h : IsLetter c) : Literal.isCharsStart c = false := by
  have hquote : c ≠ '"' := h.ne (by decide)
  unfold IsLetter at h
  exact Bool.or_eq_false_iff.mpr ⟨decide_eq_false (by omega), decide_eq_false hquote⟩

/-- No number begins with a letter. -/
theorem IsLetter.isNumberStart {c : Char} (h : IsLetter c) : Literal.isNumberStart c = false := by
  have hpoint : c ≠ '.' := h.ne (by decide)
  simp [Literal.isNumberStart, h.isDigit, hpoint]

variable [UnicodeTables]

/-- The Unicode tables know the ASCII letters. -/
theorem IsLetter.isAlphabetic {c : Char} (h : IsLetter c) : UnicodeTables.isAlphabetic c = true := by
  have hascii : c.toNat < 128 := by
    unfold IsLetter at h
    omega
  rw [UnicodeTables.isAlphabetic_ascii c hascii, h.isAlpha]

/-- An identifier may begin with a letter. -/
theorem IsLetter.isIdentifierStart {c : Char} (h : IsLetter c) :
    Literal.isIdentifierStart c = true := by
  simp [Literal.isIdentifierStart, h.isAlphabetic]

/-- An identifier may go on with a letter. -/
theorem IsLetter.isIdentifierPart {c : Char} (h : IsLetter c) :
    Literal.isIdentifierPart c = true := by
  simp [Literal.isIdentifierPart, h.isAlphabetic]

/-! ## Two texts, character by character -/

/-- The texts have the same length, and the same letters up to case. -/
structure SqlTokenizer.SameLetters (z z' : SqlTokenizer) : Prop where
  length : z.chars.length = z'.chars.length
  letters : ∀ (i : ℕ) (c d : Char), z.chars[i]? = some c → z'.chars[i]? = some d → SameLetter c d

/-- The characters from `start` to `stop` are related. -/
def SqlTokenizer.AgreeOn (R : Char → Char → Prop) (z z' : SqlTokenizer) (start stop : ℕ) : Prop :=
  ∀ (i : ℕ) (c d : Char), start ≤ i → i < stop → z.chars[i]? = some c → z'.chars[i]? = some d → R c d

namespace SqlTokenizer

variable {z z' : SqlTokenizer}

omit [UnicodeTables] in
/-- Texts that agree on a range agree on a part of it. -/
theorem AgreeOn.mono {R : Char → Char → Prop} {start stop start' stop' : ℕ}
    (h : AgreeOn R z z' start stop) (hstart : start ≤ start') (hstop : stop' ≤ stop) :
    AgreeOn R z z' start' stop' :=
  fun i c d hi hi' hc hd => h i c d (by omega) (by omega) hc hd

omit [UnicodeTables] in
/-- Texts of the same letters have them on every range. -/
theorem SameLetters.agreeOn (h : SameLetters z z') (start stop : ℕ) :
    AgreeOn SameLetter z z' start stop :=
  fun i c d _ _ hc hd => h.letters i c d hc hd

omit [UnicodeTables] in
/-- The text has a character where the other has one, of the same letter. -/
theorem SameLetters.getElem? (h : SameLetters z z') (i : ℕ) :
    Option.Rel SameLetter z.chars[i]? z'.chars[i]? := by
  cases hc : z.chars[i]? with
  | none =>
    rw [List.getElem?_eq_none (h.length ▸ List.getElem?_eq_none_iff.mp hc)]
    exact .none
  | some c =>
    obtain ⟨hlt, -⟩ := List.getElem?_eq_some_iff.mp hc
    have hd := List.getElem?_eq_getElem (h.length ▸ hlt)
    rw [hd]
    exact .some (h.letters i c _ hc hd)

omit [UnicodeTables] in
/-- Texts that agree on a range have substrings there that agree character by character. -/
theorem AgreeOn.substring {R : Char → Char → Prop} {start stop : ℕ}
    (hlength : z.chars.length = z'.chars.length) (h : AgreeOn R z z' start stop) :
    List.Forall₂ R (z.substring start stop).toList (z'.substring start stop).toList := by
  rw [SqlTokenizer.substring, SqlTokenizer.substring, String.toList_ofList, String.toList_ofList,
    List.forall₂_iff_get]
  refine ⟨by simp [hlength], fun i hi hi' => ?_⟩
  rw [List.length_take, List.length_drop] at hi
  have hlt : start + i < z.chars.length := by omega
  simp only [List.get_eq_getElem, List.getElem_take, List.getElem_drop]
  exact h (start + i) _ _ (by omega) (by omega) (List.getElem?_eq_getElem hlt)
    (List.getElem?_eq_getElem (hlength ▸ hlt))

omit [UnicodeTables] in
/-- Having the same letters one by one is being equal up to case. -/
theorem forall₂_sameLetter_iff {s t : String} :
    List.Forall₂ SameLetter s.toList t.toList ↔ Text.eqIgnoreAsciiCase s t := by
  rw [Text.eqIgnoreAsciiCase, decide_eq_true_iff, ← List.forall₂_eq_eq_eq, List.forall₂_map_left_iff,
    List.forall₂_map_right_iff]
  rfl

omit [UnicodeTables] in
/-- Substrings at the same place are equal up to case. -/
theorem SameLetters.substring (h : SameLetters z z') (start stop : ℕ) :
    Text.eqIgnoreAsciiCase (z.substring start stop) (z'.substring start stop) :=
  forall₂_sameLetter_iff.mp ((h.agreeOn start stop).substring h.length)

omit [UnicodeTables] in
/-- A class of characters is met at the same place. -/
theorem SameLetters.findIdx? (h : SameLetters z z') (start : ℕ) {p : Char → Bool}
    (hp : ∀ c d, SameLetter c d → p c = p d) :
    (z.chars.drop start).findIdx? p = (z'.chars.drop start).findIdx? p := by
  -- The predicate sees the same at every position of the two texts.
  have hmap : (z.chars.drop start).map p = (z'.chars.drop start).map p := by
    apply List.ext_getElem?
    intro i
    rw [List.getElem?_map, List.getElem?_map, List.getElem?_drop, List.getElem?_drop]
    have hrel := h.getElem? (start + i)
    generalize z.chars[start + i]? = c at hrel
    generalize z'.chars[start + i]? = d at hrel
    cases hrel with
    | none => rfl
    | some hcd => exact congrArg some (hp _ _ hcd)
  have hfind : ∀ cs : List Char, cs.findIdx? p = (cs.map p).findIdx? id := by
    intro cs
    rw [List.findIdx?_map]
    rfl
  rw [hfind, hfind, hmap]

omit [UnicodeTables] in
/-- A search whose test ignores case ends at the same place. -/
theorem SameLetters.indexOfFirst (h : SameLetters z z') (start : ℕ) {p : Char → Bool}
    (hp : ∀ c d, SameLetter c d → p c = p d) : z.indexOfFirst start p = z'.indexOfFirst start p := by
  rw [SqlTokenizer.indexOfFirst, SqlTokenizer.indexOfFirst, h.findIdx? start hp, h.length]

omit [UnicodeTables] in
/-- White space is skipped to the same place. -/
theorem SameLetters.skipWhitespace (h : SameLetters z z') (start : ℕ) :
    z.skipWhitespace start = z'.skipWhitespace start :=
  h.indexOfFirst start fun _ _ hcd => congrArg not (hcd.congr fun _ => IsLetter.isWhitespace)

omit [UnicodeTables] in
/-- A character that is no letter stands where it stands in the other text. -/
theorem SameLetters.getElem?_eq_iff (h : SameLetters z z') {i : ℕ} {c : Char} (hc : ¬ IsLetter c) :
    z.chars[i]? = some c ↔ z'.chars[i]? = some c := by
  have hrel := h.getElem? i
  generalize z.chars[i]? = a at hrel
  generalize z'.chars[i]? = b at hrel
  cases hrel with
  | none => rfl
  | some hab =>
    rcases hab.eq_or_isLetter with rfl | ⟨ha, hb⟩
    · rfl
    · constructor
      · rintro ⟨⟩
        exact absurd ha hc
      · rintro ⟨⟩
        exact absurd hb hc

/-! ## Two scans -/

/-- The tokens of two scans from one offset on: of one kind, up to one place, with texts that are
related as the characters are. -/
structure SameToken (z z' : SqlTokenizer) (offset : ℕ) (t t' : Token) : Prop where
  tokenType : t.tokenType = t'.tokenType
  endOffset : t.endOffset = t'.endOffset
  text : ∀ R : Char → Char → Prop, AgreeOn R z z' offset t.endOffset →
    List.Forall₂ R t.text.toList t'.text.toList

omit [UnicodeTables] in
/-- A token that was scanned from a later place is one from an earlier place. -/
theorem SameToken.mono {offset start : ℕ} {t t' : Token} (h : SameToken z z' start t t')
    (hle : offset ≤ start) : SameToken z z' offset t t' :=
  ⟨h.tokenType, h.endOffset, fun R hR => h.text R (hR.mono hle (Nat.le_refl _))⟩

omit [UnicodeTables] in
/-- Tokens cut at the same place are the same token. -/
theorem SameLetters.sameToken_substring (h : SameLetters z z') {offset start stop stop' : ℕ}
    (tokenType : TokenType) (hstart : offset ≤ start) (hstop : stop ≤ stop') :
    SameToken z z' offset ⟨z.substring start stop, tokenType, stop'⟩
      ⟨z'.substring start stop, tokenType, stop'⟩ :=
  ⟨rfl, rfl, fun _ hR => (hR.mono hstart hstop).substring h.length⟩

omit [UnicodeTables] in
/-- Numbers are scanned alike: no letter is part of one. -/
theorem scanNumber_sameToken (h : SameLetters z z') (start : ℕ) :
    SameToken z z' start (z.scanNumber start) (z'.scanNumber start) := by
  have hminus : (z.chars[start]? = some '-') = (z'.chars[start]? = some '-') :=
    propext (h.getElem?_eq_iff (by decide))
  have hdigits : ∀ start, z.indexOfFirst start (fun ch => !ch.isDigit) =
      z'.indexOfFirst start (fun ch => !ch.isDigit) := fun start =>
    h.indexOfFirst start fun _ _ hcd => congrArg not (hcd.congr fun _ => IsLetter.isDigit)
  have hpoint : ∀ i, (z.chars[i]? = some '.') = (z'.chars[i]? = some '.') := fun i =>
    propext (h.getElem?_eq_iff (by decide))
  unfold scanNumber
  simp only [hminus, hdigits, hpoint]
  generalize (if z'.chars[start]? = some '-' then start + 1 else start) = digits
  split
  · exact h.sameToken_substring _ (Nat.le_refl _) (Nat.le_refl _)
  · exact h.sameToken_substring _ (Nat.le_refl _) (Nat.le_refl _)

omit [UnicodeTables] in
/-- A text without letters is equal to what has the same letters. -/
theorem eq_of_forall₂_sameLetter {cs ds : List Char} (h : List.Forall₂ SameLetter cs ds)
    (hcs : ∀ c ∈ cs, ¬ IsLetter c) : cs = ds := by
  induction h with
  | nil => rfl
  | cons hcd _ ih =>
    obtain ⟨hc, hcs⟩ := List.forall_mem_cons.mp hcs
    rcases hcd.eq_or_isLetter with rfl | ⟨hletter, -⟩
    · rw [ih hcs]
    · exact absurd hletter hc

omit [UnicodeTables] in
/-- Symbols have no letters, so that a text is the same symbol in either case. -/
theorem textOf_congr {cs ds : List Char} (h : List.Forall₂ SameLetter cs ds) :
    Symbol.textOf (String.ofList cs) = Symbol.textOf (String.ofList ds) := by
  have hall : Symbol.texts.all fun entry => entry.2.toList.all fun c => ¬ IsLetter c := by decide
  have hentries : ∀ entry ∈ Symbol.texts, ∀ c ∈ entry.2.toList, ¬ IsLetter c := by
    simpa only [List.all_eq_true, decide_eq_true_eq] using hall
  have hflip : List.Forall₂ SameLetter ds cs := h.flip.imp fun _ _ hcd => Eq.symm hcd
  refine congrArg (Option.map Prod.fst) (List.find?_congr fun entry hentry => ?_)
  rw [decide_eq_decide, ← String.toList_inj, ← String.toList_inj, String.toList_ofList,
    String.toList_ofList]
  constructor
  · intro heq
    exact heq.trans (eq_of_forall₂_sameLetter h (heq ▸ hentries entry hentry))
  · intro heq
    exact heq.trans (eq_of_forall₂_sameLetter hflip (heq ▸ hentries entry hentry))

omit [UnicodeTables] in
/-- The longest symbol in front has the same length. -/
theorem shrinkSymbol_congr {cs ds : List Char} (h : List.Forall₂ SameLetter cs ds) (n : ℕ) :
    shrinkSymbol cs n = shrinkSymbol ds n := by
  induction n with
  | zero => rfl
  | succ n ih => rw [shrinkSymbol, shrinkSymbol, ih, textOf_congr (List.forall₂_take (n + 1) h)]

omit [UnicodeTables] in
/-- Symbols are scanned alike, or both scans fail. -/
theorem scanSymbol_sameToken (h : SameLetters z z') (start : ℕ) :
    Outcome.Related (SameToken z z' start) (z.scanSymbol start) (z'.scanSymbol start) := by
  have hstop := h.indexOfFirst start (p := fun ch => !Symbol.isSymbol ch) fun _ _ hcd =>
    congrArg not (hcd.congr fun _ => IsLetter.isSymbol)
  have htext : ∀ stop, shrinkSymbol ((z.chars.drop start).take (stop - start)) (stop - start) =
      shrinkSymbol ((z'.chars.drop start).take (stop - start)) (stop - start) := by
    intro stop
    have hagree := (h.agreeOn start stop).substring h.length
    rw [SqlTokenizer.substring, SqlTokenizer.substring, String.toList_ofList,
      String.toList_ofList] at hagree
    exact shrinkSymbol_congr hagree _
  unfold scanSymbol
  simp only [hstop, htext]
  split
  · exact .ok (h.sameToken_substring _ (Nat.le_refl _) (Nat.le_refl _))
  · exact .error _

/-- What two scans of a string literal read: as many characters, and texts that are related as the
characters are. -/
def SameText (cs ds : List Char) (p p' : List Char × ℕ) : Prop :=
  p.2 = p'.2 ∧ ∀ R : Char → Char → Prop, List.Forall₂ R (cs.take p.2) (ds.take p.2) →
    List.Forall₂ R p.1 p'.1

omit [UnicodeTables] in
/-- Quoted texts end at the same quote, which is no letter. -/
theorem charsUntil_sameText {q : Char} (hq : ¬ IsLetter q) {cs ds : List Char}
    (h : List.Forall₂ SameLetter cs ds) :
    Option.Rel (SameText cs ds) (charsUntil q cs) (charsUntil q ds) := by
  -- The cases are those of the loop; the quote is no letter, so it stands at the same places in
  -- both texts.
  fun_induction charsUntil q cs generalizing ds with
  | case1 =>
    cases h
    exact .none
  | case2 =>
    obtain _ | ⟨hd, ⟨⟩⟩ := h
    rw [charsUntil, if_pos ((hd.eq_iff hq).mp rfl)]
    exact .some ⟨rfl, fun _ _ => .nil⟩
  | case3 c hc =>
    obtain _ | ⟨hd, ⟨⟩⟩ := h
    rw [charsUntil, if_neg ((hd.eq_iff hq).not.mp hc)]
    exact .none
  | case4 cs ih =>
    obtain _ | ⟨hd, _ | ⟨hd', h⟩⟩ := h
    rw [charsUntil, if_pos ((hd.eq_iff hq).mp rfl), if_pos ((hd'.eq_iff hq).mp rfl)]
    have hrest := ih h
    generalize charsUntil _ cs = r at hrest
    generalize charsUntil _ _ = r' at hrest
    cases hrest with
    | none => exact .none
    | some hp =>
      refine .some ⟨congrArg (· + 2) hp.1, fun R hR => ?_⟩
      obtain _ | ⟨hquote, _ | ⟨-, hR⟩⟩ := hR
      rw [(hd.eq_iff hq).mp rfl] at hquote
      exact .cons hquote (hp.2 R hR)
  | case5 c' cs hc' =>
    obtain _ | ⟨hd, _ | ⟨hd', h⟩⟩ := h
    rw [charsUntil, if_pos ((hd.eq_iff hq).mp rfl), if_neg ((hd'.eq_iff hq).not.mp hc')]
    exact .some ⟨rfl, fun _ _ => .nil⟩
  | case6 c c' cs hc ih =>
    obtain _ | ⟨hd, h⟩ := h
    obtain _ | ⟨hd', h⟩ := h
    rw [charsUntil, if_neg ((hd.eq_iff hq).not.mp hc)]
    have hrest := ih (.cons hd' h)
    generalize charsUntil _ (c' :: cs) = r at hrest
    generalize charsUntil _ _ = r' at hrest
    cases hrest with
    | none => exact .none
    | some hp =>
      refine .some ⟨congrArg (· + 1) hp.1, fun R hR => ?_⟩
      obtain _ | ⟨hc, hR⟩ := hR
      exact .cons hc (hp.2 R hR)

omit [UnicodeTables] in
/-- Texts of the same letters go on with the same letters. -/
theorem SameLetters.drop (h : SameLetters z z') (start : ℕ) :
    List.Forall₂ SameLetter (z.chars.drop start) (z'.chars.drop start) := by
  refine List.forall₂_iff_get.mpr ⟨by simp [h.length], fun i hi hi' => ?_⟩
  rw [List.length_drop] at hi hi'
  simp only [List.get_eq_getElem, List.getElem_drop]
  exact h.letters (start + i) _ _ (List.getElem?_eq_getElem (by omega))
    (List.getElem?_eq_getElem (by omega))

omit [UnicodeTables] in
/-- On a range on which the texts agree, their characters do. -/
theorem AgreeOn.take_drop {R : Char → Char → Prop} {start n : ℕ}
    (hlength : z.chars.length = z'.chars.length) (h : AgreeOn R z z' start (start + n)) :
    List.Forall₂ R ((z.chars.drop start).take n) ((z'.chars.drop start).take n) := by
  have hsubstring := h.substring hlength
  rwa [SqlTokenizer.substring, SqlTokenizer.substring, String.toList_ofList, String.toList_ofList,
    Nat.add_sub_cancel_left] at hsubstring

omit [UnicodeTables] in
/-- Quoted texts are scanned alike, or both are not closed. -/
theorem scanChars_sameToken (h : SameLetters z z') {q : Char} (hq : ¬ IsLetter q) (start : ℕ) :
    Outcome.Related (SameToken z z' start) (z.scanChars start q) (z'.scanChars start q) := by
  have hread := charsUntil_sameText hq (h.drop (start + 1))
  unfold scanChars
  generalize charsUntil q (z.chars.drop (start + 1)) = r at hread
  generalize charsUntil q (z'.chars.drop (start + 1)) = r' at hread
  cases hread with
  | none => exact .error _
  | @some p p' hp =>
    refine .ok ⟨rfl, congrArg (start + 1 + ·) hp.1, fun R hR => ?_⟩
    rw [String.toList_ofList, String.toList_ofList]
    refine hp.2 R (AgreeOn.take_drop h.length (hR.mono (Nat.le_succ start) (Nat.le_refl _)))

omit [UnicodeTables] in
/-- A name is matched by both texts or by none of them. -/
theorem eqIgnoreAsciiCase_congr {s t : String} (h : Text.eqIgnoreAsciiCase s t) (name : String) :
    Text.eqIgnoreAsciiCase s name = Text.eqIgnoreAsciiCase t name := by
  have hlower : s.toList.map Char.toLower = t.toList.map Char.toLower := of_decide_eq_true h
  rw [Text.eqIgnoreAsciiCase, Text.eqIgnoreAsciiCase, hlower]

omit [UnicodeTables] in
/-- Both texts are `ORDER` or `GROUP`, or neither is. -/
theorem isAmbiguousIdentifier_congr {s t : String} (h : Text.eqIgnoreAsciiCase s t) :
    isAmbiguousIdentifier s = isAmbiguousIdentifier t := by
  rw [isAmbiguousIdentifier, isAmbiguousIdentifier, eqIgnoreAsciiCase_congr h,
    eqIgnoreAsciiCase_congr h]

/-- Keywords are looked up by their upper case. -/
theorem keyword_textOf_congr {s t : String} (h : Text.eqIgnoreAsciiCase s t) :
    Keyword.textOf s = Keyword.textOf t := by
  rw [Keyword.textOf, Keyword.textOf, Text.toUppercase_congr h]

/-- What follows `ORDER` and `GROUP` makes the same token of them. -/
theorem processAmbiguousIdentifier_congr (h : SameLetters z z') (start : ℕ) {text text' : String}
    (htext : Text.eqIgnoreAsciiCase text text') :
    z.processAmbiguousIdentifier start text = z'.processAmbiguousIdentifier start text' := by
  unfold processAmbiguousIdentifier
  rw [h.skipWhitespace, h.length, keyword_textOf_congr htext]
  dsimp only
  rw [eqIgnoreAsciiCase_congr (h.substring _ _)]

/-- Words are scanned alike: the same keyword, or identifiers of the same letters. -/
theorem scanIdentifier_sameToken (h : SameLetters z z') (start : ℕ) :
    Outcome.Related (SameToken z z' start) (z.scanIdentifier start) (z'.scanIdentifier start) := by
  have hquote : (z.chars[start]?.any fun ch => ch.toNat = 0x60) =
      (z'.chars[start]?.any fun ch => ch.toNat = 0x60) := by
    have hrel := h.getElem? start
    generalize z.chars[start]? = c at hrel
    generalize z'.chars[start]? = d at hrel
    cases hrel with
    | none => rfl
    | some hcd =>
      refine hcd.congr (p := fun ch => decide (ch.toNat = 0x60)) (a := false) fun c hc => ?_
      unfold IsLetter at hc
      exact decide_eq_false (by omega)
  have hfind := h.findIdx? (start + 1) (p := fun ch => ch = Char.ofNat 0x60) fun c d hcd =>
    decide_eq_decide.mpr (hcd.eq_iff (by decide))
  have hstop := h.indexOfFirst start (p := fun ch => !Literal.isIdentifierPart ch) fun _ _ hcd =>
    congrArg not (hcd.congr fun _ => IsLetter.isIdentifierPart)
  unfold scanIdentifier
  rw [hquote]
  split
  · unfold offsetUntilTerminatedChar
    rw [hfind]
    split
    · exact .ok (h.sameToken_substring _ (Nat.le_succ start) (Nat.le_succ _))
    · exact .error _
  -- A word ends at the same place in both texts, and is looked up without regard to case.
  · simp only [hstop]
    generalize z'.indexOfFirst start (fun ch => !Literal.isIdentifierPart ch) = stop
    have htext := h.substring start stop
    rw [isAmbiguousIdentifier_congr htext, keyword_textOf_congr htext,
      processAmbiguousIdentifier_congr h stop htext]
    split
    · refine Outcome.Related.bind_same fun tokenType => .ok ?_
      exact h.sameToken_substring tokenType (Nat.le_refl _) (Nat.le_refl _)
    · split <;> exact .ok (h.sameToken_substring _ (Nat.le_refl _) (Nat.le_refl _))

/-- From the same place the next tokens are the same, or there is none, or both scans fail. -/
theorem nextToken_sameToken (h : SameLetters z z') (offset : ℕ) :
    Outcome.Related (Option.Rel (SameToken z z' (z.skipWhitespace offset))) (z.nextToken offset)
      (z'.nextToken offset) := by
  unfold nextToken
  rw [← h.skipWhitespace]
  generalize z.skipWhitespace offset = start
  have hrel := h.getElem? start
  dsimp only
  cases hc : z.chars[start]? with
  | none =>
    rw [hc] at hrel
    generalize z'.chars[start]? = d at hrel
    cases hrel
    exact .ok .none
  | some c =>
    rw [hc] at hrel
    cases hd : z'.chars[start]? with
    | none =>
      rw [hd] at hrel
      cases hrel
    | some d =>
      rw [hd] at hrel
      obtain ⟨hcd⟩ := hrel
      have hsome : ∀ {x y : Result Token}, Outcome.Related (SameToken z z' start) x y →
          Outcome.Related (Option.Rel (SameToken z z' start)) (some <$> x) (some <$> y) := by
        rintro _ _ (ht | e)
        · exact .ok (.some ht)
        · exact .error e
      dsimp only
      rw [hcd.congr fun _ => IsLetter.isIdentifierStart (c := _),
        hcd.congr fun _ => IsLetter.isNumberStart (c := _),
        hcd.congr fun _ => IsLetter.isSymbol (c := _),
        hcd.congr fun _ => IsLetter.isCharsStart (c := _)]
      split
      · exact hsome (scanIdentifier_sameToken h start)
      · rename_i hident
        split
        · exact .ok (.some (scanNumber_sameToken h start))
        · split
          · exact hsome (scanSymbol_sameToken h start)
          · split
            · rename_i hquote
              -- A character that opens a string, or that nothing opens with, is the same in both
              -- texts.
              have hq : ¬ IsLetter d := fun hletter => by
                rw [hletter.isCharsStart] at hquote
                cases hquote
              rw [(hcd.eq_iff hq).mpr rfl]
              exact hsome (scanChars_sameToken h hq start)
            · have hd : ¬ IsLetter d := fun hletter => hident hletter.isIdentifierStart
              rw [(hcd.eq_iff hd).mpr rfl]
              exact .error _

/-! ## Two runs -/

/-- The tokens from an offset on with the offsets that they are scanned from, up to the first that
cannot be scanned. -/
def scanned (z : SqlTokenizer) : ℕ → ℕ → List (ℕ × Token)
  | 0, _ => []
  | fuel + 1, offset =>
    match z.nextToken offset with
    | .ok (some token) => (offset, token) :: z.scanned fuel token.endOffset
    | _ => []

end SqlTokenizer

def TokenType.isKeyword : TokenType → Bool
  | .keyword _ => true
  | _ => false

/-- The same token, but for the case of a keyword and its place in the text. -/
structure Token.Respelled (t t' : Token) : Prop where
  tokenType : t.tokenType = t'.tokenType
  letters : Text.eqIgnoreAsciiCase t.text t'.text
  text : t.tokenType.isKeyword = false → t.text = t'.text

namespace SqlTokenizer

variable {z z' : SqlTokenizer}

/-- Texts of the same letters that agree where no keyword was scanned are tokenized to streams that
are respelled token by token. -/
theorem tokenizeFrom_respelled (h : SameLetters z z') {fuel offset : ℕ}
    (hscanned : ∀ p ∈ z.scanned fuel offset, p.2.tokenType.isKeyword = false →
      AgreeOn Eq z z' p.1 p.2.endOffset) :
    Outcome.Related (List.Forall₂ Token.Respelled) (z.tokenizeFrom fuel offset)
      (z'.tokenizeFrom fuel offset) := by
  induction fuel generalizing offset with
  | zero => exact .error _
  | succ fuel ih =>
    rw [tokenizeFrom, tokenizeFrom]
    have hnext := nextToken_sameToken h offset
    -- The next tokens are of one type and end at one place.
    generalize z'.nextToken offset = next' at hnext
    rw [scanned] at hscanned
    cases hz : z.nextToken offset with
    | error e =>
      rw [hz] at hnext
      cases hnext
      exact .error e
    | ok next =>
      rw [hz] at hnext hscanned
      obtain ⟨hnext⟩ := hnext
      cases hnext with
      | none => exact .ok .nil
      | @some token token' htoken =>
        obtain ⟨hhead, htail⟩ := List.forall_mem_cons.mp hscanned
        have hstart : offset ≤ z.skipWhitespace offset := by
          unfold nextToken at hz
          dsimp only at hz
          split at hz
          · cases hz
          · rename_i hch
            exact z.le_skipWhitespace hch
        -- A keyword is respelled; any other token lies where the two texts agree.
        have hrespelled : token.Respelled token' :=
          ⟨htoken.tokenType, forall₂_sameLetter_iff.mp (htoken.text SameLetter (h.agreeOn _ _)),
            fun hk => String.toList_inj.mp (List.forall₂_eq_eq_eq ▸
              htoken.text Eq ((hhead hk).mono hstart (Nat.le_refl _)))⟩
        rw [Outcome.ok_bind, Outcome.ok_bind]
        dsimp only
        rw [← htoken.endOffset]
        exact (ih htail).bind fun tokens tokens' htokens => .ok (.cons hrespelled htokens)

end SqlTokenizer

open SqlTokenizer

/-- The texts are the same but for the ASCII case of letters in keywords. -/
structure SameButKeywords (text text' : String) : Prop where
  letters : Text.eqIgnoreAsciiCase text text'
  others : ∀ p ∈ scanned ⟨text.toList⟩ (text.toList.length + 1) 0, p.2.tokenType.isKeyword = false →
    substring ⟨text.toList⟩ p.1 p.2.endOffset = substring ⟨text'.toList⟩ p.1 p.2.endOffset

omit [UnicodeTables] in
/-- Texts that are equal up to case have the same letters. -/
theorem sameLetters_of_eqIgnoreAsciiCase {text text' : String}
    (h : Text.eqIgnoreAsciiCase text text') : SameLetters ⟨text.toList⟩ ⟨text'.toList⟩ := by
  obtain ⟨hlength, hget⟩ := List.forall₂_iff_get.mp (forall₂_sameLetter_iff.mpr h)
  refine ⟨hlength, fun i c d hc hd => ?_⟩
  obtain ⟨hi, rfl⟩ := List.getElem?_eq_some_iff.mp hc
  obtain ⟨hi', rfl⟩ := List.getElem?_eq_some_iff.mp hd
  exact hget i hi hi'

omit [UnicodeTables] in
/-- Texts with the same substring agree on its range. -/
theorem agreeOn_of_substring_eq {z z' : SqlTokenizer} {start stop : ℕ}
    (heq : z.substring start stop = z'.substring start stop) : AgreeOn Eq z z' start stop := by
  intro i c d hi hi' hc hd
  have hchars : (z.chars.drop start).take (stop - start) = (z'.chars.drop start).take (stop - start) := by
    rw [← String.toList_inj] at heq
    simpa only [SqlTokenizer.substring, String.toList_ofList] using heq
  have hget := congrArg (·[i - start]?) hchars
  simp only [List.getElem?_take, List.getElem?_drop, Nat.add_sub_cancel' hi,
    if_pos (show i - start < stop - start by omega)] at hget
  rw [hc, hd] at hget
  exact Option.some.inj hget

/-- Respelling keywords gives the same tokens. -/
theorem tokenize_respelled {text text' : String} (h : SameButKeywords text text') :
    Outcome.Related (List.Forall₂ Token.Respelled) (tokenize text) (tokenize text') := by
  have hletters := sameLetters_of_eqIgnoreAsciiCase h.letters
  have hlength : text.toList.length = text'.toList.length := hletters.length
  rw [tokenize, tokenize, ← hlength]
  exact tokenizeFrom_respelled hletters fun p hp hk =>
    agreeOn_of_substring_eq (h.others p hp hk)

end RQuery
