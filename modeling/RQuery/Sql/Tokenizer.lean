import RQuery.Sql.Tokens
import RQuery.Datatypes.Panic

/-!
# The tokenizer

`SqlTokenizer` over the characters of a SQL text. Offsets are character positions, and every scanned
token ends after the position it starts at, so that the scan reaches the end of the text
(`tokenizeFrom_fuel`).
-/

namespace RQuery

/-- Lexer over a SQL string. -/
structure SqlTokenizer where
  chars : List Char

namespace SqlTokenizer

/-- `chars[start..end]` as a string. -/
def substring (z : SqlTokenizer) (start stop : ℕ) : String :=
  String.ofList ((z.chars.drop start).take (stop - start))

/-- First position from `start` on whose character satisfies `predicate`, or the length. -/
def indexOfFirst (z : SqlTokenizer) (start : ℕ) (predicate : Char → Bool) : ℕ :=
  match (z.chars.drop start).findIdx? predicate with
  | some k => start + k
  | none => z.chars.length

def skipWhitespace (z : SqlTokenizer) (start : ℕ) : ℕ :=
  z.indexOfFirst start fun ch => !Text.isWhitespace ch

/-- `scan_number`. Only a token that does not reach the end of the text can have a point. -/
def scanNumber (z : SqlTokenizer) (start : ℕ) : Token :=
  let digits := if z.chars[start]? = some '-' then start + 1 else start
  let stop := z.indexOfFirst digits fun ch => !ch.isDigit
  if z.chars[stop]? = some '.' then
    let stop := z.indexOfFirst (stop + 1) fun ch => !ch.isDigit
    ⟨z.substring start stop, .literal .double, stop⟩
  else
    ⟨z.substring start stop, .literal .long, stop⟩

/-- `ORDER` and `GROUP` are keywords only in front of `BY`. -/
def isAmbiguousIdentifier (text : String) : Bool :=
  Text.eqIgnoreAsciiCase text Keyword.order.name || Text.eqIgnoreAsciiCase text Keyword.group.name

def offsetUntilTerminatedChar (z : SqlTokenizer) (terminated : Char) (start : ℕ) : Result ℕ :=
  match (z.chars.drop start).findIdx? (· = terminated) with
  | some pos => .ok (start + pos)
  | none => .error (.other s!"Must contain {terminated} in remain sql[{start} .. end]")

/-- The longest prefix of `text`, of at most `n` characters, that is a symbol. -/
def shrinkSymbol (text : List Char) : ℕ → Option (Symbol × ℕ)
  | 0 => none
  | n + 1 =>
    match Symbol.textOf (String.ofList (text.take (n + 1))) with
    | some symbol => some (symbol, n + 1)
    | none => shrinkSymbol text n

/-- `scan_symbol`: the text of symbol characters, shrunk until it is a symbol. -/
def scanSymbol (z : SqlTokenizer) (start : ℕ) : Result Token :=
  let stop := z.indexOfFirst start fun ch => !Symbol.isSymbol ch
  match shrinkSymbol ((z.chars.drop start).take (stop - start)) (stop - start) with
  | some (symbol, n) => .ok ⟨z.substring start (start + n), .symbol symbol, start + n⟩
  | none => .error (.other "text must be a Symbol")

/-- The text of a string literal up to its end quote, a doubled quote being one, with the number of
characters read. -/
def charsUntil (terminated : Char) : List Char → Option (List Char × ℕ)
  | [] => none
  | [c] => if c = terminated then some ([], 1) else none
  | c :: c' :: cs =>
    if c = terminated then
      if c' = terminated then
        (charsUntil terminated cs).map fun (text, n) => (terminated :: text, n + 2)
      else
        some ([], 1)
    else
      (charsUntil terminated (c' :: cs)).map fun (text, n) => (c :: text, n + 1)

/-- `scan_chars`. -/
def scanChars (z : SqlTokenizer) (start : ℕ) (terminated : Char) : Result Token :=
  match charsUntil terminated (z.chars.drop (start + 1)) with
  | some (text, n) => .ok ⟨String.ofList text, .literal .string, start + 1 + n⟩
  | none => .error (.other s!"Unterminated string starting at position {start}")

variable [UnicodeTables]

def processAmbiguousIdentifier (z : SqlTokenizer) (start : ℕ) (text : String) :
    Result TokenType :=
  let skip := z.skipWhitespace start
  if skip + 2 ≤ z.chars.length &&
      Text.eqIgnoreAsciiCase (z.substring skip (skip + 2)) Keyword.«by».name then
    match Keyword.textOf text with
    | some keyword => .ok (.keyword keyword)
    | none => .error (.other "ambiguous identifier must be a keyword")
  else
    .ok (.literal .identifier)

/-- `scan_identifier`. -/
def scanIdentifier (z : SqlTokenizer) (start : ℕ) : Result Token :=
  if z.chars[start]?.any fun ch => ch.toNat = 0x60 then do
    let stop ← z.offsetUntilTerminatedChar (Char.ofNat 0x60) (start + 1)
    return ⟨z.substring (start + 1) stop, .literal .identifier, stop + 1⟩
  else
    let stop := z.indexOfFirst start fun ch => !Literal.isIdentifierPart ch
    let text := z.substring start stop
    if isAmbiguousIdentifier text then do
      return ⟨text, ← z.processAmbiguousIdentifier stop text, stop⟩
    else
      match Keyword.textOf text with
      | some keyword => .ok ⟨text, .keyword keyword, stop⟩
      | none => .ok ⟨text, .literal .identifier, stop⟩

/-- `next_token`, from the given offset. -/
def nextToken (z : SqlTokenizer) (offset : ℕ) : Result (Option Token) :=
  let start := z.skipWhitespace offset
  match z.chars[start]? with
  | none => .ok none
  | some ch =>
    if Literal.isIdentifierStart ch then some <$> z.scanIdentifier start
    else if Literal.isNumberStart ch then .ok (some (z.scanNumber start))
    else if Symbol.isSymbol ch then some <$> z.scanSymbol start
    else if Literal.isCharsStart ch then some <$> z.scanChars start ch
    else .error (.other s!"Unexpected character '{ch}' at position {start}")

/-- The tokens from an offset on, at most `fuel` of them. -/
def tokenizeFrom (z : SqlTokenizer) : ℕ → ℕ → Result (List Token)
  | 0, _ => .error (.other "out of fuel")
  | fuel + 1, offset => do
    match ← z.nextToken offset with
    | none => return []
    | some token => return token :: (← z.tokenizeFrom fuel token.endOffset)

/-! ## Progress -/

omit [UnicodeTables] in
/-- A search ends within the text. -/
theorem indexOfFirst_le (z : SqlTokenizer) (start : ℕ) (predicate : Char → Bool) :
    z.indexOfFirst start predicate ≤ z.chars.length := by
  unfold indexOfFirst
  split
  · rename_i k hk
    have hlt := (List.findIdx?_eq_some_iff_getElem.mp hk).1
    rw [List.length_drop] at hlt
    omega
  · exact Nat.le_refl _

omit [UnicodeTables] in
/-- A search does not go back. -/
theorem le_indexOfFirst (z : SqlTokenizer) {start : ℕ} (predicate : Char → Bool)
    (hstart : start ≤ z.chars.length) : start ≤ z.indexOfFirst start predicate := by
  unfold indexOfFirst
  split <;> omega

omit [UnicodeTables] in
/-- A character without the property is passed over. -/
theorem lt_indexOfFirst (z : SqlTokenizer) {start : ℕ} (predicate : Char → Bool) {ch : Char}
    (hch : z.chars[start]? = some ch) (hp : predicate ch = false) :
    start < z.indexOfFirst start predicate := by
  obtain ⟨hlt, -⟩ := List.getElem?_eq_some_iff.mp hch
  unfold indexOfFirst
  split
  · rename_i k hk
    obtain ⟨hk', hpk, -⟩ := List.findIdx?_eq_some_iff_getElem.mp hk
    rcases Nat.eq_zero_or_pos k with rfl | hpos
    · have heq : (z.chars.drop start)[0]? = some ch := by simpa using hch
      rw [List.getElem?_eq_getElem hk', Option.some.injEq] at heq
      rw [heq, hp] at hpk
      cases hpk
    · omega
  · exact hlt

omit [UnicodeTables] in
/-- A number takes a character, and ends within the text. -/
theorem scanNumber_progress (z : SqlTokenizer) {start : ℕ} {ch : Char}
    (hch : z.chars[start]? = some ch) (hstart : Literal.isNumberStart ch) :
    start < (z.scanNumber start).endOffset ∧ (z.scanNumber start).endOffset ≤ z.chars.length := by
  obtain ⟨hlt, hget⟩ := List.getElem?_eq_some_iff.mp hch
  -- A number starts with a digit or a point; the minus sign only opens one inside the scan.
  have hminus : z.chars[start]? ≠ some '-' := by
    rintro h
    obtain rfl : ch = '-' := by simpa [hch] using h
    exact absurd hstart (by decide)
  unfold scanNumber
  simp only [if_neg hminus]
  by_cases hdigit : ch.isDigit
  · have hstop := z.lt_indexOfFirst (fun c => !c.isDigit) hch (by simp [hdigit])
    split
    · rename_i hpoint
      obtain ⟨hlt', -⟩ := List.getElem?_eq_some_iff.mp hpoint
      have hle := z.le_indexOfFirst (fun c => !c.isDigit) (Nat.succ_le_of_lt hlt')
      exact ⟨Nat.lt_of_lt_of_le hstop (Nat.le_of_succ_le hle), z.indexOfFirst_le _ _⟩
    · exact ⟨hstop, z.indexOfFirst_le _ _⟩
  · have hpoint : ch = '.' := by simpa [Literal.isNumberStart, hdigit] using hstart
    have hstop : z.indexOfFirst start (fun c => !c.isDigit) = start := by
      unfold indexOfFirst
      rw [List.drop_eq_getElem_cons hlt, List.findIdx?_cons, hget]
      simp [hdigit]
    rw [hstop, if_pos (hpoint ▸ hch)]
    have hle := z.le_indexOfFirst (fun c => !c.isDigit) (Nat.succ_le_of_lt hlt)
    exact ⟨hle, z.indexOfFirst_le _ _⟩

/-- A word takes a character, and ends within the text. -/
theorem scanIdentifier_progress (z : SqlTokenizer) {start : ℕ} {ch : Char} {token : Token}
    (hch : z.chars[start]? = some ch) (hstart : Literal.isIdentifierStart ch)
    (h : z.scanIdentifier start = .ok token) :
    start < token.endOffset ∧ token.endOffset ≤ z.chars.length := by
  unfold scanIdentifier at h
  split at h
  · obtain ⟨stop, hstop, rfl⟩ := Outcome.bind_pure_eq_ok_iff.mp h
    unfold offsetUntilTerminatedChar at hstop
    split at hstop
    · rename_i pos hpos
      cases hstop
      have hlt := (List.findIdx?_eq_some_iff_getElem.mp hpos).1
      rw [List.length_drop] at hlt
      exact ⟨by simp only; omega, by simp only; omega⟩
    · cases hstop
  · rename_i hquote
    have hpart : Literal.isIdentifierPart ch := by
      have hne : ch.toNat ≠ 0x60 := by simpa [hch] using hquote
      have halpha : UnicodeTables.isAlphabetic ch = true := by
        simpa [Literal.isIdentifierStart, hne] using hstart
      simp [Literal.isIdentifierPart, halpha]
    have hstop := z.lt_indexOfFirst (fun c => !Literal.isIdentifierPart c) hch
      (by simp [hpart])
    have hle := z.indexOfFirst_le start fun c => !Literal.isIdentifierPart c
    dsimp only at h
    split at h
    · obtain ⟨tokenType, -, rfl⟩ := Outcome.bind_pure_eq_ok_iff.mp h
      exact ⟨hstop, hle⟩
    · split at h <;> cases h <;> exact ⟨hstop, hle⟩

omit [UnicodeTables] in
/-- A symbol takes a character, and none behind the candidate. -/
theorem shrinkSymbol_le {text : List Char} {n k : ℕ} {symbol : Symbol}
    (h : shrinkSymbol text n = some (symbol, k)) : 0 < k ∧ k ≤ n := by
  induction n with
  | zero => cases h
  | succ n ih =>
    rw [shrinkSymbol] at h
    split at h
    · cases h
      exact ⟨Nat.succ_pos n, Nat.le_refl _⟩
    · exact ⟨(ih h).1, Nat.le_succ_of_le (ih h).2⟩

omit [UnicodeTables] in
/-- A symbol ends within the text. -/
theorem scanSymbol_progress (z : SqlTokenizer) {start : ℕ} {token : Token}
    (h : z.scanSymbol start = .ok token) :
    start < token.endOffset ∧ token.endOffset ≤ z.chars.length := by
  unfold scanSymbol at h
  dsimp only at h
  split at h
  · rename_i symbol n hn
    cases h
    have hle := shrinkSymbol_le hn
    have hstop := z.indexOfFirst_le start fun ch => !Symbol.isSymbol ch
    exact ⟨by simp only; omega, by simp only; omega⟩
  · cases h

omit [UnicodeTables] in
/-- A quote is found within the text. -/
theorem charsUntil_le {terminated : Char} {cs text : List Char} {n : ℕ}
    (h : charsUntil terminated cs = some (text, n)) : n ≤ cs.length := by
  fun_induction charsUntil terminated cs generalizing text n with
  | case1 => cases h
  | case2 => cases h; exact Nat.le_refl _
  | case3 => cases h
  -- A doubled quote takes two characters for one.
  | case4 cs ih =>
    obtain ⟨⟨text', n'⟩, hread, heq⟩ := Option.map_eq_some_iff.mp h
    cases heq
    have := ih hread
    simp only [List.length_cons]
    omega
  | case5 c' cs hc' => cases h; simp
  | case6 c c' cs hc ih =>
    obtain ⟨⟨text', n'⟩, hread, heq⟩ := Option.map_eq_some_iff.mp h
    cases heq
    have := ih hread
    simp only [List.length_cons] at this ⊢
    omega

omit [UnicodeTables] in
/-- A quoted text takes a character, and ends within the text. -/
theorem scanChars_progress (z : SqlTokenizer) {start : ℕ} {terminated ch : Char} {token : Token}
    (hch : z.chars[start]? = some ch) (h : z.scanChars start terminated = .ok token) :
    start < token.endOffset ∧ token.endOffset ≤ z.chars.length := by
  obtain ⟨hlt, -⟩ := List.getElem?_eq_some_iff.mp hch
  unfold scanChars at h
  split at h
  · rename_i text n hn
    cases h
    have hle := charsUntil_le hn
    rw [List.length_drop] at hle
    exact ⟨by simp only; omega, by simp only; omega⟩
  · cases h

omit [UnicodeTables] in
/-- A character that is no white space is found from the offset on. -/
theorem le_skipWhitespace (z : SqlTokenizer) {offset : ℕ} {ch : Char}
    (hch : z.chars[z.skipWhitespace offset]? = some ch) : offset ≤ z.skipWhitespace offset := by
  rcases Nat.lt_or_ge z.chars.length offset with hlt | hle
  · have hpast : z.skipWhitespace offset = z.chars.length := by
      unfold skipWhitespace indexOfFirst
      rw [List.drop_eq_nil_of_le (Nat.le_of_lt hlt)]
      rfl
    rw [hpast] at hch
    simp at hch
  · exact z.le_indexOfFirst _ hle

/-- A token ends after the offset it is scanned from. -/
theorem nextToken_progress (z : SqlTokenizer) {offset : ℕ} {token : Token}
    (h : z.nextToken offset = .ok (some token)) :
    offset < token.endOffset ∧ token.endOffset ≤ z.chars.length := by
  unfold nextToken at h
  dsimp only at h
  split at h
  · cases h
  · rename_i ch hch
    -- White space is skipped first; each class of tokens then takes a character.
    suffices z.skipWhitespace offset < token.endOffset ∧ token.endOffset ≤ z.chars.length from
      ⟨Nat.lt_of_le_of_lt (z.le_skipWhitespace hch) this.1, this.2⟩
    split at h
    · rename_i hident
      obtain ⟨t, ht, heq⟩ := Outcome.map_eq_ok_iff.mp h
      cases heq
      exact z.scanIdentifier_progress hch hident ht
    · split at h
      · rename_i hnumber
        cases h
        exact z.scanNumber_progress hch hnumber
      · split at h
        · obtain ⟨t, ht, heq⟩ := Outcome.map_eq_ok_iff.mp h
          cases heq
          exact z.scanSymbol_progress ht
        · split at h
          · obtain ⟨t, ht, heq⟩ := Outcome.map_eq_ok_iff.mp h
            cases heq
            exact z.scanChars_progress hch ht
          · cases h

/-- As many tokens as characters are enough. -/
theorem tokenizeFrom_fuel (z : SqlTokenizer) {fuel fuel' offset : ℕ}
    (h : z.chars.length - offset < fuel) (h' : z.chars.length - offset < fuel') :
    z.tokenizeFrom fuel offset = z.tokenizeFrom fuel' offset := by
  -- Either amount of fuel is more than the characters left, and every token takes one.
  induction fuel generalizing fuel' offset with
  | zero => omega
  | succ fuel ih =>
    obtain _ | fuel' := fuel'
    · omega
    rw [tokenizeFrom, tokenizeFrom]
    cases hnext : z.nextToken offset with
    | error e => rfl
    | ok next =>
      cases next with
      | none => rfl
      | some token =>
        have hprogress := z.nextToken_progress hnext
        have hrest : z.tokenizeFrom fuel token.endOffset = z.tokenizeFrom fuel' token.endOffset :=
          ih (by omega) (by omega)
        simp only [Outcome.ok_bind, hrest]

/-! ## Keywords -/

/-- A word is a token as scanning makes them. -/
theorem scanIdentifier_scanned (z : SqlTokenizer) {start : ℕ} {token : Token}
    (h : z.scanIdentifier start = .ok token) : token.Scanned := by
  unfold scanIdentifier at h
  -- A quoted name is an identifier, whatever it spells.
  split at h
  · obtain ⟨stop, -, rfl⟩ := Outcome.bind_pure_eq_ok_iff.mp h
    exact fun k hk => by cases hk
  · dsimp only at h
    split at h
    · obtain ⟨tokenType, htype, rfl⟩ := Outcome.bind_pure_eq_ok_iff.mp h
      unfold processAmbiguousIdentifier at htype
      dsimp only at htype
      -- ORDER and GROUP become keywords through the table of keywords as well.
      split at htype
      · split at htype
        · rename_i keyword hkeyword
          cases htype
          exact fun k hk => by cases hk; exact hkeyword
        · cases htype
      · cases htype
        exact fun k hk => by cases hk
    · split at h
      · rename_i keyword hkeyword
        cases h
        exact fun k hk => by cases hk; exact hkeyword
      · cases h
        exact fun k hk => by cases hk

/-- So is a number. -/
theorem scanNumber_scanned (z : SqlTokenizer) (start : ℕ) : (z.scanNumber start).Scanned := by
  intro k hk
  unfold scanNumber at hk
  dsimp only at hk
  generalize (if z.chars[start]? = some '-' then start + 1 else start) = digits at hk
  split at hk <;> cases hk

/-- So is the next token. -/
theorem nextToken_scanned (z : SqlTokenizer) {offset : ℕ} {token : Token}
    (h : z.nextToken offset = .ok (some token)) : token.Scanned := by
  unfold nextToken at h
  dsimp only at h
  split at h
  · cases h
  · split at h
    · obtain ⟨t, ht, heq⟩ := Outcome.map_eq_ok_iff.mp h
      cases heq
      exact z.scanIdentifier_scanned ht
    -- Only words become keywords.
    · split at h
      · cases h
        exact z.scanNumber_scanned _
      · split at h
        · obtain ⟨t, ht, heq⟩ := Outcome.map_eq_ok_iff.mp h
          cases heq
          unfold scanSymbol at ht
          dsimp only at ht
          split at ht <;> cases ht
          exact fun k hk => by cases hk
        · split at h
          · obtain ⟨t, ht, heq⟩ := Outcome.map_eq_ok_iff.mp h
            cases heq
            unfold scanChars at ht
            split at ht <;> cases ht
            exact fun k hk => by cases hk
          · cases h

/-- So are the tokens behind a place. -/
theorem tokenizeFrom_scanned (z : SqlTokenizer) {fuel offset : ℕ} {tokens : List Token}
    (h : z.tokenizeFrom fuel offset = .ok tokens) : ∀ t ∈ tokens, t.Scanned := by
  induction fuel generalizing offset tokens with
  | zero => cases h
  | succ fuel ih =>
    rw [tokenizeFrom] at h
    obtain ⟨next, hnext, hrest⟩ := Outcome.bind_eq_ok_iff.mp h
    cases next with
    | none =>
      cases hrest
      exact fun t ht => by cases ht
    | some token =>
      obtain ⟨tokens', htokens, rfl⟩ := Outcome.bind_pure_eq_ok_iff.mp hrest
      exact List.forall_mem_cons.mpr ⟨z.nextToken_scanned hnext, ih htokens⟩

end SqlTokenizer

/-- `SqlTokenizer::new(sql).tokenize()`: the text has at most as many tokens as characters. -/
def tokenize [UnicodeTables] (sql : String) : Result (List Token) :=
  SqlTokenizer.tokenizeFrom ⟨sql.toList⟩ (sql.toList.length + 1) 0

/-- So are the tokens of a text. -/
theorem tokenize_scanned [UnicodeTables] {sql : String} {tokens : List Token}
    (h : tokenize sql = .ok tokens) : ∀ t ∈ tokens, t.Scanned :=
  SqlTokenizer.tokenizeFrom_scanned _ h

end RQuery
