import RQuery.Sql.ParserCorrect
import RQuery.Execution.ExecutionContext

/-!
# Complete statements

`ExecutionContext::sql` reads the statement that a text starts with and drops the tokens behind it,
and a text may end in a clause with nothing in it. `sql_readsAll_iff` says for which texts that
happens: those that start with a statement the planner accepts and go on with a token that cannot
continue it, and those that end in a comma or in the words that start a clause.
-/

namespace RQuery

section

open TokenStream SqlParser

variable [FloatModel]

/-! ## Texts that end open -/

/-- A comma, or the last word in front of what a clause has to say. -/
def TokenType.isOpen : TokenType → Bool
  | .symbol s => s = .comma
  | .keyword k => k ∈ [.«where», .having, .«by»]
  | .literal _ => false

/-- The text ends where something has to follow. -/
def TokenStream.endsOpen (ts : TokenStream) : Prop := ∃ t ∈ ts.getLast?, t.tokenType.isOpen

omit [FloatModel] in
/-- Where the end of a text is open, the text is. -/
theorem TokenStream.endsOpen_suffix {us ts : TokenStream} (h : us <:+ ts) (hus : endsOpen us) :
    endsOpen ts := by
  obtain ⟨t, ht, hopen⟩ := hus
  obtain ⟨vs, rfl⟩ := h
  refine ⟨t, ?_, hopen⟩
  rw [List.getLast?_append, Option.mem_def.mp ht]
  rfl

/-! ### Texts that are read to their end -/

section

variable [UnicodeTables]

omit [FloatModel] in
/-- A scanned token with the text of a keyword is the keyword. -/
theorem tokenType_of_isKeyword {t : Token} {name : String} {k : Keyword} (ht : t.Scanned)
    (h : isKeyword t name) (hname : ∀ c ∈ name.toList, c.toNat < 128 ∧ c.toUpper = c)
    (hk : (Keyword.names.find? fun entry => entry.2 = name).map Prod.fst = some k) :
    t.tokenType = .keyword k := by
  unfold isKeyword at h
  split at h
  · rename_i k' hk'
    have hfound : some k = some k' := (keyword_textOf_eq h hname hk).symm.trans (ht k' hk')
    rw [hk', Option.some.inj hfound]
  · cases h

omit [FloatModel] in
/-- The last of the words that a clause starts with, as the tokenizer gives it. -/
theorem endsOpen_of_behind {keywords : List String} {ts : TokenStream}
    (hkeywords : keywords ∈ [["WHERE"], ["HAVING"], ["GROUP", "BY"], ["ORDER", "BY"]])
    (hscanned : ∀ t ∈ ts, t.Scanned) (h : behind keywords ts = some []) : endsOpen ts := by
  have hlast : ∀ {ts : TokenStream} {name : String} {k : Keyword}, (∀ t ∈ ts, t.Scanned) →
      behind [name] ts = some [] → (name.toList.all fun c => c.toNat < 128 ∧ c.toUpper = c) →
      (Keyword.names.find? fun entry => entry.2 = name).map Prod.fst = some k →
      (TokenType.keyword k).isOpen → endsOpen ts := by
    intro ts name k hscanned h hname hk hopen
    obtain _ | ⟨t, ts⟩ := ts
    · cases h
    · rw [behind] at h
      split at h
      · rename_i hkeyword
        cases h
        refine ⟨t, rfl, ?_⟩
        have hletters : ∀ c ∈ name.toList, c.toNat < 128 ∧ c.toUpper = c := by
          simpa only [List.all_eq_true, decide_eq_true_eq] using hname
        rwa [tokenType_of_isKeyword (hscanned t List.mem_cons_self) hkeyword hletters hk]
      · cases h
  have hsecond : ∀ {first second : String}, behind [first, second] ts = some [] →
      ∃ us, us <:+ ts ∧ behind [second] us = some [] := by
    intro first second h
    obtain _ | ⟨t, ts⟩ := ts
    · cases h
    · rw [behind] at h
      split at h
      · exact ⟨ts, List.suffix_cons t ts, h⟩
      · cases h
  simp only [List.mem_cons, List.not_mem_nil, or_false] at hkeywords
  rcases hkeywords with rfl | rfl | rfl | rfl
  · exact hlast (k := .«where») hscanned h (by decide) (by decide) rfl
  · exact hlast (k := .having) hscanned h (by decide) (by decide) rfl
  · obtain ⟨us, hus, h⟩ := hsecond h
    exact endsOpen_suffix hus (hlast (k := .«by») (fun t ht => hscanned t (hus.subset ht)) h
      (by decide) (by decide) rfl)
  · obtain ⟨us, hus, h⟩ := hsecond h
    exact endsOpen_suffix hus (hlast (k := .«by») (fun t ht => hscanned t (hus.subset ht)) h
      (by decide) (by decide) rfl)

/-- The tokens come from a text, and if nothing is left they do not end open. -/
structure TokenStream.Closed (ts rest : TokenStream) : Prop where
  scanned : ∀ t ∈ ts, t.Scanned
  closed : rest = [] → ¬ endsOpen ts

omit [FloatModel] in
/-- The end of a closed text is closed. -/
theorem TokenStream.Closed.suffix {ts us rest : TokenStream} (h : Closed ts rest)
    (hus : us <:+ ts) : Closed us rest where
  scanned := fun t ht => h.scanned t (hus.subset ht)
  closed := fun hrest hopen => h.closed hrest (endsOpen_suffix hus hopen)

omit [FloatModel] in
/-- A text that is closed to its end is closed to any place before it. -/
theorem TokenStream.Closed.front {ts mid rest : TokenStream} (h : Closed ts rest)
    (hmid : rest <:+ mid) : Closed ts mid where
  scanned := h.scanned
  closed := fun hnil => h.closed (List.suffix_nil.mp (hnil ▸ hmid))

/-- The clauses of a statement. -/
def Phrase.Known : Phrase → Prop
  | condition keywords _ => keywords ∈ [["WHERE"], ["HAVING"], ["GROUP", "BY"], ["ORDER", "BY"]]
  | listing keywords _ => keywords ∈ [["WHERE"], ["HAVING"], ["GROUP", "BY"], ["ORDER", "BY"]]
  | _ => True

/-- A text that does not end open is read without passing over anything. -/
theorem Spells.strict {φ : Phrase} {ts rest : TokenStream} (h : Spells True φ ts rest)
    (hφ : φ.Known) (hclosed : Closed ts rest) : Spells False φ ts rest := by
  induction h with
  -- A leaf is read alike. Otherwise each premise gets its part of the tokens, which ends before the
  -- end or at the same closed end.
  | name ht => exact .name ht
  | star ht => exact .star ht
  | string ht => exact .string ht
  | long ht hv => exact .long ht hv
  | double ht hv => exact .double ht hv
  | date hk ht => exact .date hk ht
  | interval hk ht => exact .interval hk ht
  | paren hl he hr ih =>
    exact .paren hl (ih trivial
      ((hclosed.suffix (List.suffix_cons _ _)).front (List.suffix_cons _ _))) hr
  | cast hk hl he hr ih =>
    exact .cast hk hl (ih trivial ((hclosed.suffix
      ((List.suffix_cons _ _).trans (List.suffix_cons _ _))).front (List.suffix_cons _ _))) hr
  | subselect hk hs ih => exact .subselect hk (ih trivial (hclosed.suffix (List.suffix_cons _ _)))
  | operand he ih => exact .operand (ih trivial hclosed)
  | binary hl ht hlevel hr hrest ihl ihr =>
    have hus := (List.suffix_cons _ _).trans hl.suffix
    exact .binary (ihl trivial (hclosed.front (hr.suffix.trans (List.suffix_cons _ _)))) ht hlevel
      (ihr trivial (hclosed.suffix hus)) hrest
  | aliased he ht hlevel hname hrest ihe ihname =>
    have hus := (List.suffix_cons _ _).trans he.suffix
    exact .aliased (ihe trivial (hclosed.front (hname.suffix.trans (List.suffix_cons _ _)))) ht
      hlevel (ihname trivial (hclosed.suffix hus)) hrest
  | ascending he ht hlevel ih =>
    exact .ascending (ih trivial (hclosed.front (List.suffix_cons _ _))) ht hlevel
  | descending he ht hlevel ih =>
    exact .descending (ih trivial (hclosed.front (List.suffix_cons _ _))) ht hlevel
  | call hid hl hlevel hargs ihid ihargs =>
    have hus := (List.suffix_cons _ _).trans hid.suffix
    exact .call (ihid trivial (hclosed.front (hargs.suffix.trans (List.suffix_cons _ _)))) hl hlevel
      (ihargs trivial (hclosed.suffix hus))
  | noArguments hr => exact .noArguments hr
  | arguments hes hr ih =>
    exact .arguments (ih trivial (hclosed.front (List.suffix_cons _ _))) hr
  | last he hrest hcomma ih => exact .last (ih trivial hclosed) hrest hcomma
  | cons he hc hes ihe ihes =>
    have hus := (List.suffix_cons _ _).trans he.suffix
    exact .cons (ihe trivial (hclosed.front (hes.suffix.trans (List.suffix_cons _ _)))) hc
      (ihes trivial (hclosed.suffix hus))
  | @comma e c ts hlax he hc ih =>
    -- A comma at the end would be an open last token.
    refine absurd (endsOpen_suffix he.suffix ⟨c, rfl, ?_⟩) (hclosed.closed rfl)
    rw [hc]
    rfl
  | noCondition hts => exact .noCondition hts
  | condition hts he hrest ih =>
    exact .condition hts (ih trivial (hclosed.suffix (behind_suffix hts))) hrest
  | bareCondition hlax hts =>
    exact absurd (endsOpen_of_behind hφ hclosed.scanned hts) (hclosed.closed rfl)
  | noListing hts => exact .noListing hts
  | listing hts hes ih => exact .listing hts (ih trivial (hclosed.suffix (behind_suffix hts)))
  | bareListing hlax hts =>
    exact absurd (endsOpen_of_behind hφ hclosed.scanned hts) (hclosed.closed rfl)
  | noLimit hts => exact .noLimit hts
  | limit hts hv hrest ih =>
    exact .limit hts (ih trivial (hclosed.suffix (behind_suffix hts))) hrest
  | select hprojection hfrom htable hprecedence hwhere hgroup hhaving horder hkeys hlimit
      ih₁ ih₂ ih₃ ih₄ ih₅ ih₆ ih₇ =>
    have hs₆ := hlimit.suffix
    have hs₅ := hs₆.trans horder.suffix
    have hs₄ := hs₅.trans hhaving.suffix
    have hs₃ := hs₄.trans hgroup.suffix
    have hs₂ := hs₃.trans hwhere.suffix
    have hs₁ := hs₂.trans (htable.suffix.trans (behind_suffix hfrom))
    have h₁ := hclosed.suffix ((behind_suffix hfrom).trans hprojection.suffix)
    have h₂ := h₁.suffix htable.suffix
    have h₃ := h₂.suffix hwhere.suffix
    have h₄ := h₃.suffix hgroup.suffix
    have h₅ := h₄.suffix hhaving.suffix
    have h₆ := h₅.suffix horder.suffix
    exact .select (ih₁ trivial (hclosed.front hs₁)) hfrom (ih₂ trivial (h₁.front hs₂)) hprecedence
      (ih₃ (by simp [Phrase.Known]) (h₂.front hs₃)) (ih₄ (by simp [Phrase.Known]) (h₃.front hs₄))
      (ih₅ (by simp [Phrase.Known]) (h₄.front hs₅)) (ih₆ (by simp [Phrase.Known]) (h₅.front hs₆))
      hkeys (ih₇ trivial h₆)

end

/-- What stands in front of `rest` does not end open. -/
def TokenStream.EndsClosed (ts rest : TokenStream) : Prop := ∀ xs, ts = xs ++ rest → ¬ endsOpen xs

omit [FloatModel] in
/-- Nothing ends closed. -/
theorem TokenStream.endsClosed_refl (ts : TokenStream) : EndsClosed ts ts := by
  rintro xs h ⟨t, ht, -⟩
  obtain rfl : xs = [] := List.self_eq_append_left.mp h
  cases ht

omit [FloatModel] in
/-- A token that does not open anything ends closed. -/
theorem TokenStream.endsClosed_cons {t : Token} (ht : ¬ t.tokenType.isOpen) (rest : TokenStream) :
    EndsClosed (t :: rest) rest := by
  rintro xs h ⟨t', ht', hopen⟩
  have happend : [t] ++ rest = xs ++ rest := h
  obtain rfl := List.append_cancel_right happend
  cases ht'
  exact ht hopen

omit [FloatModel] in
/-- Only what is taken last counts. -/
theorem TokenStream.EndsClosed.of_suffix {ts us rest : TokenStream} (h : EndsClosed us rest)
    (hus : us <:+ ts) (hrest : rest <:+ us) (hlength : rest.length < us.length) :
    EndsClosed ts rest := by
  rintro xs hxs ⟨t, ht, hopen⟩
  obtain ⟨ys, rfl⟩ := hrest
  obtain ⟨zs, rfl⟩ := hus
  have hsplit : xs = zs ++ ys := by
    rw [← List.append_assoc] at hxs
    exact (List.append_cancel_right hxs).symm
  have hys : ys ≠ [] := by
    rintro rfl
    simp at hlength
  refine h ys rfl ⟨t, ?_, hopen⟩
  rw [hsplit, List.getLast?_append] at ht
  obtain ⟨last, hlast⟩ := Option.isSome_iff_exists.mp (List.getLast?_isSome.mpr hys)
  rw [hlast] at ht ⊢
  exact ht

omit [FloatModel] in
/-- A text ends closed if its second part does. -/
theorem TokenStream.EndsClosed.trans {ts us rest : TokenStream} (h : EndsClosed us rest)
    (hfront : EndsClosed ts us) (hus : us <:+ ts) (hrest : rest <:+ us) : EndsClosed ts rest := by
  rcases Nat.lt_or_ge rest.length us.length with hlt | hge
  · exact h.of_suffix hus hrest hlt
  · rw [hrest.eq_of_length_le hge]
    exact hfront

omit [FloatModel] in
/-- A name opens nothing. -/
theorem TokenType.not_isOpen_of_isName {t : TokenType} (h : t.isName) : ¬ t.isOpen := by
  cases t with
  | keyword k =>
    have hk : k ∈ [.min, .max, .sum, .avg, .count, .int, .double] := by simpa [isName] using h
    simp only [List.mem_cons, List.not_mem_nil, or_false] at hk
    rcases hk with rfl | rfl | rfl | rfl | rfl | rfl | rfl <;> decide
  | symbol s => cases h
  | literal l => simp [isOpen]

/-- A list has an element. -/
theorem Spells.exprs_length {lax : Prop} {es : List SqlExpr} {ts rest : TokenStream}
    (h : Spells lax (.exprs es) ts rest) : rest.length < ts.length := by
  have hlength := h.length_le
  have hpos : 0 < es.length := by cases h <;> exact Nat.succ_pos _
  simp only [Phrase.minLength] at hlength
  omega

/-- What is read without passing over anything does not end open. -/
theorem Spells.endsClosed {φ : Phrase} {ts rest : TokenStream} (h : Spells False φ ts rest) :
    EndsClosed ts rest := by
  induction h with
  | name ht => exact endsClosed_cons (TokenType.not_isOpen_of_isName ht) _
  | star ht => exact endsClosed_cons (by rw [ht]; decide) _
  | string ht => exact endsClosed_cons (by rw [ht]; decide) _
  | long ht hv => exact endsClosed_cons (by rw [ht]; decide) _
  | double ht hv => exact endsClosed_cons (by rw [ht]; decide) _
  | date hk ht | interval hk ht =>
    exact (endsClosed_cons (by rw [ht]; decide) _).of_suffix (List.suffix_cons _ _)
      (List.suffix_cons _ _) (Nat.lt_succ_self _)
  | paren hl he hr ih =>
    exact (endsClosed_cons (by rw [hr]; decide) _).of_suffix
      (he.suffix.trans (List.suffix_cons _ _)) (List.suffix_cons _ _) (Nat.lt_succ_self _)
  | cast hk hl he hr ih =>
    exact (endsClosed_cons (by rw [hr]; decide) _).of_suffix
      ((he.suffix.trans (List.suffix_cons _ _)).trans (List.suffix_cons _ _))
      (List.suffix_cons _ _) (Nat.lt_succ_self _)
  | subselect hk hs ih => exact ih.of_suffix (List.suffix_cons _ _) hs.suffix hs.length_le
  | operand he ih | last he hrest hcomma ih => exact ih
  | binary hl ht hlevel hr hrest ihl ihr =>
    exact ihr.of_suffix ((List.suffix_cons _ _).trans hl.suffix) hr.suffix hr.length_le
  | aliased he ht hlevel hname hrest ihe ihname =>
    exact ihname.of_suffix ((List.suffix_cons _ _).trans he.suffix) hname.suffix hname.length_le
  | ascending he ht hlevel ih | descending he ht hlevel ih =>
    exact (endsClosed_cons (by rw [ht]; decide) _).of_suffix he.suffix (List.suffix_cons _ _)
      (Nat.lt_succ_self _)
  | call hid hl hlevel hargs ihid ihargs =>
    exact ihargs.of_suffix ((List.suffix_cons _ _).trans hid.suffix) hargs.suffix hargs.length_le
  | noArguments hr => exact endsClosed_cons (by rw [hr]; decide) _
  | arguments hes hr ih =>
    exact (endsClosed_cons (by rw [hr]; decide) _).of_suffix hes.suffix (List.suffix_cons _ _)
      (Nat.lt_succ_self _)
  | cons he hc hes ihe ihes =>
    exact ihes.of_suffix ((List.suffix_cons _ _).trans he.suffix) hes.suffix hes.exprs_length
  -- The strict grammar has none of these rules.
  | comma hlax _ _ | bareCondition hlax _ | bareListing hlax _ => exact hlax.elim
  | noCondition _ | noListing _ | noLimit _ => exact endsClosed_refl _
  | condition hts he hrest ih => exact ih.of_suffix (behind_suffix hts) he.suffix he.length_le
  | listing hts hes ih => exact ih.of_suffix (behind_suffix hts) hes.suffix hes.exprs_length
  | limit hts hv hrest ih => exact ih.of_suffix (behind_suffix hts) hv.suffix hv.length_le
  | select hprojection hfrom htable hprecedence hwhere hgroup hhaving horder hkeys hlimit
      ih₁ ih₂ ih₃ ih₄ ih₅ ih₆ ih₇ =>
    have hclosed₂ := ih₂.of_suffix ((behind_suffix hfrom).trans hprojection.suffix) htable.suffix
      htable.length_le
    have hs₂ := htable.suffix.trans ((behind_suffix hfrom).trans hprojection.suffix)
    have hclosed₃ := ih₃.trans hclosed₂ hs₂ hwhere.suffix
    have hs₃ := hwhere.suffix.trans hs₂
    have hclosed₄ := ih₄.trans hclosed₃ hs₃ hgroup.suffix
    have hs₄ := hgroup.suffix.trans hs₃
    have hclosed₅ := ih₅.trans hclosed₄ hs₄ hhaving.suffix
    have hs₅ := hhaving.suffix.trans hs₄
    have hclosed₆ := ih₆.trans hclosed₅ hs₅ horder.suffix
    exact ih₇.trans hclosed₆ (horder.suffix.trans hs₅) hlimit.suffix

variable [UnicodeTables]

/-- A text is a complete statement exactly when the parser reads it to its end and it does not end
open. -/
theorem spells_strict_iff {s : SqlSelect} {ts : TokenStream} (hscanned : ∀ t ∈ ts, t.Scanned) :
    Spells False (.expr 0 (.select s)) ts [] ↔
      Spells True (.expr 0 (.select s)) ts [] ∧ ¬ endsOpen ts := by
  constructor
  · intro h
    exact ⟨h.mono False.elim, h.endsClosed ts (List.append_nil ts).symm⟩
  · rintro ⟨h, hclosed⟩
    exact h.strict trivial ⟨hscanned, fun _ => hclosed⟩

/-! ## Texts that are read to their end -/

omit [UnicodeTables] in
/-- A statement that is parsed is one that is spelled, in front of what does not continue it. -/
theorem parseStatement_eq_ok_iff {tokens rest : TokenStream} {s : SqlSelect} :
    parseStatement tokens = .ok (s, rest) ↔
      Spells True (.expr 0 (.select s)) tokens rest ∧ precedenceAt rest = 0 := by
  rw [← Nat.le_zero, ← parse_eq_ok_iff, parseStatement, Outcome.bind_eq_ok_iff]
  constructor
  · rintro ⟨⟨parsed, rest'⟩, hparse, h⟩
    dsimp only at h
    split at h
    · cases h
      exact hparse
    · cases h
  · exact fun h => ⟨_, h, rfl⟩

variable [Readers] [DateParser]

/-- Where the text gives a data frame, it is a complete statement and no token is left. -/
def ExecutionContext.ReadsAll (ctx : ExecutionContext) (text : String) : Prop :=
  ∀ df, ctx.sql text = .ok df → ∃ tokens s, tokenize text = .ok tokens ∧
    parseStatement tokens = .ok (s, []) ∧ Spells False (.expr 0 (.select s)) tokens []

/-- Nothing of a text is ignored exactly when the statement that it starts with is followed by
nothing and does not end open, or is rejected by the planner. -/
theorem sql_readsAll_iff (ctx : ExecutionContext) (text : String) :
    ctx.ReadsAll text ↔ ∀ tokens s rest, tokenize text = .ok tokens →
      Spells True (.expr 0 (.select s)) tokens rest → precedenceAt rest = 0 →
      Outcome.Succeeds (SqlPlanner.createDataFrame s ctx.tables) → rest = [] ∧ ¬ endsOpen tokens := by
  constructor
  -- A text that is planned has been read; by assumption it was read as a whole.
  · rintro hreads tokens s rest htokens hspells hrest ⟨df, hdf⟩
    have hparse := parseStatement_eq_ok_iff.mpr ⟨hspells, hrest⟩
    have hsql : ctx.sql text = .ok df := by
      simp [ExecutionContext.sql, htokens, hparse, hdf]
    obtain ⟨tokens', s', htokens', hparse', hstrict⟩ := hreads df hsql
    cases htokens.symm.trans htokens'
    cases hparse.symm.trans hparse'
    exact ⟨rfl, ((spells_strict_iff (tokenize_scanned htokens)).mp hstrict).2⟩
  · intro hall df hsql
    obtain ⟨tokens, htokens, hsql⟩ := Outcome.bind_eq_ok_iff.mp hsql
    obtain ⟨⟨s, rest⟩, hparse, hdf⟩ := Outcome.bind_eq_ok_iff.mp hsql
    obtain ⟨hspells, hrest⟩ := parseStatement_eq_ok_iff.mp hparse
    obtain ⟨rfl, hclosed⟩ := hall tokens s rest htokens hspells hrest ⟨df, hdf⟩
    exact ⟨tokens, s, htokens, hparse,
      (spells_strict_iff (tokenize_scanned htokens)).mpr ⟨hspells, hclosed⟩⟩

end

section

attribute [local instance] integerFloats asciiTables

local instance noStatementFiles : Readers := parquetDisk fun _ => none

local instance noStatementDates : DateParser := ⟨fun _ => none, DateParser.none_range⟩

/-- A context with one table of one column. -/
def oneColumnContext : ExecutionContext :=
  ⟨1024, fun name => if name = "t" then some ⟨.scan ⟨"t", .inMemory ⟨⟨[⟨"a", .int32⟩]⟩, [], by simp⟩,
    [], ⟨[⟨"a", .int32⟩]⟩, rfl⟩⟩ else none⟩

/-- `<>` has no precedence: the text is run as `SELECT a FROM t WHERE a`. -/
theorem sql_drops_notEqual : ¬ oneColumnContext.ReadsAll "SELECT a FROM t WHERE a <> 1" := by
  intro h
  obtain ⟨df, hdf⟩ :
      Outcome.Succeeds (oneColumnContext.sql "SELECT a FROM t WHERE a <> 1") := by decide +kernel
  obtain ⟨tokens, s, htokens, hparse, -⟩ := h df hdf
  have hleft : (do
      let r ← parseStatement (← tokenize "SELECT a FROM t WHERE a <> 1")
      return r.2.length) = (.ok 2 : Result ℕ) := by decide +kernel
  rw [htokens, Outcome.ok_bind, hparse] at hleft
  cases hleft

end

end RQuery
