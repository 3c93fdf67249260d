import RQuery.Sql.UniqueReading

/-!
# Complete clauses

A statement is complete if each of its clauses has what it is to say (`Spells False`). `CutOff φ ts`
says that the tokens `ts` are a phrase up to the place where a clause or the next item of a list would
begin: they end in `WHERE`, `HAVING`, `GROUP BY` or `ORDER BY`, or in a comma of one of these lists.

The parser reads a statement that is cut off as if the last keywords or the comma were not there, and
every other statement that it reads is complete (`completeClauses_iff`).
-/

namespace RQuery

open TokenStream SqlParser

section

variable [FloatModel]

/-- The tokens of a statement behind `SELECT`, up to the clauses. -/
structure SqlSelect.Head (s : SqlSelect) (ts ts₁ ts₂ rest : TokenStream) : Prop where
  projection : Spells False (.exprs s.projection) ts ts₁
  «from» : behind ["FROM"] ts₁ = some ts₂
  table : Spells False (.expr 0 (.identifier s.tableName)) ts₂ rest
  precedence : precedenceAt rest = 0

/-- The tokens are the phrase up to a clause with nothing in it, or up to a comma. -/
inductive CutOff : Phrase → TokenStream → Prop
  | subselect {k : Token} {s : SqlSelect} {ts : TokenStream} (hk : k.tokenType = .keyword .select)
      (hs : CutOff (.select s) ts) : CutOff (.operand (.select s)) (k :: ts)
  | operand {level : ℕ} {e : SqlExpr} {ts : TokenStream} (he : CutOff (.operand e) ts) :
    CutOff (.expr level e) ts
  | binary {level : ℕ} {l r : SqlExpr} {t : Token} {ts us : TokenStream}
      (hl : Spells False (.expr level l) ts (t :: us)) (ht : t.tokenType.isOperator)
      (hlevel : level < precedence t.tokenType)
      (hr : CutOff (.expr (precedence t.tokenType) r) us) :
    CutOff (.expr level (.binaryExpr l t.text r)) ts
  | last {e : SqlExpr} {ts : TokenStream} (he : CutOff (.expr 0 e) ts) : CutOff (.exprs [e]) ts
  | cons {e : SqlExpr} {es : List SqlExpr} {c : Token} {ts us : TokenStream}
      (he : Spells False (.expr 0 e) ts (c :: us)) (hc : c.tokenType = .symbol .comma)
      (hes : CutOff (.exprs es) us) : CutOff (.exprs (e :: es)) ts
  | comma {e : SqlExpr} {c : Token} {ts : TokenStream} (he : Spells False (.expr 0 e) ts [c])
      (hc : c.tokenType = .symbol .comma) : CutOff (.exprs [e]) ts
  | condition {keywords : List String} {e : SqlExpr} {ts us : TokenStream}
      (hts : behind keywords ts = some us) (he : CutOff (.expr 0 e) us) :
    CutOff (.condition keywords (some e)) ts
  | bareCondition {keywords : List String} {ts : TokenStream} (hts : behind keywords ts = some []) :
    CutOff (.condition keywords none) ts
  | listing {keywords : List String} {es : List SqlExpr} {ts us : TokenStream}
      (hts : behind keywords ts = some us) (hes : CutOff (.exprs es) us) :
    CutOff (.listing keywords es) ts
  | bareListing {keywords : List String} {ts : TokenStream} (hts : behind keywords ts = some []) :
    CutOff (.listing keywords []) ts
  | selection {s : SqlSelect} {ts ts₁ ts₂ ts₃ : TokenStream} (hhead : s.Head ts ts₁ ts₂ ts₃)
      (hcut : CutOff (.condition ["WHERE"] s.selection) ts₃) (hgroup : s.groupBy = [])
      (hhaving : s.having = none) (horder : s.orderBy = []) (hlimit : s.limit = none) :
    CutOff (.select s) ts
  | groupBy {s : SqlSelect} {ts ts₁ ts₂ ts₃ ts₄ : TokenStream} (hhead : s.Head ts ts₁ ts₂ ts₃)
      (hwhere : Spells False (.condition ["WHERE"] s.selection) ts₃ ts₄)
      (hcut : CutOff (.listing ["GROUP", "BY"] s.groupBy) ts₄) (hhaving : s.having = none)
      (horder : s.orderBy = []) (hlimit : s.limit = none) : CutOff (.select s) ts
  | having {s : SqlSelect} {ts ts₁ ts₂ ts₃ ts₄ ts₅ : TokenStream} (hhead : s.Head ts ts₁ ts₂ ts₃)
      (hwhere : Spells False (.condition ["WHERE"] s.selection) ts₃ ts₄)
      (hgroup : Spells False (.listing ["GROUP", "BY"] s.groupBy) ts₄ ts₅)
      (hcut : CutOff (.condition ["HAVING"] s.having) ts₅) (horder : s.orderBy = [])
      (hlimit : s.limit = none) : CutOff (.select s) ts
  | orderBy {s : SqlSelect} {keys : List SqlExpr} {ts ts₁ ts₂ ts₃ ts₄ ts₅ ts₆ : TokenStream}
      (hhead : s.Head ts ts₁ ts₂ ts₃)
      (hwhere : Spells False (.condition ["WHERE"] s.selection) ts₃ ts₄)
      (hgroup : Spells False (.listing ["GROUP", "BY"] s.groupBy) ts₄ ts₅)
      (hhaving : Spells False (.condition ["HAVING"] s.having) ts₅ ts₆)
      (hcut : CutOff (.listing ["ORDER", "BY"] keys) ts₆)
      (hkeys : keys.mapM normalizeSort = .ok s.orderBy) (hlimit : s.limit = none) :
    CutOff (.select s) ts

/-! ## What is read is complete or cut off -/

/-- An expression that is cut off ends in a statement. -/
theorem CutOff.not_identifier {level : ℕ} {name : String} {ts : TokenStream} :
    ¬ CutOff (.expr level (.identifier name)) ts := by
  rintro (_ | ⟨⟨⟩⟩)

/-- A number is not cut off. -/
theorem CutOff.not_long {level : ℕ} {v : Int64} {ts : TokenStream} :
    ¬ CutOff (.expr level (.long v)) ts := by
  rintro (_ | ⟨⟨⟩⟩)

/-- There are no clauses behind the end. -/
theorem spells_condition_nil_iff {lax : Prop} {k : String} {keywords : List String}
    {e : Option SqlExpr} {rest : TokenStream} :
    Spells lax (.condition (k :: keywords) e) [] rest ↔ e = none ∧ rest = [] := by
  constructor
  · intro h
    cases h with
    | noCondition _ => exact ⟨rfl, rfl⟩
    | condition hts _ _ | bareCondition _ hts => cases hts
  · rintro ⟨rfl, rfl⟩
    exact .noCondition rfl

/-- At the end of the text a listing is missing. -/
theorem spells_listing_nil_iff {lax : Prop} {k : String} {keywords : List String}
    {es : List SqlExpr} {rest : TokenStream} :
    Spells lax (.listing (k :: keywords) es) [] rest ↔ es = [] ∧ rest = [] := by
  constructor
  · intro h
    cases h with
    | noListing _ => exact ⟨rfl, rfl⟩
    | listing hts _ | bareListing _ hts => cases hts
  · rintro ⟨rfl, rfl⟩
    exact .noListing rfl

/-- At the end of the text a limit is missing. -/
theorem spells_limit_nil_iff {lax : Prop} {n : Option Int32} {rest : TokenStream} :
    Spells lax (.limit n) [] rest ↔ n = none ∧ rest = [] := by
  constructor
  · intro h
    cases h with
    | noLimit _ => exact ⟨rfl, rfl⟩
    | limit hts _ _ => cases hts
  · rintro ⟨rfl, rfl⟩
    exact .noLimit rfl

/-- Without sort items there is no order. -/
theorem eq_nil_of_mapM_nil {orderBy : List SqlExpr} {f : SqlExpr → Result SqlExpr}
    (h : ([] : List SqlExpr).mapM f = .ok orderBy) : orderBy = [] := by
  rw [List.mapM_nil] at h
  cases h
  rfl

/-- What is read is complete, or it is cut off by the end of the text. -/
theorem Spells.strict_or_cutOff {φ : Phrase} {ts rest : TokenStream} (h : Spells True φ ts rest) :
    Spells False φ ts rest ∨ rest = [] ∧ CutOff φ ts := by
  induction h with
  | name ht => exact .inl (.name ht)
  | star ht => exact .inl (.star ht)
  | string ht => exact .inl (.string ht)
  | long ht hv => exact .inl (.long ht hv)
  | double ht hv => exact .inl (.double ht hv)
  | date hk ht => exact .inl (.date hk ht)
  | interval hk ht => exact .inl (.interval hk ht)
  -- The closing parenthesis stands behind the expression, so the tokens did not end inside it.
  | paren hl _ hr ih =>
    rcases ih with he | ⟨hnil, -⟩
    · exact .inl (.paren hl he hr)
    · cases hnil
  | cast hk hl _ hr ih =>
    rcases ih with he | ⟨hnil, -⟩
    · exact .inl (.cast hk hl he hr)
    · cases hnil
  | subselect hk _ ih =>
    rcases ih with hs | ⟨hnil, hs⟩
    · exact .inl (.subselect hk hs)
    · exact .inr ⟨hnil, .subselect hk hs⟩
  | operand _ ih =>
    rcases ih with he | ⟨hnil, he⟩
    · exact .inl (.operand he)
    · exact .inr ⟨hnil, .operand he⟩
  | binary _ ht hlevel _ hrest ihl ihr =>
    -- The operator stands behind the left operand; only the right one can be cut off.
    rcases ihl with hl | ⟨hnil, -⟩
    · rcases ihr with hr | ⟨hnil, hr⟩
      · exact .inl (.binary hl ht hlevel hr hrest)
      · exact .inr ⟨hnil, .binary hl ht hlevel hr⟩
    · cases hnil
  | aliased _ ht hlevel _ hrest ihe ihname =>
    rcases ihe with he | ⟨hnil, -⟩
    · rcases ihname with hname | ⟨-, hname⟩
      · exact .inl (.aliased he ht hlevel hname hrest)
      · exact absurd hname CutOff.not_identifier
    · cases hnil
  | ascending _ ht hlevel ih =>
    rcases ih with he | ⟨hnil, -⟩
    · exact .inl (.ascending he ht hlevel)
    · cases hnil
  | descending _ ht hlevel ih =>
    rcases ih with he | ⟨hnil, -⟩
    · exact .inl (.descending he ht hlevel)
    · cases hnil
  | call _ hl hlevel _ ihid ihargs =>
    rcases ihid with hid | ⟨hnil, -⟩
    · rcases ihargs with hargs | ⟨-, hargs⟩
      · exact .inl (.call hid hl hlevel hargs)
      · cases hargs
    · cases hnil
  | noArguments hr => exact .inl (.noArguments hr)
  | arguments _ hr ih =>
    rcases ih with hes | ⟨hnil, -⟩
    · exact .inl (.arguments hes hr)
    · cases hnil
  | last _ hrest hcomma ih =>
    rcases ih with he | ⟨hnil, he⟩
    · exact .inl (.last he hrest hcomma)
    · exact .inr ⟨hnil, .last he⟩
  | cons _ hc _ ihe ihes =>
    rcases ihe with he | ⟨hnil, -⟩
    · rcases ihes with hes | ⟨hnil, hes⟩
      · exact .inl (.cons he hc hes)
      · exact .inr ⟨hnil, .cons he hc hes⟩
    · cases hnil
  | comma _ _ hc ih =>
    rcases ih with he | ⟨hnil, -⟩
    · exact .inr ⟨rfl, .comma he hc⟩
    · cases hnil
  | noCondition hts => exact .inl (.noCondition hts)
  | condition hts _ hrest ih =>
    rcases ih with he | ⟨hnil, he⟩
    · exact .inl (.condition hts he hrest)
    · exact .inr ⟨hnil, .condition hts he⟩
  | bareCondition _ hts => exact .inr ⟨rfl, .bareCondition hts⟩
  | noListing hts => exact .inl (.noListing hts)
  | listing hts _ ih =>
    rcases ih with hes | ⟨hnil, hes⟩
    · exact .inl (.listing hts hes)
    · exact .inr ⟨hnil, .listing hts hes⟩
  | bareListing _ hts => exact .inr ⟨rfl, .bareListing hts⟩
  | noLimit hts => exact .inl (.noLimit hts)
  | limit hts _ hrest ih =>
    rcases ih with hv | ⟨-, hv⟩
    · exact .inl (.limit hts hv hrest)
    · exact absurd hv CutOff.not_long
  | @select s keys ts ts₁ ts₂ ts₃ ts₄ ts₅ ts₆ ts₇ rest hprojection hfrom htable hprecedence hwhere
      hgroup hhaving horder hkeys hlimit ih₁ ih₂ ih₃ ih₄ ih₅ ih₆ ih₇ =>
    -- The keyword FROM stands behind the projection, and the table is a name.
    have hhead : s.Head ts ts₁ ts₂ ts₃ := by
      refine ⟨ih₁.resolve_right ?_, hfrom, ih₂.resolve_right ?_, hprecedence⟩
      · rintro ⟨rfl, -⟩
        cases hfrom
      · exact fun hcut => CutOff.not_identifier hcut.2
    -- The first clause that is cut off ends the tokens, so the clauses behind it are absent.
    rcases ih₃ with hwhere' | ⟨rfl, hcut⟩
    · rcases ih₄ with hgroup' | ⟨rfl, hcut⟩
      · rcases ih₅ with hhaving' | ⟨rfl, hcut⟩
        · rcases ih₆ with horder' | ⟨rfl, hcut⟩
          · rcases ih₇ with hlimit' | ⟨-, hcut⟩
            · exact .inl (.select hhead.projection hfrom hhead.table hprecedence hwhere' hgroup'
                hhaving' horder' hkeys hlimit')
            · cases hcut
          · obtain ⟨hnoLimit, rfl⟩ := spells_limit_nil_iff.mp hlimit
            exact .inr ⟨rfl, .orderBy hhead hwhere' hgroup' hhaving' hcut hkeys hnoLimit⟩
        · obtain ⟨rfl, rfl⟩ := spells_listing_nil_iff.mp horder
          obtain ⟨hnoLimit, rfl⟩ := spells_limit_nil_iff.mp hlimit
          exact .inr ⟨rfl, .having hhead hwhere' hgroup' hcut (eq_nil_of_mapM_nil hkeys) hnoLimit⟩
      · obtain ⟨hnoHaving, rfl⟩ := spells_condition_nil_iff.mp hhaving
        obtain ⟨rfl, rfl⟩ := spells_listing_nil_iff.mp horder
        obtain ⟨hnoLimit, rfl⟩ := spells_limit_nil_iff.mp hlimit
        exact .inr ⟨rfl, .groupBy hhead hwhere' hcut hnoHaving (eq_nil_of_mapM_nil hkeys) hnoLimit⟩
    · obtain ⟨hnoGroup, rfl⟩ := spells_listing_nil_iff.mp hgroup
      obtain ⟨hnoHaving, rfl⟩ := spells_condition_nil_iff.mp hhaving
      obtain ⟨rfl, rfl⟩ := spells_listing_nil_iff.mp horder
      obtain ⟨hnoLimit, rfl⟩ := spells_limit_nil_iff.mp hlimit
      exact .inr ⟨rfl,
        .selection hhead hcut hnoGroup hnoHaving (eq_nil_of_mapM_nil hkeys) hnoLimit⟩

/-! ## What is cut off is read -/

/-- The clauses make up the statement. -/
theorem SqlSelect.Head.spells {s : SqlSelect} {ts ts₁ ts₂ ts₃ ts₄ ts₅ ts₆ ts₇ : TokenStream}
    {keys : List SqlExpr} (h : s.Head ts ts₁ ts₂ ts₃)
    (hwhere : Spells True (.condition ["WHERE"] s.selection) ts₃ ts₄)
    (hgroup : Spells True (.listing ["GROUP", "BY"] s.groupBy) ts₄ ts₅)
    (hhaving : Spells True (.condition ["HAVING"] s.having) ts₅ ts₆)
    (horder : Spells True (.listing ["ORDER", "BY"] keys) ts₆ ts₇)
    (hkeys : keys.mapM normalizeSort = .ok s.orderBy) (hlimit : Spells True (.limit s.limit) ts₇ []) :
    Spells True (.select s) ts [] :=
  .select (h.projection.mono False.elim) h.from (h.table.mono False.elim) h.precedence hwhere hgroup
    hhaving horder hkeys hlimit

/-- What is cut off is read all the same. -/
theorem CutOff.spells {φ : Phrase} {ts : TokenStream} (h : CutOff φ ts) : Spells True φ ts [] := by
  have hnoOrder : Spells True (.listing ["ORDER", "BY"] []) [] [] := .noListing rfl
  have hnoKeys : ([] : List SqlExpr).mapM normalizeSort = .ok [] := rfl
  induction h with
  | subselect hk _ ih => exact .subselect hk ih
  | operand _ ih => exact .operand ih
  | binary hl ht hlevel _ ih =>
    -- The cut-off operand ends the tokens, and no operator follows it.
    exact .binary (hl.mono False.elim) ht hlevel ih (Nat.zero_le _)
  | last _ ih => exact .last ih rfl (by simp)
  | cons he hc _ ih => exact .cons (he.mono False.elim) hc ih
  | comma he hc => exact .comma trivial (he.mono False.elim) hc
  | condition hts _ ih => exact .condition hts ih rfl
  | bareCondition hts => exact .bareCondition trivial hts
  | listing hts _ ih => exact .listing hts ih
  | bareListing hts => exact .bareListing trivial hts
  | selection hhead _ hgroup hhaving horder hlimit ih =>
    exact hhead.spells ih (spells_listing_nil_iff.mpr ⟨hgroup, rfl⟩)
      (spells_condition_nil_iff.mpr ⟨hhaving, rfl⟩) hnoOrder (horder ▸ hnoKeys)
      (spells_limit_nil_iff.mpr ⟨hlimit, rfl⟩)
  | groupBy hhead hwhere _ hhaving horder hlimit ih =>
    exact hhead.spells (hwhere.mono False.elim) ih (spells_condition_nil_iff.mpr ⟨hhaving, rfl⟩)
      hnoOrder (horder ▸ hnoKeys) (spells_limit_nil_iff.mpr ⟨hlimit, rfl⟩)
  | having hhead hwhere hgroup _ horder hlimit ih =>
    exact hhead.spells (hwhere.mono False.elim) (hgroup.mono False.elim) ih hnoOrder
      (horder ▸ hnoKeys) (spells_limit_nil_iff.mpr ⟨hlimit, rfl⟩)
  | orderBy hhead hwhere hgroup hhaving _ hkeys hlimit ih =>
    exact hhead.spells (hwhere.mono False.elim) (hgroup.mono False.elim) (hhaving.mono False.elim) ih
      hkeys (spells_limit_nil_iff.mpr ⟨hlimit, rfl⟩)

/-! ## What is cut off is not complete -/

/-- An operation is an operand, or it is read as its left operand, its operator and its right
operand. -/
theorem Spells.binaryExpr_inv {lax : Prop} {level : ℕ} {l r : SqlExpr} {op : String}
    {ts rest : TokenStream} (h : Spells lax (.expr level (.binaryExpr l op r)) ts rest) :
    Spells lax (.operand (.binaryExpr l op r)) ts rest ∨ ∃ t us,
      Spells lax (.expr level l) ts (t :: us) ∧
        Spells lax (.expr (precedence t.tokenType) r) us rest := by
  cases h with
  | operand he => exact .inl he
  | binary hl _ _ hr _ => exact .inr ⟨_, _, hl, hr⟩

/-- The clauses of a statement start at one place. -/
theorem SqlSelect.Head.unique {s s' : SqlSelect} {ts ts₁ ts₂ ts₃ us₁ us₂ us₃ : TokenStream}
    (h : s.Head ts ts₁ ts₂ ts₃) (h' : s'.Head ts us₁ us₂ us₃) : ts₃ = us₃ := by
  obtain ⟨-, rfl⟩ :=
    (h.projection.mono False.elim).exprs_unique (h'.projection.mono False.elim)
  obtain rfl : ts₂ = us₂ := Option.some.inj (h.from.symm.trans h'.from)
  exact ((h.table.mono False.elim).expr_unique (Nat.le_of_eq h.precedence)
    (h'.table.mono False.elim) (Nat.le_of_eq h'.precedence)).2

/-- What is cut off is not complete. -/
theorem CutOff.not_strict {φ : Phrase} {ts : TokenStream} (h : CutOff φ ts) :
    ¬ Spells False φ ts [] := by
  induction h with
  | subselect hk _ ih =>
    intro hstrict
    cases hstrict with
    -- In a strict reading the operand must have been read by the same rule, which needs the part
    -- that is missing.
    | subselect _ hs => exact ih hs
    | paren hl _ _ =>
      rw [hk] at hl
      cases hl
  | operand he ih =>
    intro hstrict
    cases he with
    | subselect hk hs =>
      cases hstrict with
      | operand he => exact ih he
  | @binary level l r t ts us hl ht hlevel hr ih =>
    intro hstrict
    rcases hstrict.binaryExpr_inv with hoperand | ⟨t', us', hl', hr'⟩
    · -- The operand that the left operand starts with would be the whole expression.
      obtain ⟨first, vs, hfirst, hchain⟩ := (hl.mono False.elim).chain
      obtain ⟨rfl, -⟩ := hfirst.operand_unique (hoperand.mono False.elim)
      have hspine : (SqlExpr.binaryExpr l t.text r).spine = l.spine + 1 := rfl
      rcases InfixStep.spine_of_chain hchain with heq | hlt
      · have hl := congrArg SqlExpr.spine (Prod.mk.inj heq).1
        omega
      · dsimp only at hlt
        omega
    · obtain ⟨rfl, rfl⟩ :=
        List.cons.inj ((hl.mono False.elim).rest_unique (hl'.mono False.elim))
      exact ih hr'
  | last _ ih =>
    intro hstrict
    cases hstrict with
    | last he _ _ => exact ih he
    | cons _ _ hes => cases hes
    | comma hlax _ _ => exact hlax
  | @cons e es c ts us he hc hes ih =>
    intro hstrict
    cases hstrict with
    | last _ _ _ => cases hes
    | cons he' hc' hes' =>
      have hprecedence : ∀ {d : Token} {vs : TokenStream}, d.tokenType = .symbol .comma →
          precedenceAt (d :: vs) ≤ 0 := by
        intro d vs hd
        simp [hd, precedence]
      -- The item in front of the comma is the same in both readings.
      obtain ⟨-, heq⟩ := (he.mono False.elim).expr_unique (hprecedence hc)
        (he'.mono False.elim) (hprecedence hc')
      obtain ⟨rfl, rfl⟩ := List.cons.inj heq
      exact ih hes'
    | comma hlax _ _ => exact hlax
  | comma he hc =>
    intro hstrict
    cases hstrict with
    | last he' hrest _ =>
      obtain ⟨-, heq⟩ := (he.mono False.elim).expr_unique (by simp [hc, precedence])
        (he'.mono False.elim) (Nat.le_of_eq hrest)
      cases heq
    | cons _ _ hes => cases hes
    | comma hlax _ _ => exact hlax
  | condition hts _ ih =>
    intro hstrict
    cases hstrict with
    | condition hts' he' _ =>
      rw [hts] at hts'
      cases hts'
      exact ih he'
  | bareCondition hts =>
    intro hstrict
    cases hstrict with
    | noCondition hts' =>
      rw [hts] at hts'
      cases hts'
    | bareCondition hlax _ => exact hlax
  | listing hts hes ih =>
    intro hstrict
    cases hstrict with
    | noListing hts' => cases hes
    | listing hts' hes' =>
      rw [hts] at hts'
      cases hts'
      exact ih hes'
    | bareListing hlax _ => exact hlax
  | bareListing hts =>
    intro hstrict
    cases hstrict with
    | noListing hts' =>
      rw [hts] at hts'
      cases hts'
    | listing _ hes => cases hes
    | bareListing hlax _ => exact hlax
  | selection hhead hcut _ _ _ _ ih =>
    intro hstrict
    cases hstrict with
    | select hprojection hfrom htable hprecedence hwhere' _ _ _ _ _ =>
      -- The head of the statement and the clauses in front are read alike, so the strict reading
      -- reaches the clause that is cut off.
      obtain rfl := hhead.unique ⟨hprojection, hfrom, htable, hprecedence⟩
      obtain ⟨-, rfl⟩ := hcut.spells.condition_unique (hwhere'.mono False.elim)
      exact ih hwhere'
  | groupBy hhead hwhere hcut _ _ _ ih =>
    intro hstrict
    cases hstrict with
    | select hprojection hfrom htable hprecedence hwhere' hgroup' _ _ _ _ =>
      obtain rfl := hhead.unique ⟨hprojection, hfrom, htable, hprecedence⟩
      obtain ⟨-, rfl⟩ := (hwhere.mono False.elim).condition_unique (hwhere'.mono False.elim)
      obtain ⟨-, rfl⟩ := hcut.spells.listing_unique (hgroup'.mono False.elim)
      exact ih hgroup'
  | having hhead hwhere hgroup hcut _ _ ih =>
    intro hstrict
    cases hstrict with
    | select hprojection hfrom htable hprecedence hwhere' hgroup' hhaving' _ _ _ =>
      obtain rfl := hhead.unique ⟨hprojection, hfrom, htable, hprecedence⟩
      obtain ⟨-, rfl⟩ := (hwhere.mono False.elim).condition_unique (hwhere'.mono False.elim)
      obtain ⟨-, rfl⟩ := (hgroup.mono False.elim).listing_unique (hgroup'.mono False.elim)
      obtain ⟨-, rfl⟩ := hcut.spells.condition_unique (hhaving'.mono False.elim)
      exact ih hhaving'
  | orderBy hhead hwhere hgroup hhaving hcut _ _ ih =>
    intro hstrict
    cases hstrict with
    | select hprojection hfrom htable hprecedence hwhere' hgroup' hhaving' horder' _ _ =>
      obtain rfl := hhead.unique ⟨hprojection, hfrom, htable, hprecedence⟩
      obtain ⟨-, rfl⟩ := (hwhere.mono False.elim).condition_unique (hwhere'.mono False.elim)
      obtain ⟨-, rfl⟩ := (hgroup.mono False.elim).listing_unique (hgroup'.mono False.elim)
      obtain ⟨-, rfl⟩ := (hhaving.mono False.elim).condition_unique (hhaving'.mono False.elim)
      obtain ⟨rfl, rfl⟩ := hcut.spells.listing_unique (horder'.mono False.elim)
      exact ih horder'

/-! ## Statements -/

/-- Every statement that is read has what its clauses are to say. -/
def CompleteClauses (ts : TokenStream) : Prop :=
  ∀ s rest, parse 0 ts = .ok (some (.select s), rest) → Spells False (.expr 0 (.select s)) ts rest

/-- The statements that are read are complete unless the tokens are a statement that is cut off. -/
theorem completeClauses_iff (ts : TokenStream) :
    CompleteClauses ts ↔ ¬ ∃ s, CutOff (.expr 0 (.select s)) ts := by
  constructor
  · rintro hcomplete ⟨s, hcut⟩
    exact hcut.not_strict
      (hcomplete s [] (parse_eq_ok_iff.mpr ⟨hcut.spells, Nat.le_refl _⟩))
  · intro hcut s rest hparse
    rcases (parse_eq_ok_iff.mp hparse).1.strict_or_cutOff with hstrict | ⟨-, hs⟩
    · exact hstrict
    · exact absurd ⟨s, hs⟩ hcut

end

section

attribute [local instance] integerFloats

/-- The tokens of `SELECT a FROM t WHERE`. -/
def bareWhereTokens : TokenStream :=
  [⟨"SELECT", .keyword .select, 6⟩, ⟨"a", .literal .identifier, 8⟩, ⟨"FROM", .keyword .«from», 13⟩,
    ⟨"t", .literal .identifier, 15⟩, ⟨"WHERE", .keyword .«where», 21⟩]

/-- It is run as if the filter were not there. -/
theorem bareWhere_not_completeClauses : ¬ CompleteClauses bareWhereTokens := by
  intro h
  have hparse : parse 0 bareWhereTokens =
      .ok (some (.select ⟨[.identifier "a"], none, [], [], none, none, "t"⟩), []) := rfl
  have hcolumn : Spells False (.operand (.identifier "a")) bareWhereTokens.tail
      (bareWhereTokens.drop 2) := Spells.name (t := ⟨"a", .literal .identifier, 8⟩) rfl
  have htable : Spells False (.operand (.identifier "t")) (bareWhereTokens.drop 3)
      (bareWhereTokens.drop 4) := Spells.name (t := ⟨"t", .literal .identifier, 15⟩) rfl
  have hhead : SqlSelect.Head ⟨[.identifier "a"], none, [], [], none, none, "t"⟩
      bareWhereTokens.tail (bareWhereTokens.drop 2) (bareWhereTokens.drop 3)
      (bareWhereTokens.drop 4) :=
    { projection := .last (.operand hcolumn) rfl (by decide)
      «from» := rfl
      table := .operand htable
      precedence := rfl }
  have hcut : CutOff (.select ⟨[.identifier "a"], none, [], [], none, none, "t"⟩)
      bareWhereTokens.tail := .selection hhead (.bareCondition rfl) rfl rfl rfl rfl
  exact (CutOff.operand (.subselect rfl hcut)).not_strict (h _ _ hparse)

end

end RQuery
