import RQuery.Sql.Statements
import RQuery.Semantics.Refinement
import RQuery.Protobuf.TaskRoundTrip
import RQuery.Optimizer.SchemaPreservation

/-!
# The LIMIT clause

The number behind `LIMIT` is parsed as an `i64`, kept as an `i32` and lowered as a `usize`: what
reaches `LimitExec` is `limitBudget`. The plan of a `SELECT` without its limit ends in a projection
or a selection, whose batches can always be cut (`limitStream_rows`), so the limited statement
returns as many of the first rows as the budget is (`selectRows_limit`). This is the written number
below `2 ^ 31` and another one from there on. Without aggregates the statement iterates over no map,
and the limited statement may be another execution, with maps of another order; the rows of an
aggregate are cut in the order of the execution's own map (`sql_limit_iff`).
-/

namespace RQuery

/-! ## The number on its way to `LimitExec` -/

/-- What `LIMIT n` is planned with: `as i32`, then `as usize`. -/
def limitBudget (n : ℕ) : ℕ := asUsize (Int64.ofNat n).toInt32

/-- The budget of a number is the number exactly below `2 ^ 31`. -/
theorem limitBudget_eq_iff {n : ℕ} (hn : n < 2 ^ 63) : limitBudget n = n ↔ n < 2 ^ 31 := by
  have hint : (Int64.ofNat n).toInt32.toInt = Int.bmod n (2 ^ 32) := by
    rw [Int64.toInt_toInt32, Int64.toInt_ofNat_of_lt hn]
  rw [limitBudget, asUsize, hint]
  simp only [Int.bmod_def]
  omega

section

variable [FloatModel]

/-! ## The number in the text -/

/-- The number that the tokens up to `rest` end in, up to right parentheses. -/
def closingNumber (tokens rest : TokenStream) : Option ℤ :=
  ((tokens.take (tokens.length - rest.length)).reverse.find? fun t =>
    t.tokenType ≠ .symbol .rightParen).bind fun t => Text.parseInteger t.text

omit [FloatModel] in
/-- Tokens in front do not change the number at the end. -/
theorem closingNumber_append (front ts rest : TokenStream) {n : ℤ} (hsuffix : rest <:+ ts)
    (h : closingNumber ts rest = some n) : closingNumber (front ++ ts) rest = some n := by
  have hle := hsuffix.length_le
  have htake : (front ++ ts).take ((front ++ ts).length - rest.length) =
      front ++ ts.take (ts.length - rest.length) := by
    rw [List.length_append, Nat.add_sub_assoc hle, List.take_length_add_append]
  obtain ⟨t, ht, hn⟩ := Option.bind_eq_some_iff.mp h
  rw [closingNumber, htake, List.reverse_append, List.find?_append, ht]
  exact hn

omit [FloatModel] in
/-- The number that a text ends in is that of any end of it that reaches so far. -/
theorem closingNumber_of_suffix {tokens ts rest : TokenStream} {n : ℤ} (hts : ts <:+ tokens)
    (hsuffix : rest <:+ ts) (h : closingNumber ts rest = some n) :
    closingNumber tokens rest = some n := by
  obtain ⟨front, rfl⟩ := hts
  exact closingNumber_append front ts rest hsuffix h

omit [FloatModel] in
/-- A parenthesis behind it is not the number. -/
theorem closingNumber_rightParen {ts rest : TokenStream} {r : Token} {n : ℤ}
    (hr : r.tokenType = .symbol .rightParen) (hsuffix : r :: rest <:+ ts)
    (h : closingNumber ts (r :: rest) = some n) : closingNumber ts rest = some n := by
  obtain ⟨mid, rfl⟩ := hsuffix
  unfold closingNumber at h ⊢
  rw [show (mid ++ r :: rest).length - (r :: rest).length = mid.length by simp] at h
  rw [show (mid ++ r :: rest).length - rest.length = mid.length + 1 by simp; omega]
  simpa [List.take_append, List.take_of_length_le, hr] using h

omit [FloatModel] in
/-- What is parsed into 64 bits is the integer of the text. -/
theorem Text.parseInteger_of_parseInt64 {s : String} {v : Int64}
    (h : Text.parseInt64 s = some v) : Text.parseInteger s = some v.toInt := by
  obtain ⟨n, hn, h⟩ := Option.bind_eq_some_iff.mp h
  split at h
  · rename_i hrange
    cases h
    rw [hn, Int64.toInt_ofInt_of_le (by omega) (by omega)]
  · cases h

omit [FloatModel] in
/-- The limit, if there is one, is the number that the tokens end in. -/
def LimitCloses (tokens rest : TokenStream) (limit : Option Int32) : Prop :=
  ∀ l, limit = some l → ∃ v : Int64, closingNumber tokens rest = some v.toInt ∧ l = v.toInt32

/-- A literal is the number that the tokens end in, and so is the limit of a statement. -/
def SqlExpr.Closes (tokens rest : TokenStream) : SqlExpr → Prop
  | .long v => closingNumber tokens rest = some v.toInt
  | .select s => LimitCloses tokens rest s.limit
  | _ => True

/-- The same of a phrase. -/
def Phrase.Closes (tokens rest : TokenStream) : Phrase → Prop
  | .operand e | .expr _ e => e.Closes tokens rest
  | .limit l => LimitCloses tokens rest l
  | .select s => LimitCloses tokens rest s.limit
  | _ => True

omit [FloatModel] in
/-- A limit that closes the end of a text closes the text. -/
theorem LimitCloses.of_suffix {tokens ts rest : TokenStream} {limit : Option Int32}
    (h : LimitCloses ts rest limit) (hts : ts <:+ tokens) (hsuffix : rest <:+ ts) :
    LimitCloses tokens rest limit := by
  intro l hl
  obtain ⟨v, hv, rfl⟩ := h l hl
  exact ⟨v, closingNumber_of_suffix hts hsuffix hv, rfl⟩

/-- What closes an expression closes it in parentheses. -/
theorem SqlExpr.Closes.paren {e : SqlExpr} {l r : Token} {ts rest : TokenStream}
    (h : e.Closes ts (r :: rest)) (hr : r.tokenType = .symbol .rightParen)
    (hsuffix : r :: rest <:+ ts) : e.Closes (l :: ts) rest := by
  have hrest : rest <:+ ts := (List.suffix_cons r rest).trans hsuffix
  have hnumber : ∀ n, closingNumber ts (r :: rest) = some n →
      closingNumber (l :: ts) rest = some n := fun n hn =>
    closingNumber_of_suffix (List.suffix_cons l ts) hrest (closingNumber_rightParen hr hsuffix hn)
  cases e with
  | long v => exact hnumber _ h
  | select s =>
    intro limit hlimit
    obtain ⟨v, hv, rfl⟩ := h limit hlimit
    exact ⟨v, hnumber _ hv, rfl⟩
  | _ => trivial

/-- The number of a `LIMIT` clause is the last word of the statement. -/
theorem Spells.closes {lax : Prop} {φ : Phrase} {ts rest : TokenStream}
    (h : Spells lax φ ts rest) : φ.Closes ts rest := by
  induction h with
  | @long t v rest ht hv =>
    show closingNumber (t :: rest) rest = _
    rw [closingNumber, show (t :: rest).length - rest.length = 1 by simp]
    simp [ht, Text.parseInteger_of_parseInt64 hv]
  | paren hl he hr ih => exact ih.paren hr he.suffix
  | subselect hk hs ih => exact ih.of_suffix (List.suffix_cons _ _) hs.suffix
  | operand _ ih => exact ih
  | limit hts hv _ ih =>
    intro l hl
    cases hl
    exact ⟨_, closingNumber_of_suffix (TokenStream.behind_suffix hts) hv.suffix ih, rfl⟩
  | noLimit _ => exact fun l hl => by cases hl
  | select hprojection hfrom htable _ hwhere hgroup hhaving horder _ hlimit _ _ _ _ _ _ ih =>
    exact ih.of_suffix (((((horder.suffix.trans hhaving.suffix).trans hgroup.suffix).trans
      hwhere.suffix).trans htable.suffix).trans ((TokenStream.behind_suffix hfrom).trans hprojection.suffix))
      hlimit.suffix
  | _ => trivial

/-! ## Cutting a stream -/

/-- Rows of the batch can be rebuilt under the schema. -/
def RecordBatch.Rebuilds (schema : Schema) (b : RecordBatch) : Prop :=
  b.types = schema.types ∧ schema.fields ≠ [] ∧ ∀ t ∈ schema.types, t.hasBuilder

/-- A batch that can be rebuilt can be cut. -/
theorem truncate_succeeds {schema : Schema} {b : RecordBatch} (h : b.Rebuilds schema) {n : ℕ}
    (hn : n ≤ b.numRows) : Outcome.Succeeds (truncate schema b n) := by
  obtain ⟨htypes, hne, hsup⟩ := h
  have hfits : ∀ r ∈ b.rows.take n, RowFits schema.types r := fun r hr =>
    htypes ▸ b.types_eq_schema ▸ b.rows_fit r (List.mem_of_mem_take hr)
  exact ⟨.ofRows schema _ hfits, (truncate_eq_ok_iff hn).mpr
    ⟨rfl, htypes, hne, hsup, RecordBatch.ofRows_rows schema _ hfits⟩⟩

/-- So can a stream of such batches. -/
theorem limitStream_succeeds {schema : Schema} {n : ℕ} {batches : List RecordBatch}
    (h : ∀ b ∈ batches, b.Rebuilds schema) :
    ∃ out : List RecordBatch, limitStream schema n (batches.map .ok) = out.map .ok := by
  induction batches generalizing n with
  | nil => exact ⟨[], rfl⟩
  | cons b rest ih =>
    have ih := @ih (h := fun c hc => h c (List.mem_cons_of_mem _ hc))
    cases n with
    | zero => exact ⟨[], rfl⟩
    | succ n =>
      rw [List.map_cons, limitStream]
      split
      · obtain ⟨out, hout⟩ := @ih (n + 1 - b.numRows)
        exact ⟨b :: out, by rw [hout, List.map_cons]⟩
      · rename_i hlt
        obtain ⟨cut, hcut⟩ := truncate_succeeds (h b List.mem_cons_self) (n := n + 1) (by omega)
        obtain ⟨out, hout⟩ := @ih 0
        exact ⟨cut :: out, by rw [hcut, hout, List.map_cons]⟩

/-- A limit over batches that can be rebuilt yields the first rows. -/
theorem limitStream_rows {schema : Schema} {n : ℕ} {batches : List RecordBatch}
    (h : ∀ b ∈ batches, b.Rebuilds schema) :
    streamRows (limitStream schema n (batches.map .ok)) = .ok ((rowsOf batches).take n) := by
  obtain ⟨out, hout⟩ := limitStream_succeeds h (n := n)
  have hcuts : Chunks.Cuts ((rowsOf batches).take n) (rowChunks (out.map .ok)) := by
    rw [← hout]
    refine cuts_limitStream ?_
    rw [rowChunks_map_ok, rowsOf, List.flatMap_def]
    exact Chunks.cuts_map_ok _
  rw [rowChunks_map_ok] at hcuts
  rw [hout, streamRows, collect, Outcome.mapM_id_map_ok, hcuts.eq_flatten, Outcome.ok_bind, rowsOf,
    List.flatMap_def]
  rfl

/-- A limit that has been reached ends the stream. -/
theorem limitStream_append {schema : Schema} {n : ℕ} {batches : List RecordBatch}
    (rest : List RecordBatch) (hn : n ≤ (rowsOf batches).length) :
    limitStream schema n ((batches ++ rest).map .ok) = limitStream schema n (batches.map .ok) := by
  induction batches generalizing n with
  | nil =>
    obtain rfl : n = 0 := Nat.le_zero.mp hn
    cases rest <;> rfl
  | cons b batches ih =>
    cases n with
    | zero => rfl
    | succ n =>
      rw [List.cons_append, List.map_cons, List.map_cons, limitStream, limitStream]
      have hlen : (rowsOf (b :: batches)).length = b.numRows + (rowsOf batches).length := by
        rw [rowsOf, List.flatMap_cons, List.length_append, b.rows_length]
        rfl
      split
      · rw [ih (by omega)]
      · rw [ih (Nat.zero_le _)]

variable [Readers]

/-- A limit over conforming batches yields their first rows, and what comes after these is not
looked at. -/
theorem limit_takes [Runtime] {ctx : ExecutorContext} {input : PhysicalPlan} {schema : Schema}
    (hschema : input.schema = .ok schema) {batches : List RecordBatch}
    (hinput : input.execute ctx = .ok (batches.map .ok))
    (hbatches : ∀ b ∈ batches, b.schema = schema) (hne : schema.fields ≠ [])
    (hbuilder : ∀ t ∈ schema.types, t.hasBuilder) (n : ℕ) :
    (PhysicalPlan.limit input n).rows ctx = .ok ((rowsOf batches).take n) ∧
      ∀ first rest, batches = first ++ rest → n ≤ (rowsOf first).length →
        (PhysicalPlan.limit input n).execute ctx =
          (PhysicalPlan.limit (.inMemory schema first) n).execute ctx := by
  have hexecute : (PhysicalPlan.limit input n).execute ctx =
      .ok (limitStream schema n (batches.map .ok)) := by
    rw [PhysicalPlan.execute, hschema, hinput, Outcome.ok_bind, Outcome.ok_bind]
    rfl
  constructor
  · rw [PhysicalPlan.rows, hexecute, Outcome.ok_bind]
    refine limitStream_rows fun b hb => ?_
    obtain rfl := hbatches b hb
    exact ⟨b.types_eq_schema, hne, hbuilder⟩
  · rintro first rest rfl hn
    rw [hexecute, limitStream_append rest hn]
    rfl

/-- The rows that a limit keeps. -/
def cutTo (rows : List Row) : Option Int32 → List Row
  | some n => rows.take (asUsize n)
  | none => rows

/-- A plan whose last operator builds its batches under the schema that it declares. -/
def LogicalPlan.Builds : LogicalPlan → Prop
  | .projection .. | .selection .. => True
  | _ => False

/-- A plan whose last operator builds its batches under the schema that it declares. -/
def PhysicalPlan.Builds : PhysicalPlan → Prop
  | .projection .. | .selection .. => True
  | _ => False

/-- The batches of a plan that builds its own can be rebuilt. -/
theorem PhysicalPlan.Builds.rebuilds [Runtime] {plan : PhysicalPlan} (h : plan.Builds)
    {ctx : ExecutorContext} {stream : BatchStream} (hstream : plan.execute ctx = .ok stream) :
    ∃ schema, plan.schema = .ok schema ∧ ∀ b, .ok b ∈ stream → b.Rebuilds schema := by
  cases plan with
  | projection input schema exprs =>
    obtain ⟨source, -, rfl⟩ := Outcome.bind_pure_eq_ok_iff.mp hstream
    refine ⟨schema, rfl, fun b hb => ?_⟩
    obtain ⟨item, -, hitem⟩ := List.mem_map.mp hb
    obtain ⟨c, -, hproject⟩ := Outcome.bind_eq_ok_iff.mp hitem
    obtain ⟨rfl, hne, htypes, hsup, -⟩ := projectBatch_ok hproject
    refine ⟨b.types_eq_schema, fun hnil => hne ?_, hsup⟩
    have hlen := Outcome.mapM_length htypes
    rw [Schema.types, hnil] at hlen
    exact List.length_eq_zero_iff.mp hlen.symm
  | selection input expr =>
    obtain ⟨schema, hschema, hstream⟩ := Outcome.bind_eq_ok_iff.mp hstream
    obtain ⟨source, -, rfl⟩ := Outcome.bind_pure_eq_ok_iff.mp hstream
    refine ⟨schema, hschema, fun b hb => ?_⟩
    obtain ⟨item, -, hitem⟩ := List.mem_map.mp hb
    obtain ⟨c, -, hfilter⟩ := Outcome.bind_eq_ok_iff.mp hitem
    obtain ⟨-, -, -, rfl, -, hne, hsup, -⟩ := filterBatch_eq_ok_iff.mp hfilter
    exact ⟨b.types_eq_schema, hne, hsup⟩
  | _ => exact h.elim

/-- Limiting such a plan that yields `rows` yields the first of them. -/
theorem PhysicalPlan.Builds.limit_rows [Runtime] {plan : PhysicalPlan} (h : plan.Builds)
    {ctx : ExecutorContext} {rows : List Row} (hrows : plan.rows ctx = .ok rows) (n : ℕ) :
    (PhysicalPlan.limit plan n).rows ctx = .ok (rows.take n) := by
  obtain ⟨stream, hstream, hrows⟩ := Outcome.bind_eq_ok_iff.mp hrows
  obtain ⟨schema, hschema, hbuilt⟩ := h.rebuilds hstream
  obtain ⟨batches, hbatches, rfl⟩ := Outcome.bind_pure_eq_ok_iff.mp hrows
  obtain rfl : stream = batches.map .ok := Outcome.mapM_id_eq_ok_iff.mp hbatches
  rw [PhysicalPlan.rows, PhysicalPlan.execute, hschema, hstream, Outcome.ok_bind, Outcome.ok_bind]
  exact limitStream_rows fun b hb => hbuilt b (List.mem_map_of_mem hb)

/-! ## Planned limits -/

variable [UnicodeTables] [DateParser]

namespace SqlPlanner

/-- The statement without its limit. -/
def unlimited (select : SqlSelect) : SqlSelect := { select with limit := none }

omit [Readers] [UnicodeTables] [DateParser] in
/-- A statement without a limit is left as it is. -/
theorem unlimited_of_none {select : SqlSelect} (h : select.limit = none) :
    unlimited select = select := by
  cases select
  cases h
  rfl

/-- The limit is put on top of the plan without it. -/
theorem planNonAggregateQuery_limit (select : SqlSelect) (df : DataFrame)
    (items : List LogicalExpr) (inSelection inProjection : List String) :
    planNonAggregateQuery select df items inSelection inProjection =
      (fun plan => limited plan select.limit) <$>
        planNonAggregateQuery (unlimited select) df items inSelection inProjection := by
  have hsame : (unlimited select).selection = select.selection := rfl
  unfold planNonAggregateQuery
  rw [hsame]
  cases select.selection with
  | none => rfl
  | some selection =>
    by_cases hmissing : (orderedDifference inSelection inProjection).isEmpty
    · simp [hmissing, unlimited, limited]
    · simp [hmissing, unlimited, limited]

/-- Without a limit, a plain statement is planned as a projection, or a selection above one. -/
theorem planNonAggregateQuery_builds {select : SqlSelect} {df plan : DataFrame}
    {items : List LogicalExpr} {inSelection inProjection : List String}
    (h : planNonAggregateQuery (unlimited select) df items inSelection inProjection = .ok plan) :
    plan.logicalPlan.Builds := by
  have hsame : (unlimited select).selection = select.selection := rfl
  unfold planNonAggregateQuery at h
  rw [hsame] at h
  cases hselection : select.selection with
  | none =>
    rw [hselection] at h
    cases h
    trivial
  | some selection =>
    rw [hselection] at h
    dsimp only at h
    split at h
    · obtain ⟨e, -, rfl⟩ := Outcome.bind_pure_eq_ok_iff.mp h
      trivial
    · obtain ⟨e, -, h⟩ := Outcome.bind_eq_ok_iff.mp h
      obtain ⟨schema, -, h⟩ := Outcome.bind_eq_ok_iff.mp h
      obtain ⟨expr, -, rfl⟩ := Outcome.bind_pure_eq_ok_iff.mp h
      trivial

/-- The limit is planned last, and what is below it builds its batches. -/
theorem createDataFrame_limit {select : SqlSelect} {tables : Tables} {df : DataFrame} :
    createDataFrame select tables = .ok df ↔
      ∃ plan, createDataFrame (unlimited select) tables = .ok plan ∧ plan.logicalPlan.Builds ∧
        limited plan select.limit = df := by
  -- Planning an aggregate, the limit comes last.
  have haggregate : ∀ (table : DataFrame) (items : List LogicalExpr) (inSelection : List String),
      planAggregateSelect select table items inSelection = .ok df ↔
        ∃ plan, planAggregateSelect (unlimited select) table items inSelection = .ok plan ∧
          plan.logicalPlan.Builds ∧ limited plan select.limit = df := by
    intro table items inSelection
    rw [planAggregateSelect_eq_ok_iff]
    constructor
    · rintro ⟨projection, aggr, input, plan, hsplit, hquery, hhaving, rfl⟩
      refine ⟨plan, planAggregateSelect_eq_ok_iff.mpr
        ⟨projection, aggr, input, plan, hsplit, hquery, hhaving, rfl⟩, ?_, rfl⟩
      -- HAVING or not, a projection or a selection stands below the limit.
      unfold havingFilter at hhaving
      split at hhaving
      · obtain ⟨e, -, rfl⟩ := Outcome.bind_pure_eq_ok_iff.mp hhaving
        trivial
      · cases hhaving
        trivial
    · rintro ⟨plan, hplan, -, rfl⟩
      obtain ⟨projection, aggr, input, plan', hsplit, hquery, hhaving, rfl⟩ :=
        planAggregateSelect_eq_ok_iff.mp hplan
      exact ⟨projection, aggr, input, plan', hsplit, hquery, hhaving, rfl⟩
  rw [createDataFrame_eq_ok_iff]
  -- The two branches of the planner differ in what they put below the limit.
  constructor
  · rintro ⟨table, items, inSelection, htable, hitems, hselection, hbranch⟩
    obtain ⟨hall, hgroup, hplain⟩ | ⟨hany, hagg⟩ := hbranch
    · rw [planNonAggregateQuery_limit] at hplain
      obtain ⟨plan, hplan, rfl⟩ := Outcome.map_eq_ok_iff.mp hplain
      exact ⟨plan, createDataFrame_eq_ok_iff.mpr ⟨table, items, inSelection, htable, hitems,
        hselection, .inl ⟨hall, hgroup, hplan⟩⟩, planNonAggregateQuery_builds hplan, rfl⟩
    · obtain ⟨plan, hplan, hbuilds, rfl⟩ := (haggregate _ _ _).mp hagg
      exact ⟨plan, createDataFrame_eq_ok_iff.mpr ⟨table, items, inSelection, htable, hitems,
        hselection, .inr ⟨hany, hplan⟩⟩, hbuilds, rfl⟩
  · rintro ⟨plan, hplan, hbuilds, rfl⟩
    obtain ⟨table, items, inSelection, htable, hitems, hselection, hbranch⟩ :=
      createDataFrame_eq_ok_iff.mp hplan
    refine ⟨table, items, inSelection, htable, hitems, hselection, ?_⟩
    obtain ⟨hall, hgroup, hplain⟩ | ⟨hany, hagg⟩ := hbranch
    · refine .inl ⟨hall, hgroup, ?_⟩
      rw [planNonAggregateQuery_limit, hplain]
      rfl
    · exact .inr ⟨hany, (haggregate _ _ _).mpr ⟨plan, hagg, hbuilds, rfl⟩⟩

/-- The statement has no aggregates, and the plan of its table iterates over no map. -/
def IteratesNoMap (select : SqlSelect) (tables : Tables) : Prop :=
  ∀ table items, tables select.tableName = some table →
    select.projection.mapM createLogicalExpr = .ok items →
      table.logicalPlan.InOrder ∧ ∀ e ∈ items, isAggregateExpr e = false

/-- Such a statement is planned as projections, a selection and a limit above its table. -/
theorem IteratesNoMap.inOrder {select : SqlSelect} {tables : Tables}
    (h : IteratesNoMap select tables) {df : DataFrame}
    (hdf : createDataFrame select tables = .ok df) : df.logicalPlan.InOrder := by
  obtain ⟨table, items, inSelection, htable, hitems, -, hbranch⟩ :=
    createDataFrame_eq_ok_iff.mp hdf
  obtain ⟨horder, hplain⟩ := h table items htable hitems
  -- A limit iterates over nothing by itself.
  have hlimited : ∀ (body : DataFrame) (limit : Option Int32), body.logicalPlan.InOrder →
      (limited body limit).logicalPlan.InOrder := by
    rintro body (_ | n) hbody <;> exact hbody
  obtain ⟨-, -, hquery⟩ | ⟨hany, -⟩ := hbranch
  · unfold planNonAggregateQuery at hquery
    split at hquery
    · cases hquery
      exact hlimited _ _ horder
    · dsimp only at hquery
      split at hquery
      · obtain ⟨e, -, rfl⟩ := Outcome.bind_pure_eq_ok_iff.mp hquery
        exact hlimited _ _ horder
      · obtain ⟨e, -, hquery⟩ := Outcome.bind_eq_ok_iff.mp hquery
        obtain ⟨schema, -, hquery⟩ := Outcome.bind_eq_ok_iff.mp hquery
        obtain ⟨exprs, -, rfl⟩ := Outcome.bind_pure_eq_ok_iff.mp hquery
        exact hlimited _ _ horder
  · obtain ⟨e, he, hagg⟩ := List.any_eq_true.mp hany
    rw [hplain e he] at hagg
    cases hagg

end SqlPlanner

/-! ## Lowering -/

omit [UnicodeTables] [DateParser] in
/-- The optimizer and the planner keep the last operator. -/
theorem LogicalPlan.Builds.lowered {P P' : LogicalPlan} (h : P.Builds)
    (hopt : optimize P = .ok P') {plan : PhysicalPlan} (hplan : createPhysicalPlan P' = .ok plan) :
    plan.Builds := by
  obtain ⟨⟨pushed, names⟩, hpush, rfl⟩ := Outcome.bind_pure_eq_ok_iff.mp hopt
  cases P with
  | projection input expr =>
    obtain ⟨names₁, -, hpush⟩ := Outcome.bind_eq_ok_iff.mp hpush
    obtain ⟨⟨input', names₂⟩, -, heq⟩ := Outcome.bind_pure_eq_ok_iff.mp hpush
    obtain ⟨rfl, rfl⟩ := Prod.mk.inj heq
    obtain ⟨sub, -, hplan⟩ := Outcome.bind_eq_ok_iff.mp hplan
    obtain ⟨es, -, hplan⟩ := Outcome.bind_eq_ok_iff.mp hplan
    obtain ⟨fields, -, rfl⟩ := Outcome.bind_pure_eq_ok_iff.mp hplan
    trivial
  | selection input expr =>
    obtain ⟨names₁, -, hpush⟩ := Outcome.bind_eq_ok_iff.mp hpush
    obtain ⟨⟨input', names₂⟩, -, heq⟩ := Outcome.bind_pure_eq_ok_iff.mp hpush
    obtain ⟨rfl, rfl⟩ := Prod.mk.inj heq
    obtain ⟨sub, -, hplan⟩ := Outcome.bind_eq_ok_iff.mp hplan
    obtain ⟨e, -, rfl⟩ := Outcome.bind_pure_eq_ok_iff.mp hplan
    trivial
  | _ => exact h.elim

omit [UnicodeTables] [DateParser] in
/-- A limit is optimized and lowered below its budget. -/
theorem optimize_limit (P : LogicalPlan) (n : Int32) :
    optimize (.limit P n) = (fun P' => .limit P' n) <$> optimize P := by
  rw [optimize, optimize, pushDown_limit]
  cases pushDown P ∅ <;> rfl

/-! ## Running a limited statement -/

open SqlPlanner

variable [R : Runtime]

namespace ExecutionContext

/-- The rows that a statement yields. -/
def selectRows (ctx : ExecutionContext) (executor : ExecutorContext) (select : SqlSelect) :
    Result (List Row) := do
  queryRows executor (← createDataFrame select ctx.tables).logicalPlan

/-- The rows that a text yields. -/
def sqlRows (ctx : ExecutionContext) (executor : ExecutorContext) (text : String) :
    Result (List Row) := do
  queryRows executor (← ctx.sql text).logicalPlan

/-- The text yields the first `n` of the rows, and `n` is the limit that is executed. -/
def HonoursLimit (ctx : ExecutionContext) (executor : ExecutorContext) (text : String) (n : ℕ)
    (rows : List Row) : Prop :=
  ctx.sqlRows executor text = .ok (rows.take n) ∧
    ∃ df P input, ctx.sql text = .ok df ∧ optimize df.logicalPlan = .ok P ∧
      createPhysicalPlan P = .ok (.limit input n)

/-- A limited statement yields as many of the first rows as the budget of its `LimitExec`. -/
theorem selectRows_limit {ctx : ExecutionContext} {executor : ExecutorContext}
    {select : SqlSelect} {l : Int32} (hl : select.limit = some l) {rows : List Row}
    (hrows : ctx.selectRows executor (unlimited select) = .ok rows) :
    ∃ df P input, createDataFrame select ctx.tables = .ok df ∧ optimize df.logicalPlan = .ok P ∧
      createPhysicalPlan P = .ok (.limit input (asUsize l)) ∧
      queryRows executor df.logicalPlan = .ok (rows.take (asUsize l)) := by
  obtain ⟨plan, hplan, hrows⟩ := Outcome.bind_eq_ok_iff.mp hrows
  obtain ⟨plan', hplan', hbuilds, -⟩ := createDataFrame_limit.mp hplan
  obtain rfl : plan = plan' := Except.ok.inj (hplan.symm.trans hplan')
  obtain ⟨stream, hstream, hstreamRows⟩ := Outcome.bind_eq_ok_iff.mp hrows
  obtain ⟨P, hopt, hexecute⟩ := Outcome.bind_eq_ok_iff.mp hstream
  obtain ⟨input, hlower, hexecute⟩ := Outcome.bind_eq_ok_iff.mp hexecute
  have hinput : input.rows executor = .ok rows := by
    rw [PhysicalPlan.rows, hexecute, Outcome.ok_bind, hstreamRows]
  have hlimited : optimize (plan.limit l).logicalPlan = .ok (.limit P l) := by
    show optimize (.limit plan.logicalPlan l) = _
    rw [optimize_limit, hopt]
    rfl
  have hphysical : createPhysicalPlan (.limit P l) = .ok (.limit input (asUsize l)) := by
    rw [createPhysicalPlan, hlower]
    rfl
  refine ⟨plan.limit l, .limit P l, input,
    createDataFrame_limit.mpr ⟨plan, hplan, hbuilds, by rw [hl]; rfl⟩, hlimited, hphysical, ?_⟩
  rw [queryRows, executePlan, hlimited, Outcome.ok_bind, hphysical, Outcome.ok_bind]
  exact (hbuilds.lowered hopt hlower).limit_rows hinput (asUsize l)

/-- The rows of a statement are those of the statement without its limit, cut. -/
theorem selectRows_cut {ctx : ExecutionContext} {executor : ExecutorContext} {select : SqlSelect}
    {rows : List Row} (hrows : ctx.selectRows executor (unlimited select) = .ok rows) :
    ctx.selectRows executor select = .ok (cutTo rows select.limit) := by
  cases hlimit : select.limit with
  | none => rwa [unlimited_of_none hlimit] at hrows
  | some n =>
    obtain ⟨df, -, -, hdf, -, -, hquery⟩ := selectRows_limit hlimit hrows
    rw [selectRows, hdf, Outcome.ok_bind, hquery]
    rfl

/-- A text that ends in `LIMIT n` yields as many of the first rows as the budget, which honours the
number exactly below `2 ^ 31`. Above, the rows are right where neither number cuts any. -/
structure RunsBudget (ctx : ExecutionContext) (executor : ExecutorContext) (text : String) (n : ℕ)
    (rows : List Row) : Prop where
  rows_eq : ctx.sqlRows executor text = .ok (rows.take (limitBudget n))
  honours_iff : ctx.HonoursLimit executor text n rows ↔ n < 2 ^ 31
  rows_iff : ctx.sqlRows executor text = .ok (rows.take n) ↔
    n < 2 ^ 31 ∨ rows.length ≤ min n (limitBudget n)

/-- The budget decides, once the limited plan is known and run. -/
theorem runsBudget_of_run {ctx : ExecutionContext} {executor : ExecutorContext} {text : String}
    {n : ℕ} (hlt : n < 2 ^ 63) {rows : List Row} {df : DataFrame} {P : LogicalPlan}
    {input : PhysicalPlan} (hsql : ctx.sql text = .ok df) (hopt : optimize df.logicalPlan = .ok P)
    (hlower : createPhysicalPlan P = .ok (.limit input (limitBudget n)))
    (hquery : queryRows executor df.logicalPlan = .ok (rows.take (limitBudget n))) :
    ctx.RunsBudget executor text n rows := by
  have hall : ctx.sqlRows executor text = .ok (rows.take (limitBudget n)) := by
    rw [ExecutionContext.sqlRows, hsql, Outcome.ok_bind, hquery]
  refine ⟨hall, ?_, ?_⟩
  · rw [← limitBudget_eq_iff hlt]
    constructor
    · rintro ⟨-, df', P', input', hsql', hopt', hlower'⟩
      obtain rfl : df = df' := Except.ok.inj (hsql.symm.trans hsql')
      obtain rfl : P = P' := Except.ok.inj (hopt.symm.trans hopt')
      exact (PhysicalPlan.limit.inj (Except.ok.inj (hlower.symm.trans hlower'))).2
    · intro heq
      rw [heq] at hall hlower
      exact ⟨hall, df, P, input, hsql, hopt, hlower⟩
  · rw [hall, Except.ok.injEq, List.take_eq_take_iff, ← limitBudget_eq_iff hlt]
    omega

end ExecutionContext

open ExecutionContext

/-- Behind `LIMIT`, a text that is accepted has a number that an `i64` holds, and yields as many of
the first rows as the budget of this number. They are the first of the rows that the statement yields
without its limit for the same order of maps; without aggregates they are so whatever the order of
maps that the limited statement is run with. -/
theorem sql_limit_iff {ctx : ExecutionContext} {executor : ExecutorContext} {text : String}
    {tokens rest : TokenStream} {select : SqlSelect} {n : ℕ} {rows : List Row}
    (htokens : tokenize text = .ok tokens) (hparse : parseStatement tokens = .ok (select, rest))
    (hlimit : select.limit ≠ none) (hn : closingNumber tokens rest = some (n : ℤ))
    (hrows : ctx.selectRows executor (unlimited select) = .ok rows) :
    n < 2 ^ 63 ∧ ctx.RunsBudget executor text n rows ∧
      ∀ (order : {α : Type} → List α → List α)
        (h : ∀ {α : Type} (entries : List α), (order entries).Perm entries),
        IteratesNoMap select ctx.tables →
          @RunsBudget _ _ _ _ (R.withMapOrder order h) ctx executor text n rows := by
  obtain ⟨l, hl⟩ := Option.ne_none_iff_exists'.mp hlimit
  obtain ⟨hspells, -⟩ := parseStatement_eq_ok_iff.mp hparse
  obtain ⟨v, hv, hlv⟩ := hspells.closes l hl
  have hvn : v.toInt = n := Option.some.inj (hv.symm.trans hn)
  have hlt : n < 2 ^ 63 := by
    have := Int64.toInt_lt v
    omega
  have hbudget : asUsize l = limitBudget n := by
    have hofNat : v = Int64.ofNat n := by
      rw [← Int64.toInt_inj, Int64.toInt_ofNat_of_lt hlt, hvn]
    rw [hlv, hofNat, limitBudget]
  obtain ⟨df, P, input, hdf, hopt, hlower, hquery⟩ := selectRows_limit hl hrows
  rw [hbudget] at hlower hquery
  have hsql : ctx.sql text = .ok df := by
    simp [ExecutionContext.sql, htokens, hparse, hdf]
  refine ⟨hlt, runsBudget_of_run hlt hsql hopt hlower hquery, fun order h hnoMap => ?_⟩
  -- The plan does not depend on the order of maps, and its run does not either.
  refine @runsBudget_of_run _ _ _ _ (R.withMapOrder order h) _ _ _ _ hlt _ _ _ _ hsql hopt hlower ?_
  rw [(hnoMap.inOrder hdf).queryRows_withMapOrder, hquery]

end

section LimitedRows

attribute [local instance] integerFloats insertionOrderRuntime asciiTables

local instance noLimitedFiles : Readers := parquetDisk fun _ => none

local instance noLimitedDates : DateParser := ⟨fun _ => none, DateParser.none_range⟩

/-- Three rows of a column `a`. -/
def threeRows : RecordBatch where
  schema := ⟨[⟨"a", .int32⟩]⟩
  columns := [Int32Array [1, 2, 3]]
  numRows := 3
  types_eq := by decide
  lengths := by decide

/-- The three rows thrice. -/
def nineRows : PhysicalPlan := .inMemory threeRows.schema [threeRows, threeRows, threeRows]

/-- Four of nine rows: the third batch is not looked at. -/
theorem limit_takes_four :
    (PhysicalPlan.limit nineRows 4).rows ⟨"", "", 0, ⟨[]⟩⟩ =
        .ok ((rowsOf [threeRows, threeRows, threeRows]).take 4) ∧
      (PhysicalPlan.limit nineRows 4).execute ⟨"", "", 0, ⟨[]⟩⟩ =
        (PhysicalPlan.limit (.inMemory threeRows.schema [threeRows, threeRows]) 4).execute
          ⟨"", "", 0, ⟨[]⟩⟩ := by
  have hschema : nineRows.schema = .ok threeRows.schema := rfl
  have hinput : nineRows.execute ⟨"", "", 0, ⟨[]⟩⟩ =
      .ok ([threeRows, threeRows, threeRows].map .ok) := rfl
  have h := limit_takes hschema hinput (by simp) (by decide) (by decide) 4
  exact ⟨h.1, h.2 [threeRows, threeRows] [threeRows] rfl (by decide)⟩

/-- A context with the rows as the table `t`. -/
def threeRowsContext : ExecutionContext :=
  ⟨1024, fun name => if name = "t" then some ⟨.scan ⟨"t", .inMemory ⟨threeRows.schema, [threeRows],
    by decide⟩, [], threeRows.schema, rfl⟩⟩ else none⟩

/-- `LIMIT 2 ^ 32 + 1` is run as `LIMIT 1`. -/
theorem sql_limit_wrapsAround :
    threeRowsContext.sqlRows ⟨"", "", 0, ⟨[]⟩⟩ "SELECT a FROM t" =
        .ok [[.int32 1], [.int32 2], [.int32 3]] ∧
      threeRowsContext.sqlRows ⟨"", "", 0, ⟨[]⟩⟩ "SELECT a FROM t LIMIT 4294967297" =
        .ok [[.int32 1]] ∧
      ¬ threeRowsContext.HonoursLimit ⟨"", "", 0, ⟨[]⟩⟩ "SELECT a FROM t LIMIT 4294967297"
        4294967297 [[.int32 1], [.int32 2], [.int32 3]] := by
  have hlimited : threeRowsContext.sqlRows ⟨"", "", 0, ⟨[]⟩⟩
      "SELECT a FROM t LIMIT 4294967297" = .ok [[.int32 1]] := by decide +kernel
  refine ⟨by decide +kernel, hlimited, ?_⟩
  rintro ⟨hrows, -⟩
  rw [hlimited] at hrows
  simp at hrows

/-- A build whose maps are iterated from the last entry to the first. -/
@[reducible] def reversedOrderRuntime : Runtime :=
  insertionOrderRuntime.withMapOrder List.reverse List.reverse_perm

/-- `LIMIT 2` yields two of three rows, also where maps are iterated in another order than they were
for the three rows. -/
theorem sql_limit_iff_two :
    threeRowsContext.HonoursLimit ⟨"", "", 0, ⟨[]⟩⟩ "SELECT a FROM t LIMIT 2" 2
        [[.int32 1], [.int32 2], [.int32 3]] ∧
      @ExecutionContext.HonoursLimit _ _ _ _ reversedOrderRuntime threeRowsContext
        ⟨"", "", 0, ⟨[]⟩⟩ "SELECT a FROM t LIMIT 2" 2 [[.int32 1], [.int32 2], [.int32 3]] := by
  have hrun : (do
      let tokens ← tokenize "SELECT a FROM t LIMIT 2"
      let parsed ← parseStatement tokens
      let items ← parsed.1.projection.mapM SqlPlanner.createLogicalExpr
      let rows ← threeRowsContext.selectRows ⟨"", "", 0, ⟨[]⟩⟩ (SqlPlanner.unlimited parsed.1)
      return ((parsed.1.tableName, items.any isAggregateExpr), parsed.1.limit,
        closingNumber tokens parsed.2, rows)) =
        .ok (("t", false), some 2, some 2, [[.int32 1], [.int32 2], [.int32 3]]) := by
    decide +kernel
  obtain ⟨tokens, htokens, hrun⟩ := Outcome.bind_eq_ok_iff.mp hrun
  obtain ⟨⟨select, rest⟩, hparse, hrun⟩ := Outcome.bind_eq_ok_iff.mp hrun
  obtain ⟨items, hitems, hrun⟩ := Outcome.bind_eq_ok_iff.mp hrun
  obtain ⟨rows, hrows, hrun⟩ := Outcome.bind_pure_eq_ok_iff.mp hrun
  obtain ⟨hselect, hrun⟩ := Prod.mk.inj hrun
  obtain ⟨htable, hplain⟩ := Prod.mk.inj hselect
  obtain ⟨hlimit, hrun⟩ := Prod.mk.inj hrun
  obtain ⟨hn, rfl⟩ := Prod.mk.inj hrun
  have hsome : select.limit ≠ none := hlimit ▸ Option.some_ne_none 2
  have hnoMap : SqlPlanner.IteratesNoMap select threeRowsContext.tables := by
    intro table items' htable' hitems'
    obtain rfl := Except.ok.inj (hitems.symm.trans hitems')
    rw [show select.tableName = "t" from htable.symm] at htable'
    obtain rfl := Option.some.inj htable'
    exact ⟨trivial, fun e he => Bool.not_eq_true _ ▸ List.any_eq_false.mp hplain.symm e he⟩
  obtain ⟨-, hown, hother⟩ := sql_limit_iff (n := 2) htokens hparse hsome hn.symm hrows
  obtain ⟨-, hreversed, -⟩ := hother List.reverse List.reverse_perm hnoMap
  exact ⟨hown.honours_iff.mpr (by decide), hreversed.mpr (by decide)⟩

end LimitedRows

end RQuery
