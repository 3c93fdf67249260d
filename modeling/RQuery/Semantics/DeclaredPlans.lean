import RQuery.Physical.ReferenceGrouping
import RQuery.Semantics.DeclaredTypes
import RQuery.Semantics.LimitClause
import RQuery.Semantics.Refinement

/-!
# Plans of declared types

`queryRows_denotes` says that what the engine returns is what a plan denotes, if it returns. Here is
the other direction. The engine builds its batches under the schemas that the plan declares, so the
expressions have to be evaluated to the types of their fields (`LogicalPlan.TypesDeclared`), and no
operator may rebuild batches under the schema that `ScanExec` declares for a scan of all columns,
which has none (`LogicalPlan.ReadsExplicitly`). A plan that meets both and has a denotation is
executed without a panic (`queryRows_of_denote`).
-/

namespace RQuery

section

variable [FloatModel] [R : Readers]

/-- The expression is lowered to one that is evaluated to the type of its field, and there is a
builder for the type. -/
def LogicalExpr.IsDeclared (schema : Schema) (e : LogicalExpr) : Prop :=
  ∃ p field, createPhysicalExpr (.ok schema) e = .ok p ∧ e.toField (.ok schema) = .ok field ∧
    p.dataType schema.types = .ok field.dataType ∧ field.dataType.hasBuilder

/-- The aggregate is lowered to one whose result is of the type of its field. AVG returns doubles,
and is declared to return what its argument is. -/
def AggregateExpr.IsDeclared (schema : Schema) (a : AggregateExpr) : Prop :=
  ∃ p t field, createAggregateExpr (.ok schema) a = .ok p ∧
    p.inputExpression.dataType schema.types = .ok t ∧ a.toField (.ok schema) = .ok field ∧
    field.dataType = p.function.resultType t ∧ field.dataType.hasBuilder ∧
    (p.function = .avg → t = .float64)

namespace LogicalPlan

/-- The expressions of the plan are of the types of their fields, and every operator has a column. -/
def TypesDeclared : LogicalPlan → Prop
  | scan s => s.schema.fields ≠ [] ∧ ∀ t ∈ s.schema.types, t.hasBuilder
  | projection input expr => input.TypesDeclared ∧ expr ≠ [] ∧
      ∃ schema, input.schema = .ok schema ∧ ∀ e ∈ expr, e.IsDeclared schema
  | selection input expr => input.TypesDeclared ∧
      ∃ schema p, input.schema = .ok schema ∧ createPhysicalExpr (.ok schema) expr = .ok p ∧
        Outcome.Succeeds (p.dataType schema.types)
  | aggregate input groupExpr aggregateExpr => input.TypesDeclared ∧
      (groupExpr ≠ [] ∨ aggregateExpr ≠ []) ∧
      ∃ schema, input.schema = .ok schema ∧ (∀ e ∈ groupExpr, e.IsDeclared schema) ∧
        ∀ a ∈ aggregateExpr, a.IsDeclared schema
  | join left right _ on => left.TypesDeclared ∧ right.TypesDeclared ∧
      ∃ ls rs, left.schema = .ok ls ∧ right.schema = .ok rs ∧
        ∀ k ∈ on, k.1 ∈ ls.names ∧ k.2 ∈ rs.names
  | limit input _ => input.TypesDeclared

/-- No selection and no limit works on batches whose columns are not declared. -/
def ReadsExplicitly : LogicalPlan → Prop
  | scan _ => True
  | projection input _ => input.ReadsExplicitly
  | selection input _ => input.ReadsExplicitly ∧ ¬ input.ReadsAllImplicitly
  | aggregate input _ _ => input.ReadsExplicitly
  | join left right _ _ => left.ReadsExplicitly ∧ right.ReadsExplicitly
  | limit input _ => input.ReadsExplicitly ∧ ¬ input.ReadsAllImplicitly

end LogicalPlan

/-! ## Schemas -/

/-- There is a column, and there are builders for all of them. -/
structure Schema.Buildable (s : Schema) : Prop where
  fields_ne : s.fields ≠ []
  hasBuilder : ∀ t ∈ s.types, t.hasBuilder

omit R in
/-- Declared expressions have fields of types with builders. -/
theorem LogicalExpr.fields_hasBuilder {schema : Schema} {exprs : List LogicalExpr}
    (h : ∀ e ∈ exprs, e.IsDeclared schema) :
    ∃ fields : List Field, exprs.mapM (LogicalExpr.toField (.ok schema)) = .ok fields ∧
      ∀ f ∈ fields, f.dataType.hasBuilder := by
  obtain ⟨fields, hfields⟩ : Outcome.Succeeds (exprs.mapM (LogicalExpr.toField (.ok schema))) := by
    rw [Outcome.mapM_succeeds_iff]
    intro e he
    obtain ⟨p, field, -, hfield, -⟩ := h e he
    exact ⟨field, hfield⟩
  refine ⟨fields, hfields, fun f hf => ?_⟩
  obtain ⟨e, he, hef⟩ := Outcome.mapM_mem hfields hf
  obtain ⟨p, field, -, hfield, -, hbuilder⟩ := h e he
  rwa [Except.ok.inj (hef.symm.trans hfield)]

omit R in
/-- Declared expressions are lowered. -/
theorem LogicalExpr.lowers_of_declared {schema : Schema} {exprs : List LogicalExpr}
    (h : ∀ e ∈ exprs, e.IsDeclared schema) :
    Outcome.Succeeds (exprs.mapM (createPhysicalExpr (.ok schema))) := by
  rw [Outcome.mapM_succeeds_iff]
  intro e he
  obtain ⟨p, -, hp, -⟩ := h e he
  exact ⟨p, hp⟩

omit R in
/-- Declared aggregates have fields of types with builders. -/
theorem AggregateExpr.fields_hasBuilder {schema : Schema} {aggregates : List AggregateExpr}
    (h : ∀ a ∈ aggregates, a.IsDeclared schema) :
    ∃ fields : List Field, aggregates.mapM (AggregateExpr.toField (.ok schema)) = .ok fields ∧
      ∀ f ∈ fields, f.dataType.hasBuilder := by
  obtain ⟨fields, hfields⟩ :
      Outcome.Succeeds (aggregates.mapM (AggregateExpr.toField (.ok schema))) := by
    rw [Outcome.mapM_succeeds_iff]
    intro a ha
    obtain ⟨p, t, field, -, -, hfield, -⟩ := h a ha
    exact ⟨field, hfield⟩
  refine ⟨fields, hfields, fun f hf => ?_⟩
  obtain ⟨a, ha, haf⟩ := Outcome.mapM_mem hfields hf
  obtain ⟨p, t, field, -, -, hfield, -, hbuilder, -⟩ := h a ha
  rwa [Except.ok.inj (haf.symm.trans hfield)]

omit [FloatModel] R in
/-- A schema of such fields can be built, unless it is empty. -/
theorem buildable_of_fields {fields : List Field} (hne : fields ≠ [])
    (h : ∀ f ∈ fields, f.dataType.hasBuilder) : Schema.Buildable ⟨fields⟩ := by
  refine ⟨hne, fun t ht => ?_⟩
  obtain ⟨f, hf, rfl⟩ := List.mem_map.mp ht
  exact h f hf

omit [FloatModel] R in
/-- The schema of a join can be built if those of its sides can. -/
theorem Schema.Buildable.join {ls rs : Schema} (hl : ls.Buildable) (hr : rs.Buildable)
    (joinType : JoinType) (on : List (String × String)) :
    Schema.Buildable ⟨joinFields joinType on ls.fields rs.fields⟩ := by
  have hfields : ∀ f ∈ ls.fields ++ rs.fields, f.dataType.hasBuilder := by
    intro f hf
    rcases List.mem_append.mp hf with hf | hf
    · exact hl.hasBuilder _ (List.mem_map_of_mem hf)
    · exact hr.hasBuilder _ (List.mem_map_of_mem hf)
  apply buildable_of_fields
  · cases joinType with
    | right => exact List.append_ne_nil_of_right_ne_nil _ hr.fields_ne
    | _ => exact List.append_ne_nil_of_left_ne_nil hl.fields_ne _
  · intro f hf
    apply hfields
    cases joinType with
    | right => exact List.mem_append.mpr ((List.mem_append.mp hf).imp_left List.mem_of_mem_filter)
    | _ => exact List.mem_append.mpr ((List.mem_append.mp hf).imp_right List.mem_of_mem_filter)

/-- The schema of a plan of declared types. -/
theorem LogicalPlan.TypesDeclared.schema {P : LogicalPlan} (h : P.TypesDeclared) :
    ∃ s, P.schema = .ok s ∧ s.Buildable := by
  -- Every field an operator declares has a builder, and none declares an empty schema.
  induction P with
  | scan s => exact ⟨s.schema, rfl, h.1, h.2⟩
  | projection input expr ih =>
    obtain ⟨-, hne, schema, hschema, hexpr⟩ := h
    obtain ⟨fields, hfields, hbuilder⟩ := LogicalExpr.fields_hasBuilder hexpr
    refine ⟨⟨fields⟩, by rw [LogicalPlan.schema, hschema, hfields]; rfl,
      buildable_of_fields ?_ hbuilder⟩
    rw [← List.length_pos_iff, Outcome.mapM_length hfields]
    exact List.length_pos_iff.mpr hne
  | selection input expr ih => exact ih h.1
  | aggregate input groupExpr aggregateExpr ih =>
    obtain ⟨-, hne, schema, hschema, hgroup, haggregate⟩ := h
    obtain ⟨groups, hgroups, hgbuilder⟩ := LogicalExpr.fields_hasBuilder hgroup
    obtain ⟨aggregates, haggregates, habuilder⟩ := AggregateExpr.fields_hasBuilder haggregate
    refine ⟨⟨groups ++ aggregates⟩, ?_, buildable_of_fields ?_ ?_⟩
    · rw [LogicalPlan.schema, hschema, hgroups, Outcome.ok_bind, haggregates]
      rfl
    · rw [← List.length_pos_iff, List.length_append, Outcome.mapM_length hgroups,
        Outcome.mapM_length haggregates]
      rcases hne with hne | hne
      · exact Nat.add_pos_left (List.length_pos_iff.mpr hne) _
      · exact Nat.add_pos_right _ (List.length_pos_iff.mpr hne)
    · intro f hf
      rcases List.mem_append.mp hf with hf | hf
      · exact hgbuilder f hf
      · exact habuilder f hf
  | join left right joinType on ihl ihr =>
    obtain ⟨ls, hls, hl⟩ := ihl h.1
    obtain ⟨rs, hrs, hr⟩ := ihr h.2.1
    exact ⟨_, by rw [LogicalPlan.schema, hls, hrs]; rfl, hl.join hr joinType on⟩
  | limit input n ih => exact ih h

omit [FloatModel] R in
/-- A column that the schema has is found. -/
theorem fieldPosition_succeeds {s : Schema} {name : String} (h : name ∈ s.names) :
    Outcome.Succeeds (fieldPosition s name) := by
  obtain ⟨i, hi⟩ := Schema.position?_of_mem h
  exact ⟨i, by rw [fieldPosition, hi]⟩

/-- A plan of declared types is lowered. -/
theorem LogicalPlan.TypesDeclared.lowers {P : LogicalPlan} (h : P.TypesDeclared) :
    Outcome.Succeeds (createPhysicalPlan P) := by
  -- The planner looks names up where the declaration found them, so no lookup panics.
  induction P with
  | scan s => exact ⟨_, rfl⟩
  | projection input expr ih =>
    obtain ⟨sub, hsub⟩ := ih h.1
    obtain ⟨-, -, schema, hschema, hexpr⟩ := h
    obtain ⟨fields, hfields, -⟩ := LogicalExpr.fields_hasBuilder hexpr
    obtain ⟨es, hes⟩ := LogicalExpr.lowers_of_declared hexpr
    rw [createPhysicalPlan, hsub, Outcome.ok_bind, hschema, hes, Outcome.ok_bind, hfields]
    exact ⟨_, rfl⟩
  | selection input expr ih =>
    obtain ⟨sub, hsub⟩ := ih h.1
    obtain ⟨-, schema, p, hschema, hp, -⟩ := h
    rw [createPhysicalPlan, hsub, Outcome.ok_bind, hschema, hp]
    exact ⟨_, rfl⟩
  | aggregate input groupExpr aggregateExpr ih =>
    obtain ⟨sub, hsub⟩ := ih h.1
    obtain ⟨out, hout, -⟩ := h.schema
    obtain ⟨-, -, schema, hschema, hgroup, haggregate⟩ := h
    obtain ⟨group, hgroup⟩ := LogicalExpr.lowers_of_declared hgroup
    obtain ⟨aggregate, haggregate⟩ :
        Outcome.Succeeds (aggregateExpr.mapM (createAggregateExpr (.ok schema))) := by
      rw [Outcome.mapM_succeeds_iff]
      intro a ha
      obtain ⟨p, -, -, hp, -⟩ := haggregate a ha
      exact ⟨p, hp⟩
    rw [createPhysicalPlan, hsub, Outcome.ok_bind, hschema, hgroup, Outcome.ok_bind, haggregate,
      Outcome.ok_bind, hout]
    exact ⟨_, rfl⟩
  | join left right joinType on ihl ihr =>
    obtain ⟨lp, hlp⟩ := ihl h.1
    obtain ⟨rp, hrp⟩ := ihr h.2.1
    obtain ⟨-, -, ls, rs, hls, hrs, hkeys⟩ := h
    obtain ⟨lk, hlk⟩ : Outcome.Succeeds (on.mapM fun k => fieldPosition ls k.1) := by
      rw [Outcome.mapM_succeeds_iff]
      exact fun k hk => fieldPosition_succeeds (hkeys k hk).1
    obtain ⟨rk, hrk⟩ : Outcome.Succeeds (on.mapM fun k => fieldPosition rs k.2) := by
      rw [Outcome.mapM_succeeds_iff]
      exact fun k hk => fieldPosition_succeeds (hkeys k hk).2
    simp only [createPhysicalPlan, hlp, hrp, hls, hrs, hlk, hrk, Outcome.ok_bind,
      LogicalPlan.schema]
    exact ⟨_, rfl⟩
  | limit input n ih =>
    obtain ⟨sub, hsub⟩ := ih h
    rw [createPhysicalPlan, hsub]
    exact ⟨_, rfl⟩

/-! ## One operator -/

section

variable [Runtime]

omit R in
/-- A batch is projected if the expressions are of the declared types and evaluate on its rows. -/
theorem projectBatch_succeeds {schema : Schema} (hschema : schema.Buildable)
    {es : List Expression} {b : RecordBatch}
    (htypes : es.mapM (fun e => e.dataType b.types) = .ok schema.types)
    (hrows : ∀ r ∈ b.rows, Outcome.Succeeds (es.mapM fun e => e.evalCell b.types r)) :
    Outcome.Succeeds (projectBatch schema es b) := by
  obtain ⟨rows, hrows⟩ := Outcome.mapM_succeeds_iff.mpr hrows
  have hfits : ∀ r ∈ rows, RowFits schema.types r := by
    intro r hr
    obtain ⟨row, hrow, hcells⟩ := Outcome.mapM_mem hrows hr
    have hrow : RowFits b.types row := b.types_eq_schema ▸ b.rows_fit row hrow
    exact (HashAggregate.cellsFit_of_mapM id hrow htypes hcells).rowFits
  have hne : es ≠ [] := by
    rintro rfl
    have hlen := Outcome.mapM_length htypes
    rw [List.length_nil, Schema.types, List.length_map, List.length_eq_zero_iff] at hlen
    exact hschema.fields_ne hlen
  refine ⟨.ofRows schema rows hfits, projectBatch_eq_ok_iff.mpr
    ⟨rfl, hne, htypes, hschema.hasBuilder, ?_⟩⟩
  rw [RecordBatch.ofRows_rows]
  exact hrows

omit R in
/-- A batch is filtered if the condition has a type and evaluates on its rows. -/
theorem filterBatch_succeeds {schema : Schema} (hschema : schema.Buildable) {e : Expression}
    {b : RecordBatch} (hb : b.types = schema.types)
    (htype : Outcome.Succeeds (e.dataType schema.types))
    (hrows : ∀ r ∈ b.rows, Outcome.Succeeds (e.evalCell schema.types r)) :
    Outcome.Succeeds (filterBatch schema e b) := by
  obtain ⟨cells, hcells⟩ := Outcome.mapM_succeeds_iff.mpr hrows
  have hfits : ∀ r ∈ keepTrue b.rows cells, RowFits schema.types r := by
    intro r hr
    obtain ⟨x, hx, rfl⟩ := List.mem_map.mp hr
    rw [← hb, b.types_eq_schema]
    exact b.rows_fit _ (List.of_mem_zip (List.mem_of_mem_filter hx)).1
  refine ⟨.ofRows schema _ hfits, filterBatch_eq_ok_iff.mpr
    ⟨hb ▸ htype, cells, hb ▸ hcells, rfl, hb, hschema.fields_ne, hschema.hasBuilder, ?_⟩⟩
  exact RecordBatch.ofRows_rows schema _ hfits

omit R [Runtime] in
/-- A stream of batches that an operator takes one by one. -/
theorem mapM_stream_succeeds {f : RecordBatch → Result RecordBatch} {batches : List RecordBatch}
    (h : ∀ b ∈ batches, Outcome.Succeeds (f b)) :
    ∃ out : List RecordBatch,
      ((batches.map .ok : BatchStream).map fun item => do f (← item)) = out.map .ok := by
  obtain ⟨out, hout⟩ := Outcome.mapM_succeeds_iff.mpr h
  refine ⟨out, ?_⟩
  rw [List.map_map]
  exact Outcome.forall₂_map_eq (Outcome.mapM_eq_ok_iff.mp hout) fun _ _ h => h

/-! ## Aggregation -/

omit R in
/-- What an aggregate returns is of its type. -/
theorem aggregate_fitsIn {f : AggregateFunction} {t : DataType} (hf : f = .avg → t = .float64)
    {vs : List ScalarValue} (hvs : ∀ v ∈ vs, v.FitsIn t) {v : ScalarValue}
    (h : aggregate .completeMode f vs = .ok v) : v.FitsIn (f.resultType t) := by
  obtain ⟨acc, hacc, hout⟩ := Outcome.bind_eq_ok_iff.mp h
  obtain rfl : acc.finalValue = v := Except.ok.inj hout
  cases (Accumulator.holds_create f).foldlM hvs hacc with
  | sum hv => exact hv
  | min hv => exact hv
  | max hv => exact hv
  | count => exact .inr rfl
  | avg _ s =>
    rw [Accumulator.finalValue]
    split
    · exact ScalarValue.null_fitsIn _
    · exact .inr (hf rfl).symm

namespace HashAggregate

/-- The group values and the arguments are of these types over rows of `types`, AVG takes doubles,
and the schema is made of the types of the group values and the results. -/
structure DeclaredOver (agg : HashAggregate) (types groupTypes inputTypes : List DataType) :
    Prop where
  group_types : agg.groupExpr.mapM (fun e => e.dataType types) = .ok groupTypes
  input_types : agg.aggregateExpr.mapM (fun a => a.inputExpression.dataType types) = .ok inputTypes
  averages : List.Forall₂ (fun a t => a.function = .avg → t = .float64) agg.aggregateExpr inputTypes
  schema_types : agg.schema.types =
    groupTypes ++ List.zipWith (fun a t => a.function.resultType t) agg.aggregateExpr inputTypes

variable {agg : HashAggregate} {types groupTypes inputTypes : List DataType}

omit R in
/-- The keyed rows are of the types of the group expressions and the arguments. -/
theorem DeclaredOver.item_fits (hagg : agg.DeclaredOver types groupTypes inputTypes)
    {rows : List Row} (hrows : ∀ r ∈ rows, RowFits types r) {items : List Item}
    (hitems : rows.mapM (agg.readItem types) = .ok items) :
    ∀ x ∈ items, CellsFit groupTypes x.1 ∧ CellsFit inputTypes x.2 := by
  intro x hx
  obtain ⟨row, hrow, hread⟩ := Outcome.mapM_mem hitems hx
  obtain ⟨key, hkey, hread⟩ := Outcome.bind_eq_ok_iff.mp hread
  obtain ⟨args, hargs, rfl⟩ := Outcome.bind_pure_eq_ok_iff.mp hread
  exact ⟨cellsFit_of_mapM id (hrows row hrow) hagg.group_types hkey,
    cellsFit_of_mapM _ (hrows row hrow) hagg.input_types hargs⟩

omit R in
/-- The row of a group is of the types of the schema. -/
theorem DeclaredOver.groupRow_fits (hagg : agg.DeclaredOver types groupTypes inputTypes)
    {items : List Item} (hitems : ∀ x ∈ items, CellsFit groupTypes x.1 ∧ CellsFit inputTypes x.2)
    {key : GroupKey} (hkey : key ∈ groupKeys items) {row : Row}
    (hrow : agg.groupRow .completeMode items key = .ok row) : RowFits agg.schema.types row := by
  have hinputs : inputTypes.length = agg.aggregateExpr.length := hagg.averages.length_eq.symm
  have hlen : ∀ x ∈ items, x.2.length = agg.aggregateExpr.length := fun x hx =>
    (hitems x hx).2.length_eq.symm.trans hinputs
  obtain ⟨args, hargs⟩ := mem_groupKeys.mp hkey
  obtain ⟨outs, rfl, houtslen, houts⟩ := (groupRow_eq_ok_iff hlen).mp hrow
  rw [hagg.schema_types]
  refine List.rel_append (hitems _ hargs).1.rowFits (List.forall₂_iff_get.mpr ⟨?_, ?_⟩)
  · rw [List.length_zipWith, hinputs, min_self, houtslen]
  · intro i hi hi' _
    have hi : i < agg.aggregateExpr.length := houtslen ▸ hi'
    have ht : inputTypes[i]? = some (inputTypes[i]) := List.getElem?_eq_getElem (hinputs ▸ hi)
    obtain ⟨v, hv, haggregate⟩ := houts i _ (List.getElem?_eq_getElem hi)
    obtain ⟨_, rfl⟩ := List.getElem?_eq_some_iff.mp hv
    have hfits := aggregate_fitsIn (hagg.averages.get hi (hinputs ▸ hi))
      (column_fits (fun x hx => (hitems x hx).2) key ht) haggregate
    simpa using hfits

omit R in
/-- The rows of batches of some types are read as the batches are, if the expressions have types. -/
theorem readBatches_succeeds
    (htypes : Outcome.Succeeds (agg.expressions.mapM fun e => e.dataType types))
    {batches : List RecordBatch} (hbatches : ∀ b ∈ batches, b.types = types) {items : List Item}
    (hitems : (rowsOf batches).mapM (agg.readItem types) = .ok items) :
    ∃ xs, batches.mapM agg.readBatch = .ok xs ∧ xs.flatten = items := by
  obtain ⟨ts, htypes⟩ := htypes
  rw [rowsOf, List.flatMap_def, Outcome.mapM_flatten_eq_ok_iff] at hitems
  obtain ⟨xs, hxs, rfl⟩ := hitems
  rw [List.mapM_map] at hxs
  refine ⟨xs, ?_, rfl⟩
  rw [← hxs]
  refine Outcome.mapM_congr fun b hb => ?_
  rw [readBatch, hbatches b hb, htypes, Outcome.ok_bind]
  rfl

omit R in
/-- An aggregation of declared types has a batch for rows whose groups have rows. -/
theorem DeclaredOver.run_succeeds {schema : Schema}
    (hagg : agg.DeclaredOver schema.types groupTypes inputTypes) (hout : agg.schema.Buildable)
    {cs : List RecordBatch} (hcs : ∀ b ∈ cs, b.types = schema.types) {rows : List Row}
    (hperm : (rowsOf cs).Perm rows)
    (horder : rowsOf cs = rows ∨
      (∀ a ∈ agg.aggregateExpr, a.function ≠ .avg) ∧ agg.ExactArguments schema)
    {items : List Item} (hitems : rows.mapM (agg.readItem schema.types) = .ok items)
    {out : List Row} (hrows : agg.outputRows .completeMode items = .ok out) :
    Outcome.Succeeds (agg.run .completeMode (cs.map .ok)) := by
  have htypes : Outcome.Succeeds (agg.expressions.mapM fun e => e.dataType schema.types) := by
    refine ⟨groupTypes ++ inputTypes, ?_⟩
    rw [expressions, Outcome.mapM_append_eq_ok_iff]
    refine ⟨groupTypes, inputTypes, hagg.group_types, ?_, rfl⟩
    rw [List.mapM_map]
    exact hagg.input_types
  obtain ⟨items', hitems', hitemsperm⟩ := Outcome.mapM_perm hperm.symm hitems
  obtain ⟨xs, hxs, rfl⟩ := readBatches_succeeds htypes hcs hitems'
  -- The groups do not depend on the order of the rows: it is that of the run, or the aggregates are
  -- exact.
  obtain ⟨out', hrows'⟩ : Outcome.Succeeds (agg.outputRows .completeMode xs.flatten) := by
    rcases horder with rfl | ⟨havg, hexact⟩
    · rw [Except.ok.inj (hitems'.symm.trans hitems)]
      exact ⟨out, hrows⟩
    · have hread : ∀ x ∈ items, x ∈ xs.flatten := fun x hx => hitemsperm.mem_iff.mp hx
      obtain ⟨out', hrows', -⟩ := outputRows_perm hitemsperm
        (fun x hx => (readBatches_lengths hxs x (hread x hx)).2)
        (fun x hx v hv => by
          obtain ⟨ys, hys, hx⟩ := List.mem_flatten.mp (hread x hx)
          obtain ⟨b, hb, hby⟩ := Outcome.mapM_mem hxs hys
          exact readBatch_exact hexact (hcs b hb) hby x hx v hv) havg hrows
      exact ⟨out', hrows'⟩
  -- What the groups output fits the schema's types, so every cell can be appended.
  have hfits : ∀ r ∈ rowsOf cs, RowFits schema.types r := by
    intro r hr
    obtain ⟨b, hb, hr⟩ := List.mem_flatMap.mp hr
    exact hcs b hb ▸ b.types_eq_schema ▸ b.rows_fit r hr
  have hbuilds : Builds agg.schema out' := by
    refine ⟨hout.fields_ne, hout.hasBuilder, fun r hr => ?_⟩
    obtain ⟨key, hkey, hrow⟩ := Outcome.mapM_mem hrows' hr
    exact hagg.groupRow_fits (hagg.item_fits hfits hitems') hkey hrow
  obtain ⟨b, hb, -⟩ := HashAggregate.run_succeeds (Outcome.mapM_id_map_ok cs) hxs hrows' hbuilds
  exact ⟨b, hb⟩

end HashAggregate

omit R [Runtime] in
/-- Lowered expressions are of the types of their fields. -/
theorem LogicalExpr.lowered_types {schema : Schema} {exprs : List LogicalExpr}
    (h : ∀ e ∈ exprs, e.IsDeclared schema) {es : List Expression} {fields : List Field}
    (hes : exprs.mapM (createPhysicalExpr (.ok schema)) = .ok es)
    (hfields : exprs.mapM (LogicalExpr.toField (.ok schema)) = .ok fields) :
    es.mapM (fun e => e.dataType schema.types) = .ok (fields.map Field.dataType) := by
  induction exprs generalizing es fields with
  | nil =>
    obtain rfl : [] = es := by simpa using hes
    obtain rfl : [] = fields := by simpa using hfields
    rfl
  | cons e exprs ih =>
    obtain ⟨p, ps, hp, hps, rfl⟩ := Outcome.mapM_cons_eq_ok_iff.mp hes
    obtain ⟨f, fs, hf, hfs, rfl⟩ := Outcome.mapM_cons_eq_ok_iff.mp hfields
    obtain ⟨p', field, hp', hfield, htype, -⟩ := h e List.mem_cons_self
    obtain rfl := Except.ok.inj (hp.symm.trans hp')
    obtain rfl := Except.ok.inj (hf.symm.trans hfield)
    have hrest := ih (fun e he => h e (List.mem_cons_of_mem _ he)) hps hfs
    exact Outcome.mapM_cons_eq_ok_iff.mpr ⟨_, _, htype, hrest, rfl⟩

omit R [Runtime] in
/-- Lowered aggregates return the types of their fields. -/
theorem AggregateExpr.lowered_types {schema : Schema} {aggregates : List AggregateExpr}
    (h : ∀ a ∈ aggregates, a.IsDeclared schema) {as : List AggregateExpression}
    {fields : List Field} (has : aggregates.mapM (createAggregateExpr (.ok schema)) = .ok as)
    (hfields : aggregates.mapM (AggregateExpr.toField (.ok schema)) = .ok fields) :
    ∃ inputTypes,
      as.mapM (fun a => a.inputExpression.dataType schema.types) = .ok inputTypes ∧
      List.Forall₂ (fun a t => a.function = .avg → t = .float64) as inputTypes ∧
      fields.map Field.dataType =
        List.zipWith (fun a t => a.function.resultType t) as inputTypes := by
  induction aggregates generalizing as fields with
  | nil =>
    obtain rfl : [] = as := by simpa using has
    obtain rfl : [] = fields := by simpa using hfields
    exact ⟨[], rfl, .nil, rfl⟩
  | cons a aggregates ih =>
    obtain ⟨p, ps, hp, hps, rfl⟩ := Outcome.mapM_cons_eq_ok_iff.mp has
    obtain ⟨f, fs, hf, hfs, rfl⟩ := Outcome.mapM_cons_eq_ok_iff.mp hfields
    obtain ⟨p', t, field, hp', htype, hfield, hresult, -, havg⟩ := h a List.mem_cons_self
    obtain rfl := Except.ok.inj (hp.symm.trans hp')
    obtain rfl := Except.ok.inj (hf.symm.trans hfield)
    obtain ⟨ts, hts, havgs, hresults⟩ :=
      ih (fun a ha => h a (List.mem_cons_of_mem _ ha)) hps hfs
    refine ⟨t :: ts, Outcome.mapM_cons_eq_ok_iff.mpr ⟨_, _, htype, hts, rfl⟩,
      .cons havg havgs, ?_⟩
    rw [List.map_cons, hresult, hresults, List.zipWith_cons_cons]

/-! ## Plans -/

/-- Every scan of the plan is read to its end. -/
def LogicalPlan.Readable : LogicalPlan → Prop
  | .scan s => ∃ batches : List RecordBatch,
      s.dataSource.scan s.projection = .ok (batches.map .ok)
  | .projection input _ => input.Readable
  | .selection input _ => input.Readable
  | .aggregate input _ _ => input.Readable
  | .join left right _ _ => left.Readable ∧ right.Readable
  | .limit input _ => input.Readable

/-- The batches of a lowered plan that was read to its end, with their schemas. -/
theorem batches_schema {content : Content} {P : LogicalPlan} {plan : PhysicalPlan}
    (h : createPhysicalPlan P = .ok plan) (hdelivers : P.Delivers content) {ctx : ExecutorContext}
    {batches : List RecordBatch} (hbatches : plan.execute ctx = .ok (batches.map .ok))
    {schema : Schema} (hschema : P.schema = .ok schema) : ∀ b ∈ batches, b.schema = schema :=
  fun _ hb => Except.ok.inj
    ((execute_schema h hdelivers hbatches (List.mem_map_of_mem hb)).symm.trans hschema)

/-- The batches of an operator's input, read to the end: their rows are those of its denotation. -/
theorem batches_denoted {content : Content} {P : LogicalPlan} (hsettled : P.Settled)
    (halign : P.JoinsAlign) (hdelivers : P.Delivers content) {plan : PhysicalPlan}
    (h : createPhysicalPlan P = .ok plan) {ctx : ExecutorContext} {batches : List RecordBatch}
    (hbatches : plan.execute ctx = .ok (batches.map .ok)) {rows : List Row}
    (hrows : P.denote content = .ok rows) {schema : Schema} (hschema : P.schema = .ok schema) :
    (rowsOf batches).Perm rows ∧ ∀ b ∈ batches, b.schema = schema := by
  obtain ⟨rows', hrows', hperm⟩ :=
    execute_answers hsettled halign hdelivers h hbatches (.inr ⟨rows, hrows⟩)
  obtain rfl : rows = rows' := Except.ok.inj (hrows.symm.trans hrows')
  exact ⟨hperm, batches_schema h hdelivers hbatches hschema⟩

/-- A lowered plan that has a denotation is executed to its end. -/
theorem execute_complete {content : Content} {P : LogicalPlan} (hsettled : P.Settled)
    (halign : P.JoinsAlign) (hdelivers : P.Delivers content) (hreadable : P.Readable)
    (htypes : P.TypesDeclared) (hexplicit : P.ReadsExplicitly) {plan : PhysicalPlan}
    (h : createPhysicalPlan P = .ok plan) (ctx : ExecutorContext) {rows : List Row}
    (hrows : P.denote content = .ok rows) :
    ∃ batches : List RecordBatch, plan.execute ctx = .ok (batches.map .ok) := by
  induction P generalizing plan rows with
  | scan s =>
    cases h
    exact hreadable
  | projection input expr ih =>
    obtain ⟨out, hout, hbuildable⟩ := htypes.schema
    obtain ⟨htypes, -, schema, hschema, hexpr⟩ := htypes
    rw [LogicalPlan.denote, hschema, Outcome.ok_bind] at hrows
    obtain ⟨es, hes, hrows⟩ := Outcome.bind_eq_ok_iff.mp hrows
    obtain ⟨rows', hrows', hrows⟩ := Outcome.bind_eq_ok_iff.mp hrows
    rw [createPhysicalPlan, hschema, hes] at h
    obtain ⟨sub, hsub, h⟩ := Outcome.bind_eq_ok_iff.mp h
    obtain ⟨fields, hfields, rfl⟩ := Outcome.bind_pure_eq_ok_iff.mp h
    obtain rfl : ⟨fields⟩ = out := by
      rw [LogicalPlan.schema, hschema, hfields] at hout
      exact Except.ok.inj hout
    obtain ⟨cs, hcs⟩ := ih hsettled halign hdelivers hreadable htypes hexplicit hsub hrows'
    obtain ⟨hperm, hschemas⟩ :=
      batches_denoted (P := input) hsettled halign hdelivers hsub hcs hrows' hschema
    obtain ⟨out, hout⟩ := mapM_stream_succeeds (f := projectBatch ⟨fields⟩ es) fun b hb => by
      have hb' : b.types = schema.types := hschemas b hb ▸ b.types_eq_schema
      refine projectBatch_succeeds hbuildable (hb' ▸ LogicalExpr.lowered_types hexpr hes hfields) ?_
      intro r hr
      have hr : r ∈ rowsOf cs := List.mem_flatMap.mpr ⟨b, hb, hr⟩
      rw [hb']
      exact Outcome.mapM_succeeds_iff.mp ⟨_, hrows⟩ r (hperm.mem_iff.mp hr)
    refine ⟨out, ?_⟩
    rw [PhysicalPlan.execute, hcs, Outcome.ok_bind, hout]
    rfl
  | selection input expr ih =>
    obtain ⟨t, ht, hbuildable⟩ := htypes.1.schema
    obtain ⟨htypes, schema, p, hschema, hp, htype⟩ := htypes
    obtain rfl : schema = t := Except.ok.inj (hschema.symm.trans ht)
    rw [LogicalPlan.denote, hschema, Outcome.ok_bind, hp, Outcome.ok_bind] at hrows
    obtain ⟨rows', hrows', hrows⟩ := Outcome.bind_eq_ok_iff.mp hrows
    obtain ⟨cells, hcells, -⟩ := Outcome.bind_eq_ok_iff.mp hrows
    rw [createPhysicalPlan, hschema, hp] at h
    obtain ⟨sub, hsub, rfl⟩ := Outcome.bind_pure_eq_ok_iff.mp h
    obtain ⟨cs, hcs⟩ := ih hsettled halign hdelivers hreadable htypes hexplicit.1 hsub hrows'
    obtain ⟨hperm, hschemas⟩ :=
      batches_denoted (P := input) hsettled halign hdelivers hsub hcs hrows' hschema
    -- The lowered input declares its columns, so that batches can be rebuilt under its schema.
    obtain ⟨declared, hdeclared, -, hsame⟩ := declared_schema hsub hschema
    obtain rfl := hsame hexplicit.2
    obtain ⟨out, hout⟩ := mapM_stream_succeeds (f := filterBatch declared p) fun b hb => by
      have hb' : b.types = declared.types := hschemas b hb ▸ b.types_eq_schema
      refine filterBatch_succeeds hbuildable hb' htype fun r hr => ?_
      have hr : r ∈ rowsOf cs := List.mem_flatMap.mpr ⟨b, hb, hr⟩
      exact Outcome.mapM_succeeds_iff.mp ⟨_, hcells⟩ r (hperm.mem_iff.mp hr)
    refine ⟨out, ?_⟩
    rw [PhysicalPlan.execute, hdeclared, hcs, Outcome.ok_bind, Outcome.ok_bind, hout]
    rfl
  | aggregate input groupExpr aggregateExpr ih =>
    obtain ⟨out, hout, hbuildable⟩ := htypes.schema
    obtain ⟨htypes, -, schema, hschema, hgroup, haggregate⟩ := htypes
    rw [LogicalPlan.denote, hschema, Outcome.ok_bind] at hrows
    obtain ⟨group, hes, hrows⟩ := Outcome.bind_eq_ok_iff.mp hrows
    obtain ⟨aggregate, has, hrows⟩ := Outcome.bind_eq_ok_iff.mp hrows
    rw [hout, Outcome.ok_bind] at hrows
    obtain ⟨rows', hrows', hrows⟩ := Outcome.bind_eq_ok_iff.mp hrows
    obtain ⟨items, hitems, hrows⟩ := Outcome.bind_eq_ok_iff.mp hrows
    rw [createPhysicalPlan, hschema, hes, has, hout] at h
    obtain ⟨sub, hsub, rfl⟩ := Outcome.bind_pure_eq_ok_iff.mp h
    obtain ⟨cs, hcs⟩ := ih hsettled.1 halign hdelivers hreadable htypes hexplicit hsub hrows'
    obtain ⟨hperm, hschemas⟩ :=
      batches_denoted (P := input) hsettled.1 halign hdelivers hsub hcs hrows' hschema
    rw [LogicalPlan.schema, hschema] at hout
    obtain ⟨groups, hgroups, hout⟩ := Outcome.bind_eq_ok_iff.mp hout
    obtain ⟨aggregates, haggregates, rfl⟩ := Outcome.bind_pure_eq_ok_iff.mp hout
    obtain ⟨inputTypes, hinputs, havgs, hresults⟩ :=
      AggregateExpr.lowered_types haggregate has haggregates
    have hdeclared : HashAggregate.DeclaredOver ⟨group, aggregate, ⟨groups ++ aggregates⟩⟩
        schema.types (groups.map Field.dataType) inputTypes := by
      refine ⟨LogicalExpr.lowered_types hgroup hes hgroups, hinputs, havgs, ?_⟩
      rw [Schema.types, List.map_append, hresults]
    have horder : rowsOf cs = rows' ∨ (∀ a ∈ aggregate, a.function ≠ .avg) ∧
        HashAggregate.ExactArguments ⟨group, aggregate, ⟨groups ++ aggregates⟩⟩ schema := by
      refine hsettled.2.imp (fun horder => ?_) fun hfree => ?_
      · exact (rowsOf_of_cuts (execute_cuts horder halign hdelivers hsub hcs hrows')).symm
      · exact hfree.lowered hschema has _ _
    obtain ⟨b, hb⟩ := hdeclared.run_succeeds hbuildable
      (fun b hb => hschemas b hb ▸ b.types_eq_schema) hperm horder hitems hrows
    refine ⟨[b], ?_⟩
    rw [PhysicalPlan.execute, hcs, Outcome.ok_bind, hb]
    rfl
  | join left right joinType on ihl ihr =>
    obtain ⟨ls, hls, hrows⟩ := Outcome.bind_eq_ok_iff.mp hrows
    obtain ⟨rs, hrs, hrows⟩ := Outcome.bind_eq_ok_iff.mp hrows
    obtain ⟨_, -, hrows⟩ := Outcome.bind_eq_ok_iff.mp hrows
    obtain ⟨_, -, hrows⟩ := Outcome.bind_eq_ok_iff.mp hrows
    obtain ⟨lrows, hlrows, hrows⟩ := Outcome.bind_eq_ok_iff.mp hrows
    obtain ⟨rrows, hrrows, -⟩ := Outcome.bind_pure_eq_ok_iff.mp hrows
    obtain ⟨lp, rp, join, rfl⟩ := hashJoin_of_createPhysicalPlan h
    have hlowers := lowers_of_createPhysicalPlan h hls hrs
    obtain ⟨lb, hlb⟩ := ihl hsettled.1 halign.1 hdelivers.1 hreadable.1 htypes.1 hexplicit.1
      hlowers.left_eq hlrows
    obtain ⟨rb, hrb⟩ := ihr hsettled.2 halign.2.1 hdelivers.2 hreadable.2 htypes.2.1 hexplicit.2
      hlowers.right_eq hrrows
    obtain ⟨ob, hob, -⟩ := linesUp_of_aligns hlowers (halign.2.2 ls rs hls hrs) lb rb
      (batches_schema hlowers.left_eq hdelivers.1 hlb hls)
      (batches_schema hlowers.right_eq hdelivers.2 hrb hrs)
    refine ⟨ob, ?_⟩
    rw [PhysicalPlan.execute, hlb, hrb, Outcome.ok_bind, Outcome.ok_bind, hob]
  | limit input n ih =>
    obtain ⟨rows', hrows', rfl⟩ := Outcome.bind_pure_eq_ok_iff.mp hrows
    obtain ⟨sub, hsub, rfl⟩ := Outcome.bind_pure_eq_ok_iff.mp h
    obtain ⟨schema, hschema, hbuildable⟩ := LogicalPlan.TypesDeclared.schema (P := input) htypes
    obtain ⟨cs, hcs⟩ :=
      ih hsettled.settled halign hdelivers hreadable htypes hexplicit.1 hsub hrows'
    have hschemas := batches_schema hsub hdelivers hcs hschema
    obtain ⟨declared, hdeclared, -, hsame⟩ := declared_schema hsub hschema
    obtain rfl := hsame hexplicit.2
    have hrebuilds : ∀ b ∈ cs, b.Rebuilds declared := fun b hb =>
      ⟨hschemas b hb ▸ b.types_eq_schema, hbuildable.fields_ne, hbuildable.hasBuilder⟩
    obtain ⟨out, hout⟩ := limitStream_succeeds hrebuilds (n := asUsize n)
    refine ⟨out, ?_⟩
    rw [PhysicalPlan.execute, hdeclared, hcs, Outcome.ok_bind, Outcome.ok_bind, hout]
    rfl

/-- What a plan denotes is what `ExecutionContext::execute` returns for it, without a panic: the
same list if no operator iterates over a map, and otherwise a permutation of it. -/
theorem queryRows_of_denote {content : Content} {P P' : LogicalPlan} (hP : P.Optimizable)
    (hcovered : P.Covered) (hopt : optimize P = .ok P') (hsettled : P'.Settled)
    (halign : P'.JoinsAlign) (hdelivers : P'.Delivers content) (hreadable : P'.Readable)
    (htypes : P'.TypesDeclared) (hexplicit : P'.ReadsExplicitly) (executor : ExecutorContext)
    {rows : List Row} (hrows : P.denote content = .ok rows) :
    ∃ rows', queryRows executor P = .ok rows' ∧ rows'.Perm rows ∧ (P.InOrder → rows' = rows) := by
  obtain ⟨plan, hplan⟩ := htypes.lowers
  obtain ⟨⟨Q, names⟩, hpush, hQ⟩ := Outcome.bind_pure_eq_ok_iff.mp hopt
  obtain rfl : P' = Q := hQ
  obtain ⟨Q', names', hpush', -, -, hsame⟩ :=
    pushDown_simulates (prunable_of_lowered hP hpush hplan).1 ∅
  obtain ⟨rfl, rfl⟩ := Prod.mk.inj (Except.ok.inj (hpush.symm.trans hpush'))
  have hdenote : P'.denote content = P.denote content := (hsame hcovered).2 content
  obtain ⟨batches, hbatches⟩ := execute_complete hsettled halign hdelivers hreadable htypes
    hexplicit hplan executor (hdenote.trans hrows)
  have hstream : executePlan executor P = .ok (batches.map .ok) := by
    rw [executePlan, hopt, Outcome.ok_bind, hplan, Outcome.ok_bind, hbatches]
  obtain ⟨rows', hrows', hperm, horder⟩ :=
    executePlan_answers hP hcovered hopt hsettled halign hdelivers hstream (.inr ⟨rows, hrows⟩)
  obtain rfl := Except.ok.inj (hrows'.symm.trans hrows)
  exact ⟨rowsOf batches, queryRows_eq_ok_iff.mpr ⟨batches, hstream, rfl⟩, hperm, horder⟩

omit [Runtime] in
/-- Sources in memory are read to their ends. -/
theorem SameShape.readable {P P' : LogicalPlan} (h : SameShape P P') (hP : P.InMemory) :
    P'.Readable := by
  induction h with
  | scan s s' hsource =>
    obtain ⟨m, hm, hdistinct⟩ := hP
    have hm : s'.dataSource = .inMemory m := hsource.trans hm
    have hfull : s'.dataSource.schema = .ok m.schema := by
      rw [hm]
      rfl
    by_cases hne : s'.projection = []
    · refine ⟨m.data, ?_⟩
      rw [hm, hne]
      rfl
    · obtain ⟨idx, hidx⟩ := Schema.resolve_succeeds_iff.mpr
        (hdistinct.select_succeeds_iff.mp ⟨_, s'.select_schema hfull hne⟩)
      obtain ⟨out, hout, -⟩ := m.scan_eq_ok hdistinct hne hidx
      exact ⟨out, by rw [hm]; exact hout⟩
  | projection expr _ ih => exact ih hP
  | selection expr _ ih => exact ih hP
  | aggregate groupExpr aggregateExpr _ ih => exact ih hP
  | join joinType on _ _ ihl ihr => exact ⟨ihl hP.1, ihr hP.2⟩
  | limit n _ ih => exact ih hP

end

end

section HeldTypes

attribute [local instance] integerFloats insertionOrderRuntime noHeldFiles

/-- The pruned scan has both columns. -/
theorem heldPruned_derived :
    Scan.deriveSchema (.inMemory heldSource) ["a", "b"] =
      .ok ⟨[⟨"a", .int32⟩, ⟨"b", .int32⟩]⟩ := by
  decide

/-- What the optimizer makes of the plan. -/
def heldPruned : LogicalPlan :=
  .aggregate (.selection (.scan ⟨"held", .inMemory heldSource, ["a", "b"],
      ⟨[⟨"a", .int32⟩, ⟨"b", .int32⟩]⟩, heldPruned_derived⟩)
      (.binary .gt (.column "b") (.column "a")))
    [.column "b"] [⟨.max, .column "a"⟩]

/-- The pruned plan has expressions of declared types. -/
theorem heldPruned_typesDeclared : heldPruned.TypesDeclared := by
  refine ⟨⟨⟨by decide, by decide⟩, _, _, rfl, rfl, ⟨.boolean, rfl⟩⟩, .inl (by simp), _, rfl, ?_, ?_⟩
  · intro e he
    rw [List.mem_singleton.mp he]
    exact ⟨.column 1, ⟨"b", .int32⟩, rfl, rfl, rfl, rfl⟩
  · intro a ha
    rw [List.mem_singleton.mp ha]
    exact ⟨MaxExpression (.column 0), .int32, ⟨"MAX", .int32⟩, rfl, rfl, rfl, rfl, rfl, by decide⟩

/-- The maxima that the plan denotes are returned. -/
theorem queryRows_of_denote_held :
    ∃ rows, queryRows ⟨"", "", 0, ⟨[]⟩⟩ heldPlan = .ok rows ∧
      rows.Perm [[.int32 10, .int32 2], [.int32 20, .int32 3]] := by
  have hrows : heldPlan.denote memoryContent =
      .ok [[.int32 10, .int32 2], [.int32 20, .int32 3]] := by decide +kernel
  have hP : heldPlan.Optimizable :=
    ⟨⟨⟨rfl, by decide⟩, .inl rfl⟩, fun e he => .inl (by rw [List.mem_singleton.mp he]; rfl),
      fun a ha => .inl (by rw [List.mem_singleton.mp ha]; rfl)⟩
  have hopt : optimize heldPlan = .ok heldPruned := rfl
  have hmemory : heldPlan.InMemory := ⟨heldSource, rfl, by decide⟩
  have hshape : SameShape heldPlan heldPruned := .aggregate _ _ (.selection _ (.scan _ _ rfl))
  obtain ⟨rows, hquery, hperm, -⟩ := queryRows_of_denote hP trivial hopt ⟨trivial, .inl trivial⟩
    trivial (hshape.delivers hmemory) (hshape.readable hmemory) heldPruned_typesDeclared
    ⟨trivial, fun h => List.cons_ne_nil _ _ h.1⟩ ⟨"", "", 0, ⟨[]⟩⟩ hrows
  exact ⟨rows, hquery, hperm⟩

end HeldTypes

end RQuery
