import RQuery.Optimizer.SchemaPreservation
import RQuery.QueryPlanner.QueryPlanner

/-!
# Optimized plans that are lowered

Optimizing a plan reads all of its expressions, and lowering the result looks up all of their
columns. A plan that comes through both has only expressions that the optimizer supports, and their
references resolve (`prunable_of_lowered`).
-/

namespace RQuery

variable [FloatModel] [Readers]

namespace LogicalPlan

/-- Every scan reads all columns of a source with distinct column names, and columns are referred to
by index only in the output of an aggregate. -/
def Optimizable : LogicalPlan → Prop
  | scan s => s.projection = [] ∧ s.schema.DistinctNames
  | projection input expr => input.Optimizable ∧ ∀ e ∈ expr, e.indices = [] ∨ input.IsAggregate
  | selection input expr => input.Optimizable ∧ (expr.indices = [] ∨ input.IsAggregate)
  | aggregate input groupExpr aggregateExpr =>
    input.Optimizable ∧ (∀ e ∈ groupExpr, e.indices = [] ∨ input.IsAggregate) ∧
      ∀ a ∈ aggregateExpr, a.expr.indices = [] ∨ input.IsAggregate
  | join left right _ _ => left.Optimizable ∧ right.Optimizable
  | limit input _ => input.Optimizable

end LogicalPlan

/-! ## Expressions -/

omit [Readers] in
/-- What the optimizer reads of an expression: its form and its indices. -/
theorem extractColumns_ok {input : Result Schema} {e : LogicalExpr} {names names' : Finset String}
    (h : extractColumns input names e = .ok names') :
    e.Supported ∧ ∀ i ∈ e.indices, ∀ s, input = .ok s → i < s.fields.length := by
  -- `extract_columns` goes through every operand, and panics on what the optimizer cannot read.
  induction e generalizing names names' with
  | columnIndex i =>
    refine ⟨trivial, fun j hj s hs => ?_⟩
    obtain rfl : j = i := by simpa [LogicalExpr.indices] using hj
    rw [extractColumns, hs, Outcome.ok_bind] at h
    obtain ⟨f, hf, -⟩ := Outcome.bind_pure_eq_ok_iff.mp h
    exact index_succeeds_iff.mp ⟨f, hf⟩
  | binary op l r ihl ihr =>
    obtain ⟨_, hl, hr⟩ := Outcome.bind_eq_ok_iff.mp h
    refine ⟨⟨(ihl hl).1, (ihr hr).1⟩, ?_⟩
    rw [LogicalExpr.indices, List.forall_mem_append]
    exact ⟨(ihl hl).2, (ihr hr).2⟩
  | dateSubtractInterval d i ihd ihi =>
    obtain ⟨_, hd, hi⟩ := Outcome.bind_eq_ok_iff.mp h
    refine ⟨⟨(ihd hd).1, (ihi hi).1⟩, ?_⟩
    rw [LogicalExpr.indices, List.forall_mem_append]
    exact ⟨(ihd hd).2, (ihi hi).2⟩
  | dateAddInterval d i ihd ihi =>
    obtain ⟨_, hd, hi⟩ := Outcome.bind_eq_ok_iff.mp h
    refine ⟨⟨(ihd hd).1, (ihi hi).1⟩, ?_⟩
    rw [LogicalExpr.indices, List.forall_mem_append]
    exact ⟨(ihd hd).2, (ihi hi).2⟩
  | cast e t ih => exact ih h
  | aliased e name ih => exact ih h
  | literalFloat f => cases h
  | not e => cases h
  | scalarFunction name t => cases h
  | aggregateExpr fn e => cases h
  | _ => exact ⟨trivial, by simp [LogicalExpr.indices]⟩

omit [Readers] in
/-- What the optimizer reads of expressions: their form and their indices. -/
theorem extractColumnsList_ok {input : Result Schema} {exprs : List LogicalExpr}
    {names names' : Finset String} (h : extractColumnsList input names exprs = .ok names') :
    ∀ e ∈ exprs, e.Supported ∧ ∀ i ∈ e.indices, ∀ s, input = .ok s → i < s.fields.length := by
  intro e he
  obtain ⟨_, _, hstep⟩ := Outcome.foldlM_mem h he
  exact extractColumns_ok hstep

omit [FloatModel] [Readers] in
/-- A column that is found is one of the schema. -/
theorem mem_of_fieldPosition {s : Schema} {name : String} {i : ℕ}
    (h : fieldPosition s name = .ok i) : name ∈ s.names := by
  unfold fieldPosition at h
  rw [← Schema.position?_isSome_iff]
  split at h
  · rename_i hposition
    rw [hposition]
    rfl
  · cases h

omit [Readers] in
/-- What lowering an expression looks up: its column names. -/
theorem createPhysicalExpr_columns {s : Schema} {e : LogicalExpr} {p : Expression}
    (h : createPhysicalExpr (.ok s) e = .ok p) : ∀ name ∈ e.columns, name ∈ s.names := by
  -- Only a column by name looks anything up; its position is found or the planner panics.
  induction e generalizing p with
  | column name =>
    obtain ⟨i, hi, -⟩ := Outcome.bind_pure_eq_ok_iff.mp h
    rw [LogicalExpr.columns, List.forall_mem_singleton]
    exact mem_of_fieldPosition hi
  | binary op l r ihl ihr =>
    obtain ⟨pl, hl, h⟩ := Outcome.bind_eq_ok_iff.mp h
    obtain ⟨pr, hr, -⟩ := Outcome.bind_eq_ok_iff.mp h
    rw [LogicalExpr.columns, List.forall_mem_append]
    exact ⟨ihl hl, ihr hr⟩
  | dateSubtractInterval d i ihd ihi =>
    obtain ⟨pd, hd, h⟩ := Outcome.bind_eq_ok_iff.mp h
    obtain ⟨pi, hi, -⟩ := Outcome.bind_pure_eq_ok_iff.mp h
    rw [LogicalExpr.columns, List.forall_mem_append]
    exact ⟨ihd hd, ihi hi⟩
  | dateAddInterval d i ihd ihi =>
    obtain ⟨pd, hd, h⟩ := Outcome.bind_eq_ok_iff.mp h
    obtain ⟨pi, hi, -⟩ := Outcome.bind_pure_eq_ok_iff.mp h
    rw [LogicalExpr.columns, List.forall_mem_append]
    exact ⟨ihd hd, ihi hi⟩
  | cast e t ih =>
    obtain ⟨pe, he, -⟩ := Outcome.bind_pure_eq_ok_iff.mp h
    exact ih he
  | aliased e name ih => exact ih h
  | not e => cases h
  | aggregateExpr fn e => cases h
  | _ => exact fun name hname => absurd hname List.not_mem_nil

omit [FloatModel] [Readers] in
/-- The field of an aggregate is named after its function. -/
theorem AggregateFn.toField_name {fn : AggregateFn} {argument : Result Field} {f : Field}
    (h : fn.toField argument = .ok f) : f.name = fn.fieldName := by
  unfold AggregateFn.toField at h
  split at h
  · cases h
    rfl
  · cases h
    rfl
  · obtain ⟨g, -, rfl⟩ := Outcome.bind_pure_eq_ok_iff.mp h
    rfl

omit [Readers] in
/-- The name of an expression's field depends on the names of the fields of the input only, and only
where the expression refers to them by index. -/
theorem toField_name {s s' : Schema} {e : LogicalExpr} {f f' : Field}
    (hnames : e.indices = [] ∨ s'.names = s.names) (hf : e.toField (.ok s) = .ok f)
    (hf' : e.toField (.ok s') = .ok f') : f'.name = f.name := by
  -- A field's name is written in the expression, but for a column by index, which takes the
  -- input's.
  induction e generalizing f f' with
  | column name =>
    have hfound : ∀ {t : Schema} {g}, LogicalExpr.findField t name = .ok g → g.name = name := by
      intro t g hg
      unfold LogicalExpr.findField at hg
      split at hg
      · rename_i hfind
        obtain rfl := Except.ok.inj hg
        simpa using List.find?_some hfind
      · cases hg
    rw [hfound hf, hfound hf']
  | columnIndex i =>
    have hnames : s'.names = s.names := hnames.resolve_left (List.cons_ne_nil i [])
    have hname := congrArg (·[i]?) hnames
    simp only [Schema.names, List.getElem?_map, index_eq_ok_iff.mp hf, index_eq_ok_iff.mp hf',
      Option.map_some, Option.some.injEq] at hname
    exact hname
  | cast e t ih =>
    obtain ⟨g, hg, rfl⟩ := Outcome.bind_pure_eq_ok_iff.mp hf
    obtain ⟨g', hg', rfl⟩ := Outcome.bind_pure_eq_ok_iff.mp hf'
    have hname := ih hnames hg hg'
    exact hname
  | aliased e name ih =>
    obtain ⟨g, hg, rfl⟩ := Outcome.bind_pure_eq_ok_iff.mp hf
    obtain ⟨g', hg', rfl⟩ := Outcome.bind_pure_eq_ok_iff.mp hf'
    rfl
  | binary op l r ihl ihr =>
    rw [LogicalExpr.toField] at hf hf'
    by_cases hmath : op.isMath
    · rw [if_pos hmath] at hf hf'
      obtain ⟨g, hg, rfl⟩ := Outcome.bind_pure_eq_ok_iff.mp hf
      obtain ⟨g', hg', rfl⟩ := Outcome.bind_pure_eq_ok_iff.mp hf'
      rfl
    · rw [if_neg hmath] at hf hf'
      cases hf
      cases hf'
      rfl
  | aggregateExpr fn e ih => rw [AggregateFn.toField_name hf, AggregateFn.toField_name hf']
  | _ =>
    cases hf
    cases hf'
    rfl

omit [Readers] in
/-- A lowered aggregate has a lowered argument. -/
theorem createAggregateExpr_ok {input : Result Schema} {a : AggregateExpr}
    {agg : AggregateExpression} (h : createAggregateExpr input a = .ok agg) :
    createPhysicalExpr input a.expr = .ok agg.inputExpression ∧
      (agg.function = .avg → a.fn = .avg) := by
  obtain ⟨fn, e⟩ := a
  cases fn with
  | countDistinct => cases h
  | _ =>
    obtain ⟨p, hp, rfl⟩ := Outcome.bind_pure_eq_ok_iff.mp h
    exact ⟨hp, by simp⟩

/-! ## Plans -/

/-- What is left of a plan's columns: no name is new, and the output of an aggregate keeps all. -/
def KeepsNames (P : LogicalPlan) (s s' : Schema) : Prop :=
  (∀ name ∈ s'.names, name ∈ s.names) ∧ (P.IsAggregate → s'.names = s.names)

/-- An expression whose references can be looked up in what is left of the columns. -/
theorem canRead_of_lowered {input : LogicalPlan} {s s' : Schema} (hs : input.schema = .ok s)
    (hkeeps : KeepsNames input s s') {e : LogicalExpr} {p : Expression}
    (hextract : e.Supported ∧ ∀ i ∈ e.indices, ∀ t, input.schema = .ok t → i < t.fields.length)
    (hlower : createPhysicalExpr (.ok s') e = .ok p)
    (hindices : e.indices = [] ∨ input.IsAggregate) : input.CanRead e := by
  refine ⟨⟨hextract.1, fun t ht => ?_⟩, hindices⟩
  obtain rfl : s = t := Except.ok.inj (hs.symm.trans ht)
  exact ⟨fun name hname => hkeeps.1 name (createPhysicalExpr_columns hlower name hname),
    fun i hi => hextract.2 i hi s hs⟩

omit [Readers] in
/-- Under schemas with the same names expressions have fields with the same names. -/
theorem names_of_toFields {s s' : Schema} {exprs : List LogicalExpr} {fields fields' : List Field}
    (hnames : ∀ e ∈ exprs, e.indices = [] ∨ s'.names = s.names)
    (h : exprs.mapM (LogicalExpr.toField (.ok s)) = .ok fields)
    (h' : exprs.mapM (LogicalExpr.toField (.ok s')) = .ok fields') :
    fields'.map Field.name = fields.map Field.name := by
  induction exprs generalizing fields fields' with
  | nil =>
    obtain rfl : [] = fields := by simpa using h
    obtain rfl : [] = fields' := by simpa using h'
    rfl
  | cons e exprs ih =>
    obtain ⟨f, fs, hf, hfs, rfl⟩ := Outcome.mapM_cons_eq_ok_iff.mp h
    obtain ⟨f', fs', hf', hfs', rfl⟩ := Outcome.mapM_cons_eq_ok_iff.mp h'
    rw [List.map_cons, List.map_cons, toField_name (hnames e List.mem_cons_self) hf hf',
      ih (fun e he => hnames e (List.mem_cons_of_mem _ he)) hfs hfs']

omit [Readers] in
/-- The fields of aggregates are named after their functions. -/
theorem names_of_aggregates {input : Result Schema} {aggregates : List AggregateExpr}
    {fields : List Field} (h : aggregates.mapM (AggregateExpr.toField input) = .ok fields) :
    fields.map Field.name = aggregates.map fun a => a.fn.fieldName :=
  (Outcome.forall₂_map_eq (Outcome.mapM_eq_ok_iff.mp h) fun _ _ hf =>
    (AggregateFn.toField_name hf).symm).symm

/-- A plan that is lowered has a schema. -/
theorem schema_of_createPhysicalPlan {P : LogicalPlan} {plan : PhysicalPlan}
    (h : createPhysicalPlan P = .ok plan) : Outcome.Succeeds P.schema := by
  induction P generalizing plan with
  | scan s => exact ⟨s.schema, rfl⟩
  | projection input expr ih =>
    obtain ⟨_, -, h⟩ := Outcome.bind_eq_ok_iff.mp h
    obtain ⟨_, -, h⟩ := Outcome.bind_eq_ok_iff.mp h
    obtain ⟨fields, hfields, -⟩ := Outcome.bind_pure_eq_ok_iff.mp h
    exact ⟨⟨fields⟩, by rw [LogicalPlan.schema, hfields]; rfl⟩
  | selection input expr ih =>
    obtain ⟨sub, hsub, -⟩ := Outcome.bind_eq_ok_iff.mp h
    exact ih hsub
  | limit input n ih =>
    obtain ⟨sub, hsub, -⟩ := Outcome.bind_eq_ok_iff.mp h
    exact ih hsub
  | aggregate input groupExpr aggregateExpr ih =>
    obtain ⟨_, -, h⟩ := Outcome.bind_eq_ok_iff.mp h
    obtain ⟨_, -, h⟩ := Outcome.bind_eq_ok_iff.mp h
    obtain ⟨_, -, h⟩ := Outcome.bind_eq_ok_iff.mp h
    obtain ⟨schema, hschema, -⟩ := Outcome.bind_eq_ok_iff.mp h
    exact ⟨schema, hschema⟩
  | join left right joinType on ihl ihr =>
    obtain ⟨lp, hlp, h⟩ := Outcome.bind_eq_ok_iff.mp h
    obtain ⟨rp, hrp, -⟩ := Outcome.bind_eq_ok_iff.mp h
    obtain ⟨ls, hls⟩ := ihl hlp
    obtain ⟨rs, hrs⟩ := ihr hrp
    exact ⟨_, by rw [LogicalPlan.schema, hls, hrs]; rfl⟩

/-- What the optimizer leaves of a scan of all columns. -/
theorem keepsNames_scan {s : Scan} (hproj : s.projection = []) {names names' : Finset String}
    {P' : LogicalPlan} (hpush : pushDown (.scan s) names = .ok (P', names')) {t t' : Schema}
    (ht : (LogicalPlan.scan s).schema = .ok t) (ht' : P'.schema = .ok t') :
    KeepsNames (.scan s) t t' := by
  obtain ⟨-, full, s', hfull, rfl, -, hsource, hrequest⟩ := pushDown_scan.mp hpush
  obtain rfl : s.schema = t := Except.ok.inj ht
  obtain rfl : s'.schema = t' := Except.ok.inj ht'
  have hschema : s.schema = full := by
    have hderived := s.derived
    rw [Scan.deriveSchema, hfull, Outcome.ok_bind, hproj] at hderived
    exact (Except.ok.inj hderived).symm
  refine ⟨fun name hname => ?_, fun h => h.elim⟩
  obtain ⟨-, htrimmed⟩ := trimmed_schema hfull hsource hrequest
  rw [hschema]
  split at htrimmed
  · exact htrimmed ▸ hname
  · exact select_mem htrimmed hname

omit [FloatModel] [Readers] in
/-- The names of a join: a key of the same name on both sides is kept on one of them. -/
theorem mem_names_joinFields {joinType : JoinType} {on : List (String × String)} {ls rs : Schema}
    {name : String} :
    name ∈ Schema.names ⟨joinFields joinType on ls.fields rs.fields⟩ ↔
      match joinType with
      | .inner | .left => name ∈ ls.names ∨ name ∈ rs.names ∧ name ∉ duplicateKeys on
      | .right => name ∈ ls.names ∧ name ∉ duplicateKeys on ∨ name ∈ rs.names := by
  have hkept : ∀ fields : List Field,
      name ∈ (fields.filter fun f => f.name ∉ duplicateKeys on).map Field.name ↔
        name ∈ fields.map Field.name ∧ name ∉ duplicateKeys on := by
    intro fields
    simp only [List.mem_map, List.mem_filter, decide_eq_true_eq]
    constructor
    · rintro ⟨f, ⟨hf, hdup⟩, rfl⟩
      exact ⟨⟨f, hf, rfl⟩, hdup⟩
    · rintro ⟨⟨f, hf, rfl⟩, hdup⟩
      exact ⟨f, ⟨hf, hdup⟩, rfl⟩
  cases joinType with
  | right => rw [joinFields, Schema.names, List.map_append, List.mem_append, hkept]; rfl
  | _ => rw [joinFields, Schema.names, List.map_append, List.mem_append, hkept]; rfl

/-- A plan that is optimized and lowered has only expressions that can be read. -/
theorem prunable_of_lowered {P P' : LogicalPlan} {names names' : Finset String}
    {plan : PhysicalPlan} (hP : P.Optimizable) (hpush : pushDown P names = .ok (P', names'))
    (hplan : createPhysicalPlan P' = .ok plan) :
    P.Prunable ∧ ∀ s s', P.schema = .ok s → P'.schema = .ok s' → KeepsNames P s s' := by
  -- On the plan, with the trimmed plan and its lowering taken apart operator by operator.
  induction P generalizing P' names names' plan with
  | scan s => exact ⟨hP, fun t t' ht ht' => keepsNames_scan hP.1 hpush ht ht'⟩
  | projection input expr ih =>
    obtain ⟨_, hextract, hpush⟩ := Outcome.bind_eq_ok_iff.mp hpush
    obtain ⟨⟨input', _⟩, hinput, hpush⟩ := Outcome.bind_pure_eq_ok_iff.mp hpush
    obtain ⟨rfl, -⟩ := Prod.mk.inj hpush
    obtain ⟨sub, hsub, hplan⟩ := Outcome.bind_eq_ok_iff.mp hplan
    obtain ⟨es, hes, -⟩ := Outcome.bind_eq_ok_iff.mp hplan
    -- The pass read the expressions over the old input, the planner over the trimmed one.
    obtain ⟨hprunable, hkeeps⟩ := ih hP.1 hinput hsub
    obtain ⟨s, hs⟩ := prunable_schema hprunable
    obtain ⟨s', hs'⟩ := schema_of_createPhysicalPlan hsub
    have hkeeps := hkeeps s s' hs hs'
    rw [hs'] at hes
    refine ⟨⟨hprunable, fun e he => ?_⟩, fun t t' ht ht' => ?_⟩
    · obtain ⟨p, -, hp⟩ := Outcome.mapM_mem_left hes he
      exact canRead_of_lowered hs hkeeps (extractColumnsList_ok hextract e he) hp (hP.2 e he)
    · obtain ⟨fields, hfields, rfl⟩ := Outcome.bind_pure_eq_ok_iff.mp ht
      obtain ⟨fields', hfields', rfl⟩ := Outcome.bind_pure_eq_ok_iff.mp ht'
      rw [hs] at hfields
      rw [hs'] at hfields'
      have hnames : Schema.names ⟨fields'⟩ = Schema.names ⟨fields⟩ :=
        names_of_toFields (fun e he => (hP.2 e he).imp_right hkeeps.2) hfields hfields'
      exact ⟨fun name hname => hnames ▸ hname, fun _ => hnames⟩
  | selection input expr ih =>
    obtain ⟨_, hextract, hpush⟩ := Outcome.bind_eq_ok_iff.mp hpush
    obtain ⟨⟨input', _⟩, hinput, hpush⟩ := Outcome.bind_pure_eq_ok_iff.mp hpush
    obtain ⟨rfl, -⟩ := Prod.mk.inj hpush
    obtain ⟨sub, hsub, hplan⟩ := Outcome.bind_eq_ok_iff.mp hplan
    obtain ⟨e, he, -⟩ := Outcome.bind_pure_eq_ok_iff.mp hplan
    obtain ⟨hprunable, hkeeps⟩ := ih hP.1 hinput hsub
    obtain ⟨s, hs⟩ := prunable_schema hprunable
    obtain ⟨s', hs'⟩ := schema_of_createPhysicalPlan hsub
    rw [hs'] at he
    refine ⟨⟨hprunable, ?_⟩, fun t t' ht ht' => ⟨(hkeeps t t' ht ht').1, fun h => h.elim⟩⟩
    exact canRead_of_lowered hs (hkeeps s s' hs hs') (extractColumns_ok hextract) he hP.2
  | aggregate input groupExpr aggregateExpr ih =>
    obtain ⟨_, hgroups, hpush⟩ := Outcome.bind_eq_ok_iff.mp hpush
    obtain ⟨_, haggregates, hpush⟩ := Outcome.bind_eq_ok_iff.mp hpush
    obtain ⟨⟨input', _⟩, hinput, hpush⟩ := Outcome.bind_pure_eq_ok_iff.mp hpush
    obtain ⟨rfl, -⟩ := Prod.mk.inj hpush
    obtain ⟨sub, hsub, hplan⟩ := Outcome.bind_eq_ok_iff.mp hplan
    obtain ⟨gs, hgs, hplan⟩ := Outcome.bind_eq_ok_iff.mp hplan
    obtain ⟨as, has, -⟩ := Outcome.bind_eq_ok_iff.mp hplan
    obtain ⟨hprunable, hkeeps⟩ := ih hP.1 hinput hsub
    obtain ⟨s, hs⟩ := prunable_schema hprunable
    obtain ⟨s', hs'⟩ := schema_of_createPhysicalPlan hsub
    have hkeeps := hkeeps s s' hs hs'
    rw [hs'] at hgs has
    refine ⟨⟨hprunable, fun e he => ?_, fun a ha => ?_⟩, fun t t' ht ht' => ?_⟩
    · obtain ⟨p, -, hp⟩ := Outcome.mapM_mem_left hgs he
      exact canRead_of_lowered hs hkeeps (extractColumnsList_ok hgroups e he) hp (hP.2.1 e he)
    · obtain ⟨p, -, hp⟩ := Outcome.mapM_mem_left has ha
      exact canRead_of_lowered hs hkeeps
        (extractColumnsList_ok haggregates a.expr (List.mem_map_of_mem ha))
        (createAggregateExpr_ok hp).1 (hP.2.2 a ha)
    · obtain ⟨fields, hfields, ht⟩ := Outcome.bind_eq_ok_iff.mp ht
      obtain ⟨more, hmore, rfl⟩ := Outcome.bind_pure_eq_ok_iff.mp ht
      obtain ⟨fields', hfields', ht'⟩ := Outcome.bind_eq_ok_iff.mp ht'
      obtain ⟨more', hmore', rfl⟩ := Outcome.bind_pure_eq_ok_iff.mp ht'
      rw [hs] at hfields
      rw [hs'] at hfields'
      have hnames : Schema.names ⟨fields' ++ more'⟩ = Schema.names ⟨fields ++ more⟩ := by
        rw [Schema.names, Schema.names, List.map_append, List.map_append,
          names_of_toFields (fun e he => (hP.2.1 e he).imp_right hkeeps.2) hfields hfields',
          names_of_aggregates hmore, names_of_aggregates hmore']
      exact ⟨fun name hname => hnames ▸ hname, fun _ => hnames⟩
  | join left right joinType on ihl ihr =>
    obtain ⟨_, -, hpush⟩ := Outcome.bind_eq_ok_iff.mp hpush
    obtain ⟨⟨left', _⟩, hleft, hpush⟩ := Outcome.bind_eq_ok_iff.mp hpush
    obtain ⟨⟨right', _⟩, hright, hpush⟩ := Outcome.bind_pure_eq_ok_iff.mp hpush
    obtain ⟨rfl, -⟩ := Prod.mk.inj hpush
    obtain ⟨lp, hlp, hplan⟩ := Outcome.bind_eq_ok_iff.mp hplan
    obtain ⟨rp, hrp, -⟩ := Outcome.bind_eq_ok_iff.mp hplan
    obtain ⟨hprunableL, hkeepsL⟩ := ihl hP.1 hleft hlp
    obtain ⟨hprunableR, hkeepsR⟩ := ihr hP.2 hright hrp
    -- A join promises its names only, and it takes each from one side or the other.
    refine ⟨⟨hprunableL, hprunableR⟩, fun t t' ht ht' => ⟨fun name hname => ?_, fun h => h.elim⟩⟩
    obtain ⟨ls, hls, ht⟩ := Outcome.bind_eq_ok_iff.mp ht
    obtain ⟨rs, hrs, rfl⟩ := Outcome.bind_pure_eq_ok_iff.mp ht
    obtain ⟨ls', hls', ht'⟩ := Outcome.bind_eq_ok_iff.mp ht'
    obtain ⟨rs', hrs', rfl⟩ := Outcome.bind_pure_eq_ok_iff.mp ht'
    have hl := (hkeepsL ls ls' hls hls').1 name
    have hr := (hkeepsR rs rs' hrs hrs').1 name
    rw [mem_names_joinFields] at hname ⊢
    cases joinType with
    | right => exact hname.imp (And.imp_left hl) hr
    | _ => exact hname.imp hl (And.imp_left hr)
  | limit input n ih =>
    obtain ⟨⟨input', _⟩, hinput, hpush⟩ := Outcome.bind_pure_eq_ok_iff.mp hpush
    obtain ⟨rfl, -⟩ := Prod.mk.inj hpush
    obtain ⟨sub, hsub, -⟩ := Outcome.bind_pure_eq_ok_iff.mp hplan
    obtain ⟨hprunable, hkeeps⟩ := ih hP hinput hsub
    exact ⟨hprunable, fun t t' ht ht' => ⟨(hkeeps t t' ht ht').1, fun h => h.elim⟩⟩

end RQuery
