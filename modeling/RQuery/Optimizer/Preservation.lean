import RQuery.Optimizer.ProjectionPushDown
import RQuery.Semantics.Agreement

/-!
# Push-down preserves results

A plan and its optimization simulate each other: their rows agree on the names that were requested
when the rule reached the plan (`pushDown_simulates`). Below a projection or an aggregate these
include every name its expressions refer to, so the rows above it are the same.
-/

namespace RQuery

section

variable [FloatModel] [Readers]

namespace LogicalPlan

def IsAggregate : LogicalPlan → Prop
  | aggregate _ _ _ => True
  | _ => False

/-- The expression is of a form that `extract_columns` supports, and its references resolve in the
input's schema. -/
structure Reads (input : LogicalPlan) (e : LogicalExpr) : Prop where
  supported : e.Supported
  resolves : ∀ schema, input.schema = .ok schema → e.Resolves schema

/-- Every expression is supported, and every reference resolves. -/
def Resolved : LogicalPlan → Prop
  | scan _ => True
  | projection input expr => input.Resolved ∧ ∀ e ∈ expr, input.Reads e
  | selection input expr => input.Resolved ∧ input.Reads expr
  | aggregate input groupExpr aggregateExpr =>
    input.Resolved ∧ (∀ e ∈ groupExpr, input.Reads e) ∧ ∀ a ∈ aggregateExpr, input.Reads a.expr
  | join left right _ _ => left.Resolved ∧ right.Resolved
  | limit input _ => input.Resolved

/-- The expression can be read, and it refers to columns by name unless the input is an
aggregate. -/
structure CanRead (input : LogicalPlan) (e : LogicalExpr) : Prop extends Reads input e where
  byName : e.indices = [] ∨ input.IsAggregate

/-- Every scan reads all columns of a source with distinct column names, and every expression can
be read. -/
def Prunable : LogicalPlan → Prop
  | scan s => s.projection = [] ∧ s.schema.DistinctNames
  | projection input expr => input.Prunable ∧ ∀ e ∈ expr, input.CanRead e
  | selection input expr => input.Prunable ∧ input.CanRead expr
  | aggregate input groupExpr aggregateExpr =>
    input.Prunable ∧ (∀ e ∈ groupExpr, input.CanRead e) ∧
      ∀ a ∈ aggregateExpr, input.CanRead a.expr
  | join left right _ _ => left.Prunable ∧ right.Prunable
  | limit input _ => input.Prunable

/-- Every path from the root to a scan passes through a projection or an aggregate. -/
def Covered : LogicalPlan → Prop
  | scan _ => False
  | projection _ _ => True
  | selection input _ => input.Covered
  | aggregate _ _ _ => True
  | join left right _ _ => left.Covered ∧ right.Covered
  | limit input _ => input.Covered

end LogicalPlan

/-- A plan whose references resolve has a schema. -/
theorem resolved_schema {P : LogicalPlan} (hP : P.Resolved) : Outcome.Succeeds P.schema := by
  induction P with
  | scan s => exact ⟨s.schema, rfl⟩
  | selection input expr ih => exact ih hP.1
  | limit input n ih => exact ih hP
  | projection input expr ih =>
    obtain ⟨s, hs⟩ := ih hP.1
    obtain ⟨fields, hfields⟩ : Outcome.Succeeds (expr.mapM fun e => e.toField (.ok s)) := by
      rw [Outcome.mapM_succeeds_iff]
      exact fun e he =>
        LogicalExpr.toField_succeeds (hP.2 e he).supported ((hP.2 e he).resolves s hs)
    exact ⟨⟨fields⟩, by simp only [LogicalPlan.schema, hs, hfields, Outcome.ok_bind]; rfl⟩
  | aggregate input groupExpr aggregateExpr ih =>
    obtain ⟨s, hs⟩ := ih hP.1
    obtain ⟨groups, hgroups⟩ : Outcome.Succeeds (groupExpr.mapM fun e => e.toField (.ok s)) := by
      rw [Outcome.mapM_succeeds_iff]
      exact fun e he =>
        LogicalExpr.toField_succeeds (hP.2.1 e he).supported ((hP.2.1 e he).resolves s hs)
    obtain ⟨aggs, haggs⟩ : Outcome.Succeeds (aggregateExpr.mapM fun a => a.toField (.ok s)) := by
      rw [Outcome.mapM_succeeds_iff]
      exact fun a ha =>
        AggregateExpr.toField_succeeds (hP.2.2 a ha).supported ((hP.2.2 a ha).resolves s hs)
    refine ⟨⟨groups ++ aggs⟩, ?_⟩
    simp only [LogicalPlan.schema, hs, hgroups, haggs, Outcome.ok_bind]
    rfl
  | join left right joinType on ihl ihr =>
    obtain ⟨ls, hls⟩ := ihl hP.1
    obtain ⟨rs, hrs⟩ := ihr hP.2
    exact ⟨_, by simp only [LogicalPlan.schema, hls, hrs, Outcome.ok_bind]; rfl⟩

/-- A plan that can be pruned resolves. -/
theorem LogicalPlan.Prunable.resolved {P : LogicalPlan} (hP : P.Prunable) : P.Resolved := by
  induction P with
  | scan s => trivial
  | projection input expr ih => exact ⟨ih hP.1, fun e he => (hP.2 e he).toReads⟩
  | selection input expr ih => exact ⟨ih hP.1, hP.2.toReads⟩
  | aggregate input groupExpr aggregateExpr ih =>
    exact ⟨ih hP.1, fun e he => (hP.2.1 e he).toReads, fun a ha => (hP.2.2 a ha).toReads⟩
  | join left right joinType on ihl ihr => exact ⟨ihl hP.1, ihr hP.2⟩
  | limit input n ih => exact ih hP

/-- A plan that can be pruned has a schema. -/
theorem prunable_schema {P : LogicalPlan} (hP : P.Prunable) : Outcome.Succeeds P.schema :=
  resolved_schema hP.resolved

/-! ## The requested names -/

omit [Readers] in
/-- Extracting the columns of an expression inserts the names that it refers to. -/
theorem extractColumns_eq {schema : Schema} {e : LogicalExpr} (hsup : e.Supported)
    (hres : e.Resolves schema) (accum : Finset String) :
    extractColumns (.ok schema) accum e = .ok (insertNames accum (e.references schema)) := by
  have hoperands : ∀ {l r e : LogicalExpr}, e.columns = l.columns ++ r.columns →
      e.indices = l.indices ++ r.indices → ∀ accum,
      insertNames (insertNames accum (l.references schema)) (r.references schema) =
        insertNames accum (e.references schema) := by
    intro l r e hc hi accum
    ext name
    simp only [insertNames, LogicalExpr.references, hc, hi, Finset.mem_union, List.mem_toFinset,
      List.mem_append, List.map_append]
    tauto
  induction e generalizing accum with
  | column name =>
    show Except.ok _ = _
    congr 1
    ext n
    simp only [insertNames, LogicalExpr.references, LogicalExpr.columns, LogicalExpr.indices,
      Finset.mem_insert, Finset.mem_union, List.mem_toFinset, List.map_nil, List.append_nil,
      List.mem_singleton]
    exact or_comm
  | columnIndex i =>
    have hi : i < schema.fields.length := hres.2 i (by simp [LogicalExpr.indices])
    simp only [extractColumns, Outcome.ok_bind, index_of_lt hi]
    show Except.ok _ = _
    congr 1
    ext n
    simp [insertNames, LogicalExpr.references, LogicalExpr.columns, LogicalExpr.indices,
      Schema.names, hi, or_comm]
  | literalFloat f => exact hsup.elim
  | not e => exact hsup.elim
  | scalarFunction name t => exact hsup.elim
  | aggregateExpr fn e => exact hsup.elim
  | aliased e name ih => exact ih hsup hres accum
  | cast e t ih => exact ih hsup hres accum
  | dateSubtractInterval d i ihd ihi | dateAddInterval d i ihd ihi =>
    obtain ⟨hd, hi⟩ := (LogicalExpr.resolves_operands rfl rfl).mp hres
    rw [extractColumns, ihd hsup.1 hd, Outcome.ok_bind, ihi hsup.2 hi]
    exact congrArg Except.ok (hoperands rfl rfl accum)
  | binary op l r ihl ihr =>
    obtain ⟨hl, hr⟩ := (LogicalExpr.resolves_operands rfl rfl).mp hres
    rw [extractColumns, ihl hsup.1 hl, Outcome.ok_bind, ihr hsup.2 hr]
    exact congrArg Except.ok (hoperands rfl rfl accum)
  | _ =>
    show Except.ok _ = _
    congr 1
    ext n
    simp [insertNames, LogicalExpr.references, LogicalExpr.columns, LogicalExpr.indices]

omit [Readers] in
/-- The names of a list of expressions are inserted one after the other. -/
theorem extractColumnsList_eq {schema : Schema} {exprs : List LogicalExpr}
    (h : ∀ e ∈ exprs, e.Supported ∧ e.Resolves schema) (accum : Finset String) :
    extractColumnsList (.ok schema) accum exprs =
      .ok (insertNames accum (exprs.flatMap fun e => e.references schema)) := by
  unfold extractColumnsList
  induction exprs generalizing accum with
  | nil => simp [insertNames]
  | cons e exprs ih =>
    obtain ⟨hsup, hres⟩ := h e List.mem_cons_self
    rw [List.foldlM_cons, extractColumns_eq hsup hres, Outcome.ok_bind,
      ih fun e' he' => h e' (List.mem_cons_of_mem e he')]
    congr 1
    ext n
    simp [insertNames]

omit [FloatModel] [Readers] in
/-- Inserting keeps the names that are there. -/
theorem subset_insertNames (accum : Finset String) (names : List String) :
    accum ⊆ insertNames accum names :=
  Finset.subset_union_left

omit [FloatModel] [Readers] in
/-- What is inserted is there. -/
theorem mem_insertNames {accum : Finset String} {names : List String} {name : String}
    (h : name ∈ names) : name ∈ insertNames accum names :=
  Finset.mem_union_right _ (List.mem_toFinset.mpr h)

omit [FloatModel] [Readers] in
/-- A join passes on the requested names and its keys. -/
theorem joinNames_eq (left right : Schema) (on : List (String × String)) (names : Finset String) :
    ∃ names', joinNames (.ok left) (.ok right) on names = .ok names' ∧ names ⊆ names' ∧
      ∀ k ∈ on, k.1 ∈ names' ∧ k.2 ∈ names' := by
  have hkeys : ∀ (accum : Finset String) (k), k ∈ on →
      k.1 ∈ insertNames accum (on.flatMap fun k => [k.1, k.2]) ∧
        k.2 ∈ insertNames accum (on.flatMap fun k => [k.1, k.2]) := fun accum k hk =>
    ⟨mem_insertNames (List.mem_flatMap.mpr ⟨k, hk, by simp⟩),
      mem_insertNames (List.mem_flatMap.mpr ⟨k, hk, by simp⟩)⟩
  unfold joinNames
  by_cases hnames : names = ∅
  · rw [if_pos hnames]
    exact ⟨_, rfl, hnames ▸ Finset.empty_subset _, hkeys _⟩
  · rw [if_neg hnames]
    exact ⟨_, rfl, subset_insertNames _ _, hkeys _⟩

/-! ## The simulation -/

variable [Runtime]

/-- The plans have schemas that agree on the names, and rows that agree on them. -/
def Simulates (names : Finset String) (P P' : LogicalPlan) : Prop :=
  ∃ s s', P.schema = .ok s ∧ P'.schema = .ok s' ∧ SchemasAgree names s s' ∧
    ∀ content, Outcome.Related (List.Forall₂ (RowsAgree names s s')) (P.denote content)
      (P'.denote content)

/-- The plans have the same schema and the same rows. -/
def SameRows (P P' : LogicalPlan) : Prop :=
  P'.schema = P.schema ∧ ∀ content, P'.denote content = P.denote content

/-- Plans with the same rows simulate each other. -/
theorem SameRows.simulates {P P' : LogicalPlan} (h : SameRows P P') {s : Schema}
    (hs : P.schema = .ok s) (names : Finset String) : Simulates names P P' := by
  refine ⟨s, s, hs, h.1.trans hs, fun _ _ => rfl, fun content => ?_⟩
  rw [h.2 content]
  cases hrows : P.denote content with
  | error e => exact .error e
  | ok rows =>
    refine .ok (List.forall₂_same.mpr fun r hr => ?_)
    have hlen := denote_length hs hrows r hr
    exact ⟨hlen, hlen, fun _ _ => rfl⟩

/-- What simulates on names simulates on some of them. -/
theorem Simulates.mono {names names' : Finset String} {P P' : LogicalPlan}
    (hsub : names ⊆ names') (h : Simulates names' P P') : Simulates names P P' := by
  obtain ⟨s, s', hs, hs', hagree, hrows⟩ := h
  exact ⟨s, s', hs, hs', hagree.mono hsub, fun content =>
    (hrows content).imp fun _ _ h => h.imp fun _ _ => RowsAgree.mono hsub⟩

section

variable {names : Finset String} {input input' : LogicalPlan}

omit [Readers] [Runtime] in
/-- Related rows are related after a filter that keeps the same ones. -/
theorem forall₂_keepTrue {R : Row → Row → Prop} {rows rows' : List Row}
    (h : List.Forall₂ R rows rows') (cells : List ScalarValue) :
    List.Forall₂ R (keepTrue rows cells) (keepTrue rows' cells) := by
  unfold keepTrue
  induction h generalizing cells with
  | nil => exact .nil
  | cons hr _ ih =>
    cases cells with
    | nil => exact .nil
    | cons c cells =>
      rw [List.zip_cons_cons, List.zip_cons_cons, List.filter_cons, List.filter_cons]
      split
      · exact .cons hr (ih cells)
      · exact ih cells

/-- Above plans with the same rows, the same operators have the same rows. -/
theorem SameRows.selection (h : SameRows input input') (expr : LogicalExpr) :
    SameRows (.selection input expr) (.selection input' expr) := by
  refine ⟨h.1, fun content => ?_⟩
  rw [LogicalPlan.denote, LogicalPlan.denote, h.1, h.2]

/-- A limit of the same rows yields the same rows. -/
theorem SameRows.limit (h : SameRows input input') (n : Int32) :
    SameRows (.limit input n) (.limit input' n) := by
  refine ⟨h.1, fun content => ?_⟩
  rw [LogicalPlan.denote, LogicalPlan.denote, h.2]

/-- So does a projection. -/
theorem SameRows.projection (h : SameRows input input') (expr : List LogicalExpr) :
    SameRows (.projection input expr) (.projection input' expr) := by
  refine ⟨?_, fun content => ?_⟩
  · rw [LogicalPlan.schema, LogicalPlan.schema, h.1]
  · rw [LogicalPlan.denote, LogicalPlan.denote, h.1, h.2]

/-- So does an aggregate. -/
theorem SameRows.aggregate (h : SameRows input input') (groupExpr : List LogicalExpr)
    (aggregateExpr : List AggregateExpr) :
    SameRows (.aggregate input groupExpr aggregateExpr)
      (.aggregate input' groupExpr aggregateExpr) := by
  have hschema : (LogicalPlan.aggregate input' groupExpr aggregateExpr).schema =
      (LogicalPlan.aggregate input groupExpr aggregateExpr).schema := by
    rw [LogicalPlan.schema, LogicalPlan.schema, h.1]
  refine ⟨hschema, fun content => ?_⟩
  rw [LogicalPlan.denote, LogicalPlan.denote, hschema, h.1, h.2]

/-- So does a join. -/
theorem SameRows.join {left left' right right' : LogicalPlan} (hl : SameRows left left')
    (hr : SameRows right right') (joinType : JoinType) (on : List (String × String)) :
    SameRows (.join left right joinType on) (.join left' right' joinType on) := by
  refine ⟨?_, fun content => ?_⟩
  · rw [LogicalPlan.schema, LogicalPlan.schema, hl.1, hr.1]
  · rw [LogicalPlan.denote, LogicalPlan.denote, hl.1, hr.1, hl.2, hr.2]

omit [Readers] [Runtime] in
/-- The field of an expression by names depends on the fields of these names. -/
theorem toField_agree {e : LogicalExpr} (hnames : ∀ name ∈ e.columns, name ∈ names)
    (hidx : e.indices = []) {s s' : Schema} (hs : SchemasAgree names s s') :
    e.toField (.ok s) = e.toField (.ok s') := by
  induction e with
  | column name =>
    have hfield := hs name (hnames name (by simp [LogicalExpr.columns]))
    unfold Schema.field? at hfield
    simp only [LogicalExpr.toField, Outcome.ok_bind, LogicalExpr.findField, hfield]
  | columnIndex i => simp [LogicalExpr.indices] at hidx
  | cast e t ih => simp only [LogicalExpr.toField, ih hnames hidx]
  | aliased e name ih => simp only [LogicalExpr.toField, ih hnames hidx]
  | aggregateExpr fn e ih => simp only [LogicalExpr.toField, ih hnames hidx]
  | binary op l r ihl ihr =>
    simp only [LogicalExpr.columns, LogicalExpr.indices, List.mem_append,
      List.append_eq_nil_iff] at hnames hidx
    simp only [LogicalExpr.toField, ihl (fun n hn => hnames n (.inl hn)) hidx.1]
  | _ => rfl

/-- Above plans that simulate each other on the names of the expressions, a projection has the same
rows. -/
theorem Simulates.projection (h : Simulates names input input') {expr : List LogicalExpr}
    (hnames : ∀ e ∈ expr, ∀ name ∈ e.columns, name ∈ names) (hidx : ∀ e ∈ expr, e.indices = []) :
    SameRows (.projection input expr) (.projection input' expr) := by
  obtain ⟨s, s', hs, hs', hagree, hrows⟩ := h
  constructor
  · rw [LogicalPlan.schema, LogicalPlan.schema, hs, hs', Outcome.mapM_congr fun e he =>
      toField_agree (hnames e he) (hidx e he) hagree]
  · intro content
    rw [eq_comm, ← Outcome.related_eq_iff]
    simp only [LogicalPlan.denote, hs, hs', Outcome.ok_bind]
    refine (Outcome.Related.mapM_same fun e he =>
      createPhysicalExpr_agree (hnames e he) (hidx e he) hagree).bind fun es es' hes => ?_
    refine (hrows content).bind fun rows rows' hrows => Outcome.related_eq_iff.mpr ?_
    exact Outcome.Related.mapM_eq hrows fun r r' hr =>
      Outcome.Related.mapM_eq hes fun p p' hp => hp.2 r r' hr

/-- Above plans that simulate each other on the names of the condition, a selection simulates. -/
theorem Simulates.selection (h : Simulates names input input') {expr : LogicalExpr}
    (hnames : ∀ name ∈ expr.columns, name ∈ names) (hidx : expr.indices = []) :
    Simulates names (.selection input expr) (.selection input' expr) := by
  obtain ⟨s, s', hs, hs', hagree, hrows⟩ := h
  refine ⟨s, s', hs, hs', hagree, fun content => ?_⟩
  simp only [LogicalPlan.denote, hs, hs', Outcome.ok_bind]
  refine (createPhysicalExpr_agree hnames hidx hagree).bind fun p p' hp => ?_
  refine (hrows content).bind fun rows rows' hrows => ?_
  rw [Outcome.Related.mapM_eq hrows hp.2]
  exact Outcome.Related.bind_same fun cells => .ok (forall₂_keepTrue hrows cells)

/-- A limit of simulated rows is simulated. -/
theorem Simulates.limit (h : Simulates names input input') (n : Int32) :
    Simulates names (.limit input n) (.limit input' n) := by
  obtain ⟨s, s', hs, hs', hagree, hrows⟩ := h
  refine ⟨s, s', hs, hs', hagree, fun content => ?_⟩
  simp only [LogicalPlan.denote]
  exact (hrows content).bind fun rows rows' hrows => .ok (List.forall₂_take _ hrows)

/-- Above plans whose rows agree on the names of the expressions, an aggregate has the same schema and
the same rows. -/
theorem aggregate_agree {s s' : Schema} (hs : input.schema = .ok s) (hs' : input'.schema = .ok s')
    (hagree : SchemasAgree names s s') {groupExpr : List LogicalExpr}
    {aggregateExpr : List AggregateExpr}
    (hgroup : ∀ e ∈ groupExpr, (∀ name ∈ e.columns, name ∈ names) ∧ e.indices = [])
    (hagg : ∀ a ∈ aggregateExpr, (∀ name ∈ a.expr.columns, name ∈ names) ∧ a.expr.indices = []) :
    (LogicalPlan.aggregate input' groupExpr aggregateExpr).schema =
        (LogicalPlan.aggregate input groupExpr aggregateExpr).schema ∧
      ∀ content, Outcome.Related (List.Forall₂ (RowsAgree names s s')) (input.denote content)
          (input'.denote content) →
        (LogicalPlan.aggregate input' groupExpr aggregateExpr).denote content =
          (LogicalPlan.aggregate input groupExpr aggregateExpr).denote content := by
  have hschema : (LogicalPlan.aggregate input' groupExpr aggregateExpr).schema =
      (LogicalPlan.aggregate input groupExpr aggregateExpr).schema := by
    have hfields : ∀ a ∈ aggregateExpr, a.toField (.ok s') = a.toField (.ok s) := by
      intro a ha
      unfold AggregateExpr.toField
      rw [toField_agree (hagg a ha).1 (hagg a ha).2 hagree]
    rw [LogicalPlan.schema, LogicalPlan.schema, hs, hs', Outcome.mapM_congr hfields,
      Outcome.mapM_congr fun e he => toField_agree (hgroup e he).1 (hgroup e he).2 hagree]
  refine ⟨hschema, fun content hrows => ?_⟩
  rw [eq_comm, ← Outcome.related_eq_iff]
  simp only [LogicalPlan.denote, hschema, hs, hs', Outcome.ok_bind]
  -- Group expressions and arguments are lowered alike, so each pair of rows is read as one item.
  refine (Outcome.Related.mapM_same fun e he =>
    createPhysicalExpr_agree (hgroup e he).1 (hgroup e he).2 hagree).bind fun es es' hes => ?_
  refine (Outcome.Related.mapM_same fun a ha =>
    createAggregateExpr_agree (hagg a ha).1 (hagg a ha).2 hagree).bind fun as as' has => ?_
  refine Outcome.Related.bind_same fun schema => ?_
  refine hrows.bind fun rows rows' hrows => ?_
  have hitem : ∀ r r', RowsAgree names s s' r r' →
      (⟨es, as, schema⟩ : HashAggregate).readItem s.types r =
        (⟨es', as', schema⟩ : HashAggregate).readItem s'.types r' :=
    fun r r' hr => readItem_agree hes has hr
  have houtput : (⟨es, as, schema⟩ : HashAggregate).outputRows .completeMode =
      (⟨es', as', schema⟩ : HashAggregate).outputRows .completeMode :=
    outputRows_congr (has.imp fun _ _ h => h.1) _
  rw [Outcome.Related.mapM_eq hrows hitem]
  refine Outcome.Related.bind_same fun items => Outcome.related_eq_iff.mpr ?_
  rw [houtput]

/-- Above plans that simulate each other on the names of the expressions, an aggregate has the same
rows. -/
theorem Simulates.aggregate (h : Simulates names input input') {groupExpr : List LogicalExpr}
    {aggregateExpr : List AggregateExpr}
    (hgroup : ∀ e ∈ groupExpr, (∀ name ∈ e.columns, name ∈ names) ∧ e.indices = [])
    (hagg : ∀ a ∈ aggregateExpr, (∀ name ∈ a.expr.columns, name ∈ names) ∧ a.expr.indices = []) :
    SameRows (.aggregate input groupExpr aggregateExpr)
      (.aggregate input' groupExpr aggregateExpr) := by
  obtain ⟨s, s', hs, hs', hagree, hrows⟩ := h
  obtain ⟨hschema, hdenote⟩ := aggregate_agree hs hs' hagree hgroup hagg
  exact ⟨hschema, fun content => hdenote content (hrows content)⟩

/-- A join by simulated keys of simulated sides is simulated. -/
theorem Simulates.join {left left' right right' : LogicalPlan} (hl : Simulates names left left')
    (hr : Simulates names right right') (joinType : JoinType) {on : List (String × String)}
    (hon : ∀ k ∈ on, k.1 ∈ names ∧ k.2 ∈ names) :
    Simulates names (.join left right joinType on) (.join left' right' joinType on) := by
  obtain ⟨ls, ls', hls, hls', hlagree, hlrows⟩ := hl
  obtain ⟨rs, rs', hrs, hrs', hragree, hrrows⟩ := hr
  refine ⟨⟨joinFields joinType on ls.fields rs.fields⟩,
    ⟨joinFields joinType on ls'.fields rs'.fields⟩, ?_, ?_, hlagree.join hragree, fun content => ?_⟩
  · simp only [LogicalPlan.schema, hls, hrs, Outcome.ok_bind]
    rfl
  · simp only [LogicalPlan.schema, hls', hrs', Outcome.ok_bind]
    rfl
  · simp only [LogicalPlan.denote, hls, hls', hrs, hrs', Outcome.ok_bind]
    have hleft := fieldPosition_agree hlagree (on.map Prod.fst) fun name hname => by
      obtain ⟨k, hk, rfl⟩ := List.mem_map.mp hname
      exact (hon k hk).1
    have hright := fieldPosition_agree hragree (on.map Prod.snd) fun name hname => by
      obtain ⟨k, hk, rfl⟩ := List.mem_map.mp hname
      exact (hon k hk).2
    rw [List.mapM_map, List.mapM_map] at hleft hright
    refine hleft.bind fun lk lk' hlk => hright.bind fun rk rk' hrk => ?_
    refine (hlrows content).bind fun lrows lrows' hl => ?_
    refine (hrrows content).bind fun rrows rrows' hr => .ok ?_
    exact joinRows_agree hlagree hragree hlk hrk hl hr

/-- Above the optimization of a scan of all columns, the requested names stand for the same
cells. -/
theorem simulates_scan {s : Scan} (hproj : s.projection = []) (hs : s.schema.DistinctNames)
    (names : Finset String) :
    ∃ P', pushDown (.scan s) names = .ok (P', names) ∧ Simulates names (.scan s) P' := by
  have hfull : s.dataSource.schema = .ok s.schema := by
    have hderived := s.derived
    rw [hproj] at hderived
    obtain ⟨schema, hschema, h⟩ := Outcome.bind_eq_ok_iff.mp hderived
    cases h
    exact hschema
  -- The optimizer requests the names it collected, in the order of a sorted list.
  obtain ⟨pushdown, hpushdown⟩ : ∃ pushdown, pushdown =
    (s.schema.names.filter fun name => name ∈ names).insertionSort (· ≤ ·) := ⟨_, rfl⟩
  have hmem : ∀ name, name ∈ pushdown ↔ name ∈ s.schema.names ∧ name ∈ names := by
    intro name
    rw [hpushdown, List.mem_insertionSort, List.mem_filter, decide_eq_true_eq]
  obtain ⟨t, ht⟩ := hs.select_succeeds_iff.mpr fun name hname => ((hmem name).mp hname).1
  obtain ⟨positions, hpos⟩ := Schema.resolve_succeeds_iff.mpr fun name hname =>
    ((hmem name).mp hname).1
  have hpush : ∀ s' : Scan, s'.path = s.path → s'.dataSource = s.dataSource →
      s'.projection = pushdown → pushDown (.scan s) names = .ok (.scan s', names) := by
    intro s' hpath hds hproj'
    simp only [pushDown, hfull, Outcome.ok_bind, ← hpushdown,
      Scan.new_eq_ok_iff.mpr ⟨hpath, hds, hproj'⟩]
    rfl
  by_cases hnil : pushdown = []
  · -- No column is requested: the scan reads all columns again.
    refine ⟨_, hpush ⟨s.path, s.dataSource, [], s.schema, hproj ▸ s.derived⟩ rfl rfl hnil.symm, ?_⟩
    have hsame : SameRows (.scan s)
        (.scan ⟨s.path, s.dataSource, [], s.schema, hproj ▸ s.derived⟩) := by
      refine ⟨rfl, fun content => ?_⟩
      simp only [LogicalPlan.denote, hproj]
    exact hsame.simulates rfl names
  · have hemp : pushdown.isEmpty = false := by simpa using hnil
    have hderived : Scan.deriveSchema s.dataSource pushdown = .ok t := by
      simp only [Scan.deriveSchema, hfull, Outcome.ok_bind, hemp]
      exact ht
    have hnames : ∀ name ∈ names, name ∈ s.schema.names → name ∈ pushdown := fun name hn hs =>
      (hmem name).mpr ⟨hs, hn⟩
    refine ⟨_, hpush ⟨s.path, s.dataSource, pushdown, t, hderived⟩ rfl rfl rfl, s.schema, t, rfl,
      rfl, SchemasAgree.select hs ht hpos hnames, fun content => ?_⟩
    simp only [LogicalPlan.denote, hfull, hproj, hemp, hpos, Outcome.ok_bind]
    refine .ok ?_
    rw [List.forall₂_map_right_iff, List.forall₂_same]
    intro r hr
    have hlen : r.length = s.schema.fields.length := by
      rw [← Schema.types_length]
      exact (content.fits _ _ hfull r hr).length_eq.symm
    exact RowsAgree.select hs ht hpos hnames hlen

end

omit [Runtime] in
/-- An aggregate covers the scans below it. -/
theorem covered_of_isAggregate {P : LogicalPlan} (h : P.IsAggregate) : P.Covered := by
  cases P with
  | aggregate _ _ _ => trivial
  | _ => exact h.elim

/-- The optimization of a plan simulates it on the names that were requested. -/
theorem pushDown_simulates {P : LogicalPlan} (hP : P.Prunable) (names : Finset String) :
    ∃ P' names', pushDown P names = .ok (P', names') ∧ names ⊆ names' ∧ Simulates names P P' ∧
      (P.Covered → SameRows P P') := by
  induction P generalizing names with
  | scan s =>
    obtain ⟨P', hP', hsim⟩ := simulates_scan hP.1 hP.2 names
    exact ⟨P', names, hP', subset_rfl, hsim, fun h => h.elim⟩
  | projection input expr ih =>
    obtain ⟨s, hs⟩ := prunable_schema hP.1
    have hextract : extractColumnsList input.schema names expr =
        .ok (insertNames names (expr.flatMap fun e => e.references s)) := by
      rw [hs]
      exact extractColumnsList_eq (fun e he => ⟨(hP.2 e he).supported, (hP.2 e he).resolves s hs⟩) _
    obtain ⟨input', names', hpush, hsub, hsim, hsame⟩ := ih hP.1
      (insertNames names (expr.flatMap fun e => e.references s))
    have hnames : ∀ e ∈ expr, ∀ name ∈ e.columns,
        name ∈ insertNames names (expr.flatMap fun e => e.references s) := by
      intro e he name hname
      exact mem_insertNames (List.mem_flatMap.mpr ⟨e, he, List.mem_append_left _ hname⟩)
    have hrows : SameRows (.projection input expr) (.projection input' expr) := by
      -- Above an aggregate the rows are the same; elsewhere the expressions find their columns by
      -- name.
      by_cases hinput : input.IsAggregate
      · exact (hsame (covered_of_isAggregate hinput)).projection expr
      · exact hsim.projection hnames fun e he => (hP.2 e he).byName.resolve_right hinput
    obtain ⟨t, ht⟩ := prunable_schema (P := .projection input expr) hP
    refine ⟨.projection input' expr, names', ?_, (subset_insertNames _ _).trans hsub,
      hrows.simulates ht names, fun _ => hrows⟩
    simp only [pushDown, hextract, hpush, Outcome.ok_bind]
    rfl
  | selection input expr ih =>
    obtain ⟨s, hs⟩ := prunable_schema hP.1
    have hextract : extractColumns input.schema names expr =
        .ok (insertNames names (expr.references s)) := by
      rw [hs]
      exact extractColumns_eq hP.2.supported (hP.2.resolves s hs) _
    obtain ⟨input', names', hpush, hsub, hsim, hsame⟩ := ih hP.1
      (insertNames names (expr.references s))
    refine ⟨.selection input' expr, names', ?_, (subset_insertNames _ _).trans hsub, ?_,
      fun hcov => (hsame hcov).selection expr⟩
    · simp only [pushDown, hextract, hpush, Outcome.ok_bind]
      rfl
    · by_cases hinput : input.IsAggregate
      · exact ((hsame (covered_of_isAggregate hinput)).selection expr).simulates hs names
      · exact (hsim.selection (fun name hname => mem_insertNames (List.mem_append_left _ hname))
          (hP.2.byName.resolve_right hinput)).mono (subset_insertNames _ _)
  | aggregate input groupExpr aggregateExpr ih =>
    obtain ⟨hinput, hgroup, hagg⟩ := hP
    obtain ⟨s, hs⟩ := prunable_schema hinput
    obtain ⟨groupNames, hgroupNames⟩ : ∃ groupNames, groupNames =
      insertNames names (groupExpr.flatMap fun e => e.references s) := ⟨_, rfl⟩
    obtain ⟨allNames, hallNames⟩ : ∃ allNames, allNames = insertNames groupNames
      ((aggregateExpr.map aggregateInner).flatMap fun e => e.references s) := ⟨_, rfl⟩
    have hextract : extractColumnsList input.schema names groupExpr = .ok groupNames := by
      rw [hs, hgroupNames]
      exact extractColumnsList_eq (fun e he => ⟨(hgroup e he).supported,
        (hgroup e he).resolves s hs⟩) _
    have hextract' : extractColumnsList input.schema groupNames
        (aggregateExpr.map aggregateInner) = .ok allNames := by
      rw [hs, hallNames]
      refine extractColumnsList_eq (fun e he => ?_) _
      obtain ⟨a, ha, rfl⟩ := List.mem_map.mp he
      exact ⟨(hagg a ha).supported, (hagg a ha).resolves s hs⟩
    have hsub₁ : names ⊆ groupNames := hgroupNames ▸ subset_insertNames _ _
    have hsub₂ : groupNames ⊆ allNames := hallNames ▸ subset_insertNames _ _
    obtain ⟨input', names', hpush, hsub, hsim, hsame⟩ := ih hinput allNames
    have hrows : SameRows (.aggregate input groupExpr aggregateExpr)
        (.aggregate input' groupExpr aggregateExpr) := by
      by_cases hcase : input.IsAggregate
      · exact (hsame (covered_of_isAggregate hcase)).aggregate groupExpr aggregateExpr
      · refine hsim.aggregate (fun e he => ⟨fun name hname => hsub₂ ?_,
          (hgroup e he).byName.resolve_right hcase⟩) fun a ha => ⟨fun name hname => ?_,
          (hagg a ha).byName.resolve_right hcase⟩
        · rw [hgroupNames]
          exact mem_insertNames (List.mem_flatMap.mpr ⟨e, he, List.mem_append_left _ hname⟩)
        · rw [hallNames]
          exact mem_insertNames (List.mem_flatMap.mpr ⟨a.expr, List.mem_map_of_mem ha,
            List.mem_append_left _ hname⟩)
    obtain ⟨t, ht⟩ := prunable_schema (P := .aggregate input groupExpr aggregateExpr)
      ⟨hinput, hgroup, hagg⟩
    refine ⟨.aggregate input' groupExpr aggregateExpr, names', ?_,
      (hsub₁.trans hsub₂).trans hsub, hrows.simulates ht names, fun _ => hrows⟩
    simp only [pushDown, hextract, hextract', hpush, Outcome.ok_bind]
    rfl
  | join left right joinType on ihl ihr =>
    obtain ⟨ls, hls⟩ := prunable_schema hP.1
    obtain ⟨rs, hrs⟩ := prunable_schema hP.2
    -- Both sides are asked for the keys; the right one also for what the left one added.
    obtain ⟨allNames, hallNames, hsub, hkeys⟩ := joinNames_eq ls rs on names
    rw [← hls, ← hrs] at hallNames
    obtain ⟨left', namesL, hpushL, hsubL, hsimL, hsameL⟩ := ihl hP.1 allNames
    obtain ⟨right', namesR, hpushR, hsubR, hsimR, hsameR⟩ := ihr hP.2 namesL
    have hjoin := (hsimL.join (hsimR.mono hsubL) joinType hkeys).mono hsub
    refine ⟨.join left' right' joinType on, namesR, ?_, hsub.trans (hsubL.trans hsubR), hjoin,
      fun hcov => (hsameL hcov.1).join (hsameR hcov.2) joinType on⟩
    simp only [pushDown, hallNames, Outcome.ok_bind, hpushL, hpushR]
    rfl
  | limit input n ih =>
    obtain ⟨input', names', hpush, hsub, hsim, hsame⟩ := ih hP names
    refine ⟨.limit input' n, names', ?_, hsub, hsim.limit n, fun hcov => (hsame hcov).limit n⟩
    simp only [pushDown, hpush, Outcome.ok_bind]
    rfl

/-- Optimizing a plan preserves its rows. -/
theorem optimize_sameRows {P : LogicalPlan} (hP : P.Prunable) (hcov : P.Covered) :
    ∃ P', optimize P = .ok P' ∧ SameRows P P' := by
  obtain ⟨P', names, hpush, -, -, hsame⟩ := pushDown_simulates hP ∅
  refine ⟨P', ?_, hsame hcov⟩
  rw [optimize, hpush]
  rfl

end

section Pruned

attribute [local instance] integerFloats insertionOrderRuntime

local instance prunedDisk : Readers := parquetDisk fun _ => none

/-- Two columns that are not in alphabetical order. -/
def unsortedSource : InMemoryDataSource where
  schema := ⟨[⟨"b", .int32⟩, ⟨"a", .int32⟩]⟩
  data := []
  conforms := by decide

def unsortedScan : LogicalPlan :=
  .scan ⟨"unsorted", .inMemory unsortedSource, [], unsortedSource.schema, rfl⟩

/-- `SELECT b … WHERE a > 1`. -/
def prunedPlan : LogicalPlan :=
  .projection (.selection unsortedScan (.binary .gt (.column "a") (.literalLong 1))) [.column "b"]

/-- An expression over the two columns resolves. -/
theorem resolves_unsortedScan {e : LogicalExpr} (hcolumns : ∀ name ∈ e.columns, name ∈ ["b", "a"])
    (hindices : e.indices = []) (schema : Schema) (h : unsortedScan.schema = .ok schema) :
    e.Resolves schema := by
  obtain rfl : unsortedSource.schema = schema := Except.ok.inj h
  exact ⟨hcolumns, by simp [hindices]⟩

/-- The condition holds for a filtered projection. -/
theorem optimize_sameRows_prunedPlan :
    ∃ P', optimize prunedPlan = .ok P' ∧ SameRows prunedPlan P' := by
  have hscan : unsortedScan.Prunable := ⟨rfl, by decide⟩
  refine optimize_sameRows ⟨⟨hscan, ⟨⟨⟨trivial, trivial⟩, ?_⟩, .inl rfl⟩⟩, ?_⟩ trivial
  · exact resolves_unsortedScan (by decide) rfl
  · intro e he
    obtain rfl := List.mem_singleton.mp he
    exact ⟨⟨trivial, resolves_unsortedScan (by decide) rfl⟩, .inl rfl⟩

end Pruned

end RQuery
