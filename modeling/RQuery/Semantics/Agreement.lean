import RQuery.Semantics.Rows
import RQuery.LogicalPlan.References
import RQuery.Common.Related

/-!
# Rows that agree on names

Two rows, each under a schema of its own, agree on a set of names when looking a name of the set up
finds the same field and the same cell in both. An expression that refers to these names only
evaluates to the same cells (`createPhysicalExpr_agree`), wherever the columns stand and whatever
other columns there are.
-/

namespace RQuery

variable [FloatModel]

/-- The first field of a name. -/
def Schema.field? (schema : Schema) (name : String) : Option Field :=
  schema.fields.find? fun f => f.name = name

/-- The field and the cell that a name stands for in a row. -/
def cell? (schema : Schema) (row : Row) (name : String) : Option (Field × ScalarValue) :=
  (schema.fields.zip row).find? fun c => c.1.name = name

/-- The names stand for the same fields. -/
def SchemasAgree (names : Finset String) (s s' : Schema) : Prop :=
  ∀ name ∈ names, s.field? name = s'.field? name

/-- The names stand for the same cells. -/
structure RowsAgree (names : Finset String) (s s' : Schema) (r r' : Row) : Prop where
  length_left : r.length = s.fields.length
  length_right : r'.length = s'.fields.length
  cells : ∀ name ∈ names, cell? s r name = cell? s' r' name

omit [FloatModel] in
/-- Schemas that agree on names agree on some of them. -/
theorem SchemasAgree.mono {names names' : Finset String} {s s' : Schema} (hsub : names ⊆ names')
    (h : SchemasAgree names' s s') : SchemasAgree names s s' :=
  fun name hname => h name (hsub hname)

omit [FloatModel] in
/-- Agreement of schemas goes both ways. -/
theorem SchemasAgree.symm {names : Finset String} {s s' : Schema} (h : SchemasAgree names s s') :
    SchemasAgree names s' s :=
  fun name hname => (h name hname).symm

/-- Rows that agree on names agree on some of them. -/
theorem RowsAgree.mono {names names' : Finset String} {s s' : Schema} {r r' : Row}
    (hsub : names ⊆ names') (h : RowsAgree names' s s' r r') : RowsAgree names s s' r r' :=
  ⟨h.length_left, h.length_right, fun name hname => h.cells name (hsub hname)⟩

omit [FloatModel] in
/-- The first field of a name is at the name's position. -/
theorem Schema.position?_eq_some_of_field? {s : Schema} {name : String} {f : Field}
    (h : s.field? name = some f) : ∃ i, s.position? name = some i ∧ s.fields[i]? = some f := by
  obtain ⟨hname, i, hi, hf, hmin⟩ := List.find?_eq_some_iff_getElem.mp h
  refine ⟨i, Schema.position?_eq_some_iff.mpr ⟨⟨f, ?_, by simpa using hname⟩, ?_⟩, ?_⟩
  · rw [List.getElem?_eq_getElem hi, hf]
  · intro j hj g hg
    obtain ⟨hj', rfl⟩ := List.getElem?_eq_some_iff.mp hg
    simpa using hmin j hj
  · rw [List.getElem?_eq_getElem hi, hf]

omit [FloatModel] in
/-- A name without a field has no position. -/
theorem Schema.position?_eq_none_of_field? {s : Schema} {name : String}
    (h : s.field? name = none) : s.position? name = none := by
  rw [Schema.position?_eq_none_iff]
  intro hmem
  obtain ⟨f, hf, rfl⟩ := List.mem_map.mp hmem
  simpa using List.find?_eq_none.mp h f hf

/-- A name stands for the cell at its position. -/
theorem cell?_eq_of_position? {s : Schema} {row : Row} {name : String} {i : ℕ} {f : Field}
    {v : ScalarValue} (hpos : s.position? name = some i) (hf : s.fields[i]? = some f)
    (hv : row[i]? = some v) : cell? s row name = some (f, v) := by
  obtain ⟨⟨g, hg, hname⟩, hmin⟩ := Schema.position?_eq_some_iff.mp hpos
  obtain rfl : g = f := by simpa [hg] using hf
  obtain ⟨hi, rfl⟩ := List.getElem?_eq_some_iff.mp hf
  obtain ⟨hi', rfl⟩ := List.getElem?_eq_some_iff.mp hv
  refine List.find?_eq_some_iff_getElem.mpr ⟨by simpa using hname, i, by simp [hi, hi'], by simp, ?_⟩
  intro j hj
  have hne := hmin j hj _ (List.getElem?_eq_getElem (by omega))
  simpa using hne

section

variable [Runtime] {names : Finset String} {s s' : Schema}

/-- The expressions have the same type and the same cells in rows that agree. -/
def SameCells (names : Finset String) (s s' : Schema) (p p' : Expression) : Prop :=
  p.dataType s.types = p'.dataType s'.types ∧
    ∀ r r', RowsAgree names s s' r r' → p.evalCell s.types r = p'.evalCell s'.types r'

/-- Comparisons of operands with the same cells have the same cells. -/
theorem SameCells.boolean {p p' q q' : Expression} (hp : SameCells names s s' p p')
    (hq : SameCells names s s' q q') (op : BooleanOp) :
    SameCells names s s' (.boolean op p q) (.boolean op p' q') := by
  refine ⟨?_, fun r r' hr => ?_⟩
  · simp only [Expression.dataType, hp.1, hq.1]
  · simp only [Expression.evalCell, hp.1, hp.2 r r' hr, hq.2 r r' hr]

/-- So has arithmetic. -/
theorem SameCells.math {p p' q q' : Expression} (hp : SameCells names s s' p p')
    (hq : SameCells names s s' q q') (op : MathOp) :
    SameCells names s s' (.math op p q) (.math op p' q') := by
  refine ⟨?_, fun r r' hr => ?_⟩
  · simp only [Expression.dataType, hp.1, hq.1]
  · simp only [Expression.evalCell, hp.1, hq.1, hp.2 r r' hr, hq.2 r r' hr]

/-- So has date arithmetic. -/
theorem SameCells.dateInterval {p p' q q' : Expression} (hp : SameCells names s s' p p')
    (hq : SameCells names s s' q q') (op : ScalarValue.IntervalOp) :
    SameCells names s s' (.dateInterval op p q) (.dateInterval op p' q') := by
  refine ⟨?_, fun r r' hr => ?_⟩
  · simp only [Expression.dataType, hp.1, hq.1]
  · simp only [Expression.evalCell, hp.2 r r' hr, hq.2 r r' hr]

/-- An operator makes of operands with the same cells expressions with the same cells, or fails on
both. -/
theorem SameCells.createExpression {p p' q q' : Expression} (hp : SameCells names s s' p p')
    (hq : SameCells names s s' q q') (op : BinaryOp) :
    Outcome.Related (SameCells names s s') (op.createExpression p q)
      (op.createExpression p' q') := by
  cases op with
  | modulus => exact .error _
  | add | subtract | multiply | divide => exact .ok (hp.math hq _)
  | _ => exact .ok (hp.boolean hq _)

/-- The columns of one name have the same cells. -/
theorem sameCells_column {name : String} (hmem : name ∈ names) (hs : SchemasAgree names s s') :
    Outcome.Related (SameCells names s s') (createPhysicalExpr (.ok s) (.column name))
      (createPhysicalExpr (.ok s') (.column name)) := by
  have hfield := hs name hmem
  simp only [createPhysicalExpr, fieldPosition, Outcome.ok_bind]
  cases hf : s.field? name with
  | none =>
    rw [hf, eq_comm] at hfield
    rw [Schema.position?_eq_none_of_field? hf, Schema.position?_eq_none_of_field? hfield]
    exact .error _
  | some f =>
    rw [hf, eq_comm] at hfield
    obtain ⟨i, hpos, hi⟩ := Schema.position?_eq_some_of_field? hf
    obtain ⟨i', hpos', hi'⟩ := Schema.position?_eq_some_of_field? hfield
    rw [hpos, hpos']
    have htype : index s.types i = .ok f.dataType := by
      rw [index_eq_ok_iff]
      simp [Schema.types, hi]
    have htype' : index s'.types i' = .ok f.dataType := by
      rw [index_eq_ok_iff]
      simp [Schema.types, hi']
    refine .ok ⟨htype.trans htype'.symm, fun r r' hr => ?_⟩
    have hlt : i < r.length := hr.length_left ▸ (List.getElem?_eq_some_iff.mp hi).1
    have hlt' : i' < r'.length := hr.length_right ▸ (List.getElem?_eq_some_iff.mp hi').1
    have hcell := hr.cells name hmem
    rw [cell?_eq_of_position? hpos hi (List.getElem?_eq_getElem hlt),
      cell?_eq_of_position? hpos' hi' (List.getElem?_eq_getElem hlt')] at hcell
    have hv : r[i] = r'[i'] := by simpa using hcell
    simp only [Expression.evalCell, htype, htype', index_of_lt hlt, index_of_lt hlt', hv]

/-- An expression by names evaluates to the same cells in rows that agree on its names. -/
theorem createPhysicalExpr_agree {e : LogicalExpr} (hnames : ∀ name ∈ e.columns, name ∈ names)
    (hidx : e.indices = []) (hs : SchemasAgree names s s') :
    Outcome.Related (SameCells names s s') (createPhysicalExpr (.ok s) e)
      (createPhysicalExpr (.ok s') e) := by
  have hsame : ∀ p : Expression, p.dataType s.types = p.dataType s'.types →
      (∀ r r' : Row, p.evalCell s.types r = p.evalCell s'.types r') → SameCells names s s' p p :=
    fun p ht hc => ⟨ht, fun r r' _ => hc r r'⟩
  induction e with
  | column name => exact sameCells_column (hnames name (by simp [LogicalExpr.columns])) hs
  -- An index would tell the schemas apart; it is excluded by assumption.
  | columnIndex i => simp [LogicalExpr.indices] at hidx
  | literalFloat f => exact .error _
  | not e => exact .error _
  | scalarFunction name t => exact .error _
  | aggregateExpr fn e => exact .error _
  | aliased e name ih => exact ih hnames hidx
  | cast e t ih =>
    refine (ih hnames hidx).bind fun p p' hp => .ok ⟨?_, fun r r' hr => ?_⟩
    · simp only [Expression.dataType, hp.1]
    · simp only [Expression.evalCell, hp.2 r r' hr]
  | dateSubtractInterval d i ihd ihi | dateAddInterval d i ihd ihi =>
    simp only [LogicalExpr.columns, LogicalExpr.indices, List.mem_append,
      List.append_eq_nil_iff] at hnames hidx
    refine (ihd (fun n hn => hnames n (.inl hn)) hidx.1).bind fun p p' hp => ?_
    refine (ihi (fun n hn => hnames n (.inr hn)) hidx.2).bind fun q q' hq => ?_
    exact .ok (hp.dateInterval hq _)
  | binary op l r ihl ihr =>
    simp only [LogicalExpr.columns, LogicalExpr.indices, List.mem_append,
      List.append_eq_nil_iff] at hnames hidx
    refine (ihl (fun n hn => hnames n (.inl hn)) hidx.1).bind fun p p' hp => ?_
    refine (ihr (fun n hn => hnames n (.inr hn)) hidx.2).bind fun q q' hq => ?_
    exact hp.createExpression hq op
  | _ => exact .ok (hsame _ rfl fun _ _ => rfl)

/-- The aggregates have the same function, and arguments with the same cells. -/
def SameAggregates (names : Finset String) (s s' : Schema) (a a' : AggregateExpression) : Prop :=
  a.function = a'.function ∧ SameCells names s s' a.inputExpression a'.inputExpression

/-- An aggregate is lowered under schemas that agree to the same function of the same cells. -/
theorem createAggregateExpr_agree {a : AggregateExpr}
    (hnames : ∀ name ∈ a.expr.columns, name ∈ names) (hidx : a.expr.indices = [])
    (hs : SchemasAgree names s s') :
    Outcome.Related (SameAggregates names s s') (createAggregateExpr (.ok s) a)
      (createAggregateExpr (.ok s') a) := by
  have harg := createPhysicalExpr_agree hnames hidx hs
  unfold createAggregateExpr
  split
  all_goals first
    | exact .error _
    | exact harg.bind fun p p' hp => .ok ⟨rfl, hp⟩

/-- Aggregations of the same functions have the same rows. -/
theorem outputRows_congr {agg agg' : HashAggregate}
    (h : List.Forall₂ (fun a a' => a.function = a'.function) agg.aggregateExpr agg'.aggregateExpr)
    (mode : AggregateMode) : agg.outputRows mode = agg'.outputRows mode := by
  have haccs : agg.createAccumulators = agg'.createAccumulators :=
    Outcome.forall₂_map_eq h fun a a' ha => by rw [ha]
  funext items
  refine Outcome.mapM_congr fun key _ => ?_
  rw [HashAggregate.groupRow, HashAggregate.groupRow, haccs]

/-- Aggregations of expressions with the same cells read rows that agree as the same keyed row. -/
theorem readItem_agree {agg agg' : HashAggregate}
    (hgroup : List.Forall₂ (SameCells names s s') agg.groupExpr agg'.groupExpr)
    (hagg : List.Forall₂ (SameAggregates names s s') agg.aggregateExpr agg'.aggregateExpr)
    {r r' : Row} (hr : RowsAgree names s s' r r') :
    agg.readItem s.types r = agg'.readItem s'.types r' := by
  unfold HashAggregate.readItem
  rw [Outcome.Related.mapM_eq hgroup fun p p' hp => hp.2 r r' hr,
    Outcome.Related.mapM_eq hagg fun a a' ha => ha.2.2 r r' hr]

end

/-! ## Selected columns -/

section

variable {names : Finset String} {s t : Schema} {selected : List String} {positions : List ℕ}

omit [FloatModel] in
/-- The columns that are selected stand for the same fields. -/
theorem position?_select (hs : s.DistinctNames) (hselect : s.select selected = .ok t)
    (hpos : s.resolve selected = .ok positions) {name : String} (hname : name ∈ selected) :
    ∃ i k f, s.position? name = some i ∧ t.position? name = some k ∧ positions[k]? = some i ∧
      s.fields[i]? = some f ∧ t.fields[k]? = some f := by
  have hnames := Schema.select_names hselect
  obtain ⟨k, hk⟩ := Schema.position?_of_mem (hnames ▸ hname : name ∈ t.names)
  have hkname : selected[k]? = some name := hnames ▸ Schema.position?_name hk
  have hall := Schema.resolve_eq_ok_iff.mp hpos
  obtain ⟨hlt, rfl⟩ := List.getElem?_eq_some_iff.mp hkname
  have hlt' : k < positions.length := hall.length_eq ▸ hlt
  have hi : s.position? selected[k] = some positions[k] := hall.get hlt hlt'
  obtain ⟨⟨f, hf, -⟩, -⟩ := Schema.position?_eq_some_iff.mp hi
  refine ⟨positions[k], k, f, hi, hk, List.getElem?_eq_getElem hlt', hf, ?_⟩
  rw [hs.select_eq_project hpos] at hselect
  obtain ⟨fields, hfields, ht⟩ := Outcome.bind_pure_eq_ok_iff.mp hselect
  obtain ⟨g, hg, hgf⟩ := Outcome.mapM_getElem? hfields (List.getElem?_eq_getElem hlt')
  rw [ht, hg]
  rw [index_eq_ok_iff] at hgf
  exact hgf ▸ hf

omit [FloatModel] in
/-- The field at the position of a name is the first of that name. -/
theorem field?_of_position? {s : Schema} {name : String} {i : ℕ} {f : Field}
    (hpos : s.position? name = some i) (hf : s.fields[i]? = some f) : s.field? name = some f := by
  cases h : s.field? name with
  | none =>
    rw [Schema.position?_eq_none_of_field? h] at hpos
    cases hpos
  | some g =>
    obtain ⟨j, hj, hg⟩ := Schema.position?_eq_some_of_field? h
    obtain rfl : j = i := by simpa [hj] using hpos
    rw [← hg, hf]

omit [FloatModel] in
/-- A name that the schema does not have has no field. -/
theorem field?_eq_none {s : Schema} {name : String} (h : name ∉ s.names) :
    s.field? name = none := by
  cases hf : s.field? name with
  | none => rfl
  | some f =>
    obtain ⟨i, hi, -⟩ := Schema.position?_eq_some_of_field? hf
    rw [Schema.position?_eq_none_iff.mpr h] at hi
    cases hi

omit [FloatModel] in
/-- Selecting the columns of a set of names, and others, agrees on the set. -/
theorem SchemasAgree.select (hs : s.DistinctNames) (hselect : s.select selected = .ok t)
    (hpos : s.resolve selected = .ok positions)
    (hnames : ∀ name ∈ names, name ∈ s.names → name ∈ selected) : SchemasAgree names s t := by
  intro name hname
  by_cases hmem : name ∈ s.names
  · obtain ⟨i, k, f, hi, hk, -, hf, hf'⟩ :=
      position?_select hs hselect hpos (hnames name hname hmem)
    rw [field?_of_position? hi hf, field?_of_position? hk hf']
  · have hmem' : name ∉ t.names := by
      rw [Schema.select_names hselect]
      exact fun h => hmem (Schema.resolve_succeeds_iff.mp ⟨positions, hpos⟩ name h)
    rw [field?_eq_none hmem, field?_eq_none hmem']

/-- A name that the schema does not have has no cell. -/
theorem cell?_eq_none {s : Schema} {r : Row} {name : String} (h : name ∉ s.names) :
    cell? s r name = none := by
  refine List.find?_eq_none.mpr fun c hc hname => h ?_
  have hname : c.1.name = name := by simpa using hname
  exact hname ▸ List.mem_map_of_mem (List.of_mem_zip hc).1

/-- A row agrees with the row of its selected columns on the names selected. -/
theorem RowsAgree.select (hs : s.DistinctNames) (hselect : s.select selected = .ok t)
    (hpos : s.resolve selected = .ok positions)
    (hnames : ∀ name ∈ names, name ∈ s.names → name ∈ selected) {r : Row}
    (hr : r.length = s.fields.length) : RowsAgree names s t r (cellsAt positions r) := by
  have hlen : positions.length = t.fields.length := by
    rw [← Schema.names_length, Schema.select_names hselect]
    exact (Schema.resolve_eq_ok_iff.mp hpos).length_eq.symm
  refine ⟨hr, by simp [cellsAt, hlen], fun name hname => ?_⟩
  by_cases hmem : name ∈ s.names
  · obtain ⟨i, k, f, hi, hk, hki, hf, hf'⟩ :=
      position?_select hs hselect hpos (hnames name hname hmem)
    have hlt : i < r.length := hr ▸ (List.getElem?_eq_some_iff.mp hf).1
    have hcell : (cellsAt positions r)[k]? = some r[i] := by
      simp [cellsAt, hki, hlt]
    rw [cell?_eq_of_position? hi hf (List.getElem?_eq_getElem hlt),
      cell?_eq_of_position? hk hf' hcell]
  · have hmem' : name ∉ t.names := by
      rw [Schema.select_names hselect]
      exact fun h => hmem (Schema.resolve_succeeds_iff.mp ⟨positions, hpos⟩ name h)
    rw [cell?_eq_none hmem, cell?_eq_none hmem']

end

/-! ## Joins -/

section

variable {names : Finset String}

/-- As many cells are kept as fields. -/
theorem length_keptCells {dropped : List String} {s : Schema} {r : Row}
    (h : r.length = s.fields.length) :
    (keptCells dropped s r).length = (s.fields.filter fun f => f.name ∉ dropped).length := by
  have hfst : (s.fields.zip r).map Prod.fst = s.fields := List.map_fst_zip h.ge
  rw [keptCells, List.length_map, ← List.length_map Prod.fst]
  conv_rhs => rw [← hfst, List.filter_map]
  rfl

omit [FloatModel] in
/-- A dropped name has no field any more, and the others keep theirs. -/
theorem field?_kept (dropped : List String) (fields : List Field) (name : String) :
    Schema.field? ⟨fields.filter fun f => f.name ∉ dropped⟩ name =
      if name ∈ dropped then none else Schema.field? ⟨fields⟩ name := by
  unfold Schema.field?
  rw [List.find?_filter]
  split
  · rename_i hmem
    rw [List.find?_eq_none]
    rintro f - hf
    simp only [decide_eq_true_eq] at hf
    exact hf.1 (hf.2 ▸ hmem)
  · rename_i hmem
    congr 1
    funext f
    by_cases hf : f.name = name
    · simp [hf, hmem]
    · simp [hf]

/-- The cell of a name among the kept cells. -/
theorem cell?_kept (dropped : List String) {s : Schema} {r : Row}
    (h : r.length = s.fields.length) (name : String) :
    cell? ⟨s.fields.filter fun f => f.name ∉ dropped⟩ (keptCells dropped s r) name =
      if name ∈ dropped then none else cell? s r name := by
  have hzip : (s.fields.filter fun f => f.name ∉ dropped).zip (keptCells dropped s r) =
      (s.fields.zip r).filter fun c => c.1.name ∉ dropped := by
    have hfst : (s.fields.zip r).map Prod.fst = s.fields := List.map_fst_zip h.ge
    conv_lhs => rw [← hfst, List.filter_map]
    exact (List.zip_of_prod rfl rfl).symm
  unfold cell?
  rw [hzip, List.find?_filter]
  split
  · rename_i hmem
    rw [List.find?_eq_none]
    rintro c - hc
    simp only [decide_eq_true_eq] at hc
    exact hc.1 (hc.2 ▸ hmem)
  · rename_i hmem
    congr 1
    funext c
    by_cases hc : c.1.name = name
    · simp [hc, hmem]
    · simp [hc]

omit [FloatModel] in
/-- The first field of a name is on the left, or on the right if there is none. -/
theorem field?_append (fields fields' : List Field) (name : String) :
    Schema.field? ⟨fields ++ fields'⟩ name =
      (Schema.field? ⟨fields⟩ name).or (Schema.field? ⟨fields'⟩ name) :=
  List.find?_append

/-- So is its cell. -/
theorem cell?_append {fields fields' : List Field} {r r' : Row} (h : r.length = fields.length)
    (name : String) :
    cell? ⟨fields ++ fields'⟩ (r ++ r') name = (cell? ⟨fields⟩ r name).or (cell? ⟨fields'⟩ r' name) := by
  unfold cell?
  rw [List.zip_append h.symm, List.find?_append]

/-- A row of nulls has a null for every name. -/
theorem cell?_nullRow (s : Schema) (name : String) :
    cell? s (nullRow s) name = (s.field? name).map fun f => (f, .null) := by
  have hzip : s.fields.zip (nullRow s) = s.fields.map fun f => (f, .null) := by
    apply List.ext_getElem
    · simp [nullRow]
    · intro i hi hi'
      simp [nullRow]
  unfold cell? Schema.field?
  rw [hzip, List.find?_map]
  rfl

/-- Rows of nulls agree where their schemas do. -/
theorem rowsAgree_nullRow {s s' : Schema} (h : SchemasAgree names s s') :
    RowsAgree names s s' (nullRow s) (nullRow s') :=
  ⟨List.length_replicate, List.length_replicate, fun name hname => by
    rw [cell?_nullRow, cell?_nullRow, h name hname]⟩

variable {joinType : JoinType} {on : List (String × String)} {ls ls' rs rs' : Schema}

omit [FloatModel] in
/-- Joins of schemas that agree agree. -/
theorem SchemasAgree.join (hl : SchemasAgree names ls ls') (hr : SchemasAgree names rs rs') :
    SchemasAgree names ⟨joinFields joinType on ls.fields rs.fields⟩
      ⟨joinFields joinType on ls'.fields rs'.fields⟩ := by
  intro name hname
  have hl := hl name hname
  have hr := hr name hname
  cases joinType with
  | inner | left =>
    simp only [joinFields]
    rw [field?_append, field?_append, field?_kept, field?_kept, hl, hr]
  | right =>
    simp only [joinFields]
    rw [field?_append, field?_append, field?_kept, field?_kept, hl, hr]

/-- Pairs of rows that agree agree. -/
theorem RowsAgree.join {l l' r r' : Row} (hl : RowsAgree names ls ls' l l')
    (hr : RowsAgree names rs rs' r r') :
    RowsAgree names ⟨joinFields joinType on ls.fields rs.fields⟩
      ⟨joinFields joinType on ls'.fields rs'.fields⟩ (joinRow joinType on ls rs l r)
      (joinRow joinType on ls' rs' l' r') := by
  cases joinType with
  -- The left row comes first, and the right row without the keys that it shares.
  | inner | left =>
    refine ⟨?_, ?_, fun name hname => ?_⟩
    · simp only [joinRow, joinFields, List.length_append, hl.length_left,
        length_keptCells hr.length_left]
    · simp only [joinRow, joinFields, List.length_append, hl.length_right,
        length_keptCells hr.length_right]
    · simp only [joinRow, joinFields]
      rw [cell?_append hl.length_left, cell?_append hl.length_right, cell?_kept _ hr.length_left,
        cell?_kept _ hr.length_right, hl.cells name hname, hr.cells name hname]
  | right =>
    refine ⟨?_, ?_, fun name hname => ?_⟩
    · simp only [joinRow, joinFields, List.length_append, hr.length_left,
        length_keptCells hl.length_left]
    · simp only [joinRow, joinFields, List.length_append, hr.length_right,
        length_keptCells hl.length_right]
    · simp only [joinRow, joinFields]
      rw [cell?_append (length_keptCells hl.length_left),
        cell?_append (length_keptCells hl.length_right), cell?_kept _ hl.length_left,
        cell?_kept _ hl.length_right, hl.cells name hname, hr.cells name hname]

/-- Join keys are the same cells in rows that agree. -/
theorem fieldPosition_agree {s s' : Schema} (hs : SchemasAgree names s s') (keys : List String)
    (hkeys : ∀ name ∈ keys, name ∈ names) :
    Outcome.Related
      (fun is is' => ∀ r r', RowsAgree names s s' r r' → cellsAt is r = cellsAt is' r')
      (keys.mapM (fieldPosition s)) (keys.mapM (fieldPosition s')) := by
  have hkey : ∀ name ∈ keys, Outcome.Related
      (fun i i' => ∀ r r', RowsAgree names s s' r r' → r.getD i .null = r'.getD i' .null)
      (fieldPosition s name) (fieldPosition s' name) := by
    intro name hname
    have hfield := hs name (hkeys name hname)
    unfold fieldPosition
    cases hf : s.field? name with
    | none =>
      rw [hf, eq_comm] at hfield
      rw [Schema.position?_eq_none_of_field? hf, Schema.position?_eq_none_of_field? hfield]
      exact .error _
    | some f =>
      rw [hf, eq_comm] at hfield
      obtain ⟨i, hpos, hi⟩ := Schema.position?_eq_some_of_field? hf
      obtain ⟨i', hpos', hi'⟩ := Schema.position?_eq_some_of_field? hfield
      rw [hpos, hpos']
      refine .ok fun r r' hr => ?_
      have hlt : i < r.length := hr.length_left ▸ (List.getElem?_eq_some_iff.mp hi).1
      have hlt' : i' < r'.length := hr.length_right ▸ (List.getElem?_eq_some_iff.mp hi').1
      have hcell := hr.cells name (hkeys name hname)
      rw [cell?_eq_of_position? hpos hi (List.getElem?_eq_getElem hlt),
        cell?_eq_of_position? hpos' hi' (List.getElem?_eq_getElem hlt')] at hcell
      simpa [hlt, hlt'] using hcell
  refine (Outcome.Related.mapM_same hkey).imp fun is is' h r r' hr => ?_
  exact Outcome.forall₂_map_eq h fun i i' hi => hi r r' hr

/-- Joins of rows that agree agree. -/
theorem joinRows_agree (hls : SchemasAgree names ls ls') (hrs : SchemasAgree names rs rs')
    {keyL keyL' keyR keyR' : Row → List ScalarValue}
    (hkeyL : ∀ l l', RowsAgree names ls ls' l l' → keyL l = keyL' l')
    (hkeyR : ∀ r r', RowsAgree names rs rs' r r' → keyR r = keyR' r') {lrows lrows' : List Row}
    (hl : List.Forall₂ (RowsAgree names ls ls') lrows lrows') {rrows rrows' : List Row}
    (hr : List.Forall₂ (RowsAgree names rs rs') rrows rrows') :
    List.Forall₂ (RowsAgree names ⟨joinFields joinType on ls.fields rs.fields⟩
        ⟨joinFields joinType on ls'.fields rs'.fields⟩)
      (joinRows joinType on ls rs keyL keyR lrows rrows)
      (joinRows joinType on ls' rs' keyL' keyR' lrows' rrows') := by
  cases joinType with
  | inner => exact Joins.forall₂_inner hl hr hkeyL hkeyR fun l l' r r' hl hr => hl.join hr
  | left =>
    exact Joins.forall₂_left hl hr hkeyL hkeyR (fun l l' r r' hl hr => hl.join hr)
      fun l l' hl => hl.join (rowsAgree_nullRow hrs)
  | right =>
    exact Joins.forall₂_right hl hr hkeyL hkeyR (fun l l' r r' hl hr => hl.join hr)
      fun r r' hr => (rowsAgree_nullRow hls).join hr

end

/-! ## The width of rows -/

section

variable [Readers] [Runtime]

omit [Readers] [Runtime] in
/-- The rows of a join have a cell for each of its fields. -/
theorem joinRows_length {joinType : JoinType} {on : List (String × String)} {ls rs : Schema}
    {keyL keyR : Row → List ScalarValue} {lrows rrows : List Row}
    (hl : ∀ l ∈ lrows, l.length = ls.fields.length) (hr : ∀ r ∈ rrows, r.length = rs.fields.length) :
    ∀ row ∈ joinRows joinType on ls rs keyL keyR lrows rrows,
      row.length = (joinFields joinType on ls.fields rs.fields).length := by
  have hpair : ∀ l r : Row, l.length = ls.fields.length → r.length = rs.fields.length →
      (joinRow joinType on ls rs l r).length =
        (joinFields joinType on ls.fields rs.fields).length := by
    intro l r hl hr
    have hls : RowsAgree ∅ ls ls l l := ⟨hl, hl, by simp⟩
    have hrs : RowsAgree ∅ rs rs r r := ⟨hr, hr, by simp⟩
    exact (hls.join hrs).length_left
  have hnull : ∀ s : Schema, (nullRow s).length = s.fields.length := fun s =>
    List.length_replicate
  cases joinType with
  | inner => exact Joins.forall_mem_inner fun l h r h' => hpair l r (hl l h) (hr r h')
  | left =>
    exact Joins.forall_mem_left (fun l h r h' => hpair l r (hl l h) (hr r h'))
      fun l h => hpair l _ (hl l h) (hnull rs)
  | right =>
    exact Joins.forall_mem_right (fun l h r h' => hpair l r (hl l h) (hr r h'))
      fun r h => hpair _ r (hnull ls) (hr r h)

/-- The rows of a plan have a cell for every field of its schema. -/
theorem denote_length {P : LogicalPlan} {content : Content} {s : Schema} {rows : List Row}
    (hs : P.schema = .ok s) (h : P.denote content = .ok rows) :
    ∀ r ∈ rows, r.length = s.fields.length := by
  induction P generalizing s rows with
  | scan scan =>
    obtain rfl : scan.schema = s := Except.ok.inj hs
    obtain ⟨full, hfull, h⟩ := Outcome.bind_eq_ok_iff.mp h
    have hderived := scan.derived
    simp only [Scan.deriveSchema, hfull, Outcome.ok_bind] at hderived
    split at h
    · rename_i hempty
      rw [if_pos hempty] at hderived
      cases hderived
      cases h
      intro r hr
      rw [← Schema.types_length]
      exact (content.fits _ _ hfull r hr).length_eq.symm
    · rename_i hempty
      rw [if_neg hempty] at hderived
      obtain ⟨positions, hpos, rfl⟩ := Outcome.bind_pure_eq_ok_iff.mp h
      intro r hr
      obtain ⟨r', -, rfl⟩ := List.mem_map.mp hr
      rw [cellsAt, List.length_map, ← Schema.names_length, Schema.select_names hderived]
      exact (Schema.resolve_eq_ok_iff.mp hpos).length_eq.symm
  | projection input expr ih =>
    obtain ⟨fields, hfields, rfl⟩ := Outcome.bind_pure_eq_ok_iff.mp hs
    obtain ⟨schema, -, h⟩ := Outcome.bind_eq_ok_iff.mp h
    obtain ⟨es, hes, h⟩ := Outcome.bind_eq_ok_iff.mp h
    obtain ⟨source, -, h⟩ := Outcome.bind_eq_ok_iff.mp h
    intro r hr
    obtain ⟨r', -, hr'⟩ := Outcome.mapM_mem h hr
    rw [Outcome.mapM_length hr', Outcome.mapM_length hes, Outcome.mapM_length hfields]
  | selection input expr ih =>
    obtain ⟨schema, -, h⟩ := Outcome.bind_eq_ok_iff.mp h
    obtain ⟨e, -, h⟩ := Outcome.bind_eq_ok_iff.mp h
    obtain ⟨source, hsource, h⟩ := Outcome.bind_eq_ok_iff.mp h
    obtain ⟨cells, -, rfl⟩ := Outcome.bind_pure_eq_ok_iff.mp h
    intro r hr
    obtain ⟨c, hc, rfl⟩ := List.mem_map.mp hr
    exact ih hs hsource _ (List.of_mem_zip (List.mem_of_mem_filter hc)).1
  | aggregate input groupExpr aggregateExpr ih =>
    obtain ⟨schema, -, h⟩ := Outcome.bind_eq_ok_iff.mp h
    obtain ⟨group, hgroup, h⟩ := Outcome.bind_eq_ok_iff.mp h
    obtain ⟨aggregate, haggregate, h⟩ := Outcome.bind_eq_ok_iff.mp h
    simp only [hs, Outcome.ok_bind] at h
    obtain ⟨source, -, h⟩ := Outcome.bind_eq_ok_iff.mp h
    obtain ⟨items, hitems, h⟩ := Outcome.bind_eq_ok_iff.mp h
    obtain ⟨groups, hgroups, hs⟩ := Outcome.bind_eq_ok_iff.mp hs
    obtain ⟨aggregates, haggregates, rfl⟩ := Outcome.bind_pure_eq_ok_iff.mp hs
    refine HashAggregate.outputRows_lengths ?_ (fun x hx => ?_) h
    · simp only [HashAggregate.WellFormed, List.length_append, Outcome.mapM_length hgroup,
        Outcome.mapM_length haggregate, Outcome.mapM_length hgroups,
        Outcome.mapM_length haggregates]
    · obtain ⟨r, -, hr⟩ := Outcome.mapM_mem hitems hx
      exact HashAggregate.readItem_lengths hr
  | join left right joinType on ihl ihr =>
    obtain ⟨ls, hls, h⟩ := Outcome.bind_eq_ok_iff.mp h
    obtain ⟨rs, hrs, h⟩ := Outcome.bind_eq_ok_iff.mp h
    obtain ⟨leftKeys, -, h⟩ := Outcome.bind_eq_ok_iff.mp h
    obtain ⟨rightKeys, -, h⟩ := Outcome.bind_eq_ok_iff.mp h
    obtain ⟨lrows, hl, h⟩ := Outcome.bind_eq_ok_iff.mp h
    obtain ⟨rrows, hr, rfl⟩ := Outcome.bind_pure_eq_ok_iff.mp h
    simp only [LogicalPlan.schema, hls, hrs, Outcome.ok_bind] at hs
    obtain rfl := Except.ok.inj hs
    exact joinRows_length (ihl hls hl) (ihr hrs hr)
  | limit input n ih =>
    obtain ⟨source, hsource, rfl⟩ := Outcome.bind_pure_eq_ok_iff.mp h
    exact fun r hr => ih hs hsource r (List.mem_of_mem_take hr)

end

end RQuery
