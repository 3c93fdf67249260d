import RQuery.Sql.ResolvedPlans
import RQuery.Optimizer.Preservation

/-!
# The projection in front of the filter

`SqlPlanner` evaluates the select items before it filters, and adds the columns that only the filter
and the aggregates refer to. What is behind this projection finds the columns of the table in it by
name, unless a select item that is something else carries the name (`Transparent`). Where the
projection can be computed, the operators behind it then work as directly on the table.
-/

namespace RQuery

section

variable [FloatModel] {s : Schema} {exprs : List LogicalExpr} {names : Finset String}

/-- An expression whose field carries one of the names is the column of that name. -/
def Transparent (names : Finset String) (s : Schema) (exprs : List LogicalExpr) : Prop :=
  ∀ e ∈ exprs, ∀ f, e.toField (.ok s) = .ok f → f.name ∈ names → e = .column f.name

/-- Columns of the table can be added. -/
theorem Transparent.append_columns (h : Transparent names s exprs) (added : List String) :
    Transparent names s (exprs ++ added.map LogicalExpr.column) := by
  intro e he f hf hname
  rcases List.mem_append.mp he with he | he
  · exact h e he f hf hname
  · obtain ⟨name, -, rfl⟩ := List.mem_map.mp he
    rw [findField_name hf]

omit [FloatModel] in
/-- A field that is found is the field of its name. -/
theorem field?_of_findField {name : String} {f : Field}
    (h : LogicalExpr.findField s name = .ok f) : s.field? name = some f := by
  unfold LogicalExpr.findField at h
  split at h
  · rename_i g hg
    rw [Schema.field?, hg, Except.ok.inj h]
  · cases h

omit [FloatModel] in
/-- A position that is found is the position of its name. -/
theorem position?_of_fieldPosition {name : String} {i : ℕ} (h : fieldPosition s name = .ok i) :
    s.position? name = some i := by
  unfold fieldPosition at h
  split at h
  · rename_i j hj
    rw [hj, Except.ok.inj h]
  · cases h

/-- A transparent projection keeps the fields of the names it keeps. -/
theorem schemasAgree_projected (h : Transparent names s exprs) {fields : List Field}
    (hfields : exprs.mapM (LogicalExpr.toField (.ok s)) = .ok fields)
    (hfound : ∀ name ∈ names, name ∈ Schema.names ⟨fields⟩) : SchemasAgree names s ⟨fields⟩ := by
  intro name hname
  cases hfield : Schema.field? ⟨fields⟩ name with
  | none =>
    exact absurd (hfound name hname)
      (Schema.position?_eq_none_iff.mp (Schema.position?_eq_none_of_field? hfield))
  | some f =>
    obtain rfl : f.name = name := by simpa using List.find?_some hfield
    obtain ⟨e, he, hef⟩ := Outcome.mapM_mem hfields (List.mem_of_find?_eq_some hfield)
    obtain rfl := h e he f hef hname
    exact field?_of_findField hef

variable [Runtime]

/-- The cell of a column is the cell of the row. -/
theorem evalCell_column {types : List DataType} {row : Row} {i : ℕ} {v : ScalarValue}
    (h : (Expression.column i).evalCell types row = .ok v) : row[i]? = some v := by
  obtain ⟨t, -, h⟩ := Outcome.bind_eq_ok_iff.mp h
  obtain ⟨u, hu, h⟩ := Outcome.bind_eq_ok_iff.mp h
  rw [index_eq_ok_iff.mp hu]
  by_cases hnull : u.isNull = true
  · rw [if_pos hnull] at h
    rw [ScalarValue.isNull_iff.mp hnull, ← Except.ok.inj h]
  · rw [if_neg hnull] at h
    split at h
    · rw [Except.ok.inj h]
    · cases h

/-- And its rows keep the cells under them. -/
theorem rowsAgree_projected (h : Transparent names s exprs) {fields : List Field}
    (hfields : exprs.mapM (LogicalExpr.toField (.ok s)) = .ok fields)
    (hfound : ∀ name ∈ names, name ∈ Schema.names ⟨fields⟩) {es : List Expression}
    (hes : exprs.mapM (createPhysicalExpr (.ok s)) = .ok es) {r out : Row}
    (hr : r.length = s.fields.length)
    (hout : (es.mapM fun e => e.evalCell s.types r) = .ok out) :
    RowsAgree names s ⟨fields⟩ r out := by
  refine ⟨hr, by rw [Outcome.mapM_length hout, Outcome.mapM_length hes,
    ← Outcome.mapM_length hfields], fun name hname => ?_⟩
  obtain ⟨i, hposition⟩ := Schema.position?_of_mem (hfound name hname)
  obtain ⟨⟨f, hf, rfl⟩, -⟩ := Schema.position?_eq_some_iff.mp hposition
  obtain ⟨hlt, -⟩ := List.getElem?_eq_some_iff.mp hf
  have hexpr := List.getElem?_eq_getElem (Outcome.mapM_length hfields ▸ hlt : i < exprs.length)
  obtain ⟨g, hg, hfield⟩ := Outcome.mapM_getElem? hfields hexpr
  obtain rfl : g = f := Option.some.inj (hg.symm.trans hf)
  have hcolumn := h _ (List.mem_of_getElem? hexpr) g hfield hname
  rw [hcolumn] at hexpr
  obtain ⟨p, hp, hlower⟩ := Outcome.mapM_getElem? hes hexpr
  obtain ⟨j, hj, rfl⟩ := Outcome.bind_pure_eq_ok_iff.mp hlower
  obtain ⟨v, hv, hcell⟩ := Outcome.mapM_getElem? hout hp
  rw [hcolumn] at hfield
  obtain ⟨k, hk, hsource⟩ := Schema.position?_eq_some_of_field? (field?_of_findField hfield)
  obtain rfl : k = j := Option.some.inj (hk.symm.trans (position?_of_fieldPosition hj))
  rw [cell?_eq_of_position? hposition hf hv, cell?_eq_of_position? hk hsource
    (evalCell_column hcell)]

end

section

variable [FloatModel] [Readers] [Runtime] {names : Finset String} {s s' : Schema}
  {content : Content} {T : LogicalPlan}

omit [Readers] in
/-- A condition that can be evaluated in all rows of a list evaluates to the same cells in rows that
agree with them. -/
theorem condition_agree (hagree : SchemasAgree names s s') {rows rows' : List Row}
    (hrows : List.Forall₂ (RowsAgree names s s') rows rows') {e : LogicalExpr}
    (hnames : ∀ name ∈ e.columns, name ∈ names) (hindices : e.indices = []) {p' : Expression}
    (hp' : createPhysicalExpr (.ok s') e = .ok p') {cells : List ScalarValue}
    (hcells : rows'.mapM (p'.evalCell s'.types) = .ok cells) :
    ∃ p, createPhysicalExpr (.ok s) e = .ok p ∧ rows.mapM (p.evalCell s.types) = .ok cells := by
  have hrelated := createPhysicalExpr_agree hnames hindices hagree
  rw [hp'] at hrelated
  cases hp : createPhysicalExpr (.ok s) e with
  | error err =>
    rw [hp] at hrelated
    cases hrelated
  | ok p =>
    rw [hp, Outcome.related_ok] at hrelated
    exact ⟨p, rfl, (Outcome.Related.mapM_eq hrows fun r r' hr => hrelated.2 r r' hr).trans hcells⟩

omit [FloatModel] [Readers] [Runtime] in
/-- What is computed of the rows that are kept is kept of what is computed of the rows. -/
theorem keepTrue_mapM [FloatModel] {f : Row → Result Row} {rows out : List Row}
    (h : rows.mapM f = .ok out) (cells : List ScalarValue) :
    (keepTrue rows cells).mapM f = .ok (keepTrue out cells) := by
  induction rows generalizing out cells with
  | nil =>
    obtain rfl : [] = out := by simpa using h
    rfl
  | cons r rows ih =>
    obtain ⟨o, out, ho, hout, rfl⟩ := Outcome.mapM_cons_eq_ok_iff.mp h
    cases cells with
    | nil => rfl
    | cons cell cells =>
      unfold keepTrue at ih ⊢
      rw [List.zip_cons_cons, List.zip_cons_cons, List.filter_cons, List.filter_cons]
      by_cases hcell : cell = .boolean true
      · rw [if_pos (by simpa using hcell), if_pos (by simpa using hcell)]
        exact Outcome.mapM_cons_eq_ok_iff.mpr ⟨o, _, ho, ih hout cells, rfl⟩
      · rw [if_neg (by simpa using hcell), if_neg (by simpa using hcell)]
        exact ih hout cells

/-- What a filtered projection of a table denotes is computed from the rows of the table, and so is
the condition, if it finds its columns in the projection. -/
theorem filteredProjection_denote (hs : T.schema = .ok s) {exprs : List LogicalExpr}
    (h : Transparent names s exprs)
    (hfound : ∀ fields, exprs.mapM (LogicalExpr.toField (.ok s)) = .ok fields →
      ∀ name ∈ names, name ∈ Schema.names ⟨fields⟩) {condition : LogicalExpr}
    (hnames : ∀ name ∈ condition.columns, name ∈ names) (hindices : condition.indices = [])
    {out : List Row}
    (hout : ((T.projection exprs).selection condition).denote content = .ok out) :
    ∃ fields es rows tuples p cells, exprs.mapM (LogicalExpr.toField (.ok s)) = .ok fields ∧
      exprs.mapM (createPhysicalExpr (.ok s)) = .ok es ∧ T.denote content = .ok rows ∧
      (rows.mapM fun r => es.mapM fun e => e.evalCell s.types r) = .ok tuples ∧
      createPhysicalExpr (.ok s) condition = .ok p ∧
      rows.mapM (p.evalCell s.types) = .ok cells ∧ out = keepTrue tuples cells ∧
      SchemasAgree names s ⟨fields⟩ ∧ List.Forall₂ (RowsAgree names s ⟨fields⟩) rows tuples := by
  obtain ⟨s', hs', hout⟩ := Outcome.bind_eq_ok_iff.mp hout
  obtain ⟨p', hp', hout⟩ := Outcome.bind_eq_ok_iff.mp hout
  obtain ⟨tuples, htuples, hout⟩ := Outcome.bind_eq_ok_iff.mp hout
  obtain ⟨cells, hcells, rfl⟩ := Outcome.bind_pure_eq_ok_iff.mp hout
  obtain ⟨fields, hfields, rfl⟩ := Outcome.bind_pure_eq_ok_iff.mp hs'
  rw [hs] at hfields
  simp only [LogicalPlan.denote, hs, Outcome.ok_bind] at htuples
  obtain ⟨es, hes, htuples⟩ := Outcome.bind_eq_ok_iff.mp htuples
  obtain ⟨rows, hrows, htuples⟩ := Outcome.bind_eq_ok_iff.mp htuples
  have hagree := schemasAgree_projected h hfields (hfound fields hfields)
  have hlength := denote_length hs hrows
  have hall : List.Forall₂ (RowsAgree names s ⟨fields⟩) rows tuples := by
    have hpairs := Outcome.mapM_eq_ok_iff.mp htuples
    rw [List.forall₂_iff_zip] at hpairs ⊢
    exact ⟨hpairs.1, fun {r out} hmem => rowsAgree_projected h hfields (hfound fields hfields) hes
      (hlength r (List.of_mem_zip hmem).1) (hpairs.2 hmem)⟩
  obtain ⟨p, hp, hsource⟩ := condition_agree hagree hall hnames hindices hp' hcells
  exact ⟨fields, es, rows, tuples, p, cells, hfields, hes, hrows, htuples, hp, hsource, rfl, hagree,
    hall⟩

end

end RQuery
