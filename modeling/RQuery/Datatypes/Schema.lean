import RQuery.Datatypes.ScalarValue

/-!
# Schemas

A `Schema` is a list of named, typed fields. `project` picks fields by position and panics past the
end; `select` picks them by name and panics unless a name matches exactly one field.
-/

namespace RQuery

/-- One named column with a known type. -/
structure Field where
  name : String
  dataType : DataType
  deriving DecidableEq, Repr

/-- A list of fields. -/
structure Schema where
  fields : List Field
  deriving DecidableEq, Repr

namespace Schema

def names (s : Schema) : List String := s.fields.map Field.name

def types (s : Schema) : List DataType := s.fields.map Field.dataType

/-- The column names are pairwise different. -/
def DistinctNames (s : Schema) : Prop := s.names.Nodup

instance (s : Schema) : Decidable s.DistinctNames := inferInstanceAs (Decidable (List.Nodup _))

/-- `fields.iter().position(|f| f.name == name)`: the first field of that name. -/
def position? (s : Schema) (name : String) : Option ℕ :=
  s.fields.findIdx? fun f => f.name = name

/-- The positions of a list of names, panicking at the first name no field carries: how the data
sources read a projection. -/
def resolve (s : Schema) (names : List String) : Result (List ℕ) :=
  names.mapM fun name =>
    match s.position? name with
    | some i => .ok i
    | none => .error (.unknownColumn name)

/-- Project a sub-schema by column index. -/
def project (s : Schema) (indices : List ℕ) : Result Schema := do
  return ⟨← indices.mapM (index s.fields)⟩

/-- The body of the loop of `select`: the one field of that name. -/
def selectField (s : Schema) (name : String) : Result Field :=
  match s.fields.filter fun f => f.name = name with
  | [f] => .ok f
  | fs => .error (.selectMatched name fs.length)

/-- Select a sub-schema by column name. -/
def select (s : Schema) (names : List String) : Result Schema := do
  return ⟨← names.mapM s.selectField⟩

@[simp] theorem names_length (s : Schema) : s.names.length = s.fields.length := by
  simp [names]

@[simp] theorem types_length (s : Schema) : s.types.length = s.fields.length := by
  simp [types]

/-! ## Resolving names -/

/-- The position of a name is that of the first field with it. -/
theorem position?_eq_some_iff {s : Schema} {name : String} {i : ℕ} :
    s.position? name = some i ↔
      (∃ f, s.fields[i]? = some f ∧ f.name = name) ∧
        ∀ j < i, ∀ f, s.fields[j]? = some f → f.name ≠ name := by
  unfold position?
  rw [List.findIdx?_eq_some_iff_getElem]
  constructor
  · rintro ⟨hi, hname, hmin⟩
    refine ⟨⟨s.fields[i], List.getElem?_eq_getElem hi, by simpa using hname⟩, ?_⟩
    intro j hj f hf
    obtain ⟨hj', rfl⟩ := List.getElem?_eq_some_iff.mp hf
    simpa using hmin j hj
  · rintro ⟨⟨f, hf, rfl⟩, hmin⟩
    obtain ⟨hi, rfl⟩ := List.getElem?_eq_some_iff.mp hf
    refine ⟨hi, by simp, ?_⟩
    intro j hj
    simpa using hmin j hj _ (List.getElem?_eq_getElem (by omega))

/-- A position is one of a field. -/
theorem position?_lt {s : Schema} {name : String} {i : ℕ} (h : s.position? name = some i) :
    i < s.fields.length := by
  obtain ⟨⟨f, hf, -⟩, -⟩ := position?_eq_some_iff.mp h
  exact (List.getElem?_eq_some_iff.mp hf).1

/-- The names of the schema have positions. -/
theorem position?_isSome_iff {s : Schema} {name : String} :
    (s.position? name).isSome ↔ name ∈ s.names := by
  simp [position?, names, List.findIdx?_isSome, List.mem_map]

/-- No other name has one. -/
theorem position?_eq_none_iff {s : Schema} {name : String} :
    s.position? name = none ↔ name ∉ s.names := by
  rw [← position?_isSome_iff]
  cases s.position? name <;> simp

/-- A name of the schema has a position. -/
theorem position?_of_mem {s : Schema} {name : String} (h : name ∈ s.names) :
    ∃ i, s.position? name = some i :=
  Option.isSome_iff_exists.mp (position?_isSome_iff.mpr h)

/-- The field a name resolves to carries that name. -/
theorem position?_name {s : Schema} {name : String} {i : ℕ} (h : s.position? name = some i) :
    s.names[i]? = some name := by
  obtain ⟨⟨f, hf, rfl⟩, -⟩ := position?_eq_some_iff.mp h
  simp [names, hf]

/-- With distinct names a field is the one its name resolves to. -/
theorem DistinctNames.position? {s : Schema} (hs : s.DistinctNames) {i : ℕ} {f : Field}
    (h : s.fields[i]? = some f) : s.position? f.name = some i := by
  rw [position?_eq_some_iff]
  refine ⟨⟨f, h, rfl⟩, ?_⟩
  intro j hj g hg heq
  obtain ⟨hi', rfl⟩ := List.getElem?_eq_some_iff.mp h
  obtain ⟨hj', rfl⟩ := List.getElem?_eq_some_iff.mp hg
  have hinj := List.pairwise_iff_getElem.mp hs j i (by simpa using hj') (by simpa using hi') hj
  exact hinj (by simpa [names] using heq)

/-- A field is selected by a name that no other field has. -/
theorem selectField_eq_ok_iff {s : Schema} {name : String} {f : Field} :
    s.selectField name = .ok f ↔ s.fields.filter (fun f => f.name = name) = [f] := by
  unfold selectField
  split
  · rename_i g hg
    simp [hg]
  · rename_i h
    simp only [reduceCtorEq, false_iff]
    exact h f

/-- With distinct names a name selects the field it resolves to. -/
theorem DistinctNames.selectField {s : Schema} (hs : s.DistinctNames) {i : ℕ} {f : Field}
    (h : s.fields[i]? = some f) : s.selectField f.name = .ok f := by
  rw [selectField_eq_ok_iff]
  obtain ⟨fs⟩ := s
  unfold DistinctNames names at hs
  simp only at h hs ⊢
  induction fs generalizing i with
  | nil => simp at h
  | cons g fs ih =>
    rw [List.map_cons, List.nodup_cons] at hs
    cases i with
    | zero =>
      obtain rfl : g = f := by simpa using h
      have hnone : fs.filter (fun f => f.name = g.name) = [] := by
        rw [List.filter_eq_nil_iff]
        intro f hf
        have hmem : f.name ∈ fs.map Field.name := List.mem_map_of_mem hf
        simpa using fun heq : f.name = g.name => hs.1 (heq ▸ hmem)
      simp [hnone]
    | succ i =>
      have h : fs[i]? = some f := by simpa using h
      have hne : g.name ≠ f.name := fun heq =>
        hs.1 (heq ▸ List.mem_map_of_mem (List.mem_of_getElem? h))
      simpa [hne] using ih hs.2 h

/-- The selected field is one of the schema, and has the name. -/
theorem selectField_name {s : Schema} {name : String} {f : Field}
    (h : s.selectField name = .ok f) : f.name = name ∧ f ∈ s.fields := by
  have hmem : f ∈ s.fields.filter (fun f => f.name = name) := by
    rw [selectField_eq_ok_iff.mp h]
    exact List.mem_singleton_self f
  simpa [and_comm] using List.mem_filter.mp hmem

/-- With distinct names, exactly the lists of existing names can be selected. -/
theorem DistinctNames.select_succeeds_iff {s : Schema} (hs : s.DistinctNames)
    {names : List String} :
    Outcome.Succeeds (s.select names) ↔ ∀ n ∈ names, n ∈ s.names := by
  unfold select
  rw [Outcome.succeeds_bind_iff]
  simp only [Outcome.pure_eq_ok, Outcome.succeeds_ok, and_true]
  change Outcome.Succeeds (names.mapM s.selectField) ↔ _
  rw [Outcome.mapM_succeeds_iff]
  refine forall₂_congr fun n _ => ⟨?_, ?_⟩
  · rintro ⟨f, hf⟩
    obtain ⟨rfl, hmem⟩ := selectField_name hf
    exact List.mem_map_of_mem hmem
  · intro hn
    obtain ⟨f, hf, rfl⟩ := List.mem_map.mp hn
    obtain ⟨i, hi, rfl⟩ := List.getElem_of_mem hf
    exact ⟨_, hs.selectField (List.getElem?_eq_getElem hi)⟩

/-- A selection has the requested names, in the requested order. -/
theorem select_names {s t : Schema} {names : List String} (h : s.select names = .ok t) :
    t.names = names := by
  obtain ⟨fs, hfs, ht⟩ := Outcome.bind_eq_ok_iff.mp h
  obtain rfl : (⟨fs⟩ : Schema) = t := by simpa using ht
  have hall := Outcome.mapM_eq_ok_iff.mp hfs
  clear h ht hfs
  induction hall with
  | nil => rfl
  | cons h _ ih => simpa [Schema.names, (selectField_name h).1] using ih

/-- Names resolve to their positions. -/
theorem resolve_eq_ok_iff {s : Schema} {names : List String} {idx : List ℕ} :
    s.resolve names = .ok idx ↔ List.Forall₂ (fun n i => s.position? n = some i) names idx := by
  unfold resolve
  rw [Outcome.mapM_eq_ok_iff]
  constructor <;> refine fun h => h.imp fun n i hi => ?_
  · cases hn : s.position? n with
    | none => simp [hn] at hi
    | some j => simpa [hn] using hi
  · simp [hi]

/-- Names resolve to positions of fields. -/
theorem resolve_lt {s : Schema} {names : List String} {idx : List ℕ}
    (h : s.resolve names = .ok idx) : ∀ i ∈ idx, i < s.fields.length := by
  intro i hi
  obtain ⟨n, -, hn⟩ := Outcome.forall₂_mem_right (resolve_eq_ok_iff.mp h) hi
  exact position?_lt hn

/-- Resolved positions carry the names that were asked for. -/
theorem resolve_names {s : Schema} {names : List String} {idx : List ℕ}
    (h : s.resolve names = .ok idx) : idx.map (fun i => s.names.getD i "") = names := by
  have hall := Outcome.forall₂_map_eq (resolve_eq_ok_iff.mp h) (f := id)
    (g := fun i => s.names.getD i "") fun n i hn => by simp [position?_name hn]
  simpa using hall.symm

/-- With distinct names, the names at given positions resolve to these positions. -/
theorem DistinctNames.resolve_names {s : Schema} (hs : s.DistinctNames) (idx : List ℕ)
    (hidx : ∀ i ∈ idx, i < s.fields.length) :
    s.resolve (idx.map fun i => s.names.getD i "") = .ok idx := by
  rw [resolve_eq_ok_iff, List.forall₂_map_left_iff, List.forall₂_same]
  intro i hi
  have hlt := hidx i hi
  have h := hs.position? (List.getElem?_eq_getElem hlt)
  simpa [names, hlt] using h

/-- Exactly the lists of existing names resolve. -/
theorem resolve_succeeds_iff {s : Schema} {names : List String} :
    Outcome.Succeeds (s.resolve names) ↔ ∀ n ∈ names, n ∈ s.names := by
  unfold resolve
  rw [Outcome.mapM_succeeds_iff]
  refine forall₂_congr fun n _ => ?_
  rw [← position?_isSome_iff]
  cases s.position? n <;> simp

/-- A projection has the names at the given positions. -/
theorem project_names {s t : Schema} {idx : List ℕ} (h : s.project idx = .ok t) :
    t.names = idx.map fun i => s.names.getD i "" := by
  obtain ⟨fs, hfs, ht⟩ := Outcome.bind_eq_ok_iff.mp h
  obtain rfl : (⟨fs⟩ : Schema) = t := by simpa using ht
  refine (Outcome.forall₂_map_eq (Outcome.mapM_eq_ok_iff.mp hfs) fun i f hi => ?_).symm
  simp [names, index_eq_ok_iff.mp hi]

/-- With distinct names, selecting by name projects to the positions of the names. -/
theorem DistinctNames.select_eq_project {s : Schema} (hs : s.DistinctNames) {names : List String}
    {idx : List ℕ} (h : s.resolve names = .ok idx) : s.select names = s.project idx := by
  have hall := resolve_eq_ok_iff.mp h
  have hfield : names.mapM s.selectField = idx.mapM (index s.fields) := by
    clear h
    induction hall with
    | nil => rfl
    | @cons n i names idx hn _ ih =>
      obtain ⟨⟨f, hf, rfl⟩, -⟩ := position?_eq_some_iff.mp hn
      rw [List.mapM_cons, List.mapM_cons, ih, hs.selectField hf, index_eq_ok_iff.mpr hf]
  simp [select, project, hfield]

end Schema

end RQuery
