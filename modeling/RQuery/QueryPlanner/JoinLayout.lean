import RQuery.Semantics.HashJoinRows
import RQuery.Semantics.Agreement

/-!
# Join rows and the join schema

Three places decide where the columns of a join go: `Join::schema` drops the keys called the same on
both sides from the right, and for a right join from the left; the planner computes the right
columns to exclude; and `combine_rows` appends what is left of the right row to the left row,
whatever the join type. `joinRow` lays a pair out as the schema does (`zip_joinRow`).
`createPhysicalPlan_join_linesUp_iff` says when a lowered join does so as well.
-/

namespace RQuery

section

variable [FloatModel]

/-! ## Rows laid out as the schema -/

/-- Filtering fields with their cells is filtering the fields, and the cells by their fields. -/
theorem filter_zip_eq (p : Field → Bool) (fields : List Field) (cells : Row)
    (h : cells.length = fields.length) :
    (fields.filter p).zip (((fields.zip cells).filter fun c => p c.1).map Prod.snd) =
      (fields.zip cells).filter fun c => p c.1 := by
  induction fields generalizing cells with
  | nil => rfl
  | cons f fields ih =>
    cases cells with
    | nil => cases h
    | cons v cells =>
      have hcells : cells.length = fields.length := by simpa using h
      by_cases hf : p f <;> simp [hf, ih cells hcells]

/-- Every field of the join's schema stands over the cell that it has on the side it came from. -/
theorem zip_joinRow {joinType : JoinType} {on : List (String × String)} {ls rs : Schema}
    {l r : Row} (hl : l.length = ls.fields.length) (hr : r.length = rs.fields.length) :
    (joinFields joinType on ls.fields rs.fields).zip (joinRow joinType on ls rs l r) =
      match joinType with
      | .inner | .left => ls.fields.zip l ++
          (rs.fields.zip r).filter fun c => c.1.name ∉ duplicateKeys on
      | .right => (ls.fields.zip l).filter (fun c => c.1.name ∉ duplicateKeys on) ++
          rs.fields.zip r := by
  have hleft := filter_zip_eq (fun f => decide (f.name ∉ duplicateKeys on)) _ _ hl
  have hright := filter_zip_eq (fun f => decide (f.name ∉ duplicateKeys on)) _ _ hr
  cases joinType with
  | inner => rw [joinFields, joinRow, List.zip_append hl.symm, keptCells, hright]
  | left => rw [joinFields, joinRow, List.zip_append hl.symm, keptCells, hright]
  | right =>
    rw [joinFields, joinRow, List.zip_append (length_keptCells hl).symm, keptCells, hleft]

/-- A joined row has a cell for each field of the join. -/
theorem length_joinRow {joinType : JoinType} {on : List (String × String)} {ls rs : Schema}
    {l r : Row} (hl : l.length = ls.fields.length) (hr : r.length = rs.fields.length) :
    (joinRow joinType on ls rs l r).length =
      (joinFields joinType on ls.fields rs.fields).length := by
  cases joinType with
  | right => simp only [joinRow, joinFields, List.length_append, length_keptCells hl, hr]
  | _ => simp only [joinRow, joinFields, List.length_append, length_keptCells hr, hl]

/-- The row of rows that fit fits. -/
theorem joinRow_fits {joinType : JoinType} {on : List (String × String)} {ls rs : Schema}
    {l r : Row} (hl : RowFits ls.types l) (hr : RowFits rs.types r) :
    RowFits (Schema.types ⟨joinFields joinType on ls.fields rs.fields⟩)
      (joinRow joinType on ls rs l r) := by
  have hllen : l.length = ls.fields.length := by simpa using hl.length_eq.symm
  have hrlen : r.length = rs.fields.length := by simpa using hr.length_eq.symm
  have hcell : ∀ c ∈ (joinFields joinType on ls.fields rs.fields).zip
      (joinRow joinType on ls rs l r), c ∈ ls.fields.zip l ∨ c ∈ rs.fields.zip r := by
    intro c hc
    rw [zip_joinRow hllen hrlen] at hc
    cases joinType with
    | right => exact (List.mem_append.mp hc).imp_left List.mem_of_mem_filter
    | _ => exact (List.mem_append.mp hc).imp_right List.mem_of_mem_filter
  unfold RowFits Schema.types at hl hr ⊢
  rw [List.forall₂_map_left_iff, List.forall₂_iff_zip] at hl hr ⊢
  refine ⟨(length_joinRow hllen hrlen).symm, fun {f v} hfv => ?_⟩
  rcases hcell _ hfv with h | h
  · exact hl.2 h
  · exact hr.2 h

/-- The rows of a join are laid out pairs of rows of its sides, or of rows without values. -/
theorem forall_mem_joinRows {joinType : JoinType} {on : List (String × String)} {ls rs : Schema}
    {keyL keyR : Row → List ScalarValue} {L R : List Row} {P : Row → Prop}
    (h : ∀ l r, (l ∈ L ∨ l = nullRow ls) → (r ∈ R ∨ r = nullRow rs) →
      P (joinRow joinType on ls rs l r)) :
    ∀ row ∈ joinRows joinType on ls rs keyL keyR L R, P row := by
  cases joinType with
  | inner => exact Joins.forall_mem_inner fun l hl r hr => h l r (.inl hl) (.inl hr)
  | left =>
    exact Joins.forall_mem_left (fun l hl r hr => h l r (.inl hl) (.inl hr))
      fun l hl => h l _ (.inl hl) (.inr rfl)
  | right =>
    exact Joins.forall_mem_right (fun l hl r hr => h l r (.inl hl) (.inl hr))
      fun r hr => h _ r (.inr rfl) (.inl hr)

/-- A row of nulls fits every schema. -/
theorem nullRow_fits (s : Schema) : RowFits s.types (nullRow s) := by
  unfold RowFits nullRow
  rw [List.forall₂_iff_get]
  refine ⟨by simp, fun i hi hi' _ => ?_⟩
  simp

/-! ## Rows laid out by `combine_rows` -/

/-- Dropping the excluded positions is dropping the fields of the dropped names. -/
theorem zipIdx_filter_eq_keptCells {dropped : List String} {excluded : List ℕ} (n : ℕ)
    (fields : List Field) (cells : Row) (hlen : cells.length = fields.length)
    (h : ∀ (i : ℕ) f, fields[i]? = some f → (n + i ∈ excluded ↔ f.name ∈ dropped)) :
    ((cells.zipIdx n).filter fun x => x.2 ∉ excluded).map Prod.fst =
      ((fields.zip cells).filter fun c => c.1.name ∉ dropped).map Prod.snd := by
  induction fields generalizing cells n with
  | nil =>
    obtain rfl : cells = [] := List.length_eq_zero_iff.mp hlen
    rfl
  | cons f fields ih =>
    cases cells with
    | nil => cases hlen
    | cons v cells =>
      have hf : n ∈ excluded ↔ f.name ∈ dropped := h 0 f rfl
      have hrest := ih (n + 1) cells (by simpa using hlen) fun i f hf => by
        rw [Nat.add_right_comm, Nat.add_assoc]
        exact h (i + 1) f hf
      by_cases hmem : f.name ∈ dropped
      · simpa [hmem, hf] using hrest
      · simpa [hmem, hf] using hrest

omit [FloatModel] in
/-- A position on the right is excluded if its field is a key of the same name on both sides. -/
theorem mem_rightColumnsToExclude {on : List (String × String)} {rs : Schema} {i : ℕ} {f : Field}
    (hf : rs.fields[i]? = some f) :
    i ∈ rightColumnsToExclude on rs ↔ f.name ∈ duplicateKeys on := by
  obtain ⟨hlt, rfl⟩ := List.getElem?_eq_some_iff.mp hf
  simp [rightColumnsToExclude, hlt]

/-- `combine_rows` appends the right cells that are not keys called the same on both sides. -/
theorem combineRows_eq {join : HashJoin} {on : List (String × String)} {rs : Schema} {l r : Row}
    (hexclude : join.rightColumnsToExclude = rightColumnsToExclude on rs)
    (hr : r.length = rs.fields.length) :
    join.combineRows l r = l ++ keptCells (duplicateKeys on) rs r := by
  rw [HashJoin.combineRows, hexclude, keptCells,
    zipIdx_filter_eq_keptCells 0 rs.fields r hr fun i f hf => by
      rw [Nat.zero_add]
      exact mem_rightColumnsToExclude hf]

/-- Where no name is dropped, all cells are kept. -/
theorem keptCells_nil {s : Schema} {r : Row} (hr : r.length = s.fields.length) :
    keptCells [] s r = r := by
  rw [keptCells, List.filter_eq_self.mpr (by simp), List.map_snd_zip hr.le]

/-! ## Lining up -/

variable [Readers]

/-- What the planner puts into a hash join. -/
structure Lowers (left right : LogicalPlan) (joinType : JoinType) (on : List (String × String))
    (ls rs : Schema) (lp rp : PhysicalPlan) (join : HashJoin) : Prop where
  left_schema : left.schema = .ok ls
  right_schema : right.schema = .ok rs
  left_eq : createPhysicalPlan left = .ok lp
  right_eq : createPhysicalPlan right = .ok rp
  joinType_eq : join.joinType = joinType
  leftKeys_eq : (on.mapM fun k => fieldPosition ls k.1) = .ok join.leftKeys
  rightKeys_eq : (on.mapM fun k => fieldPosition rs k.2) = .ok join.rightKeys
  schema_eq : join.schema = ⟨joinFields joinType on ls.fields rs.fields⟩
  exclude_eq : join.rightColumnsToExclude = rightColumnsToExclude on rs

/-- What the query planner makes of a join. -/
theorem lowers_of_createPhysicalPlan {left right : LogicalPlan} {joinType : JoinType}
    {on : List (String × String)} {ls rs : Schema} {lp rp : PhysicalPlan} {join : HashJoin}
    (h : createPhysicalPlan (.join left right joinType on) = .ok (.hashJoin lp rp join))
    (hls : left.schema = .ok ls) (hrs : right.schema = .ok rs) :
    Lowers left right joinType on ls rs lp rp join := by
  obtain ⟨leftPlan, hlp, h⟩ := Outcome.bind_eq_ok_iff.mp h
  obtain ⟨rightPlan, hrp, h⟩ := Outcome.bind_eq_ok_iff.mp h
  rw [hls, Outcome.ok_bind, hrs, Outcome.ok_bind] at h
  obtain ⟨leftKeys, hlk, h⟩ := Outcome.bind_eq_ok_iff.mp h
  obtain ⟨rightKeys, hrk, h⟩ := Outcome.bind_eq_ok_iff.mp h
  obtain ⟨schema, hschema, h⟩ := Outcome.bind_eq_ok_iff.mp h
  rw [LogicalPlan.schema, hls, Outcome.ok_bind, hrs] at hschema
  cases h
  cases hschema
  exact ⟨hls, hrs, hlp, hrp, rfl, hlk, hrk, rfl, rfl⟩

/-- The sides' rows that the lowered join can be given, in batches, and what it should make of them:
it returns, and its rows are the pairs and padded rows of the relational join, each laid out as the
schema of the join. -/
def HashJoin.LinesUp [Runtime] (join : HashJoin) (leftSchema rightSchema : Result Schema)
    (on : List (String × String)) (ls rs : Schema) : Prop :=
  ∀ lb rb : List RecordBatch, (∀ b ∈ lb, b.schema = ls) → (∀ b ∈ rb, b.schema = rs) →
    ∃ ob : List RecordBatch,
      join.run leftSchema rightSchema (lb.map .ok) (rb.map .ok) = .ok (ob.map .ok) ∧
      (∀ b ∈ ob, b.schema = join.schema) ∧
      (rowsOf ob).Perm (joinRows join.joinType on ls rs (cellsAt join.leftKeys)
        (cellsAt join.rightKeys) (rowsOf lb) (rowsOf rb))

/-- All columns are of supported types, and there is one; a right join has no key called the same
on both sides; and a side that may be padded with nulls declares its columns, unless a left join
drops them all. -/
structure LogicalPlan.JoinAligns (left right : LogicalPlan) (joinType : JoinType)
    (on : List (String × String)) (ls rs : Schema) : Prop where
  supported : ∀ t ∈ ls.types ++ rs.types, t.hasBuilder
  nonempty : ls.fields ≠ [] ∨ rs.fields ≠ []
  right_keys : joinType = .right → duplicateKeys on = []
  left_padding : joinType = .left → right.ReadsAllImplicitly →
    ∀ f ∈ rs.fields, f.name ∈ duplicateKeys on
  right_padding : joinType = .right → ¬ left.ReadsAllImplicitly

section

variable [Runtime] {left right : LogicalPlan} {joinType : JoinType} {on : List (String × String)}
  {ls rs : Schema} {lp rp : PhysicalPlan} {join : HashJoin}

omit [FloatModel] [Readers] [Runtime] in
/-- The positions of names are positions of the schema. -/
theorem fieldPosition_lt {s : Schema} (names : List String) {positions : List ℕ}
    (h : names.mapM (fieldPosition s) = .ok positions) : ∀ i ∈ positions, i < s.fields.length := by
  intro i hi
  obtain ⟨name, -, hname⟩ := Outcome.mapM_mem h hi
  unfold fieldPosition at hname
  cases hpos : s.position? name with
  | none => rw [hpos] at hname; cases hname
  | some j =>
    rw [hpos] at hname
    exact Except.ok.inj hname ▸ Schema.position?_lt hpos

omit [Runtime] in
/-- The keys on the left are columns of the left side. -/
theorem Lowers.leftKeys_lt (h : Lowers left right joinType on ls rs lp rp join) :
    ∀ k ∈ join.leftKeys, k < ls.fields.length :=
  fieldPosition_lt (on.map Prod.fst) (by rw [List.mapM_map]; exact h.leftKeys_eq)

omit [Runtime] in
/-- The keys on the right are columns of the right side. -/
theorem Lowers.rightKeys_lt (h : Lowers left right joinType on ls rs lp rp join) :
    ∀ k ∈ join.rightKeys, k < rs.fields.length :=
  fieldPosition_lt (on.map Prod.snd) (by rw [List.mapM_map]; exact h.rightKeys_eq)

omit [Runtime] in
/-- Where the condition holds, `combine_rows` lays a pair out as the schema. -/
theorem combineRows_eq_joinRow (h : Lowers left right joinType on ls rs lp rp join)
    (hkeys : joinType = .right → duplicateKeys on = []) {l r : Row}
    (hl : l.length = ls.fields.length) (hr : r.length = rs.fields.length) :
    join.combineRows l r = joinRow joinType on ls rs l r := by
  rw [combineRows_eq h.exclude_eq hr]
  cases joinType with
  | inner => rfl
  | left => rfl
  | right => rw [joinRow, hkeys rfl, keptCells_nil hl, keptCells_nil hr]

omit [Runtime] in
/-- A side declares its columns, or none of them. -/
theorem declared_schema {P : LogicalPlan} {plan : PhysicalPlan} {s : Schema}
    (h : createPhysicalPlan P = .ok plan) (hs : P.schema = .ok s) :
    ∃ s', plan.schema = .ok s' ∧ (P.ReadsAllImplicitly → s'.fields = [] ∧ s.fields ≠ []) ∧
      (¬ P.ReadsAllImplicitly → s' = s) := by
  by_cases himplicit : P.ReadsAllImplicitly
  · obtain ⟨hempty, hne⟩ := createPhysicalPlan_schema_implicit h himplicit
    exact ⟨⟨[]⟩, hempty, fun _ => ⟨rfl, hne s hs⟩, fun hn => absurd himplicit hn⟩
  · have hschema := (createPhysicalPlan_schema_iff h).mpr himplicit
    exact ⟨s, hschema.trans hs, fun hi => absurd hi himplicit, fun _ => rfl⟩

omit [Readers] [Runtime] in
/-- The rows of batches fit the schema of the batches. -/
theorem rowsOf_length {s : Schema} {batches : List RecordBatch} (hs : ∀ b ∈ batches, b.schema = s) :
    ∀ r ∈ rowsOf batches, RowFits s.types r := by
  intro r hr
  obtain ⟨b, hb, hr⟩ := List.mem_flatMap.mp hr
  exact hs b hb ▸ b.rows_fit r hr

omit [FloatModel] [Readers] [Runtime] in
/-- A row that fits has a cell for each field. -/
theorem RowFits.length_eq_fields [FloatModel] {s : Schema} {r : Row} (h : RowFits s.types r) :
    r.length = s.fields.length := by
  simpa using h.length_eq.symm

omit [Runtime] in
/-- The nested-loop join with the layout of `combine_rows` is the one laid out as the schema. -/
theorem joins_eq_joinRows (h : Lowers left right joinType on ls rs lp rp join)
    (ha : left.JoinAligns right joinType on ls rs) {lschema rschema : Schema}
    (hlp : lp.schema = .ok lschema) (hrp : rp.schema = .ok rschema) {L R : List Row}
    (hL : ∀ l ∈ L, RowFits ls.types l) (hR : ∀ r ∈ R, RowFits rs.types r) :
    (match join.joinType with
      | .inner => Joins.inner (cellsAt join.leftKeys) (cellsAt join.rightKeys) join.combineRows L R
      | .left => Joins.left (cellsAt join.leftKeys) (cellsAt join.rightKeys) join.combineRows
          (fun l => join.combineRows l (List.replicate rschema.fields.length .null)) L R
      | .right => Joins.right (cellsAt join.leftKeys) (cellsAt join.rightKeys) join.combineRows
          (join.combineRows (List.replicate lschema.fields.length .null)) L R) =
      joinRows join.joinType on ls rs (cellsAt join.leftKeys) (cellsAt join.rightKeys) L R := by
  -- A matched pair is laid out alike for every type of join; the padding is what differs.
  have hpair : ∀ l ∈ L, ∀ r ∈ R, join.combineRows l r = joinRow joinType on ls rs l r :=
    fun l hl r hr => combineRows_eq_joinRow h ha.right_keys (hL l hl).length_eq_fields
      (hR r hr).length_eq_fields
  rw [h.joinType_eq]
  cases htype : joinType with
  | inner => exact Joins.inner_congr fun l hl r hr => htype ▸ hpair l hl r hr
  | left =>
    refine Joins.left_congr (fun l hl r hr => htype ▸ hpair l hl r hr) fun l hl => ?_
    obtain ⟨s', hs', himplicit, hdeclared⟩ := declared_schema h.right_eq h.right_schema
    obtain rfl : rschema = s' := Except.ok.inj (hrp.symm.trans hs')
    by_cases hi : right.ReadsAllImplicitly
    · -- No nulls are appended, and the schema has no column for them.
      have hdropped := ha.left_padding htype hi
      rw [(himplicit hi).1, joinRow, keptCells, List.filter_eq_nil_iff.mpr fun c hc => by
        simpa using hdropped c.1 (List.of_mem_zip hc).1]
      simp [HashJoin.combineRows]
    · rw [hdeclared hi]
      exact htype ▸ combineRows_eq_joinRow h ha.right_keys (hL l hl).length_eq_fields
        (nullRow_fits rs).length_eq_fields
  | right =>
    refine Joins.right_congr (fun l hl r hr => htype ▸ hpair l hl r hr) fun r hr => ?_
    obtain ⟨s', hs', -, hdeclared⟩ := declared_schema h.left_eq h.left_schema
    obtain rfl : lschema = s' := Except.ok.inj (hlp.symm.trans hs')
    rw [hdeclared (ha.right_padding htype)]
    exact htype ▸ combineRows_eq_joinRow h ha.right_keys (nullRow_fits ls).length_eq_fields
      (hR r hr).length_eq_fields

/-- The rows of an aligned join are those of the relational join. -/
theorem outputRows_perm_joinRows (h : Lowers left right joinType on ls rs lp rp join)
    (ha : left.JoinAligns right joinType on ls rs) {lschema rschema : Schema}
    (hlp : lp.schema = .ok lschema) (hrp : rp.schema = .ok rschema) {L R : List Row}
    (hL : ∀ l ∈ L, RowFits ls.types l) (hR : ∀ r ∈ R, RowFits rs.types r) :
    (join.outputRows lschema.fields.length rschema.fields.length L R).Perm
      (joinRows join.joinType on ls rs (cellsAt join.leftKeys) (cellsAt join.rightKeys) L R) :=
  (join.outputRows_perm_joins _ _ L R).trans (.of_eq (joins_eq_joinRows h ha hlp hrp hL hR))

omit [Runtime] in
/-- Only sides without columns have a join without columns. -/
theorem Lowers.fields_eq_nil_iff (h : Lowers left right joinType on ls rs lp rp join) :
    join.schema.fields = [] ↔ ls.fields = [] ∧ rs.fields = [] := by
  have hleft : ls.fields = [] → duplicateKeys on = [] := by
    intro hls
    have hkeys : join.leftKeys = [] := List.eq_nil_iff_forall_not_mem.mpr fun k hk => by
      simpa [hls] using h.leftKeys_lt k hk
    have hon := Outcome.mapM_length h.leftKeys_eq
    rw [hkeys, List.length_nil] at hon
    rw [List.length_eq_zero_iff.mp hon.symm]
    rfl
  have hright : rs.fields = [] → duplicateKeys on = [] := by
    intro hrs
    have hkeys : join.rightKeys = [] := List.eq_nil_iff_forall_not_mem.mpr fun k hk => by
      simpa [hrs] using h.rightKeys_lt k hk
    have hon := Outcome.mapM_length h.rightKeys_eq
    rw [hkeys, List.length_nil] at hon
    rw [List.length_eq_zero_iff.mp hon.symm]
    rfl
  rw [h.schema_eq]
  constructor
  · intro hnil
    cases joinType with
    | right =>
      obtain ⟨hls, hrs⟩ := List.append_eq_nil_iff.mp hnil
      rw [hright hrs] at hls
      exact ⟨by simpa using hls, hrs⟩
    | _ =>
      obtain ⟨hls, hrs⟩ := List.append_eq_nil_iff.mp hnil
      rw [hleft hls] at hrs
      exact ⟨hls, by simpa using hrs⟩
  · rintro ⟨hls, hrs⟩
    cases joinType <;> simp [joinFields, hls, hrs]

omit [FloatModel] [Readers] [Runtime] in
/-- A field of the join is one of the sides'. -/
theorem joinFields_subset {f : Field} (hf : f ∈ joinFields joinType on ls.fields rs.fields) :
    f ∈ ls.fields ∨ f ∈ rs.fields := by
  cases joinType with
  | right => exact (List.mem_append.mp hf).imp_left List.mem_of_mem_filter
  | _ => exact (List.mem_append.mp hf).imp_right List.mem_of_mem_filter

/-- An aligned join lines up. -/
theorem linesUp_of_aligns (h : Lowers left right joinType on ls rs lp rp join)
    (ha : left.JoinAligns right joinType on ls rs) :
    join.LinesUp lp.schema rp.schema on ls rs := by
  intro lb rb hlb hrb
  obtain ⟨lschema, hlp, -⟩ := declared_schema h.left_eq h.left_schema
  obtain ⟨rschema, hrp, -⟩ := declared_schema h.right_eq h.right_schema
  have hperm := outputRows_perm_joinRows h ha hlp hrp (rowsOf_length hlb) (rowsOf_length hrb)
  have hfits : ∀ row ∈ joinRows join.joinType on ls rs (cellsAt join.leftKeys)
      (cellsAt join.rightKeys) (rowsOf lb) (rowsOf rb), RowFits join.schema.types row := by
    rw [h.joinType_eq, h.schema_eq]
    refine forall_mem_joinRows fun l r hl hr => joinRow_fits ?_ ?_
    · rcases hl with hl | rfl
      · exact rowsOf_length hlb l hl
      · exact nullRow_fits ls
    · rcases hr with hr | rfl
      · exact rowsOf_length hrb r hr
      · exact nullRow_fits rs
  have hne : join.schema.fields ≠ [] := fun hnil => by
    obtain ⟨hls, hrs⟩ := h.fields_eq_nil_iff.mp hnil
    rcases ha.nonempty with hne | hne
    · exact hne hls
    · exact hne hrs
  have hbuilder : ∀ t ∈ join.schema.types, t.hasBuilder := by
    intro t ht
    rw [h.schema_eq] at ht
    obtain ⟨f, hf, rfl⟩ := List.mem_map.mp ht
    refine ha.supported _ (List.mem_append.mpr ?_)
    exact (joinFields_subset hf).imp List.mem_map_of_mem List.mem_map_of_mem
  have hbuild : Builds join.schema (join.outputRows lschema.fields.length rschema.fields.length
      (rowsOf lb) (rowsOf rb)) := Builds.perm ⟨hne, hbuilder, hfits⟩ hperm.symm
  have hreadl : ∀ b ∈ lb, HashJoin.Readable ls b := fun b hb =>
    ⟨hlb b hb, fun t ht => ha.supported t (List.mem_append_left _ ht)⟩
  have hreadr : ∀ b ∈ rb, HashJoin.Readable rs b := fun b hb =>
    ⟨hrb b hb, fun t ht => ha.supported t (List.mem_append_right _ ht)⟩
  obtain ⟨ob, hob⟩ := HashJoin.run_succeeds hreadl hreadr h.leftKeys_lt h.rightKeys_lt
    (fun _ => ⟨_, hlp⟩) hrp (by rw [hlp]; exact hbuild)
  obtain ⟨lb', rb', ob', rs', hlb', hrb', hob', hrs', hschema, hrows⟩ := HashJoin.run_ok hob
  obtain rfl := Outcome.map_ok_injective hlb'
  obtain rfl := Outcome.map_ok_injective hrb'
  obtain rfl := Outcome.map_ok_injective hob'
  obtain rfl : rschema = rs' := Except.ok.inj (hrp.symm.trans hrs')
  refine ⟨ob, hob, hschema, ?_⟩
  rw [hlp] at hrows
  -- Every row has a cell, so none is lost.
  have hcells : ∀ row ∈ join.outputRows lschema.fields.length rschema.fields.length (rowsOf lb)
      (rowsOf rb), (!row.isEmpty) = true := by
    intro row hrow
    have hlen := (hbuild.fits row hrow).length_eq_fields
    have hpos := List.length_pos_iff.mpr hne
    simpa [← List.length_eq_zero_iff] using by omega
  rw [hrows]
  exact (List.Perm.of_eq (List.filter_eq_self.mpr hcells)).trans hperm

/-! ## What goes wrong otherwise -/

omit [Readers] [Runtime] in
/-- A row of nulls but for one cell. -/
def oneCell (s : Schema) (i : ℕ) (v : ScalarValue) : Row := (nullRow s).set i v

omit [Readers] [Runtime] in
/-- A row with one cell that is not null fits if the cell does. -/
theorem oneCell_fits {s : Schema} {i : ℕ} {v : ScalarValue}
    (h : ∀ t, s.types[i]? = some t → t.hasBuilder → v.FitsIn t) :
    RowFits s.types (oneCell s i v) := by
  unfold RowFits oneCell nullRow
  rw [List.forall₂_iff_get]
  refine ⟨by simp, fun j hj hj' hsup => ?_⟩
  simp only [List.get_eq_getElem, List.getElem_set]
  by_cases hij : i = j
  · subst hij
    rw [if_pos rfl]
    exact h _ (List.getElem?_eq_getElem hj) hsup
  · rw [if_neg hij, List.getElem_replicate]
    exact ScalarValue.null_fitsIn _

omit [Readers] [Runtime] in
/-- A type with a builder has a value that is not null. -/
theorem exists_value {t : DataType} (h : t.hasBuilder) :
    ∃ v : ScalarValue, v ≠ .null ∧ v.FitsIn t := by
  cases t with
  | boolean => exact ⟨.boolean true, by simp, .inr rfl⟩
  | int8 => exact ⟨.int8 0, by simp, .inr rfl⟩
  | int16 => exact ⟨.int16 0, by simp, .inr rfl⟩
  | int32 => exact ⟨.int32 0, by simp, .inr rfl⟩
  | int64 => exact ⟨.int64 0, by simp, .inr rfl⟩
  | uint8 => exact ⟨.uint8 0, by simp, .inr rfl⟩
  | uint16 => exact ⟨.uint16 0, by simp, .inr rfl⟩
  | uint32 => exact ⟨.uint32 0, by simp, .inr rfl⟩
  | uint64 => exact ⟨.uint64 0, by simp, .inr rfl⟩
  | float32 => exact ⟨.float32 FloatModel.single.zero, by simp, .inr rfl⟩
  | float64 => exact ⟨.float64 FloatModel.double.zero, by simp, .inr rfl⟩
  | utf8 => exact ⟨.utf8 "", by simp, .inr rfl⟩
  | binary => exact ⟨.binary [], by simp, .inr rfl⟩
  | date32 => exact ⟨.date32 0, by simp, .inr rfl⟩
  | _ => cases h

omit [Readers] [Runtime] in
/-- The rows of the batch that is made of rows. -/
theorem rowsOf_ofRows {s : Schema} {rows : List Row} (h : ∀ r ∈ rows, RowFits s.types r) :
    rowsOf [.ofRows s rows h] = rows := by
  rw [rowsOf, List.flatMap_singleton, RecordBatch.ofRows_rows]

omit [Readers] in
/-- What a join that lines up makes of any rows of its sides. -/
theorem HashJoin.LinesUp.perm {leftSchema rightSchema : Result Schema} {rschema : Schema}
    (h : join.LinesUp leftSchema rightSchema on ls rs) (hright : rightSchema = .ok rschema)
    {L R : List Row} (hL : ∀ l ∈ L, RowFits ls.types l) (hR : ∀ r ∈ R, RowFits rs.types r) :
    ((join.outputRows (leftSchema.toOption.getD ⟨[]⟩).fields.length rschema.fields.length L R).filter
      (!·.isEmpty)).Perm (joinRows join.joinType on ls rs (cellsAt join.leftKeys)
        (cellsAt join.rightKeys) L R) := by
  obtain ⟨ob, hob, -, hperm⟩ := h [.ofRows ls L hL] [.ofRows rs R hR]
    (fun b hb => by rw [List.mem_singleton.mp hb]; rfl)
    (fun b hb => by rw [List.mem_singleton.mp hb]; rfl)
  obtain ⟨lb', rb', ob', rs', hlb', hrb', hob', hrs', -, hout⟩ := HashJoin.run_ok hob
  obtain rfl := Outcome.map_ok_injective hlb'
  obtain rfl := Outcome.map_ok_injective hrb'
  obtain rfl := Outcome.map_ok_injective hob'
  obtain rfl : rschema = rs' := Except.ok.inj (hright.symm.trans hrs')
  rw [rowsOf_ofRows, rowsOf_ofRows] at hperm hout
  exact hout ▸ hperm

omit [Readers] [Runtime] in
/-- A batch whose one value is of an unsupported type cannot be read. -/
theorem fullRow_oneCell {s : Schema} {i : ℕ} {t : DataType} (ht : s.types[i]? = some t)
    (hsup : t.hasBuilder = false)
    (hfits : ∀ r ∈ [oneCell s i (.boolean true)], RowFits s.types r) :
    ¬ Outcome.Succeeds (HashJoin.fullRow (.ofRows s [oneCell s i (.boolean true)] hfits) 0) := by
  have hi : i < s.fields.length := by
    simpa using (List.getElem?_eq_some_iff.mp ht).1
  have htype : (s.fields[i]).dataType = t := by
    simpa [Schema.types, hi] using ht
  rw [HashJoin.fullRow, Outcome.mapM_succeeds_iff]
  intro hall
  obtain ⟨v, hv⟩ := hall _ (List.mem_ofFn.mpr ⟨⟨i, hi⟩, rfl⟩)
  simp [ArrayRef.value, index, Table.column, oneCell, nullRow, hi, ScalarValue.isNull, htype, hsup,
    throw, throwThe, MonadExceptOf.throw] at hv

omit [Readers] in
/-- A join that lines up has sides of supported types. -/
theorem HashJoin.LinesUp.supported {leftSchema rightSchema : Result Schema}
    (h : join.LinesUp leftSchema rightSchema on ls rs) : ∀ t ∈ ls.types ++ rs.types, t.hasBuilder := by
  intro t ht
  by_contra hsup
  rw [Bool.not_eq_true] at hsup
  -- A row of one cell, under a type without a builder, is a row the join has to read.
  have hfits : ∀ (s : Schema) (i : ℕ), s.types[i]? = some t →
      ∀ r ∈ [oneCell s i (.boolean true)], RowFits s.types r := by
    intro s i hi r hr
    rw [List.mem_singleton.mp hr]
    refine oneCell_fits fun t' ht' hsup' => ?_
    rw [Option.some.inj (hi.symm.trans ht'), hsup'] at hsup
    cases hsup
  rcases List.mem_append.mp ht with ht | ht
  · obtain ⟨i, hi⟩ := List.mem_iff_getElem?.mp ht
    obtain ⟨ob, hob, -⟩ := h [.ofRows ls _ (hfits ls i hi)] []
      (fun b hb => by rw [List.mem_singleton.mp hb]; rfl) (by simp)
    exact fullRow_oneCell hi hsup (hfits ls i hi)
      (HashJoin.run_reads hob (.inl List.mem_cons_self) Nat.one_pos)
  · obtain ⟨i, hi⟩ := List.mem_iff_getElem?.mp ht
    obtain ⟨ob, hob, -⟩ := h [] [.ofRows rs _ (hfits rs i hi)] (by simp)
      (fun b hb => by rw [List.mem_singleton.mp hb]; rfl)
    exact fullRow_oneCell hi hsup (hfits rs i hi)
      (HashJoin.run_reads hob (.inr List.mem_cons_self) Nat.one_pos)

omit [FloatModel] [Readers] [Runtime] in
/-- A right join of nothing and a row pads the row. -/
theorem Joins.right_nil_singleton {L R K O : Type} [DecidableEq K] (keyL : L → K) (keyR : R → K)
    (pair : L → R → O) (pad : R → O) (r : R) :
    Joins.right keyL keyR pair pad [] [r] = [pad r] := by
  simp [Joins.right, Joins.inner, Joins.unmatched, Joins.matching, KeyedFold.firstKeys]

omit [FloatModel] [Readers] [Runtime] in
/-- A left join of a row and nothing pads the row. -/
theorem Joins.left_singleton_nil {L R K O : Type} [DecidableEq K] (keyL : L → K) (keyR : R → K)
    (pair : L → R → O) (pad : L → O) (l : L) :
    Joins.left keyL keyR pair pad [l] [] = [pad l] := by
  simp [Joins.left, Joins.matching]

/-- The row of a right row without a match, as the join lays it out and as it should be. -/
theorem LinesUp.right_pad (h : Lowers left right joinType on ls rs lp rp join)
    (hup : join.LinesUp lp.schema rp.schema on ls rs) (htype : joinType = .right) {lschema : Schema}
    (hlp : lp.schema = .ok lschema) {r : Row} (hr : RowFits rs.types r) :
    join.combineRows (List.replicate lschema.fields.length .null) r =
      joinRow .right on ls rs (nullRow ls) r := by
  obtain ⟨rschema, hrp, -⟩ := declared_schema h.right_eq h.right_schema
  have hperm := hup.perm hrp (L := []) (R := [r]) (by simp) (by simpa using hr)
  have hjoin : join.joinType = .right := h.joinType_eq.trans htype
  have hcode := join.outputRows_perm_joins lschema.fields.length rschema.fields.length [] [r]
  rw [hjoin] at hperm hcode
  rw [hlp] at hperm
  have hrows : joinRows .right on ls rs (cellsAt join.leftKeys) (cellsAt join.rightKeys) [] [r] =
      [joinRow .right on ls rs (nullRow ls) r] := Joins.right_nil_singleton _ _ _ _ r
  rw [hrows] at hperm
  dsimp only at hcode
  rw [Joins.right_nil_singleton] at hcode
  have hmem := List.mem_of_mem_filter (hperm.mem_iff.mpr List.mem_cons_self)
  exact (List.mem_singleton.mp (hcode.mem_iff.mp hmem)).symm

/-- The row of a left row without a match, as the join lays it out and as it should be. -/
theorem LinesUp.left_pad (h : Lowers left right joinType on ls rs lp rp join)
    (hup : join.LinesUp lp.schema rp.schema on ls rs) (htype : joinType = .left) {rschema : Schema}
    (hrp : rp.schema = .ok rschema) {l : Row} (hl : RowFits ls.types l) :
    join.combineRows l (List.replicate rschema.fields.length .null) =
      joinRow .left on ls rs l (nullRow rs) := by
  have hperm := hup.perm hrp (L := [l]) (R := []) (by simpa using hl) (by simp)
  have hjoin : join.joinType = .left := h.joinType_eq.trans htype
  have hcode := join.outputRows_perm_joins (lp.schema.toOption.getD ⟨[]⟩).fields.length
    rschema.fields.length [l] []
  rw [hjoin] at hperm hcode
  have hrows : joinRows .left on ls rs (cellsAt join.leftKeys) (cellsAt join.rightKeys) [l] [] =
      [joinRow .left on ls rs l (nullRow rs)] := Joins.left_singleton_nil _ _ _ _ l
  rw [hrows] at hperm
  dsimp only at hcode
  rw [Joins.left_singleton_nil] at hcode
  have hmem := List.mem_of_mem_filter (hperm.mem_iff.mpr List.mem_cons_self)
  exact (List.mem_singleton.mp (hcode.mem_iff.mp hmem)).symm

/-- A join that lines up has a column on one of its sides. -/
theorem LinesUp.nonempty (h : Lowers left right joinType on ls rs lp rp join)
    (hup : join.LinesUp lp.schema rp.schema on ls rs) : ls.fields ≠ [] ∨ rs.fields ≠ [] := by
  by_contra hempty
  obtain ⟨hls, hrs⟩ := not_or.mp hempty
  rw [not_not] at hls hrs
  obtain ⟨rschema, hrp, -⟩ := declared_schema h.right_eq h.right_schema
  have hleftKeys : join.leftKeys = [] := List.eq_nil_iff_forall_not_mem.mpr fun k hk => by
    simpa [hls] using h.leftKeys_lt k hk
  have hrightKeys : join.rightKeys = [] := List.eq_nil_iff_forall_not_mem.mpr fun k hk => by
    simpa [hrs] using h.rightKeys_lt k hk
  have hfits : ∀ s : Schema, s.fields = [] → ∀ r ∈ [([] : Row)], RowFits s.types r := by
    intro s hs r hr
    rw [List.mem_singleton.mp hr, RowFits, Schema.types, hs]
    exact .nil
  have hperm := hup.perm hrp (hfits ls hls) (hfits rs hrs)
  rw [hleftKeys, hrightKeys, h.joinType_eq] at hperm
  have hmem : joinRow joinType on ls rs [] [] ∈
      joinRows joinType on ls rs (cellsAt []) (cellsAt []) [[]] [[]] := by
    cases joinType <;>
      simp [joinRows, Joins.inner, Joins.left, Joins.right, Joins.matching, cellsAt]
  have hkept := List.of_mem_filter (hperm.mem_iff.mpr hmem)
  have hlen : (joinRow joinType on ls rs [] []).length =
      (joinFields joinType on ls.fields rs.fields).length :=
    length_joinRow (by rw [hls]; rfl) (by rw [hrs]; rfl)
  have hnil : joinFields joinType on ls.fields rs.fields = [] := by
    have := h.fields_eq_nil_iff.mpr ⟨hls, hrs⟩
    rwa [h.schema_eq] at this
  rw [hnil, List.length_nil, List.length_eq_zero_iff] at hlen
  rw [hlen] at hkept
  cases hkept

/-- A right join that lines up has no key of the same name on both sides. -/
theorem LinesUp.right_keys (h : Lowers left right joinType on ls rs lp rp join)
    (hup : join.LinesUp lp.schema rp.schema on ls rs) (htype : joinType = .right) :
    duplicateKeys on = [] := by
  by_contra hne
  obtain ⟨name, hname⟩ := List.exists_mem_of_ne_nil _ hne
  obtain ⟨key, hkey, rfl⟩ := List.mem_map.mp hname
  obtain ⟨hkey, heq⟩ := List.mem_filter.mp hkey
  have heq : key.1 = key.2 := by simpa using heq
  obtain ⟨i, -, hi⟩ := Outcome.mapM_mem_left h.rightKeys_eq hkey
  have hpos : rs.position? key.2 = some i := by
    unfold fieldPosition at hi
    cases hp : rs.position? key.2 with
    | none => rw [hp] at hi; cases hi
    | some j => rw [hp] at hi; rw [Except.ok.inj hi]
  have hlt : i < rs.fields.length := Schema.position?_lt hpos
  obtain ⟨v, hv, hfit⟩ := exists_value (t := (rs.fields[i]).dataType)
    (hup.supported _ (List.mem_append_right _ (List.mem_map_of_mem (List.getElem_mem hlt))))
  have hrow : RowFits rs.types (oneCell rs i v) := oneCell_fits fun t ht _ => by
    have : (rs.fields[i]).dataType = t := by simpa [Schema.types, hlt] using ht
    exact this ▸ hfit
  obtain ⟨lschema, hlp, -⟩ := declared_schema h.left_eq h.left_schema
  have hpad := LinesUp.right_pad h hup htype hlp hrow
  -- The key is a cell of the right row, and is not one of the row that is output.
  have hmem : v ∈ joinRow .right on ls rs (nullRow ls) (oneCell rs i v) := by
    refine List.mem_append_right _ (List.mem_iff_getElem?.mpr ⟨i, ?_⟩)
    simp [oneCell, nullRow, hlt]
  rw [← hpad, combineRows_eq h.exclude_eq hrow.length_eq_fields] at hmem
  rcases List.mem_append.mp hmem with hmem | hmem
  · exact hv (List.eq_of_mem_replicate hmem)
  · obtain ⟨⟨f, c⟩, hc, rfl⟩ := List.mem_map.mp hmem
    obtain ⟨hc, hdrop⟩ := List.mem_filter.mp hc
    obtain ⟨j, hj⟩ := List.mem_iff_getElem?.mp hc
    obtain ⟨hfj, hcj⟩ := List.getElem?_zip_eq_some.mp hj
    have hij : i = j := by
      by_contra hij
      rw [oneCell, List.getElem?_set_ne hij, nullRow, List.getElem?_replicate] at hcj
      split at hcj
      · exact hv (Option.some.inj hcj).symm
      · cases hcj
    subst hij
    have hfname : f.name = key.2 := by
      have hnames := Schema.position?_name hpos
      rw [Schema.names, List.getElem?_map, hfj] at hnames
      exact Option.some.inj hnames
    simp [hfname, ← heq, hname] at hdrop

/-- A join that lines up is aligned. -/
theorem aligns_of_linesUp (h : Lowers left right joinType on ls rs lp rp join)
    (hup : join.LinesUp lp.schema rp.schema on ls rs) :
    left.JoinAligns right joinType on ls rs where
  supported := hup.supported
  nonempty := LinesUp.nonempty h hup
  right_keys := LinesUp.right_keys h hup
  left_padding htype hi f hf := by
    obtain ⟨rschema, hrp, himplicit, -⟩ := declared_schema h.right_eq h.right_schema
    have hpad := LinesUp.left_pad h hup htype hrp (nullRow_fits ls)
    -- The code appends no nulls for the side that reads all implicitly.
    have hcode : join.combineRows (nullRow ls) (List.replicate rschema.fields.length .null) =
        nullRow ls := by
      rw [(himplicit hi).1]
      simp [HashJoin.combineRows]
    have hlen := congrArg List.length (hcode.symm.trans hpad)
    rw [length_joinRow (nullRow_fits ls).length_eq_fields (nullRow_fits rs).length_eq_fields,
      joinFields, List.length_append, (nullRow_fits ls).length_eq_fields] at hlen
    -- So the schema keeps no column of that side either.
    have hnil : rs.fields.filter (fun f => f.name ∉ duplicateKeys on) = [] :=
      List.length_eq_zero_iff.mp (by omega)
    simpa using List.filter_eq_nil_iff.mp hnil f hf
  right_padding htype hi := by
    obtain ⟨lschema, hlp, himplicit, -⟩ := declared_schema h.left_eq h.left_schema
    have hpad := LinesUp.right_pad h hup htype hlp (nullRow_fits rs)
    have hkeys := LinesUp.right_keys h hup htype
    rw [combineRows_eq h.exclude_eq (nullRow_fits rs).length_eq_fields, (himplicit hi).1, hkeys,
      keptCells_nil (nullRow_fits rs).length_eq_fields] at hpad
    have hlen := congrArg List.length hpad
    rw [length_joinRow (nullRow_fits ls).length_eq_fields (nullRow_fits rs).length_eq_fields,
      joinFields, hkeys] at hlen
    have hlsnil : ls.fields.length = 0 := by
      simpa [(nullRow_fits rs).length_eq_fields] using hlen
    exact (himplicit hi).2 (List.length_eq_zero_iff.mp hlsnil)

/-- Exactly the aligned joins line up. -/
theorem createPhysicalPlan_join_linesUp_iff
    (h : createPhysicalPlan (.join left right joinType on) = .ok (.hashJoin lp rp join))
    (hls : left.schema = .ok ls) (hrs : right.schema = .ok rs) :
    join.LinesUp lp.schema rp.schema on ls rs ↔ left.JoinAligns right joinType on ls rs :=
  ⟨aligns_of_linesUp (lowers_of_createPhysicalPlan h hls hrs),
    linesUp_of_aligns (lowers_of_createPhysicalPlan h hls hrs)⟩

end

end

section KeyOnBothSides

attribute [local instance] integerFloats insertionOrderRuntime

local instance noTablesOnDisk : Readers := parquetDisk fun _ => none

/-- One row of the key `id` and a column. -/
def keyedBatch (column : String) (id value : Int32) : RecordBatch where
  schema := ⟨[⟨"id", .int32⟩, ⟨column, .int32⟩]⟩
  columns := [Int32Array [id], Int32Array [value]]
  numRows := 1
  types_eq := rfl
  lengths := by simp [Int32Array]

def keyedSource (column : String) (id value : Int32) : InMemoryDataSource where
  schema := (keyedBatch column id value).schema
  data := [keyedBatch column id value]
  conforms b hb := by rw [List.mem_singleton.mp hb]

/-- A scan of both columns. -/
def keyedScan (column : String) (id value : Int32)
    (h : Scan.deriveSchema (.inMemory (keyedSource column id value)) ["id", column] =
      .ok (keyedBatch column id value).schema) : LogicalPlan :=
  .scan ⟨column, .inMemory (keyedSource column id value), ["id", column], _, h⟩

/-- The join by `id`, as it is lowered. -/
def joinById (joinType : JoinType) (schema : Schema) : HashJoin :=
  ⟨joinType, [0], [0], schema, [0]⟩

/-- A right row without a match loses its key. -/
theorem rightJoin_loses_key :
    createPhysicalPlan (.join (keyedScan "a" 1 10 rfl) (keyedScan "b" 2 20 rfl) .right
        [("id", "id")]) =
      .ok (.hashJoin (.scan (.inMemory (keyedSource "a" 1 10)) ["id", "a"])
        (.scan (.inMemory (keyedSource "b" 2 20)) ["id", "b"])
        (joinById .right ⟨[⟨"a", .int32⟩, ⟨"id", .int32⟩, ⟨"b", .int32⟩]⟩)) ∧
    (PhysicalPlan.hashJoin (.scan (.inMemory (keyedSource "a" 1 10)) ["id", "a"])
        (.scan (.inMemory (keyedSource "b" 2 20)) ["id", "b"])
        (joinById .right ⟨[⟨"a", .int32⟩, ⟨"id", .int32⟩, ⟨"b", .int32⟩]⟩)).rows
      ⟨"", "", 0, ⟨[]⟩⟩ = .ok [[.null, .null, .int32 20]] ∧
    ¬ (joinById .right ⟨[⟨"a", .int32⟩, ⟨"id", .int32⟩, ⟨"b", .int32⟩]⟩).LinesUp
      (.ok (keyedBatch "a" 1 10).schema) (.ok (keyedBatch "b" 2 20).schema) [("id", "id")]
      (keyedBatch "a" 1 10).schema (keyedBatch "b" 2 20).schema := by
  refine ⟨rfl, by decide, fun h => ?_⟩
  obtain ⟨ob, hob, -, hperm⟩ := h [keyedBatch "a" 1 10] [keyedBatch "b" 2 20] (by simp) (by simp)
  have hrows : ((joinById .right ⟨[⟨"a", .int32⟩, ⟨"id", .int32⟩, ⟨"b", .int32⟩]⟩).run
      (.ok (keyedBatch "a" 1 10).schema) (.ok (keyedBatch "b" 2 20).schema)
      ([keyedBatch "a" 1 10].map .ok) ([keyedBatch "b" 2 20].map .ok) >>= streamRows) =
        .ok [[.null, .null, .int32 20]] := by decide
  rw [hob, Outcome.ok_bind, streamRows, collect, Outcome.mapM_id_map_ok] at hrows
  rw [show rowsOf ob = _ from Except.ok.inj hrows] at hperm
  revert hperm
  decide

/-- An inner join on the same key lines up. -/
theorem createPhysicalPlan_join_linesUp_iff_inner :
    (joinById .inner ⟨[⟨"id", .int32⟩, ⟨"a", .int32⟩, ⟨"b", .int32⟩]⟩).LinesUp
        (PhysicalPlan.scan (.inMemory (keyedSource "a" 1 10)) ["id", "a"]).schema
        (PhysicalPlan.scan (.inMemory (keyedSource "b" 2 20)) ["id", "b"]).schema [("id", "id")]
        (keyedBatch "a" 1 10).schema (keyedBatch "b" 2 20).schema ↔
      (keyedScan "a" 1 10 rfl).JoinAligns (keyedScan "b" 2 20 rfl) .inner [("id", "id")]
        (keyedBatch "a" 1 10).schema (keyedBatch "b" 2 20).schema :=
  createPhysicalPlan_join_linesUp_iff rfl rfl rfl

end KeyOnBothSides

end RQuery
