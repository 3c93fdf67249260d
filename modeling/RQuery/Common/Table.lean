import RQuery.Common.Outcome
import Mathlib.Data.List.Range
import Mathlib.Data.List.GetD

/-!
# Tables by columns and by rows

A table is stored as a list of columns, all of one length, and read as a list of rows. `rows` and
`columns` pass between the two views; they are mutually inverse on rectangular tables
(`rows_columns`, `columns_rows`), and an operation that acts column by column acts on each row by
the same column indices (`rows_gather`). A fold over the rows that keeps one accumulator for each
column is a fold over every column (`foldlM_stepRow_eq_ok_iff`).
-/

namespace Table

universe u v

variable {α : Type v} [Inhabited α]

/-- Row `i` of a list of columns. -/
def row (cols : List (List α)) (i : ℕ) : List α :=
  cols.map fun c => c.getD i default

/-- The first `n` rows of a list of columns. -/
def rows (n : ℕ) (cols : List (List α)) : List (List α) :=
  (List.range n).map (row cols)

/-- Column `j` of a list of rows. -/
def column (rs : List (List α)) (j : ℕ) : List α :=
  rs.map fun r => r.getD j default

/-- The first `w` columns of a list of rows. -/
def columns (w : ℕ) (rs : List (List α)) : List (List α) :=
  (List.range w).map (column rs)

/-- There are as many rows as asked for. -/
@[simp] theorem rows_length (n : ℕ) (cols : List (List α)) : (rows n cols).length = n := by
  simp [rows]

@[simp] theorem rows_zero (cols : List (List α)) : rows 0 cols = [] := rfl

/-- A column has a cell for each row. -/
@[simp] theorem column_length (rs : List (List α)) (j : ℕ) : (column rs j).length = rs.length := by
  simp [column]

/-- There are as many columns as asked for. -/
@[simp] theorem columns_length (w : ℕ) (rs : List (List α)) : (columns w rs).length = w := by
  simp [columns]

/-- Each column has a cell for each row. -/
theorem mem_columns_length {w : ℕ} {rs : List (List α)} {c : List α} (h : c ∈ columns w rs) :
    c.length = rs.length := by
  obtain ⟨j, -, rfl⟩ := List.mem_map.mp h
  exact column_length rs j

/-- A row by its number. -/
theorem rows_getElem? {n i : ℕ} (cols : List (List α)) (h : i < n) :
    (rows n cols)[i]? = some (row cols i) := by
  simp [rows, h]

/-- A cell of a row is the cell of its column. -/
@[simp] theorem row_getElem? (cols : List (List α)) (i j : ℕ) :
    (row cols i)[j]? = cols[j]?.map fun c => c.getD i default := by
  simp [row]

/-- A list is the map of its own indices. -/
theorem map_getD_range (xs : List α) :
    (List.range xs.length).map (fun i => xs.getD i default) = xs := by
  apply List.ext_getElem
  · simp
  · intro i h₁ h₂
    simp [h₂]

/-- Mapping the elements by their numbers is mapping the elements. -/
theorem map_getD_range' {β : Type*} (f : α → β) (xs : List α) :
    (List.range xs.length).map (fun i => f (xs.getD i default)) = xs.map f := by
  conv_rhs => rw [← map_getD_range xs]
  simp

/-- Reading a rectangular list of rows by columns and back. -/
theorem rows_columns {w : ℕ} {rs : List (List α)} (h : ∀ r ∈ rs, r.length = w) :
    rows rs.length (columns w rs) = rs := by
  have hrow : ∀ r ∈ rs, (List.range w).map (fun j => r.getD j default) = r := by
    intro r hr
    rw [← h r hr, map_getD_range]
  calc rows rs.length (columns w rs)
      = (List.range rs.length).map fun i =>
          (List.range w).map fun j => (rs.getD i default).getD j default := by
        apply List.map_congr_left
        intro i hi
        have hi : i < rs.length := List.mem_range.mp hi
        simp [row, columns, column, hi]
    _ = rs.map fun r => (List.range w).map fun j => r.getD j default :=
        map_getD_range' (fun r => (List.range w).map fun j => r.getD j default) rs
    _ = rs := by
        conv_rhs => rw [← List.map_id rs]
        exact List.map_congr_left hrow

/-- Reading a rectangular list of columns by rows and back. -/
theorem columns_rows {n : ℕ} (cols : List (List α)) (h : ∀ c ∈ cols, c.length = n) :
    columns cols.length (rows n cols) = cols := by
  apply List.ext_getElem
  · simp
  · intro j h₁ h₂
    have hj := h _ (List.getElem_mem h₂)
    simp only [columns, column, rows, List.getElem_map, List.getElem_range, List.map_map]
    calc (List.range n).map ((fun r => r.getD j default) ∘ row cols)
        = (List.range n).map fun i => cols[j].getD i default := by
          apply List.map_congr_left
          intro i _
          simp [row, h₂]
      _ = cols[j] := by rw [← hj, map_getD_range]

/-- Gathering columns gathers the same positions of every row. -/
theorem rows_gather (n : ℕ) (cols : List (List α)) (idx : List ℕ)
    (h : ∀ j ∈ idx, j < cols.length) :
    rows n (idx.map fun j => cols.getD j []) =
      (rows n cols).map fun r => idx.map fun j => r.getD j default := by
  simp only [rows, List.map_map]
  apply List.map_congr_left
  intro i _
  simp only [row, Function.comp, List.map_map]
  apply List.map_congr_left
  intro j hj
  simp [h j hj]

/-! ## Folding rows column by column -/

variable {ε : Type u} {A : Type v}

/-- Step accumulator `i` by cell `i` of the row; a cell without an accumulator is the error `e`. -/
def stepRow (e : ε) (f : A → α → Except ε A) : List A → List α → Except ε (List A)
  | as, [] => .ok as
  | [], _ :: _ => .error e
  | a :: as, v :: vs => do return (← f a v) :: (← stepRow e f as vs)

omit [Inhabited α] in
/-- A row is stepped cell by cell. -/
theorem stepRow_cons_eq_ok_iff {e : ε} {f : A → α → Except ε A} {a : A} {as cs : List A} {v : α}
    {vs : List α} :
    stepRow e f (a :: as) (v :: vs) = .ok cs ↔
      ∃ c cs', f a v = .ok c ∧ stepRow e f as vs = .ok cs' ∧ cs = c :: cs' := by
  rw [stepRow, Outcome.bind_eq_ok_iff]
  constructor
  · rintro ⟨c, hc, h⟩
    obtain ⟨cs', hcs', rfl⟩ := Outcome.bind_pure_eq_ok_iff.mp h
    exact ⟨c, cs', hc, hcs', rfl⟩
  · rintro ⟨c, cs', hc, hcs', rfl⟩
    exact ⟨c, hc, Outcome.bind_pure_eq_ok_iff.mpr ⟨cs', hcs', rfl⟩⟩

/-- The first accumulator folds the heads of the rows, the others the tails. -/
theorem foldlM_stepRow_cons_eq_ok_iff {e : ε} {f : A → α → Except ε A} {a : A} {as cs : List A}
    {rs : List (List α)} (h : ∀ r ∈ rs, r ≠ []) :
    rs.foldlM (stepRow e f) (a :: as) = .ok cs ↔
      ∃ c cs', (column rs 0).foldlM f a = .ok c ∧
        (rs.map List.tail).foldlM (stepRow e f) as = .ok cs' ∧ cs = c :: cs' := by
  induction rs generalizing a as with
  | nil => simp [column, eq_comm]
  | cons r rs ih =>
    obtain ⟨v, vs, rfl⟩ := List.exists_cons_of_ne_nil (h r List.mem_cons_self)
    have ih := fun a as => @ih a as fun r hr => h r (List.mem_cons_of_mem _ hr)
    simp only [column, List.foldlM_cons, List.map_cons, List.tail_cons, Outcome.bind_eq_ok_iff,
      stepRow_cons_eq_ok_iff, List.getD_cons_zero] at ih ⊢
    constructor
    · rintro ⟨_, ⟨c₁, cs₁, hc₁, hcs₁, rfl⟩, hrest⟩
      obtain ⟨c, cs', hc, hcs', rfl⟩ := (ih c₁ cs₁).mp hrest
      exact ⟨c, cs', ⟨c₁, hc₁, hc⟩, ⟨cs₁, hcs₁, hcs'⟩, rfl⟩
    · rintro ⟨c, cs', ⟨c₁, hc₁, hc⟩, ⟨cs₁, hcs₁, hcs'⟩, rfl⟩
      exact ⟨c₁ :: cs₁, ⟨c₁, cs₁, hc₁, hcs₁, rfl⟩, (ih c₁ cs₁).mpr ⟨c, cs', hc, hcs', rfl⟩⟩

/-- Without the first cells the columns move by one. -/
theorem column_map_tail {rs : List (List α)} (h : ∀ r ∈ rs, r ≠ []) (j : ℕ) :
    column (rs.map List.tail) j = column rs (j + 1) := by
  simp only [column, List.map_map]
  refine List.map_congr_left fun r hr => ?_
  obtain ⟨v, vs, rfl⟩ := List.exists_cons_of_ne_nil (h r hr)
  simp

/-- Rows as wide as the list of accumulators are folded column by column. -/
theorem foldlM_stepRow_eq_ok_iff {e : ε} {f : A → α → Except ε A} {as cs : List A}
    {rs : List (List α)} (h : ∀ r ∈ rs, r.length = as.length) :
    rs.foldlM (stepRow e f) as = .ok cs ↔
      cs.length = as.length ∧
        ∀ i a, as[i]? = some a → ∃ c, cs[i]? = some c ∧ (column rs i).foldlM f a = .ok c := by
  induction as generalizing cs rs with
  | nil =>
    have hnil : rs.foldlM (stepRow e f) [] = .ok [] := by
      clear cs
      induction rs with
      | nil => rfl
      | cons r rs ih =>
        obtain rfl : r = [] := by simpa using h r List.mem_cons_self
        exact ih fun r hr => h r (List.mem_cons_of_mem _ hr)
    rw [hnil]
    constructor
    · intro h
      obtain rfl : [] = cs := by simpa using h
      simp
    · rintro ⟨h, -⟩
      rw [List.length_eq_zero_iff.mp h]
  | cons a as ih =>
    have hne : ∀ r ∈ rs, r ≠ [] := by
      rintro r hr rfl
      simpa using h [] hr
    have htails : ∀ r ∈ rs.map List.tail, r.length = as.length := by
      intro r hr
      obtain ⟨r', hr', rfl⟩ := List.mem_map.mp hr
      simp [h r' hr']
    simp only [foldlM_stepRow_cons_eq_ok_iff hne, ih htails, column_map_tail hne]
    constructor
    · rintro ⟨c, cs', hc, ⟨hlen, hcs'⟩, rfl⟩
      refine ⟨by simp [hlen], fun i b hb => ?_⟩
      cases i with
      | zero =>
        obtain rfl : a = b := by simpa using hb
        exact ⟨c, by simp, hc⟩
      | succ i => simpa using hcs' i b (by simpa using hb)
    · rintro ⟨hlen, hcs⟩
      cases cs with
      | nil => simp at hlen
      | cons c cs' =>
        obtain ⟨c', hc', hfold⟩ := hcs 0 a rfl
        obtain rfl : c = c' := by simpa using hc'
        refine ⟨c, cs', hfold, ⟨by simpa using hlen, fun i b hb => ?_⟩, rfl⟩
        simpa using hcs (i + 1) b (by simpa using hb)

omit [Inhabited α] in
/-- Rows without cells change nothing. -/
theorem foldlM_stepRow_filter {e : ε} {f : A → α → Except ε A} (as : List A)
    (rs : List (List α)) :
    (rs.filter (!·.isEmpty)).foldlM (stepRow e f) as = rs.foldlM (stepRow e f) as := by
  induction rs generalizing as with
  | nil => rfl
  | cons r rs ih =>
    cases r with
    | nil =>
      have hnil : stepRow e f as [] = .ok as := by cases as <;> rfl
      rw [List.foldlM_cons, hnil]
      exact ih as
    | cons v r =>
      show ((v :: r) :: rs.filter (!·.isEmpty)).foldlM (stepRow e f) as = _
      rw [List.foldlM_cons, List.foldlM_cons]
      exact congrArg _ (funext ih)

/-- When every step makes its accumulator longer by one, accumulators that end up equally long have
been given rows of full width, and rows without cells. -/
theorem foldlM_stepRow_rectangular {e : ε} {f : A → α → Except ε A} {as cs : List A}
    {rs : List (List α)} {len : A → ℕ} {k m : ℕ} (hf : ∀ a v c, f a v = .ok c → len c = len a + 1)
    (has : ∀ a ∈ as, len a = k) (hcs : ∀ c ∈ cs, len c = m) (hne : as ≠ [])
    (h : rs.foldlM (stepRow e f) as = .ok cs) :
    m = k + (rs.filter (!·.isEmpty)).length ∧ ∀ r ∈ rs, r ≠ [] → r.length = as.length := by
  induction as generalizing rs cs with
  | nil => exact absurd rfl hne
  | cons a as ih =>
    rw [← foldlM_stepRow_filter] at h
    have hnonempty : ∀ r ∈ rs.filter (!·.isEmpty), r ≠ [] := by
      intro r hr
      simpa using (List.mem_filter.mp hr).2
    obtain ⟨c, cs', hc, htails, rfl⟩ := (foldlM_stepRow_cons_eq_ok_iff hnonempty).mp h
    have hlen : ∀ (vs : List α) (a c : A), vs.foldlM f a = .ok c → len c = len a + vs.length := by
      intro vs
      induction vs with
      | nil =>
        intro a c h
        obtain rfl : a = c := Except.ok.inj h
        rfl
      | cons v vs ih =>
        intro a c h
        rw [List.foldlM_cons] at h
        obtain ⟨b, hb, h⟩ := Outcome.bind_eq_ok_iff.mp h
        rw [ih b c h, hf a v b hb, List.length_cons]
        omega
    have hm : m = k + (rs.filter (!·.isEmpty)).length := by
      rw [← hcs c List.mem_cons_self, hlen _ a c hc, has a List.mem_cons_self, column_length]
    refine ⟨hm, fun r hr hrne => ?_⟩
    have hmem : r ∈ rs.filter (!·.isEmpty) := List.mem_filter.mpr ⟨hr, by simpa using hrne⟩
    obtain ⟨v, tail, rfl⟩ := List.exists_cons_of_ne_nil hrne
    rw [List.length_cons, List.length_cons, Nat.add_right_cancel_iff]
    have htail : tail ∈ (rs.filter (!·.isEmpty)).map List.tail := List.mem_map_of_mem hmem
    cases as with
    | nil =>
      by_contra hcell
      have hall : ∀ (ts : List (List α)), ts.foldlM (stepRow e f) [] = .ok cs' →
          ∀ t ∈ ts, t = [] := by
        intro ts
        induction ts with
        | nil => simp
        | cons t ts ih =>
          intro h
          cases t with
          | nil => exact List.forall_mem_cons.mpr ⟨rfl, ih h⟩
          | cons v t => cases h
      exact hcell (by rw [hall _ htails tail htail]; rfl)
    | cons b as =>
      obtain ⟨hm', hwide⟩ := ih (fun a ha => has a (List.mem_cons_of_mem _ ha))
        (fun c hc => hcs c (List.mem_cons_of_mem _ hc)) (by simp) htails
      have hcount : (((rs.filter (!·.isEmpty)).map List.tail).filter (!·.isEmpty)).length =
          ((rs.filter (!·.isEmpty)).map List.tail).length := by
        rw [List.length_map]
        omega
      refine hwide tail htail ?_
      simpa using List.length_filter_eq_length_iff.mp hcount tail htail

end Table
