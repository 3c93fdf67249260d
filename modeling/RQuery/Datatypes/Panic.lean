import RQuery.Common.Outcome

/-!
# Panics

The engine reports every invalid state by panicking: no function of the modelled crates returns a
`Result`. A function that can panic is a computation in `Result`, and the constructors of `Panic`
name the kinds of panic the code can raise.
-/

namespace RQuery

/-- The panics of the engine. -/
inductive Panic
  /-- A column name that no field of the schema carries: `Column::to_field`, the `Column` arm of
  `create_physical_expr`, a name given to a reader, a join key. -/
  | unknownColumn (name : String)
  /-- `Schema::select`: the name matches `count` fields instead of one. -/
  | selectMatched (name : String) (count : ℕ)
  /-- Indexing past the end of a slice, a schema or a batch's columns. -/
  | indexOutOfBounds (index len : ℕ)
  /-- A match on a type or a value that the code does not support. -/
  | unsupported (what : String)
  /-- A value or column of another type than the code requires. -/
  | typeMismatch (what : String)
  /-- Integer overflow with overflow checks on, or `MIN / -1`. -/
  | overflow
  | divideByZero
  /-- `str::parse(..).expect(..)`. -/
  | parseFailed (text : String)
  /-- `RecordBatch::try_new` refused the columns. -/
  | invalidBatch (reason : String)
  /-- `File::open` or a reader failed. -/
  | inputOutput (path : String)
  | other (message : String)
  deriving DecidableEq, Repr

/-- The result of a function that can panic. -/
abbrev Result := Except Panic

/-- `slice[i]`. -/
def index {α : Type} (xs : List α) (i : ℕ) : Result α :=
  match xs[i]? with
  | some x => .ok x
  | none => .error (.indexOutOfBounds i xs.length)

theorem index_eq_ok_iff {α : Type} {xs : List α} {i : ℕ} {x : α} :
    index xs i = .ok x ↔ xs[i]? = some x := by
  unfold index
  cases xs[i]? <;> simp

theorem index_of_lt {α : Type} {xs : List α} {i : ℕ} (h : i < xs.length) :
    index xs i = .ok xs[i] := by
  rw [index_eq_ok_iff, List.getElem?_eq_getElem h]

/-- Indexing at every position in turn goes through the list. -/
theorem mapM_index_range {α β : Type} (xs : List α) (f : α → Result β) :
    (List.range xs.length).mapM (fun i => do f (← index xs i)) = xs.mapM f := by
  have hall : List.Forall₂ (fun i a => index xs i = .ok a) (List.range xs.length) xs := by
    rw [List.forall₂_iff_get]
    refine ⟨by simp, fun i h₁ h₂ => ?_⟩
    simp [index_of_lt h₂]
  exact Outcome.mapM_congr_forall₂ hall fun i a h => by rw [h, Outcome.ok_bind]

theorem index_succeeds_iff {α : Type} {xs : List α} {i : ℕ} :
    Outcome.Succeeds (index xs i) ↔ i < xs.length := by
  simp only [Outcome.Succeeds, index_eq_ok_iff]
  constructor
  · rintro ⟨a, h⟩
    exact (List.getElem?_eq_some_iff.mp h).1
  · intro h
    exact ⟨xs[i], List.getElem?_eq_getElem h⟩

end RQuery
