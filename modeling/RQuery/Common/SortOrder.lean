import Mathlib.Data.List.Sort

/-!
# Sort orders

Total preorders on values, as sort keys use them: values are compared through a function, backwards,
or by a second key where the first one ties. `LeadsSorted r n l` says that the first `n` elements of
a list are those of a sorted rearrangement of it (`leadsSorted_iff`), so that cutting the list is the
same as sorting and cutting it.
-/

namespace RQuery

/-- A total preorder. -/
structure SortOrder (α : Type*) where
  le : α → α → Prop
  total : ∀ a b, le a b ∨ le b a
  trans : ∀ {a b c}, le a b → le b c → le a c

namespace SortOrder

variable {α β : Type*}

/-- All elements tie. -/
def tie : SortOrder α where
  le _ _ := True
  total _ _ := .inl trivial
  trans _ _ := trivial

/-- Backwards. -/
def reversed (r : SortOrder α) : SortOrder α where
  le a b := r.le b a
  total a b := r.total b a
  trans hab hbc := r.trans hbc hab

/-- Elements by their keys. -/
def comap (r : SortOrder β) (f : α → β) : SortOrder α where
  le a b := r.le (f a) (f b)
  total a b := r.total (f a) (f b)
  trans hab hbc := r.trans hab hbc

/-- The second order decides where the first one ties. -/
def thenBy (r s : SortOrder α) : SortOrder α where
  le a b := r.le a b ∧ (r.le b a → s.le a b)
  total a b := by
    by_cases hab : r.le a b
    · by_cases hba : r.le b a
      · exact (s.total a b).imp (fun h => ⟨hab, fun _ => h⟩) fun h => ⟨hba, fun _ => h⟩
      · exact .inl ⟨hab, fun h => absurd h hba⟩
    · exact .inr ⟨(r.total a b).resolve_left hab, fun h => absurd h hab⟩
  trans hab hbc := by
    refine ⟨r.trans hab.1 hbc.1, fun hca => ?_⟩
    exact s.trans (hab.2 (r.trans hbc.1 hca)) (hbc.2 (r.trans hca hab.1))

/-- By the first key, then by the others. -/
def lexicographic : List (SortOrder α) → SortOrder α
  | [] => tie
  | r :: rs => r.thenBy (lexicographic rs)

/-- Elements by the number that they are mapped to. -/
def byNumber (f : α → ℤ) : SortOrder α where
  le a b := f a ≤ f b
  total a b := Int.le_total (f a) (f b)
  trans := Int.le_trans

variable (r : SortOrder α)

def Sorted (l : List α) : Prop := l.Pairwise r.le

/-- The first elements are sorted, and none of them is behind one of the others. -/
def LeadsSorted (n : ℕ) (l : List α) : Prop :=
  r.Sorted (l.take n) ∧ ∀ a ∈ l.take n, ∀ b ∈ l.drop n, r.le a b

/-- Every list can be sorted. -/
theorem exists_sorted (l : List α) : ∃ s : List α, s.Perm l ∧ r.Sorted s := by
  classical
  have : Std.Total r.le := ⟨r.total⟩
  have : IsTrans α r.le := ⟨fun _ _ _ => r.trans⟩
  exact ⟨l.insertionSort r.le, List.perm_insertionSort r.le l, List.pairwise_insertionSort r.le l⟩

/-- The first elements are those of a sorted list exactly if they lead the list in this order. -/
theorem leadsSorted_iff (n : ℕ) (l : List α) :
    r.LeadsSorted n l ↔ ∃ s : List α, s.Perm l ∧ r.Sorted s ∧ l.take n = s.take n := by
  constructor
  · rintro ⟨hfirst, hothers⟩
    obtain ⟨s, hperm, hs⟩ := r.exists_sorted (l.drop n)
    refine ⟨l.take n ++ s, ?_, List.pairwise_append.mpr ⟨hfirst, hs, fun a ha b hb => ?_⟩, ?_⟩
    · exact (hperm.append_left (l.take n)).trans (.of_eq (List.take_append_drop n l))
    · exact hothers a ha b (hperm.subset hb)
    · rcases Nat.lt_or_ge n l.length with hlt | hge
      · rw [List.take_left' (List.length_take_of_le hlt.le)]
      · obtain rfl : s = [] := List.perm_nil.mp (List.drop_of_length_le hge ▸ hperm)
        rw [List.append_nil, List.take_take, Nat.min_self]
  · rintro ⟨s, hperm, hs, htake⟩
    have hothers : (l.drop n).Perm (s.drop n) := by
      have happend : (l.take n ++ l.drop n).Perm (l.take n ++ s.drop n) := by
        rw [List.take_append_drop, htake, List.take_append_drop]
        exact hperm.symm
      exact (List.perm_append_left_iff _).mp happend
    rw [Sorted, ← List.take_append_drop n s, List.pairwise_append] at hs
    rw [LeadsSorted, htake]
    exact ⟨hs.1, fun a ha b hb => hs.2.2 a ha b (hothers.subset hb)⟩

end SortOrder

end RQuery
