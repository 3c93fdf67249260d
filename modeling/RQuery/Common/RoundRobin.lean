import Mathlib.Data.List.Perm.Basic
import Mathlib.Data.List.Flatten

/-!
# Round-robin distribution

Deal the elements of a list into `k` buckets in turn. No element is lost or dealt twice
(`distribute_flatten_perm`), and bucket `j` has the elements whose index is `j` modulo `k`
(`distribute_getElem?`).
-/

namespace RQuery

namespace RoundRobin

variable {α : Type*}

/-- Append an element to a bucket. -/
def push (buckets : List (List α)) (i : ℕ) (x : α) : List (List α) :=
  buckets.modify i (· ++ [x])

/-- Deal the elements in turn. -/
def distribute (k : ℕ) (xs : List α) : List (List α) :=
  xs.zipIdx.foldl (fun buckets x => push buckets (x.2 % k) x.1) (List.replicate k [])

@[simp] theorem push_length (buckets : List (List α)) (i : ℕ) (x : α) :
    (push buckets i x).length = buckets.length := by
  simp [push]

/-- Only the bucket pushed to changes, by one element at its end. -/
theorem push_getElem? (buckets : List (List α)) (i j : ℕ) (x : α) :
    (push buckets i x)[j]? = buckets[j]?.map (· ++ if i = j then [x] else []) := by
  rw [push, List.getElem?_modify]
  split
  · rfl
  · simp

/-- A push adds its element to the contents of all buckets. -/
theorem push_flatten_perm {buckets : List (List α)} {i : ℕ} (h : i < buckets.length) (x : α) :
    (push buckets i x).flatten.Perm (x :: buckets.flatten) := by
  induction buckets generalizing i with
  | nil => simp at h
  | cons bucket buckets ih =>
    cases i with
    | zero =>
      show ((bucket ++ [x]) ++ buckets.flatten).Perm _
      rw [List.append_assoc]
      exact List.perm_middle
    | succ i =>
      have ih := ih (by simpa using h)
      show (bucket ++ (push buckets i x).flatten).Perm _
      exact (ih.append_left bucket).trans List.perm_middle

/-- Dealing a list out loses and invents nothing. -/
theorem foldl_push_flatten_perm {k : ℕ} (hk : 0 < k) (xs : List (α × ℕ))
    {buckets : List (List α)} (hlen : buckets.length = k) :
    (xs.foldl (fun buckets x => push buckets (x.2 % k) x.1) buckets).flatten.Perm
      (xs.map Prod.fst ++ buckets.flatten) := by
  induction xs generalizing buckets with
  | nil => exact .refl _
  | cons x xs ih =>
    have hi : x.2 % k < buckets.length := by
      rw [hlen]
      exact Nat.mod_lt x.2 hk
    refine (ih (by rw [push_length, hlen])).trans ?_
    exact ((push_flatten_perm hi x.1).append_left _).trans List.perm_middle

/-- Every element is dealt exactly once. -/
theorem distribute_flatten_perm {k : ℕ} (hk : 0 < k) (xs : List α) :
    (distribute k xs).flatten.Perm xs := by
  refine (foldl_push_flatten_perm hk xs.zipIdx (List.length_replicate ..)).trans ?_
  simp

/-- Each bucket is dealt, in order, the elements whose number falls on it. -/
theorem foldl_push_getElem? (k j : ℕ) (xs : List (α × ℕ)) (buckets : List (List α)) :
    (xs.foldl (fun buckets x => push buckets (x.2 % k) x.1) buckets)[j]? =
      buckets[j]?.map (· ++ (xs.filter fun x => x.2 % k = j).map Prod.fst) := by
  induction xs generalizing buckets with
  | nil => simp
  | cons x xs ih =>
    rw [List.foldl_cons, ih, push_getElem?, Option.map_map]
    congr 1
    funext bucket
    by_cases hj : x.2 % k = j
    · simp [hj]
    · simp [hj]

/-- The elements of a bucket, in order. -/
theorem distribute_getElem? {k j : ℕ} (hj : j < k) (xs : List α) :
    (distribute k xs)[j]? = some ((xs.zipIdx.filter fun x => x.2 % k = j).map Prod.fst) := by
  rw [distribute, foldl_push_getElem?]
  simp [hj]

end RoundRobin

end RQuery
