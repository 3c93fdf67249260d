import Mathlib.Logic.Function.Basic
import Mathlib.Data.List.Count

/-!
# Threads that share a state

Threads take turns, one step at a time and in any order, on a state that they share. If what a thread
does depends only on a part of the state that the other threads leave alone, then after any run it is
where it would be on its own after as many steps (`Apart.run_eq_alone`).
-/

namespace RQuery

namespace Interleaving

variable {I P S : Type*}

/-- A number of steps of one thread on its own. -/
def alone (step : P → S → P × S) : ℕ → P → S → P × S
  | 0, p, s => (p, s)
  | n + 1, p, s => alone step n (step p s).1 (step p s).2

/-- The threads take these turns. -/
def run [DecidableEq I] (step : I → P → S → P × S) : List I → (I → P) → S → (I → P) × S
  | [], threads, s => (threads, s)
  | i :: turns, threads, s =>
    run step turns (Function.update threads i (step i (threads i) s).1) (step i (threads i) s).2

/-! ## One thread -/

/-- On its own the thread comes from one place to the other. -/
def Reaches (step : P → S → P × S) (c d : P × S) : Prop := ∃ n, alone step n c.1 c.2 = d

variable {step : P → S → P × S}

/-- Running alone for m + n steps is running for m and then for n. -/
theorem alone_add (m n : ℕ) (p : P) (s : S) :
    alone step (m + n) p s = alone step n (alone step m p s).1 (alone step m p s).2 := by
  induction m generalizing p s with
  | zero => rw [Nat.zero_add, alone]
  | succ m ih => rw [Nat.succ_add, alone, ih, alone]

/-- A configuration reaches itself, -/
theorem Reaches.refl (c : P × S) : Reaches step c c := ⟨0, rfl⟩

/-- the next one in a step, -/
theorem Reaches.one (p : P) (s : S) : Reaches step (p, s) (step p s) := ⟨1, rfl⟩

/-- and whatever the ones it reaches reach. -/
theorem Reaches.trans {c d e : P × S} (h : Reaches step c d) (h' : Reaches step d e) :
    Reaches step c e := by
  obtain ⟨m, rfl⟩ := h
  obtain ⟨n, rfl⟩ := h'
  exact ⟨m + n, alone_add m n c.1 c.2⟩

/-- A thread that has stopped stays where it is. -/
theorem alone_stopped {p : P} (h : ∀ s, step p s = (p, s)) (n : ℕ) (s : S) :
    alone step n p s = (p, s) := by
  induction n with
  | zero => rfl
  | succ n ih => rw [alone, h, ih]

/-! ## Several threads -/

section

variable {step : I → P → S → P × S} {Owned : I → P → Prop} {Sees : I → S → S → Prop}

/-- What keeps threads apart: the step of a thread depends on the part of the state that the thread
sees, and no thread changes what another one sees. -/
structure Apart (step : I → P → S → P × S) (Owned : I → P → Prop) (Sees : I → S → S → Prop) :
    Prop where
  keeps : ∀ i p s, Owned i p → Owned i (step i p s).1
  own : ∀ i p s t, Owned i p → Sees i s t →
    (step i p s).1 = (step i p t).1 ∧ Sees i (step i p s).2 (step i p t).2
  others : ∀ i j p s t, i ≠ j → Owned j p → Sees i s t → Sees i (step j p s).2 t

/-- After any turns a thread is where it would be on its own after its share of them. -/
theorem Apart.run_eq_alone [DecidableEq I] (h : Apart step Owned Sees) {threads : I → P}
    (howned : ∀ i, Owned i (threads i)) (i : I) {s t : S} (hsees : Sees i s t) (turns : List I) :
    (run step turns threads s).1 i = (alone (step i) (turns.count i) (threads i) t).1 := by
  induction turns generalizing threads s t with
  | nil => rfl
  | cons j turns ih =>
    have hkeeps : ∀ k, Owned k (Function.update threads j (step j (threads j) s).1 k) := by
      intro k
      by_cases hk : k = j
      · subst hk
        rw [Function.update_self]
        exact h.keeps _ _ _ (howned _)
      · rw [Function.update_of_ne hk]
        exact howned k
    rw [run]
    by_cases hij : i = j
    · subst hij
      obtain ⟨hsame, hsees'⟩ := h.own i (threads i) s t (howned i) hsees
      rw [ih hkeeps hsees', List.count_cons_self, alone, Function.update_self, hsame]
    · rw [ih hkeeps (h.others i j _ s t hij (howned j) hsees),
        List.count_cons_of_ne (Ne.symm hij), Function.update_of_ne hij]

end

end Interleaving

end RQuery
