import RQuery.Common.Outcome
import Mathlib.Data.List.Perm.Basic

/-!
# Folding a partial commutative operation

An operation `op : A → A → Except ε A` with a unit, commutative and associative on the elements of
`P` as far as it is defined. A left fold of it depends neither on the order of the list
(`foldlM_perm`) nor on how the list is cut into chunks that are folded first (`foldlM_flatten`), and
it succeeds on every part of a list it succeeds on (`foldlM_append`). This is what splitting an
aggregation over workers relies on.
-/

namespace PartialFold

universe u v

variable {ε : Type u} {A : Type v}

/-- On the elements of `P` the operation is a commutative monoid with undefined products. -/
structure CommMonoidOn (P : A → Prop) (e : A) (op : A → A → Except ε A) : Prop where
  unit_mem : P e
  closed : ∀ {a b c}, P a → P b → op a b = .ok c → P c
  unit_op : ∀ {a}, P a → op e a = .ok a
  comm : ∀ {a b c}, P a → P b → op a b = .ok c → op b a = .ok c
  assoc : ∀ {a b c x d}, P a → P b → P c → op a b = .ok x → op x c = .ok d →
    ∃ y, op b c = .ok y ∧ op a y = .ok d

namespace CommMonoidOn

variable {P : A → Prop} {e : A} {op : A → A → Except ε A}

/-- The unit is neutral on the right as well. -/
theorem op_unit (h : CommMonoidOn P e op) {a : A} (ha : P a) : op a e = .ok a :=
  h.comm h.unit_mem ha (h.unit_op ha)

/-- Associativity from right to left, by commutativity. -/
theorem assoc' (h : CommMonoidOn P e op) {a b c y d : A} (ha : P a) (hb : P b) (hc : P c)
    (hy : op b c = .ok y) (hd : op a y = .ok d) : ∃ x, op a b = .ok x ∧ op x c = .ok d := by
  have hPy := h.closed hb hc hy
  obtain ⟨x, hx, hd'⟩ := h.assoc hc hb ha (h.comm hb hc hy) (h.comm ha hPy hd)
  have hPx := h.closed hb ha hx
  exact ⟨x, h.comm hb ha hx, h.comm hc hPx hd'⟩

/-- A fold stays within `P`. -/
theorem foldlM_mem (h : CommMonoidOn P e op) {xs : List A} (hxs : ∀ x ∈ xs, P x) {a b : A}
    (ha : P a) (hb : xs.foldlM op a = .ok b) : P b :=
  Outcome.foldlM_invariant P ha (fun _ x _ hx hb hc => h.closed hb (hxs x hx) hc) hb

/-- The start of a fold combines with the fold from the unit. -/
theorem foldlM_eq_ok_iff (h : CommMonoidOn P e op) {xs : List A} (hxs : ∀ x ∈ xs, P x) {a d : A}
    (ha : P a) : xs.foldlM op a = .ok d ↔ ∃ y, xs.foldlM op e = .ok y ∧ op a y = .ok d := by
  induction xs generalizing a d with
  | nil => simp [h.op_unit ha]
  | cons x xs ih =>
    have hx : P x := hxs x List.mem_cons_self
    have hxs : ∀ y ∈ xs, P y := fun y hy => hxs y (List.mem_cons_of_mem x hy)
    have ih := fun {a d} (ha : P a) => @ih hxs a d ha
    simp only [List.foldlM_cons, h.unit_op hx, Outcome.ok_bind, Outcome.bind_eq_ok_iff, ih hx]
    constructor
    · rintro ⟨z, hz, hd⟩
      obtain ⟨y, hy, hd⟩ := (ih (h.closed ha hx hz)).mp hd
      obtain ⟨w, hw, hd⟩ := h.assoc ha hx (h.foldlM_mem hxs h.unit_mem hy) hz hd
      exact ⟨w, ⟨y, hy, hw⟩, hd⟩
    · rintro ⟨w, ⟨y, hy, hw⟩, hd⟩
      obtain ⟨z, hz, hd⟩ := h.assoc' ha hx (h.foldlM_mem hxs h.unit_mem hy) hw hd
      exact ⟨z, hz, (ih (h.closed ha hx hz)).mpr ⟨y, hy, hd⟩⟩

/-- A fold over a longer list folds the rest and then combines the head. -/
theorem foldlM_cons_eq_ok_iff (h : CommMonoidOn P e op) {x : A} {xs : List A} (hx : P x)
    (hxs : ∀ x ∈ xs, P x) {d : A} :
    (x :: xs).foldlM op e = .ok d ↔ ∃ y, xs.foldlM op e = .ok y ∧ op x y = .ok d := by
  simp only [List.foldlM_cons, h.unit_op hx, Outcome.ok_bind, h.foldlM_eq_ok_iff hxs hx]

/-- The fold of a concatenation combines the folds of its parts. -/
theorem foldlM_append (h : CommMonoidOn P e op) {xs ys : List A} (hxs : ∀ x ∈ xs, P x)
    (hys : ∀ y ∈ ys, P y) {d : A} :
    (xs ++ ys).foldlM op e = .ok d ↔
      ∃ x y, xs.foldlM op e = .ok x ∧ ys.foldlM op e = .ok y ∧ op x y = .ok d := by
  rw [Outcome.foldlM_append_eq_ok_iff]
  constructor
  · rintro ⟨x, hx, hd⟩
    obtain ⟨y, hy, hd⟩ := (h.foldlM_eq_ok_iff hys (h.foldlM_mem hxs h.unit_mem hx)).mp hd
    exact ⟨x, y, hx, hy, hd⟩
  · rintro ⟨x, y, hx, hy, hd⟩
    exact ⟨x, hx, (h.foldlM_eq_ok_iff hys (h.foldlM_mem hxs h.unit_mem hx)).mpr ⟨y, hy, hd⟩⟩

/-- Permuted lists have the same fold. -/
theorem foldlM_perm (h : CommMonoidOn P e op) {xs ys : List A} (hp : xs.Perm ys)
    (hxs : ∀ x ∈ xs, P x) {d : A} (hd : xs.foldlM op e = .ok d) : ys.foldlM op e = .ok d := by
  induction hp generalizing d with
  | nil => exact hd
  | @cons x xs ys hp ih =>
    have hx : P x := hxs x List.mem_cons_self
    have hxs : ∀ y ∈ xs, P y := fun y hy => hxs y (List.mem_cons_of_mem x hy)
    obtain ⟨y, hy, hd⟩ := (h.foldlM_cons_eq_ok_iff hx hxs).mp hd
    exact (h.foldlM_cons_eq_ok_iff hx fun z hz => hxs z (hp.mem_iff.mpr hz)).mpr ⟨y, ih hxs hy, hd⟩
  | swap x y xs =>
    have hy : P y := hxs y List.mem_cons_self
    have hx : P x := hxs x (by simp)
    simp only [List.foldlM_cons, h.unit_op hx, h.unit_op hy, Outcome.ok_bind,
      Outcome.bind_eq_ok_iff] at hd ⊢
    obtain ⟨z, hz, hd⟩ := hd
    exact ⟨z, h.comm hy hx hz, hd⟩
  | trans hp _ ih₁ ih₂ =>
    exact ih₂ (fun z hz => hxs z (hp.mem_iff.mpr hz)) (ih₁ hxs hd)

/-- Folding chunks first and then their results folds everything. -/
theorem foldlM_flatten (h : CommMonoidOn P e op) {chunks : List (List A)} {ys : List A}
    (hxs : ∀ xs ∈ chunks, ∀ x ∈ xs, P x)
    (hys : chunks.mapM (fun xs => xs.foldlM op e) = .ok ys) {d : A} :
    chunks.flatten.foldlM op e = .ok d ↔ ys.foldlM op e = .ok d := by
  induction chunks generalizing ys d with
  | nil =>
    obtain rfl : [] = ys := by simpa using hys
    rfl
  | cons xs chunks ih =>
    obtain ⟨y, ys, hy, hrestys, rfl⟩ := Outcome.mapM_cons_eq_ok_iff.mp hys
    have hx : ∀ x ∈ xs, P x := hxs xs List.mem_cons_self
    have hrest : ∀ xs ∈ chunks, ∀ x ∈ xs, P x := fun xs h => hxs xs (List.mem_cons_of_mem _ h)
    have hflat : ∀ x ∈ chunks.flatten, P x := by
      intro x hx
      obtain ⟨xs, hxs, hx⟩ := List.mem_flatten.mp hx
      exact hrest xs hxs x hx
    have hPy : P y := h.foldlM_mem hx h.unit_mem hy
    have hPys : ∀ z ∈ ys, P z := by
      intro z hz
      obtain ⟨zs, hzs, hz⟩ := Outcome.mapM_mem hrestys hz
      exact h.foldlM_mem (hrest zs hzs) h.unit_mem hz
    rw [List.flatten_cons, h.foldlM_append hx hflat,
      h.foldlM_cons_eq_ok_iff hPy hPys]
    simp only [hy, Except.ok.injEq, ih hrest hrestys]
    constructor
    · rintro ⟨_, z, rfl, hz, hd⟩
      exact ⟨z, hz, hd⟩
    · rintro ⟨z, hz, hd⟩
      exact ⟨y, z, rfl, hz, hd⟩

/-- Everything can be folded exactly when the chunks can, and then their results. -/
theorem foldlM_flatten_eq_ok_iff (h : CommMonoidOn P e op) {chunks : List (List A)}
    (hxs : ∀ xs ∈ chunks, ∀ x ∈ xs, P x) {d : A} :
    chunks.flatten.foldlM op e = .ok d ↔
      ∃ ys, chunks.mapM (fun xs => xs.foldlM op e) = .ok ys ∧ ys.foldlM op e = .ok d := by
  constructor
  · intro hd
    obtain ⟨ys, hys⟩ : Outcome.Succeeds (chunks.mapM fun xs => xs.foldlM op e) := by
      rw [Outcome.mapM_succeeds_iff]
      induction chunks generalizing d with
      | nil => simp
      | cons xs chunks ih =>
        have hrest : ∀ xs ∈ chunks, ∀ x ∈ xs, P x := fun xs h => hxs xs (List.mem_cons_of_mem _ h)
        have hflat : ∀ x ∈ chunks.flatten, P x := by
          intro x hx
          obtain ⟨xs, hxs, hx⟩ := List.mem_flatten.mp hx
          exact hrest xs hxs x hx
        rw [List.flatten_cons, h.foldlM_append (hxs xs List.mem_cons_self) hflat] at hd
        obtain ⟨x, y, hx, hy, -⟩ := hd
        exact List.forall_mem_cons.mpr ⟨⟨x, hx⟩, ih hrest hy⟩
    exact ⟨ys, hys, (h.foldlM_flatten hxs hys).mp hd⟩
  · rintro ⟨ys, hys, hd⟩
    exact (h.foldlM_flatten hxs hys).mpr hd

end CommMonoidOn

end PartialFold
