import RQuery.Common.KeyedFold

/-!
# Hash maps and the laws of their keys

A hash map meets its keys through two operations, an equality and a hash. An entry answers to a key
when the digests of their hashes agree and the equality holds, and a lookup returns the first entry
that answers.

For lawful operations the digest does not matter, and two keys reach the same entry exactly when
they are equal (`find?_eq_iff`). Where the equality is that of the values, the map is a keyed fold
(`fold_eq_foldKeyed`).
-/

namespace HashedMap

universe u v

variable {ε : Type u} {K V A : Type v} {W D : Type}

/-- The equality of a key type, and what a key writes to the hasher. -/
structure KeyOps (K : Type v) (W : Type) where
  eq : K → K → Bool
  hash : K → W

namespace KeyOps

variable {ops : KeyOps K W}

/-- What a hash map relies on: an equivalence that the hash respects. -/
structure Lawful (ops : KeyOps K W) : Prop where
  refl (a : K) : ops.eq a a = true
  symm {a b : K} : ops.eq a b = true → ops.eq b a = true
  trans {a b c : K} : ops.eq a b = true → ops.eq b c = true → ops.eq a c = true
  hash_eq {a b : K} : ops.eq a b = true → ops.hash a = ops.hash b

/-- The equality of the values is lawful, whatever the hash. -/
theorem lawful_of_eq_iff (h : ∀ {a b : K}, ops.eq a b = true ↔ a = b) : ops.Lawful where
  refl _ := h.mpr rfl
  symm hab := h.mpr (h.mp hab).symm
  trans hab hbc := h.mpr ((h.mp hab).trans (h.mp hbc))
  hash_eq hab := congrArg ops.hash (h.mp hab)

variable [DecidableEq D]

/-- Whether the entry of the key `a` is found under the key `b`. -/
def answers (ops : KeyOps K W) (digest : W → D) (a b : K) : Bool :=
  digest (ops.hash a) = digest (ops.hash b) && ops.eq a b

/-- Under the laws the digest rules nothing out. -/
theorem Lawful.answers_eq (h : ops.Lawful) (digest : W → D) (a b : K) :
    ops.answers digest a b = ops.eq a b := by
  unfold answers
  cases hab : ops.eq a b with
  | false => simp
  | true => simp [h.hash_eq hab]

end KeyOps

variable [DecidableEq D]

/-! ## The operations of a map -/

/-- The entry of a key. -/
def find? (ops : KeyOps K W) (digest : W → D) (m : List (K × A)) (k : K) : Option (K × A) :=
  m.find? fun entry => ops.answers digest entry.1 k

/-- `entry(k).or_insert(init)`, updated by a step. -/
def upsert (ops : KeyOps K W) (digest : W → D) (init : A) (f : A → Except ε A) :
    List (K × A) → K → Except ε (List (K × A))
  | [], k => do return [(k, ← f init)]
  | (k', a) :: m, k =>
    if ops.answers digest k' k then do return (k', ← f a) :: m
    else do return (k', a) :: (← upsert ops digest init f m k)

/-- Fold keyed values into a map. -/
def fold (ops : KeyOps K W) (digest : W → D) (init : A) (step : A → V → Except ε A)
    (items : List (K × V)) (m : List (K × A)) : Except ε (List (K × A)) :=
  items.foldlM (fun m x => upsert ops digest init (fun a => step a x.2) m x.1) m

/-! ## Lookups under the laws -/

section Lawful

variable {ops : KeyOps K W} {digest : W → D}

/-- The entry found for a key answers to it. -/
theorem answers_of_find? {m : List (K × A)} {k : K} {entry : K × A}
    (h : find? ops digest m k = some entry) : ops.answers digest entry.1 k = true := by
  unfold find? at h
  simpa using List.find?_some h

/-- Equal keys are the same key to a map. -/
theorem find?_congr (h : ops.Lawful) {k k' : K} (hk : ops.eq k k' = true) (m : List (K × A)) :
    find? ops digest m k = find? ops digest m k' := by
  have hanswers : ∀ a, ops.answers digest a k = ops.answers digest a k' := by
    intro a
    rw [h.answers_eq, h.answers_eq, Bool.eq_iff_iff]
    exact ⟨fun ha => h.trans ha hk, fun ha => h.trans ha (h.symm hk)⟩
  simp only [find?, hanswers]

/-- A key that is found reaches the entries of the keys equal to it and no others. -/
theorem find?_eq_iff (h : ops.Lawful) {m : List (K × A)} {k k' : K}
    (hfound : (find? ops digest m k).isSome) :
    find? ops digest m k = find? ops digest m k' ↔ ops.eq k k' = true := by
  refine ⟨fun heq => ?_, fun hk => find?_congr h hk m⟩
  obtain ⟨entry, hentry⟩ := Option.isSome_iff_exists.mp hfound
  have hk := answers_of_find? hentry
  have hk' := answers_of_find? (heq ▸ hentry)
  rw [h.answers_eq] at hk hk'
  exact h.trans (h.symm hk) hk'

/-- A step makes its own key found, and loses none. -/
theorem find?_upsert_isSome (h : ops.Lawful) {init : A} {f : A → Except ε A}
    {m m' : List (K × A)} {k : K} (hm : upsert ops digest init f m k = .ok m') (j : K) :
    (find? ops digest m' j).isSome = ((find? ops digest m j).isSome || ops.eq k j) := by
  induction m generalizing m' with
  | nil =>
    obtain ⟨a, -, rfl⟩ := Outcome.bind_pure_eq_ok_iff.mp hm
    rw [find?, List.find?_singleton, h.answers_eq]
    cases ops.eq k j <;> rfl
  | cons entry m ih =>
    obtain ⟨k', a⟩ := entry
    rw [upsert] at hm
    split at hm
    · rename_i hk'
      obtain ⟨a', -, rfl⟩ := Outcome.bind_pure_eq_ok_iff.mp hm
      rw [h.answers_eq] at hk'
      simp only [find?, List.find?_cons, h.answers_eq]
      cases hj : ops.eq k' j with
      | true => rfl
      | false =>
        -- The entry stays, and answers to no key that is equal to `k`.
        have hkj : ops.eq k j = false := by
          by_contra hkj
          rw [h.trans hk' (Bool.not_eq_false _ ▸ hkj)] at hj
          cases hj
        simp [hkj]
    · obtain ⟨rest, hrest, rfl⟩ := Outcome.bind_pure_eq_ok_iff.mp hm
      have ih := ih hrest
      simp only [find?, List.find?_cons] at ih ⊢
      split
      · rfl
      · exact ih

/-- Every key folded into a map is found there. -/
theorem find?_fold_isSome (h : ops.Lawful) {init : A} {step : A → V → Except ε A}
    {items : List (K × V)} {m m' : List (K × A)}
    (hm : fold ops digest init step items m = .ok m') (j : K) :
    (find? ops digest m' j).isSome =
      ((find? ops digest m j).isSome || items.any fun x => ops.eq x.1 j) := by
  induction items generalizing m with
  | nil =>
    cases hm
    simp
  | cons x items ih =>
    rw [fold, List.foldlM_cons] at hm
    obtain ⟨m₁, hm₁, hm⟩ := Outcome.bind_eq_ok_iff.mp hm
    rw [ih hm, find?_upsert_isSome h hm₁, List.any_cons, Bool.or_assoc]

/-- The values folded under two keys are in one entry exactly when the keys are equal. -/
theorem find?_fold_eq_iff (h : ops.Lawful) {init : A} {step : A → V → Except ε A}
    {items : List (K × V)} {m : List (K × A)} (hm : fold ops digest init step items [] = .ok m)
    {x y : K × V} (hx : x ∈ items) :
    find? ops digest m x.1 = find? ops digest m y.1 ↔ ops.eq x.1 y.1 = true := by
  refine find?_eq_iff h ?_
  rw [find?_fold_isSome h hm]
  simp only [Bool.or_eq_true, List.any_eq_true]
  exact .inr ⟨x, hx, h.refl x.1⟩

end Lawful

/-! ## The equality of the values -/

section ValueEquality

variable [DecidableEq K] {ops : KeyOps K W} (digest : W → D)

/-- With a lawful equality an entry answers to its own key alone. -/
theorem answers_eq_decide (h : ∀ {a b : K}, ops.eq a b = true ↔ a = b) (a b : K) :
    ops.answers digest a b = decide (a = b) := by
  rw [(KeyOps.lawful_of_eq_iff h).answers_eq, Bool.eq_iff_iff, h, decide_eq_true_iff]

/-- So an update through hashes is an update by key. -/
theorem upsert_eq_keyedFold (h : ∀ {a b : K}, ops.eq a b = true ↔ a = b) (init : A)
    (f : A → Except ε A) (m : List (K × A)) (k : K) :
    upsert ops digest init f m k = KeyedFold.upsert init f m k := by
  induction m with
  | nil => rfl
  | cons entry m ih =>
    simp only [upsert, KeyedFold.upsert, answers_eq_decide digest h, decide_eq_true_iff, ih]

/-- A map whose keys are compared by value is a keyed fold. -/
theorem fold_eq_foldKeyed (h : ∀ {a b : K}, ops.eq a b = true ↔ a = b) (init : A)
    (step : A → V → Except ε A) (items : List (K × V)) (m : List (K × A)) :
    fold ops digest init step items m = KeyedFold.foldKeyed init step items m := by
  unfold fold KeyedFold.foldKeyed
  simp only [upsert_eq_keyedFold digest h]

end ValueEquality

end HashedMap
