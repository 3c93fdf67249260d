import RQuery.Common.Outcome
import Mathlib.Data.List.Dedup
import Mathlib.Data.List.Nodup
import Mathlib.Data.List.Induction

/-!
# Folding into a keyed map

A map from keys to accumulators, kept as a list in insertion order. `foldKeyed` folds a list of
keyed values into it, creating an accumulator at the first occurrence of its key; a step may fail.
This is what a hash aggregation or the build side of a hash join does.

`foldKeyed_eq_ok_iff` describes the result without the fold over the map: the keys are those of the
input in the order of their first occurrence, and the accumulator of a key is the fold over the
values of that key alone.
-/

namespace KeyedFold

universe u v

variable {ε : Type u} {K V A : Type v}

/-! ## First occurrences -/

section FirstKeys

variable [DecidableEq K]

/-- The distinct elements of a list, in the order of their first occurrence. -/
def firstKeys (ks : List K) : List K := ks.reverse.dedup.reverse

@[simp] theorem firstKeys_nil : firstKeys ([] : List K) = [] := rfl

/-- The keys listed are the keys. -/
@[simp] theorem mem_firstKeys {ks : List K} {k : K} : k ∈ firstKeys ks ↔ k ∈ ks := by
  simp [firstKeys]

/-- Each key is listed once. -/
theorem nodup_firstKeys (ks : List K) : (firstKeys ks).Nodup := by
  simpa [firstKeys] using List.nodup_dedup ks.reverse

/-- A key at the end is listed if it is new. -/
theorem firstKeys_append_singleton (ks : List K) (k : K) :
    firstKeys (ks ++ [k]) = if k ∈ ks then firstKeys ks else firstKeys ks ++ [k] := by
  unfold firstKeys
  rw [List.reverse_append, List.reverse_singleton, List.singleton_append]
  split
  · rw [List.dedup_cons_of_mem (by simpa)]
  · rw [List.dedup_cons_of_notMem (by simpa), List.reverse_cons]

/-- Permuted lists have the same distinct elements. -/
theorem firstKeys_perm {ks ls : List K} (h : ks.Perm ls) : (firstKeys ks).Perm (firstKeys ls) := by
  rw [List.perm_ext_iff_of_nodup (nodup_firstKeys ks) (nodup_firstKeys ls)]
  intro k
  rw [mem_firstKeys, mem_firstKeys, h.mem_iff]

end FirstKeys

/-! ## Tables -/

/-- A map from given keys, each to the result of its computation. -/
def tabulate (F : K → Except ε A) (ks : List K) : Except ε (List (K × A)) :=
  ks.mapM fun k => do return (k, ← F k)

theorem tabulate_nil (F : K → Except ε A) : tabulate F [] = .ok [] := rfl

/-- A tabulated list of keys has the value of its head in front. -/
theorem tabulate_cons_eq_ok_iff {F : K → Except ε A} {k : K} {ks : List K} {m : List (K × A)} :
    tabulate F (k :: ks) = .ok m ↔
      ∃ a m', F k = .ok a ∧ tabulate F ks = .ok m' ∧ m = (k, a) :: m' := by
  unfold tabulate
  rw [Outcome.mapM_cons_eq_ok_iff]
  simp only [Outcome.bind_eq_ok_iff, Outcome.pure_eq_ok, Except.ok.injEq]
  constructor
  · rintro ⟨y, m', ⟨a, ha, rfl⟩, hm', rfl⟩
    exact ⟨a, m', ha, hm', rfl⟩
  · rintro ⟨a, m', ha, hm', rfl⟩
    exact ⟨(k, a), m', ⟨a, ha, rfl⟩, hm', rfl⟩

/-- A table has the value of each key. -/
theorem tabulate_eq_ok_iff {F : K → Except ε A} {ks : List K} {m : List (K × A)} :
    tabulate F ks = .ok m ↔
      List.Forall₂ (fun k (p : K × A) => p.1 = k ∧ F k = .ok p.2) ks m := by
  unfold tabulate
  rw [Outcome.mapM_eq_ok_iff]
  have hstep : ∀ k (p : K × A), (do return (k, ← F k)) = Except.ok p ↔ p.1 = k ∧ F k = .ok p.2 := by
    intro k p
    rw [Outcome.bind_eq_ok_iff]
    constructor
    · rintro ⟨a, ha, hp⟩
      cases hp
      exact ⟨rfl, ha⟩
    · rintro ⟨rfl, ha⟩
      exact ⟨p.2, ha, rfl⟩
  simp only [hstep]

/-- Functions that are the same on the keys have the same table. -/
theorem tabulate_congr {F G : K → Except ε A} {ks : List K} (h : ∀ k ∈ ks, F k = G k) :
    tabulate F ks = tabulate G ks :=
  Outcome.mapM_congr fun k hk => by rw [h k hk]

/-! ## The fold -/

variable [DecidableEq K]

/-- Replace the accumulator of a key by a step of it, starting from `init` at a new key. -/
def upsert (init : A) (f : A → Except ε A) : List (K × A) → K → Except ε (List (K × A))
  | [], k => do return [(k, ← f init)]
  | (k', a) :: m, k =>
    if k' = k then do return (k', ← f a) :: m
    else do return (k', a) :: (← upsert init f m k)

/-- Fold keyed values into a map. -/
def foldKeyed (init : A) (step : A → V → Except ε A) (items : List (K × V)) (m : List (K × A)) :
    Except ε (List (K × A)) :=
  items.foldlM (fun m x => upsert init (fun a => step a x.2) m x.1) m

/-- The values of one key, in order. -/
def valuesOf (items : List (K × V)) (k : K) : List V :=
  (items.filter fun x => x.1 = k).map Prod.snd

/-- The fold over the values of one key. -/
def accumulated (init : A) (step : A → V → Except ε A) (items : List (K × V)) (k : K) :
    Except ε A :=
  (valuesOf items k).foldlM step init

/-- An update that never fails succeeds at every key. -/
theorem upsert_succeeds {init : A} {f : A → Except ε A}
    (h : ∀ a, Outcome.Succeeds (f a)) (m : List (K × A)) (k : K) :
    Outcome.Succeeds (upsert init f m k) := by
  induction m with
  | nil =>
    obtain ⟨a, ha⟩ := h init
    exact ⟨[(k, a)], by rw [upsert, ha]; rfl⟩
  | cons entry rest ih =>
    obtain ⟨k', a⟩ := entry
    rw [upsert]
    split
    · obtain ⟨a', ha'⟩ := h a
      exact ⟨_, by rw [ha']; rfl⟩
    · obtain ⟨rest', hrest'⟩ := ih
      exact ⟨_, by rw [hrest']; rfl⟩

/-- A step at a key changes the table at that key only, or appends a new key. -/
theorem upsert_tabulate_iff {F G : K → Except ε A} {init : A} {f : A → Except ε A} {k : K}
    {ks : List K} {m m' : List (K × A)} (hm : tabulate F ks = .ok m) (hks : ks.Nodup)
    (hother : ∀ j ∈ ks, j ≠ k → G j = F j)
    (hself : G k = if k ∈ ks then F k >>= f else f init) :
    upsert init f m k = .ok m' ↔ tabulate G (if k ∈ ks then ks else ks ++ [k]) = .ok m' := by
  induction ks generalizing m m' with
  | nil =>
    obtain rfl : m = [] := by simpa [tabulate_nil, eq_comm] using hm
    have hG : G k = f init := by simpa using hself
    rw [if_neg (by simp), List.nil_append, tabulate_cons_eq_ok_iff, hG, upsert,
      Outcome.bind_pure_eq_ok_iff]
    simp [tabulate_nil]
  | cons j ks ih =>
    obtain ⟨a, m₀, ha, hm₀, rfl⟩ := tabulate_cons_eq_ok_iff.mp hm
    obtain ⟨hj, hks⟩ := List.nodup_cons.mp hks
    unfold upsert
    by_cases hjk : j = k
    · subst hjk
      have hG : G j = f a := by simpa [ha] using hself
      have hrest : tabulate G ks = .ok m₀ := by
        rw [← hm₀]
        exact tabulate_congr fun i hi =>
          hother i (List.mem_cons_of_mem j hi) fun h => hj (h ▸ hi)
      rw [if_pos rfl, if_pos List.mem_cons_self, tabulate_cons_eq_ok_iff, hG,
        Outcome.bind_pure_eq_ok_iff]
      simp [hrest]
    · have hGj : G j = .ok a := by rw [hother j List.mem_cons_self hjk, ha]
      have hmem : k ∈ j :: ks ↔ k ∈ ks := by simp [Ne.symm hjk]
      have hih : ∀ m', upsert init f m₀ k = .ok m' ↔
          tabulate G (if k ∈ ks then ks else ks ++ [k]) = .ok m' := fun m' =>
        ih hm₀ hks (fun i hi => hother i (List.mem_cons_of_mem j hi)) (by simpa [hmem] using hself)
      have hkeys : (if k ∈ j :: ks then j :: ks else j :: ks ++ [k]) =
          j :: if k ∈ ks then ks else ks ++ [k] := by
        by_cases hk : k ∈ ks <;> simp [hmem, hk]
      rw [if_neg hjk, hkeys, tabulate_cons_eq_ok_iff, hGj, Outcome.bind_pure_eq_ok_iff]
      simp [hih]

/-- The values of a key are those of both parts. -/
theorem valuesOf_append (items items' : List (K × V)) (k : K) :
    valuesOf (items ++ items') k = valuesOf items k ++ valuesOf items' k := by
  simp [valuesOf]

/-- Only a key that does not occur has no values. -/
theorem valuesOf_eq_nil_iff {items : List (K × V)} {k : K} :
    valuesOf items k = [] ↔ k ∉ items.map Prod.fst := by
  unfold valuesOf
  rw [List.map_eq_nil_iff, List.filter_eq_nil_iff, List.mem_map]
  constructor
  · rintro h ⟨x, hx, hk⟩
    exact h x hx (decide_eq_true hk)
  · intro h x hx hk
    exact h ⟨x, hx, of_decide_eq_true hk⟩

/-- The values of one key are those of its items alone. -/
theorem valuesOf_filter (items : List (K × V)) (k : K) :
    valuesOf (items.filter fun x => x.1 = k) k = valuesOf items k := by
  simp [valuesOf, List.filter_filter]

/-- Where every key occurs once, a key has its own value. -/
theorem valuesOf_of_nodup {items : List (K × V)} (h : (items.map Prod.fst).Nodup) {x : K × V}
    (hx : x ∈ items) : valuesOf items x.1 = [x.2] := by
  induction items with
  | nil => simp at hx
  | cons y items ih =>
    obtain ⟨hy, hitems⟩ := List.nodup_cons.mp h
    change valuesOf ([y] ++ items) x.1 = [x.2]
    rw [valuesOf_append]
    rcases List.mem_cons.mp hx with rfl | hx
    · rw [valuesOf_eq_nil_iff.mpr hy]
      simp [valuesOf]
    · have hne : y.1 ≠ x.1 := fun heq => hy (heq ▸ List.mem_map_of_mem hx)
      rw [ih hitems hx]
      simp [valuesOf, hne]

/-- The first occurrences of a constant, non-empty list. -/
theorem firstKeys_of_forall_eq {ks : List K} {k : K} (h : ∀ j ∈ ks, j = k) (hne : ks ≠ []) :
    firstKeys ks = [k] := by
  obtain ⟨j, hj⟩ := List.exists_mem_of_ne_nil ks hne
  have hmem : k ∈ ks := h j hj ▸ hj
  refine List.perm_singleton.mp ((List.perm_ext_iff_of_nodup (nodup_firstKeys ks)
    (List.nodup_singleton k)).mpr fun i => ?_)
  rw [mem_firstKeys, List.mem_singleton]
  exact ⟨h i, fun hi => hi ▸ hmem⟩

/-- The result of the fold: the keys in the order of their first occurrence, each with the fold
over its own values. -/
theorem foldKeyed_eq_ok_iff {init : A} {step : A → V → Except ε A} {items : List (K × V)}
    {m : List (K × A)} :
    foldKeyed init step items [] = .ok m ↔
      tabulate (accumulated init step items) (firstKeys (items.map Prod.fst)) = .ok m := by
  induction items using List.reverseRecOn generalizing m with
  | nil => simp [foldKeyed, tabulate_nil]
  | append_singleton items x ih =>
    have hkeys : firstKeys ((items ++ [x]).map Prod.fst) =
        if x.1 ∈ firstKeys (items.map Prod.fst) then firstKeys (items.map Prod.fst)
        else firstKeys (items.map Prod.fst) ++ [x.1] := by
      rw [List.map_append, List.map_singleton, firstKeys_append_singleton]
      simp only [mem_firstKeys]
    have hother : ∀ j, j ≠ x.1 →
        accumulated init step (items ++ [x]) j = accumulated init step items j := by
      intro j hj
      unfold accumulated
      rw [valuesOf_append]
      simp [valuesOf, Ne.symm hj]
    have hself : accumulated init step (items ++ [x]) x.1 =
        accumulated init step items x.1 >>= fun a => step a x.2 := by
      unfold accumulated
      rw [valuesOf_append, List.foldlM_append]
      simp [valuesOf]
    have hnew : x.1 ∉ firstKeys (items.map Prod.fst) →
        accumulated init step items x.1 = .ok init := by
      intro h
      unfold accumulated
      rw [valuesOf_eq_nil_iff.mpr (mem_firstKeys.not.mp h)]
      rfl
    have hstep : ∀ m₀, foldKeyed init step items [] = .ok m₀ →
        (upsert init (fun a => step a x.2) m₀ x.1 = .ok m ↔
          tabulate (accumulated init step (items ++ [x]))
            (firstKeys ((items ++ [x]).map Prod.fst)) = .ok m) := by
      intro m₀ hm₀
      rw [hkeys]
      refine upsert_tabulate_iff (ih.mp hm₀) (nodup_firstKeys _) (fun j _ hj => hother j hj) ?_
      split
      · exact hself
      · rename_i h
        rw [hself, hnew h]
        rfl
    have hfold : foldKeyed init step (items ++ [x]) [] = .ok m ↔
        ∃ m₀, foldKeyed init step items [] = .ok m₀ ∧
          upsert init (fun a => step a x.2) m₀ x.1 = .ok m := by
      unfold foldKeyed
      rw [Outcome.foldlM_append_eq_ok_iff]
      simp
    rw [hfold]
    constructor
    · rintro ⟨m₀, hm₀, h⟩
      exact (hstep m₀ hm₀).mp h
    · intro h
      -- The fold over a prefix succeeds because the fold over every key's values does.
      obtain ⟨m₀, hm₀⟩ : Outcome.Succeeds (tabulate (accumulated init step items)
          (firstKeys (items.map Prod.fst))) := by
        unfold tabulate
        rw [Outcome.mapM_succeeds_iff]
        intro k hk
        have hk' : k ∈ firstKeys ((items ++ [x]).map Prod.fst) := by
          rw [mem_firstKeys] at hk ⊢
          simp only [List.map_append, List.mem_append]
          exact .inl hk
        have hok := Outcome.mapM_succeeds_iff.mp ⟨m, h⟩ k hk'
        obtain ⟨_, ha, -⟩ := Outcome.succeeds_bind_iff.mp hok
        by_cases hkx : k = x.1
        · subst hkx
          rw [hself] at ha
          obtain ⟨a, ha, -⟩ := Outcome.bind_eq_ok_iff.mp ha
          exact ⟨(x.1, a), by simp [ha]⟩
        · rw [hother k hkx] at ha
          exact ⟨_, by rw [ha]; rfl⟩
      exact ⟨m₀, ih.mpr hm₀, (hstep m₀ (ih.mpr hm₀)).mpr h⟩

end KeyedFold
