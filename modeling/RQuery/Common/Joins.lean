import Mathlib.Data.List.Perm.Basic
import RQuery.Common.KeyedFold

/-!
# Joins of lists

The nested-loop joins of two lists of rows by keys, over arbitrary row types: every left row is
paired, in order, with the right rows of its key. A left join pads the left rows without a match, a
right join the right rows without one, key by key. Related rows with equal keys have related joins
(`forall₂_inner`, `forall₂_left`, `forall₂_right`). The joins by key are the joins on the condition
that the keys are equal (`inner_eq_innerOn`, `left_eq_leftOn`, `right_perm_rightOn`).
-/

namespace RQuery

namespace Joins

variable {L R K O : Type*} [DecidableEq K]

/-- The right rows of a key. -/
def matching (keyR : R → K) (rs : List R) (k : K) : List R :=
  rs.filter fun r => keyR r = k

/-- The pairs of rows with equal keys. -/
def inner (keyL : L → K) (keyR : R → K) (pair : L → R → O) (ls : List L) (rs : List R) : List O :=
  ls.flatMap fun l => (matching keyR rs (keyL l)).map (pair l)

/-- The pairs, and the left rows without a match. -/
def left (keyL : L → K) (keyR : R → K) (pair : L → R → O) (pad : L → O) (ls : List L)
    (rs : List R) : List O :=
  ls.flatMap fun l =>
    if (matching keyR rs (keyL l)).isEmpty then [pad l]
    else (matching keyR rs (keyL l)).map (pair l)

/-- The right rows without a match, grouped by key. -/
def unmatched (keyL : L → K) (keyR : R → K) (pad : R → O) (ls : List L) (rs : List R) : List O :=
  (KeyedFold.firstKeys (rs.map keyR)).flatMap fun k =>
    if k ∈ ls.map keyL then [] else (matching keyR rs k).map pad

/-- The pairs, then the right rows without a match. -/
def right (keyL : L → K) (keyR : R → K) (pair : L → R → O) (pad : R → O) (ls : List L)
    (rs : List R) : List O :=
  inner keyL keyR pair ls rs ++ unmatched keyL keyR pad ls rs

/-- A row that matches is a row of the right side. -/
theorem mem_of_mem_matching {keyR : R → K} {rs : List R} {k : K} {r : R}
    (h : r ∈ matching keyR rs k) : r ∈ rs :=
  List.mem_of_mem_filter h

/-- Every row of a join is a pair or a padded row. -/
theorem forall_mem_inner {keyL : L → K} {keyR : R → K} {pair : L → R → O} {ls : List L}
    {rs : List R} {P : O → Prop} (h : ∀ l ∈ ls, ∀ r ∈ rs, P (pair l r)) :
    ∀ o ∈ inner keyL keyR pair ls rs, P o := by
  intro o ho
  obtain ⟨l, hl, ho⟩ := List.mem_flatMap.mp ho
  obtain ⟨r, hr, rfl⟩ := List.mem_map.mp ho
  exact h l hl r (mem_of_mem_matching hr)

/-- What holds of all pairs and all padded rows holds of a left join. -/
theorem forall_mem_left {keyL : L → K} {keyR : R → K} {pair : L → R → O} {pad : L → O}
    {ls : List L} {rs : List R} {P : O → Prop} (h : ∀ l ∈ ls, ∀ r ∈ rs, P (pair l r))
    (hpad : ∀ l ∈ ls, P (pad l)) : ∀ o ∈ left keyL keyR pair pad ls rs, P o := by
  intro o ho
  obtain ⟨l, hl, ho⟩ := List.mem_flatMap.mp ho
  split at ho
  · rw [List.mem_singleton.mp ho]
    exact hpad l hl
  · obtain ⟨r, hr, rfl⟩ := List.mem_map.mp ho
    exact h l hl r (mem_of_mem_matching hr)

/-- What holds of all pairs and all padded rows holds of a right join. -/
theorem forall_mem_right {keyL : L → K} {keyR : R → K} {pair : L → R → O} {pad : R → O}
    {ls : List L} {rs : List R} {P : O → Prop} (h : ∀ l ∈ ls, ∀ r ∈ rs, P (pair l r))
    (hpad : ∀ r ∈ rs, P (pad r)) : ∀ o ∈ right keyL keyR pair pad ls rs, P o := by
  intro o ho
  rcases List.mem_append.mp ho with ho | ho
  · exact forall_mem_inner h o ho
  · obtain ⟨k, -, ho⟩ := List.mem_flatMap.mp ho
    split at ho
    · simp at ho
    · obtain ⟨r, hr, rfl⟩ := List.mem_map.mp ho
      exact hpad r (mem_of_mem_matching hr)

/-- A join depends on the layout of the rows that it pairs only. -/
theorem inner_congr {keyL : L → K} {keyR : R → K} {pair pair' : L → R → O} {ls : List L}
    {rs : List R} (h : ∀ l ∈ ls, ∀ r ∈ rs, pair l r = pair' l r) :
    inner keyL keyR pair ls rs = inner keyL keyR pair' ls rs :=
  List.flatMap_congr fun l hl => List.map_congr_left fun r hr => h l hl r (mem_of_mem_matching hr)

/-- A left join depends on its pairing and its padding only on its rows. -/
theorem left_congr {keyL : L → K} {keyR : R → K} {pair pair' : L → R → O} {pad pad' : L → O}
    {ls : List L} {rs : List R} (h : ∀ l ∈ ls, ∀ r ∈ rs, pair l r = pair' l r)
    (hpad : ∀ l ∈ ls, pad l = pad' l) :
    left keyL keyR pair pad ls rs = left keyL keyR pair' pad' ls rs := by
  refine List.flatMap_congr fun l hl => ?_
  split
  · rw [hpad l hl]
  · exact List.map_congr_left fun r hr => h l hl r (mem_of_mem_matching hr)

/-- So does a right join. -/
theorem right_congr {keyL : L → K} {keyR : R → K} {pair pair' : L → R → O} {pad pad' : R → O}
    {ls : List L} {rs : List R} (h : ∀ l ∈ ls, ∀ r ∈ rs, pair l r = pair' l r)
    (hpad : ∀ r ∈ rs, pad r = pad' r) :
    right keyL keyR pair pad ls rs = right keyL keyR pair' pad' ls rs := by
  rw [right, right, inner_congr h]
  congr 1
  refine List.flatMap_congr fun k _ => ?_
  split
  · rfl
  · exact List.map_congr_left fun r hr => hpad r (mem_of_mem_matching hr)

section

variable {L' R' O' : Type*} {A : L → L' → Prop} {B : R → R' → Prop} {C : O → O' → Prop}
  {keyL : L → K} {keyL' : L' → K} {keyR : R → K} {keyR' : R' → K}
  {ls : List L} {ls' : List L'} {rs : List R} {rs' : List R'}

/-- Related right sides have related matches for a key. -/
theorem forall₂_matching (hrs : List.Forall₂ B rs rs') (hkey : ∀ r r', B r r' → keyR r = keyR' r')
    (k : K) : List.Forall₂ B (matching keyR rs k) (matching keyR' rs' k) := by
  unfold matching
  induction hrs with
  | nil => exact .nil
  | cons hr _ ih =>
    rw [List.filter_cons, List.filter_cons, hkey _ _ hr]
    split
    · exact .cons hr ih
    · exact ih

/-- Related rows are mapped to concatenations of related lists. -/
theorem forall₂_flatMap {f : L → List O} {g : L' → List O'} (hls : List.Forall₂ A ls ls')
    (hfg : ∀ l l', A l l' → List.Forall₂ C (f l) (g l')) :
    List.Forall₂ C (ls.flatMap f) (ls'.flatMap g) := by
  induction hls with
  | nil => exact .nil
  | cons hl _ ih =>
    rw [List.flatMap_cons, List.flatMap_cons]
    exact List.rel_append (hfg _ _ hl) ih

variable {pair : L → R → O} {pair' : L' → R' → O'}

/-- Related sides have related inner joins. -/
theorem forall₂_inner (hls : List.Forall₂ A ls ls') (hrs : List.Forall₂ B rs rs')
    (hkeyL : ∀ l l', A l l' → keyL l = keyL' l') (hkeyR : ∀ r r', B r r' → keyR r = keyR' r')
    (hpair : ∀ l l' r r', A l l' → B r r' → C (pair l r) (pair' l' r')) :
    List.Forall₂ C (inner keyL keyR pair ls rs) (inner keyL' keyR' pair' ls' rs') := by
  refine forall₂_flatMap hls fun l l' hl => ?_
  rw [List.forall₂_map_left_iff, List.forall₂_map_right_iff, hkeyL l l' hl]
  exact (forall₂_matching hrs hkeyR _).imp fun r r' => hpair l l' r r' hl

/-- Related sides have related left joins. -/
theorem forall₂_left {pad : L → O} {pad' : L' → O'} (hls : List.Forall₂ A ls ls')
    (hrs : List.Forall₂ B rs rs') (hkeyL : ∀ l l', A l l' → keyL l = keyL' l')
    (hkeyR : ∀ r r', B r r' → keyR r = keyR' r')
    (hpair : ∀ l l' r r', A l l' → B r r' → C (pair l r) (pair' l' r'))
    (hpad : ∀ l l', A l l' → C (pad l) (pad' l')) :
    List.Forall₂ C (left keyL keyR pair pad ls rs) (left keyL' keyR' pair' pad' ls' rs') := by
  refine forall₂_flatMap hls fun l l' hl => ?_
  have hmatch : List.Forall₂ B (matching keyR rs (keyL' l')) (matching keyR' rs' (keyL' l')) :=
    forall₂_matching hrs hkeyR _
  rw [hkeyL l l' hl]
  -- A left row is padded on one side exactly where it is on the other.
  have hempty : (matching keyR rs (keyL' l')).isEmpty = (matching keyR' rs' (keyL' l')).isEmpty := by
    rw [Bool.eq_iff_iff, List.isEmpty_iff_length_eq_zero, List.isEmpty_iff_length_eq_zero,
      hmatch.length_eq]
  rw [hempty]
  split
  · exact .cons (hpad l l' hl) .nil
  · rw [List.forall₂_map_left_iff, List.forall₂_map_right_iff]
    exact hmatch.imp fun r r' => hpair l l' r r' hl

/-- Related sides have related rows without a match. -/
theorem forall₂_unmatched {pad : R → O} {pad' : R' → O'} (hls : List.Forall₂ A ls ls')
    (hrs : List.Forall₂ B rs rs') (hkeyL : ∀ l l', A l l' → keyL l = keyL' l')
    (hkeyR : ∀ r r', B r r' → keyR r = keyR' r')
    (hpad : ∀ r r', B r r' → C (pad r) (pad' r')) :
    List.Forall₂ C (unmatched keyL keyR pad ls rs) (unmatched keyL' keyR' pad' ls' rs') := by
  unfold unmatched
  rw [Outcome.forall₂_map_eq hrs hkeyR, Outcome.forall₂_map_eq hls hkeyL]
  refine forall₂_flatMap (A := (· = ·)) (List.forall₂_same.mpr fun _ _ => rfl) ?_
  rintro k _ rfl
  split
  · exact .nil
  · rw [List.forall₂_map_left_iff, List.forall₂_map_right_iff]
    exact (forall₂_matching hrs hkeyR k).imp hpad

/-- Related sides have related right joins. -/
theorem forall₂_right {pad : R → O} {pad' : R' → O'} (hls : List.Forall₂ A ls ls')
    (hrs : List.Forall₂ B rs rs') (hkeyL : ∀ l l', A l l' → keyL l = keyL' l')
    (hkeyR : ∀ r r', B r r' → keyR r = keyR' r')
    (hpair : ∀ l l' r r', A l l' → B r r' → C (pair l r) (pair' l' r'))
    (hpad : ∀ r r', B r r' → C (pad r) (pad' r')) :
    List.Forall₂ C (right keyL keyR pair pad ls rs) (right keyL' keyR' pair' pad' ls' rs') :=
  List.rel_append (forall₂_inner hls hrs hkeyL hkeyR hpair)
    (forall₂_unmatched hls hrs hkeyL hkeyR hpad)

end

/-! ## Joins on a condition -/

section

variable {on on' : L → R → Bool} {pair : L → R → O} {ls : List L} {rs : List R}

omit [DecidableEq K]

/-- The pairs of rows that meet the condition. -/
def innerOn (on : L → R → Bool) (pair : L → R → O) (ls : List L) (rs : List R) : List O :=
  ls.flatMap fun l => (rs.filter (on l)).map (pair l)

/-- The pairs, and the left rows without a match. -/
def leftOn (on : L → R → Bool) (pair : L → R → O) (pad : L → O) (ls : List L) (rs : List R) :
    List O :=
  ls.flatMap fun l =>
    if (rs.filter (on l)).isEmpty then [pad l] else (rs.filter (on l)).map (pair l)

/-- The right rows without a match. -/
def unmatchedOn (on : L → R → Bool) (pad : R → O) (ls : List L) (rs : List R) : List O :=
  (rs.filter fun r => !ls.any fun l => on l r).map pad

/-- The pairs, then the right rows without a match. -/
def rightOn (on : L → R → Bool) (pair : L → R → O) (pad : R → O) (ls : List L) (rs : List R) :
    List O :=
  innerOn on pair ls rs ++ unmatchedOn on pad ls rs

/-- Conditions that are the same on the rows select the same matches. -/
theorem filter_on_congr (h : ∀ l ∈ ls, ∀ r ∈ rs, on l r = on' l r) {l : L} (hl : l ∈ ls) :
    rs.filter (on l) = rs.filter (on' l) :=
  List.filter_congr fun r hr => h l hl r hr

/-- A join depends on the pairs that meet its condition only. -/
theorem innerOn_congr (h : ∀ l ∈ ls, ∀ r ∈ rs, on l r = on' l r) :
    innerOn on pair ls rs = innerOn on' pair ls rs :=
  List.flatMap_congr fun l hl => by rw [filter_on_congr h hl]

/-- A left join depends on its condition only on its rows. -/
theorem leftOn_congr {pad : L → O} (h : ∀ l ∈ ls, ∀ r ∈ rs, on l r = on' l r) :
    leftOn on pair pad ls rs = leftOn on' pair pad ls rs :=
  List.flatMap_congr fun l hl => by rw [filter_on_congr h hl]

/-- So do the rows without a match. -/
theorem unmatchedOn_congr {pad : R → O} (h : ∀ l ∈ ls, ∀ r ∈ rs, on l r = on' l r) :
    unmatchedOn on pad ls rs = unmatchedOn on' pad ls rs := by
  refine congrArg (List.map pad) (List.filter_congr fun r hr => ?_)
  rw [Bool.not_inj_iff, Bool.eq_iff_iff, List.any_eq_true, List.any_eq_true]
  exact exists_congr fun l => and_congr_right fun hl => by rw [h l hl r hr]

/-- So does a right join. -/
theorem rightOn_congr {pad : R → O} (h : ∀ l ∈ ls, ∀ r ∈ rs, on l r = on' l r) :
    rightOn on pair pad ls rs = rightOn on' pair pad ls rs := by
  rw [rightOn, rightOn, innerOn_congr h, unmatchedOn_congr h]

end

section

variable {keyL : L → K} {keyR : R → K} {pair : L → R → O} {ls : List L} {rs : List R}

/-- An inner join by keys is one on the equality of keys. -/
theorem inner_eq_innerOn :
    inner keyL keyR pair ls rs = innerOn (fun l r => keyR r = keyL l) pair ls rs := rfl

/-- A left join by keys is one on the equality of keys. -/
theorem left_eq_leftOn {pad : L → O} :
    left keyL keyR pair pad ls rs = leftOn (fun l r => keyR r = keyL l) pair pad ls rs := rfl

/-- The rows of some keys, grouped by key. -/
theorem flatMap_matching_perm (keyR : R → K) (rs : List R) {ks : List K} (h : ks.Nodup) :
    (ks.flatMap (matching keyR rs)).Perm (rs.filter fun r => keyR r ∈ ks) := by
  induction ks with
  | nil => simp
  | cons k ks ih =>
    obtain ⟨hk, hks⟩ := List.nodup_cons.mp h
    -- The rows of the first key are split off; those of the others are what is left.
    have hfirst : (rs.filter fun r => keyR r ∈ k :: ks).filter (fun r => keyR r = k) =
        matching keyR rs k := by
      rw [List.filter_filter, matching]
      exact List.filter_congr fun r _ => by simp +contextual
    have hrest : (rs.filter fun r => keyR r ∈ k :: ks).filter (fun r => !decide (keyR r = k)) =
        rs.filter fun r => keyR r ∈ ks := by
      rw [List.filter_filter]
      refine List.filter_congr fun r _ => ?_
      by_cases hr : keyR r = k
      · simp [hr, hk]
      · simp [hr]
    have hsplit := List.filter_append_perm (fun r => decide (keyR r = k))
      (rs.filter fun r => keyR r ∈ k :: ks)
    rw [hfirst, hrest] at hsplit
    rw [List.flatMap_cons]
    exact ((ih hks).append_left _).trans hsplit

/-- The rows without a match are those whose key no left row has. -/
theorem unmatched_perm_unmatchedOn {pad : R → O} :
    (unmatched keyL keyR pad ls rs).Perm
      (unmatchedOn (fun l r => keyR r = keyL l) pad ls rs) := by
  -- Skipping the keys of the left side while going through the keys is filtering the keys first.
  have hskip : unmatched keyL keyR pad ls rs =
      (((KeyedFold.firstKeys (rs.map keyR)).filter fun k => k ∉ ls.map keyL).flatMap
        (matching keyR rs)).map pad := by
    rw [unmatched, List.map_flatMap]
    induction KeyedFold.firstKeys (rs.map keyR) with
    | nil => rfl
    | cons k ks ih =>
      rw [List.flatMap_cons, ih, List.filter_cons]
      by_cases hk : k ∈ ls.map keyL
      · rw [if_pos hk, if_neg (by simpa using hk), List.nil_append]
      · rw [if_neg hk, if_pos (by simpa using hk), List.flatMap_cons]
  rw [hskip, unmatchedOn]
  -- Going through the remaining keys reaches each of their rows, in another order.
  refine ((flatMap_matching_perm _ _ ((KeyedFold.nodup_firstKeys _).filter _)).trans
    (.of_eq (List.filter_congr fun r hr => ?_))).map pad
  rw [Bool.eq_iff_iff, decide_eq_true_iff, List.mem_filter, decide_eq_true_iff,
    KeyedFold.mem_firstKeys, Bool.not_eq_true', List.any_eq_false]
  constructor
  · rintro ⟨-, hnot⟩ l hl heq
    exact hnot (of_decide_eq_true heq ▸ List.mem_map_of_mem hl)
  · refine fun hall => ⟨List.mem_map_of_mem hr, fun hmem => ?_⟩
    obtain ⟨l, hl, heq⟩ := List.mem_map.mp hmem
    exact hall l hl (decide_eq_true heq.symm)

/-- A right join by keys is, up to the order of the rows, one on the equality of keys. -/
theorem right_perm_rightOn {pad : R → O} :
    (right keyL keyR pair pad ls rs).Perm
      (rightOn (fun l r => keyR r = keyL l) pair pad ls rs) :=
  unmatched_perm_unmatchedOn.append_left _

end

/-! ## Joins of permuted rows -/

section

variable {keyL : L → K} {keyR : R → K} {pair : L → R → O} {ls ls' : List L} {rs rs' : List R}

/-- Sides in another order have the rows of the inner join in another order. -/
theorem inner_perm (hls : ls.Perm ls') (hrs : rs.Perm rs') :
    (inner keyL keyR pair ls rs).Perm (inner keyL keyR pair ls' rs') :=
  hls.flatMap fun _ _ => (hrs.filter _).map _

/-- The same for a left join. -/
theorem left_perm {pad : L → O} (hls : ls.Perm ls') (hrs : rs.Perm rs') :
    (left keyL keyR pair pad ls rs).Perm (left keyL keyR pair pad ls' rs') := by
  refine hls.flatMap fun l _ => ?_
  have hmatching : (matching keyR rs (keyL l)).Perm (matching keyR rs' (keyL l)) := hrs.filter _
  rw [hmatching.isEmpty_eq]
  split
  · exact .refl _
  · exact hmatching.map _

omit [DecidableEq K] in
/-- The same for the rows without a match. -/
theorem unmatchedOn_perm {on : L → R → Bool} {pad : R → O} (hls : ls.Perm ls')
    (hrs : rs.Perm rs') : (unmatchedOn on pad ls rs).Perm (unmatchedOn on pad ls' rs') := by
  have hany : (fun r => !ls.any fun l => on l r) = fun r => !ls'.any fun l => on l r :=
    funext fun r => congrArg (!·) hls.any_eq
  rw [unmatchedOn, unmatchedOn, hany]
  exact (hrs.filter _).map _

/-- The same for a right join. -/
theorem right_perm {pad : R → O} (hls : ls.Perm ls') (hrs : rs.Perm rs') :
    (right keyL keyR pair pad ls rs).Perm (right keyL keyR pair pad ls' rs') := by
  have hunmatched : (unmatched keyL keyR pad ls rs).Perm (unmatched keyL keyR pad ls' rs') :=
    unmatched_perm_unmatchedOn.trans
      ((unmatchedOn_perm hls hrs).trans unmatched_perm_unmatchedOn.symm)
  exact (inner_perm hls hrs).append hunmatched

end

end Joins

end RQuery
