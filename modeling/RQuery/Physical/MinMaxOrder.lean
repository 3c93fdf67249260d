import RQuery.Common.NumberLine
import RQuery.Physical.MergeHomomorphism

/-!
# MIN and MAX in any order

MIN and MAX keep the first value until another one compares to it as better. Numbers are ordered
linearly, up to the two zeros, but a NaN compares to nothing: one that comes first stays, and one
that comes later is passed over.

`sameInAnyOrder_iff` says for which values the outcome depends neither on their order nor on how they
are split over partial accumulators: those that do not mix NaNs with numbers.
-/

namespace RQuery

section

variable [FloatModel]

/-- The floats of both widths are a linear order of numbers, with equal zeros, and NaNs that compare
to nothing. -/
structure OrderedFloats : Prop where
  single : Nonempty (NumberLine (fun _ => True) FloatModel.single.partialCmp)
  double : Nonempty (NumberLine (fun _ => True) FloatModel.double.partialCmp)

/-- The types that MIN and MAX support. -/
def DataType.isOrdered : DataType → Bool
  | int8 | int16 | int32 | int64 | uint8 | uint16 | uint32 | uint64 | float32 | float64 | utf8
  | date32 => true
  | _ => false

namespace ScalarValue

/-- A value that does not compare to itself. -/
def isNaN : ScalarValue → Bool
  | float32 f => FloatModel.single.partialCmp f f = none
  | float64 f => FloatModel.double.partialCmp f f = none
  | _ => false

/-- The values are the same, or the same number, or both NaN. -/
def SameNumber (a b : ScalarValue) : Prop :=
  a = b ∨ cmpScalar a b = .ok (some .eq) ∨ a.isNaN ∧ b.isNaN

/-- The comparison, where there is one. -/
def compared (a b : ScalarValue) : Option Ordering := (cmpScalar a b).toOption.join

/-- The number line of the values of a type; its NaNs are the values beside it. -/
structure TypeLine (t : DataType) where
  line : NumberLine (fun v : ScalarValue => v.dataType = t) compared
  cmpScalar_eq : ∀ {a b : ScalarValue}, a.dataType = t → b.dataType = t →
    cmpScalar a b = .ok (compared a b)
  isNaN_iff : ∀ {a : ScalarValue}, a.dataType = t → (a.isNaN ↔ line.number a = none)

/-- The line of the payloads of a type. -/
theorem Variant.exists_typeLine {t : DataType} {α : Type} (V : Variant t α)
    {cmp : α → α → Option Ordering} (L : NumberLine (fun _ => True) cmp)
    (hcmp : ∀ x y, cmpScalar (V.inj x) (V.inj y) = .ok (cmp x y))
    (hnan : ∀ x, (V.inj x).isNaN ↔ cmp x x = none) :
    Nonempty (TypeLine t) := by
  classical
  choose payload hpayload using V.exists_inj
  -- Comparing two values of the type is comparing what they hold.
  have hcompared : ∀ a b (ha : a.dataType = t) (hb : b.dataType = t),
      cmpScalar a b = .ok (cmp (payload a ha) (payload b hb)) := by
    intro a b ha hb
    rw [← hcmp, hpayload, hpayload]
  refine ⟨⟨⟨L.Number, fun a => if ha : a.dataType = t then L.number (payload a ha) else none,
    fun {a b} ha hb => ?_⟩, fun {a b} ha hb => ?_, fun {a} ha => ?_⟩⟩
  · rw [compared, hcompared a b ha hb, dif_pos ha, dif_pos hb]
    exact L.cmp_eq trivial trivial
  · rw [compared, hcompared a b ha hb]
    rfl
  -- A value is off the line exactly where it does not compare with itself.
  · show a.isNaN ↔ (if ha : a.dataType = t then L.number (payload a ha) else none) = none
    obtain ⟨x, hx⟩ : ∃ x, payload a ha = x := ⟨_, rfl⟩
    have hinj : V.inj x = a := hx ▸ hpayload a ha
    rw [dif_pos ha, hx, ← hinj, hnan]
    rcases L.cmp_self (a := x) trivial with ⟨h, h'⟩ | ⟨h, h'⟩
    · exact iff_of_true h h'
    · rw [h]
      exact iff_of_false (by simp) (Option.isSome_iff_ne_none.mp h')

/-- A linear order as a number line. -/
def ordLine (α : Type) [Ord α] [Std.TransOrd α] [Std.LawfulEqOrd α] :
    NumberLine (fun _ : α => True) fun x y => some (compare x y) :=
  ⟨α, some, fun _ _ => rfl⟩

def float32Variant : Variant .float32 F32 :=
  ⟨float32, fun _ => rfl, fun a h => by cases a <;> first | exact ⟨_, rfl⟩ | cases h⟩

def float64Variant : Variant .float64 F64 :=
  ⟨float64, fun _ => rfl, fun a h => by cases a <;> first | exact ⟨_, rfl⟩ | cases h⟩

/-- The values of a supported type that is not a float are ordered linearly. -/
theorem exists_typeLine_exact {t : DataType} (ht : t.isOrdered) (hexact : t.isFloat = false) :
    Nonempty (TypeLine t) := by
  have hvariant : ∀ {α : Type} [Ord α] [Std.TransOrd α] [Std.LawfulEqOrd α] {t : DataType}
      (V : Variant t α), (∀ x y, cmpScalar (V.inj x) (V.inj y) = .ok (some (compare x y))) →
      (∀ x, (V.inj x).isNaN = false) → Nonempty (TypeLine t) := fun {α} _ _ _ {t} V hcmp hnan =>
    V.exists_typeLine (ordLine α) hcmp fun x => by simp [hnan x]
  cases t with
  | int8 => exact hvariant int8Variant (fun _ _ => rfl) fun _ => rfl
  | int16 => exact hvariant int16Variant (fun _ _ => rfl) fun _ => rfl
  | int32 => exact hvariant int32Variant (fun _ _ => rfl) fun _ => rfl
  | int64 => exact hvariant int64Variant (fun _ _ => rfl) fun _ => rfl
  | uint8 => exact hvariant uint8Variant (fun _ _ => rfl) fun _ => rfl
  | uint16 => exact hvariant uint16Variant (fun _ _ => rfl) fun _ => rfl
  | uint32 => exact hvariant uint32Variant (fun _ _ => rfl) fun _ => rfl
  | uint64 => exact hvariant uint64Variant (fun _ _ => rfl) fun _ => rfl
  | utf8 => exact hvariant utf8Variant (fun _ _ => rfl) fun _ => rfl
  | date32 => exact hvariant date32Variant (fun _ _ => rfl) fun _ => rfl
  | float32 => cases hexact
  | float64 => cases hexact
  | _ => cases ht

/-- The values of a supported type are on a number line. -/
theorem exists_typeLine (hfl : OrderedFloats) {t : DataType} (ht : t.isOrdered) :
    Nonempty (TypeLine t) := by
  obtain ⟨⟨single⟩, ⟨double⟩⟩ := hfl
  by_cases hfloat : t.isFloat = false
  · exact exists_typeLine_exact ht hfloat
  · cases t with
    | float32 =>
      exact float32Variant.exists_typeLine single (fun _ _ => rfl) fun _ => decide_eq_true_iff
    | float64 =>
      exact float64Variant.exists_typeLine double (fun _ _ => rfl) fun _ => decide_eq_true_iff
    | _ => exact absurd rfl hfloat

end ScalarValue

/-! ## Folds -/

namespace Accumulator

open ScalarValue

variable {t : DataType} {o : Ordering}

/-- The outcome of MIN or MAX: null of nulls, else a value that no other one is better than. -/
def IsBest (o : Ordering) (vs : List ScalarValue) (r : ScalarValue) : Prop :=
  r = .null ∧ vs.filter (!·.isNull) = [] ∨
    r ≠ .null ∧ NumberLine.Unbeaten compared o (vs.filter (!·.isNull)) r

/-- The values that are not null are of the type. -/
theorem dataType_of_mem_filter {vs : List ScalarValue} (hvs : ∀ v ∈ vs, v.FitsIn t) :
    ∀ v ∈ vs.filter (!·.isNull), v.dataType = t := by
  intro v hv
  obtain ⟨hv, hnull⟩ := List.mem_filter.mp hv
  refine (hvs v hv).dataType_eq ?_
  rintro rfl
  cases hnull

/-- One more value. -/
theorem better_isBest (L : TypeLine t) (ho : o ≠ .eq) {vs : List ScalarValue} (hvs : ∀ v ∈ vs, v.FitsIn t) {r v : ScalarValue}
    (hv : v.FitsIn t) (h : IsBest o vs r) :
    ∃ r', better o r v = .ok r' ∧ IsBest o (vs ++ [v]) r' := by
  unfold better IsBest
  rw [List.filter_append]
  by_cases hnull : v.isNull
  · rw [if_pos hnull, List.filter_cons_of_neg (by simp [hnull]), List.filter_nil, List.append_nil]
    exact ⟨r, rfl, h⟩
  · have hvn : v ≠ .null := fun hvn => hnull (isNull_iff.mpr hvn)
    have hvt : v.dataType = t := hv.dataType_eq hvn
    rw [if_neg hnull, List.filter_cons_of_pos (by simp [hnull]), List.filter_nil]
    rcases h with ⟨rfl, hnil⟩ | ⟨hr, hbest⟩
    · rw [if_pos (show ScalarValue.isNull .null = true from rfl), hnil]
      exact ⟨v, rfl, .inr ⟨hvn, L.line.unbeaten_singleton hvt ho⟩⟩
    · have hrt := dataType_of_mem_filter hvs r hbest.mem
      rw [if_neg (fun h => hr (isNull_iff.mp h)), comparesAs, L.cmpScalar_eq hvt hrt]
      by_cases hvr : compared v r = some o
      · refine ⟨v, by simp [hvr], .inr ⟨hvn, ?_⟩⟩
        exact hbest.replace L.line (dataType_of_mem_filter hvs) hvt ho hvr
      · exact ⟨r, by simp [hvr], .inr ⟨hr, hbest.keep hvr⟩⟩

/-- The fold ends in an outcome. -/
theorem foldlM_isBest (L : TypeLine t) (ho : o ≠ .eq) {vs ws : List ScalarValue} (hvs : ∀ v ∈ vs, v.FitsIn t)
    (hws : ∀ v ∈ ws, v.FitsIn t) {r : ScalarValue} (h : IsBest o vs r) :
    ∃ r', ws.foldlM (better o) r = .ok r' ∧ IsBest o (vs ++ ws) r' := by
  induction ws generalizing vs r with
  | nil => exact ⟨r, rfl, by rwa [List.append_nil]⟩
  | cons w ws ih =>
    obtain ⟨r₁, hr₁, h₁⟩ := better_isBest L ho hvs (hws w List.mem_cons_self) h
    have hvs₁ : ∀ v ∈ vs ++ [w], v.FitsIn t := by
      intro v hv
      rcases List.mem_append.mp hv with hv | hv
      · exact hvs v hv
      · rw [List.mem_singleton.mp hv]
        exact hws w List.mem_cons_self
    obtain ⟨r₂, hr₂, h₂⟩ := ih hvs₁ (fun v hv => hws v (List.mem_cons_of_mem _ hv)) h₁
    refine ⟨r₂, ?_, by rwa [List.append_cons]⟩
    rw [List.foldlM_cons, hr₁, Outcome.ok_bind, hr₂]

/-- A NaN that comes first stays. -/
theorem foldlM_better_nan (L : TypeLine t) {ws : List ScalarValue} (hws : ∀ v ∈ ws, v.FitsIn t) {r : ScalarValue} (hr : r.dataType = t)
    (hnull : r ≠ .null) (hnan : L.line.number r = none) : ws.foldlM (better o) r = .ok r := by
  induction ws with
  | nil => rfl
  | cons w ws ih =>
    have hstep : better o r w = .ok r := by
      unfold better
      by_cases hw : w.isNull
      · rw [if_pos hw]
      · have hwt := (hws w List.mem_cons_self).dataType_eq fun h => hw (isNull_iff.mpr h)
        have hnone : compared w r = none := by
          rw [L.line.cmp_eq hwt hr, hnan]
          simp
        rw [if_neg hw, if_neg (fun h => hnull (isNull_iff.mp h)), comparesAs, L.cmpScalar_eq hwt hr, hnone]
        rfl
    rw [List.foldlM_cons, hstep, Outcome.ok_bind, ih fun v hv => hws v (List.mem_cons_of_mem _ hv)]

/-- A number that comes first is replaced by numbers only. -/
theorem foldlM_better_number (L : TypeLine t) {ws : List ScalarValue} (hws : ∀ v ∈ ws, v.FitsIn t) {r : ScalarValue} (hr : r.dataType = t)
    (hnull : r ≠ .null) (hnum : (L.line.number r).isSome) :
    ∃ r', ws.foldlM (better o) r = .ok r' ∧ r'.dataType = t ∧ (L.line.number r').isSome := by
  induction ws generalizing r with
  | nil => exact ⟨r, rfl, hr, hnum⟩
  | cons w ws ih =>
    have hrest : ∀ v ∈ ws, v.FitsIn t := fun v hv => hws v (List.mem_cons_of_mem _ hv)
    obtain ⟨r₁, hr₁, hr₁t, hr₁null, hr₁num⟩ : ∃ r₁, better o r w = .ok r₁ ∧ r₁.dataType = t ∧
        r₁ ≠ .null ∧ (L.line.number r₁).isSome := by
      unfold better
      by_cases hw : w.isNull
      · rw [if_pos hw]
        exact ⟨r, rfl, hr, hnull, hnum⟩
      · have hwn : w ≠ .null := fun h => hw (isNull_iff.mpr h)
        have hwt := (hws w List.mem_cons_self).dataType_eq hwn
        rw [if_neg hw, if_neg (fun h => hnull (isNull_iff.mp h)), comparesAs, L.cmpScalar_eq hwt hr]
        by_cases hwr : compared w r = some o
        · exact ⟨w, by simp [hwr], hwt, hwn, (L.line.isSome_of_cmp hwt hr hwr).1⟩
        · exact ⟨r, by simp [hwr], hr, hnull, hnum⟩
    rw [List.foldlM_cons, hr₁, Outcome.ok_bind]
    exact ih hrest hr₁t hr₁null hr₁num

/-- The fold that MIN (`o` is `lt`) and MAX (`o` is `gt`) make of values. -/
def extremum (o : Ordering) (vs : List ScalarValue) : Result ScalarValue :=
  vs.foldlM (better o) .null

/-- The extremum of values is the best of them. -/
theorem extremum_isBest (L : TypeLine t) (ho : o ≠ .eq) {vs : List ScalarValue}
    (hvs : ∀ v ∈ vs, v.FitsIn t) : ∃ r, extremum o vs = .ok r ∧ IsBest o vs r := by
  have hnil : IsBest o [] .null := .inl ⟨rfl, rfl⟩
  exact foldlM_isBest L ho (by simp) hvs hnil

/-- The best value fits the type. -/
theorem IsBest.fitsIn {vs : List ScalarValue} (hvs : ∀ v ∈ vs, v.FitsIn t) {r : ScalarValue}
    (h : IsBest o vs r) : r.FitsIn t := by
  rcases h with ⟨rfl, -⟩ | ⟨-, h⟩
  · exact .inl rfl
  · exact .inr (dataType_of_mem_filter hvs r h.mem)

/-- Values in another order have the same best ones. -/
theorem IsBest.perm {vs ws : List ScalarValue} (hp : vs.Perm ws) {r : ScalarValue}
    (h : IsBest o vs r) : IsBest o ws r := by
  have hfilter := hp.filter (!·.isNull)
  rcases h with ⟨rfl, hnil⟩ | ⟨hr, h⟩
  · rw [hnil] at hfilter
    exact .inl ⟨rfl, hfilter.symm.eq_nil⟩
  · exact .inr ⟨hr, h.perm hfilter⟩

/-- Two outcomes of values that do not mix NaNs with numbers are the same. -/
theorem IsBest.sameNumber (L : TypeLine t) (ho : o ≠ .eq) {vs : List ScalarValue}
    (hvs : ∀ v ∈ vs, v.FitsIn t) (hu : L.line.Uniform (vs.filter (!·.isNull)))
    {r r' : ScalarValue} (h : IsBest o vs r) (h' : IsBest o vs r') : SameNumber r r' := by
  rcases h with ⟨rfl, hnil⟩ | ⟨hr, h⟩ <;> rcases h' with ⟨rfl, hnil'⟩ | ⟨hr', h'⟩
  · exact .inl rfl
  · have hmem := h'.mem
    rw [hnil] at hmem
    cases hmem
  · have hmem := h.mem
    rw [hnil'] at hmem
    cases hmem
  · have htype := dataType_of_mem_filter hvs
    have hrt := htype r h.mem
    have hrt' := htype r' h'.mem
    rcases h.unique L.line htype ho hu h' with heq | ⟨hn, hn'⟩
    · exact .inr (.inl ((L.cmpScalar_eq hrt hrt').trans (congrArg Except.ok heq)))
    · exact .inr (.inr ⟨(L.isNaN_iff hrt).mpr hn, (L.isNaN_iff hrt').mpr hn'⟩)

/-- The outcome of the outcomes of chunks is one of all values. -/
theorem IsBest.flatten (L : TypeLine t) (ho : o ≠ .eq) {chunks : List (List ScalarValue)}
    (hvs : ∀ v ∈ chunks.flatten, v.FitsIn t)
    (hu : L.line.Uniform (chunks.flatten.filter (!·.isNull))) {rs : List ScalarValue}
    (hrs : List.Forall₂ (IsBest o) chunks rs) {r : ScalarValue} (h : IsBest o rs r) :
    IsBest o chunks.flatten r := by
  obtain ⟨cs, hcs, hbest⟩ : ∃ cs, cs.flatten = chunks.flatten.filter (!·.isNull) ∧
      List.Forall₂ (NumberLine.Unbeaten compared o) cs (rs.filter (!·.isNull)) := by
    clear hvs hu h
    induction hrs with
    | nil => exact ⟨[], rfl, .nil⟩
    | @cons vs r chunks rs hr _ ih =>
      obtain ⟨cs, hcs, hbest⟩ := ih
      rw [List.flatten_cons, List.filter_append]
      rcases hr with ⟨rfl, hnil⟩ | ⟨hr, hvs⟩
      · exact ⟨cs, by rw [hnil, hcs, List.nil_append], hbest⟩
      · refine ⟨vs.filter (!·.isNull) :: cs, by rw [List.flatten_cons, hcs], ?_⟩
        have hkept : (!r.isNull) = true := by
          cases r <;> first | rfl | exact absurd rfl hr
        simp only [List.filter_cons, hkept, if_true]
        exact .cons hvs hbest
  rw [← hcs] at hu
  rcases h with ⟨rfl, hnil⟩ | ⟨hr, h⟩
  · rw [hnil] at hbest
    cases hbest
    exact .inl ⟨rfl, hcs.symm⟩
  · refine .inr ⟨hr, hcs ▸ h.flatten L.line (fun v hv => ?_) ho hu hbest⟩
    exact dataType_of_mem_filter hvs v (hcs ▸ hv)

/-! ## Order and splits -/

variable [Runtime]

/-- What an accumulator of `f` makes of the values. -/
def outcome (f : AggregateFunction) (vs : List ScalarValue) : Result ScalarValue := do
  return (← accumulateAll f vs).finalValue

/-- What an accumulator of `f` makes of the partial results of the chunks. -/
def splitOutcome (f : AggregateFunction) (chunks : List (List ScalarValue)) :
    Result ScalarValue := do
  let accs ← chunks.mapM (accumulateAll f)
  return (← mergeAll f (accs.map intermediateValue)).finalValue

/-- The outcome is the same whatever the order of the values and the split over accumulators. -/
def SameInAnyOrder (f : AggregateFunction) (vs : List ScalarValue) : Prop :=
  ∃ r, outcome f vs = .ok r ∧
    (∀ vs', vs.Perm vs' → ∃ r', outcome f vs' = .ok r' ∧ SameNumber r r') ∧
    ∀ chunks, vs.Perm chunks.flatten → ∃ r', splitOutcome f chunks = .ok r' ∧ SameNumber r r'

/-- MIN and MAX fold the values, and the partial results of chunks, with the same step. -/
theorem outcome_eq_extremum {f : AggregateFunction} (wrap : ScalarValue → Accumulator)
    (hcreate : create f = wrap .null)
    (hstep : ∀ r v, (wrap r).accumulate v = wrap <$> better o r v)
    (hmerge : ∀ r v, (wrap r).merge (.scalar v) = wrap <$> better o r v)
    (hfinal : ∀ r, (wrap r).finalValue = r)
    (hstate : ∀ r, (wrap r).intermediateValue = .scalar r) :
    (∀ vs, outcome f vs = extremum o vs) ∧
      ∀ chunks, splitOutcome f chunks = (do extremum o (← chunks.mapM (extremum o))) := by
  -- The accumulator only ever wraps the extremum of the values so far.
  have hall : ∀ vs, accumulateAll f vs = wrap <$> extremum o vs := fun vs => by
    rw [accumulateAll, hcreate]
    exact Outcome.foldlM_map (fun r v _ => hstep r v) .null
  refine ⟨fun vs => ?_, fun chunks => ?_⟩
  · rw [outcome, hall]
    cases extremum o vs with
    | error e => rfl
    | ok r => exact congrArg Except.ok (hfinal r)
  -- Merging the chunks is taking the extremum of their extrema.
  · have hmerged : ∀ rs : List ScalarValue,
        mergeAll f ((rs.map wrap).map intermediateValue) = wrap <$> extremum o rs := by
      intro rs
      have hscalar : (rs.map wrap).map intermediateValue = rs.map .scalar := by
        rw [List.map_map]
        exact List.map_congr_left fun r _ => hstate r
      rw [mergeAll, hcreate, hscalar, List.foldlM_map]
      exact Outcome.foldlM_map (fun r v _ => hmerge r v) .null
    have hchunks : chunks.mapM (accumulateAll f) = do return (← chunks.mapM (extremum o)).map wrap := by
      rw [← Outcome.mapM_bind_pure]
      exact Outcome.mapM_congr fun vs _ => hall vs
    rw [splitOutcome, hchunks]
    cases chunks.mapM (extremum o) with
    | error e => rfl
    | ok rs =>
      show (do return (← mergeAll f ((rs.map wrap).map intermediateValue)).finalValue) = _
      rw [hmerged]
      show _ = extremum o rs
      cases extremum o rs with
      | error e => rfl
      | ok r => exact congrArg Except.ok (hfinal r)

/-- MIN is the least extremum, of all values or of those of chunks. -/
theorem min_outcome :
    (∀ vs, outcome .min vs = extremum .lt vs) ∧
      ∀ chunks, splitOutcome .min chunks = (do extremum .lt (← chunks.mapM (extremum .lt))) :=
  outcome_eq_extremum .min rfl (fun _ _ => rfl) (fun _ _ => rfl) (fun _ => rfl)
    fun _ => rfl

/-- MAX is the greatest extremum, of all values or of those of chunks. -/
theorem max_outcome :
    (∀ vs, outcome .max vs = extremum .gt vs) ∧
      ∀ chunks, splitOutcome .max chunks = (do extremum .gt (← chunks.mapM (extremum .gt))) :=
  outcome_eq_extremum .max rfl (fun _ _ => rfl) (fun _ _ => rfl) (fun _ => rfl)
    fun _ => rfl

/-- Values without a mix of NaNs and numbers have one outcome. -/
theorem sameInAnyOrder_of_uniform {f : AggregateFunction} (L : TypeLine t) (ho : o ≠ .eq)
    (houtcome : ∀ vs, outcome f vs = extremum o vs)
    (hsplit : ∀ chunks, splitOutcome f chunks = (do extremum o (← chunks.mapM (extremum o))))
    {vs : List ScalarValue} (hvs : ∀ v ∈ vs, v.FitsIn t)
    (hu : L.line.Uniform (vs.filter (!·.isNull))) : SameInAnyOrder f vs := by
  obtain ⟨r, hr, hbest⟩ := extremum_isBest L ho hvs
  refine ⟨r, (houtcome vs).trans hr, fun vs' hperm => ?_, fun chunks hperm => ?_⟩
  · obtain ⟨r', hr', hbest'⟩ := extremum_isBest L ho fun v hv => hvs v (hperm.mem_iff.mpr hv)
    exact ⟨r', (houtcome vs').trans hr', hbest.sameNumber L ho hvs hu (hbest'.perm hperm.symm)⟩
  · have hflat : ∀ v ∈ chunks.flatten, v.FitsIn t := fun v hv => hvs v (hperm.mem_iff.mpr hv)
    have hchunk : ∀ chunk ∈ chunks, ∀ v ∈ chunk, v.FitsIn t := fun chunk hc v hv =>
      hflat v (List.mem_flatten.mpr ⟨chunk, hc, hv⟩)
    obtain ⟨rs, hrs⟩ : Outcome.Succeeds (chunks.mapM (extremum o)) :=
      Outcome.mapM_succeeds_iff.mpr fun chunk hc => by
        obtain ⟨r, hr, -⟩ := extremum_isBest L ho (hchunk chunk hc)
        exact ⟨r, hr⟩
    -- Each chunk yields a best value of its own.
    have hall : List.Forall₂ (IsBest o) chunks rs := by
      have hzip := Outcome.mapM_eq_ok_iff.mp hrs
      rw [List.forall₂_iff_zip] at hzip ⊢
      refine ⟨hzip.1, fun {chunk r} hmem => ?_⟩
      obtain ⟨r₁, hr₁, hbest₁⟩ := extremum_isBest L ho (hchunk chunk (List.of_mem_zip hmem).1)
      obtain rfl : r₁ = r := Except.ok.inj (hr₁.symm.trans (hzip.2 hmem))
      exact hbest₁
    have hrsfit : ∀ r ∈ rs, r.FitsIn t := by
      intro r hr
      obtain ⟨chunk, hc, hb⟩ := Outcome.forall₂_mem_right hall hr
      exact hb.fitsIn (hchunk chunk hc)
    -- The best of these is a best value of all of them.
    obtain ⟨r', hr', hbest'⟩ := extremum_isBest L ho hrsfit
    refine ⟨r', by rw [hsplit, hrs, Outcome.ok_bind, hr'], ?_⟩
    have hfilter := hperm.filter (!·.isNull)
    have huflat : L.line.Uniform (chunks.flatten.filter (!·.isNull)) := by
      rcases hu with hu | hu
      · exact .inl fun v hv => hu v (hfilter.mem_iff.mpr hv)
      · exact .inr fun v hv => hu v (hfilter.mem_iff.mpr hv)
    exact hbest.sameNumber L ho hvs hu
      ((hbest'.flatten L ho hflat huflat hall).perm hperm.symm)

omit [Runtime] in
/-- The same number is not a NaN. -/
theorem isNaN_iff_of_sameNumber (L : TypeLine t) {a b : ScalarValue} (ha : a.dataType = t)
    (hb : b.dataType = t) (h : SameNumber a b) : a.isNaN ↔ b.isNaN := by
  rcases h with rfl | h | ⟨h, h'⟩
  · rfl
  · have hcmp : compared a b = some .eq := Except.ok.inj ((L.cmpScalar_eq ha hb).symm.trans h)
    obtain ⟨hnum, hnum'⟩ := L.line.isSome_of_cmp ha hb hcmp
    rw [L.isNaN_iff ha, L.isNaN_iff hb]
    exact iff_of_false (Option.isSome_iff_ne_none.mp hnum) (Option.isSome_iff_ne_none.mp hnum')
  · exact iff_of_true h h'

/-- A NaN and a number, each put first, make the outcome differ. -/
theorem not_sameInAnyOrder {f : AggregateFunction} (L : TypeLine t) (ho : o ≠ .eq)
    (houtcome : ∀ vs, outcome f vs = extremum o vs) {vs : List ScalarValue}
    (hvs : ∀ v ∈ vs, v.FitsIn t) {x y : ScalarValue} (hx : x ∈ vs) (hxnan : x.isNaN) (hy : y ∈ vs)
    (hynull : y ≠ .null) (hynum : ¬ y.isNaN) : ¬ SameInAnyOrder f vs := by
  rintro ⟨r, hr, horder, -⟩
  have hxnull : x ≠ .null := by
    rintro rfl
    cases hxnan
  have hxt := (hvs x hx).dataType_eq hxnull
  have hyt := (hvs y hy).dataType_eq hynull
  have hfirst : ∀ z ∈ vs, z ≠ .null →
      ∃ ws, vs.Perm (z :: ws) ∧ (∀ v ∈ ws, v.FitsIn t) ∧
        outcome f (z :: ws) = ws.foldlM (better o) z := by
    intro z hz hnull
    refine ⟨vs.erase z, List.perm_cons_erase hz, fun v hv => hvs v (List.mem_of_mem_erase hv), ?_⟩
    have hstep : better o .null z = .ok z := by
      unfold better
      rw [if_neg fun h => hnull (isNull_iff.mp h),
        if_pos (show ScalarValue.isNull .null = true from rfl)]
    rw [houtcome, extremum, List.foldlM_cons, hstep, Outcome.ok_bind]
  obtain ⟨xs, hpermx, hxs, houtx⟩ := hfirst x hx hxnull
  obtain ⟨ys, hpermy, hys, houty⟩ := hfirst y hy hynull
  obtain ⟨a, ha, hsamea⟩ := horder _ hpermx
  obtain ⟨b, hb, hsameb⟩ := horder _ hpermy
  rw [houtx, foldlM_better_nan L hxs hxt hxnull ((L.isNaN_iff hxt).mp hxnan)] at ha
  obtain rfl : x = a := Except.ok.inj ha
  have hynum' : (L.line.number y).isSome :=
    Option.isSome_iff_ne_none.mpr fun h => hynum ((L.isNaN_iff hyt).mpr h)
  obtain ⟨b', hb', hbt, hbnum⟩ := foldlM_better_number (o := o) L hys hyt hynull hynum'
  obtain rfl : b' = b := Except.ok.inj (hb'.symm.trans (houty.symm.trans hb))
  have hbnan : ¬ b'.isNaN := fun h => by
    rw [(L.isNaN_iff hbt).mp h] at hbnum
    cases hbnum
  have hrt : r.dataType = t := by
    obtain ⟨r', hr', hbest⟩ := extremum_isBest L ho hvs
    obtain rfl : r' = r := Except.ok.inj (hr'.symm.trans ((houtcome vs).symm.trans hr))
    rcases hbest with ⟨-, hnil⟩ | ⟨-, hbest⟩
    · have hmem : x ∈ vs.filter (!·.isNull) := by
        refine List.mem_filter.mpr ⟨hx, ?_⟩
        cases x <;> first | rfl | exact absurd rfl hxnull
      rw [hnil] at hmem
      cases hmem
    · exact dataType_of_mem_filter hvs r' hbest.mem
  -- The outcome would be a NaN, as `x`, and a number, as `b'`.
  exact hbnan ((isNaN_iff_of_sameNumber L hrt hbt hsameb).mp
    ((isNaN_iff_of_sameNumber L hrt hxt hsamea).mpr hxnan))

/-- MIN and MAX do not depend on the order of their values, nor on how these are split, exactly when
the values do not mix NaNs with numbers. -/
theorem sameInAnyOrder_iff (hfl : OrderedFloats) {f : AggregateFunction}
    (hf : f = .min ∨ f = .max) {t : DataType} (ht : t.isOrdered) {vs : List ScalarValue}
    (hvs : ∀ v ∈ vs, v.FitsIn t) :
    SameInAnyOrder f vs ↔ ¬ ((∃ v ∈ vs, v.isNaN) ∧ ∃ v ∈ vs, v ≠ .null ∧ ¬ v.isNaN) := by
  obtain ⟨L⟩ := exists_typeLine hfl ht
  obtain ⟨o, ho, houtcome, hsplit⟩ : ∃ o : Ordering, o ≠ .eq ∧
      (∀ vs, outcome f vs = extremum o vs) ∧
        ∀ chunks, splitOutcome f chunks = (do extremum o (← chunks.mapM (extremum o))) := by
    rcases hf with rfl | rfl
    · exact ⟨.lt, by decide, min_outcome⟩
    · exact ⟨.gt, by decide, max_outcome⟩
  -- With a NaN beside a number, some order puts the one first and some the other.
  constructor
  · rintro h ⟨⟨x, hx, hxnan⟩, y, hy, hynull, hynum⟩
    exact not_sameInAnyOrder L ho houtcome hvs hx hxnan hy hynull hynum h
  · intro h
    refine sameInAnyOrder_of_uniform L ho houtcome hsplit hvs ?_
    have htype := dataType_of_mem_filter hvs
    -- Otherwise the values are all NaN, or all on the line.
    by_cases hnan : ∃ v ∈ vs, v.isNaN
    · refine .inr fun v hv => (L.isNaN_iff (htype v hv)).mp ?_
      obtain ⟨hmem, hnull⟩ := List.mem_filter.mp hv
      by_contra hnum
      refine h ⟨hnan, v, hmem, ?_, hnum⟩
      rintro rfl
      cases hnull
    · refine .inl fun v hv => Option.isSome_iff_ne_none.mpr fun hnone => hnan ?_
      exact ⟨v, (List.mem_filter.mp hv).1, (L.isNaN_iff (htype v hv)).mpr hnone⟩

end Accumulator

end

namespace Accumulator

open ScalarValue

/-- Integers and a NaN as a float format. -/
def nanFormat : FloatFormat where
  Carrier := Option ℤ
  decEq := inferInstance
  toBits x := x.elim 0 fun n => integerFormat.toBits n + 1
  toBits_injective := by
    rintro (_ | m) (_ | n) h
    · rfl
    · simp at h
    · simp at h
    · exact congrArg some (integerFormat.toBits_injective (Nat.succ.inj h))
  zero := some 0
  add := Option.map₂ (· + ·)
  sub := Option.map₂ (· - ·)
  mul := Option.map₂ (· * ·)
  div := Option.map₂ Int.tdiv
  partialCmp := Option.map₂ compare
  ofInt := some
  toInt64 x := x.elim 0 integerFormat.toInt64
  parse s := if s = "NaN" then some none else s.toInt?.map some
  display x := x.elim "NaN" toString

/-- The float model of integers and a NaN. -/
@[reducible] def nanFloats : FloatModel where
  single := nanFormat
  double := nanFormat
  widen x := x
  narrow x := x

attribute [local instance] nanFloats insertionOrderRuntime

/-- Without their NaN the floats are ordered. -/
theorem nanFloats_ordered : OrderedFloats where
  single := ⟨⟨ℤ, id, fun _ _ => rfl⟩⟩
  double := ⟨⟨ℤ, id, fun _ _ => rfl⟩⟩

def someNumbers : List ScalarValue := [.float64 (some 1), .null, .float64 (some 3)]

/-- MAX of numbers and nulls. -/
theorem sameInAnyOrder_iff_numbers :
    SameInAnyOrder .max someNumbers ↔
      ¬ ((∃ v ∈ someNumbers, v.isNaN) ∧ ∃ v ∈ someNumbers, v ≠ .null ∧ ¬ v.isNaN) :=
  sameInAnyOrder_iff nanFloats_ordered (.inr rfl) (t := .float64) rfl (by decide)

/-- MIN of a NaN and a number is the one that comes first. -/
theorem not_sameInAnyOrder_nan :
    outcome .min [.float64 none, .float64 (some 1)] = .ok (.float64 none) ∧
      outcome .min [.float64 (some 1), .float64 none] = .ok (.float64 (some 1)) ∧
      ¬ SameInAnyOrder .min [.float64 none, .float64 (some 1)] := by
  have hnan : outcome .min [.float64 none, .float64 (some 1)] = .ok (.float64 none) := by decide
  have hnum : outcome .min [.float64 (some 1), .float64 none] = .ok (.float64 (some 1)) := by decide
  refine ⟨hnan, hnum, ?_⟩
  rintro ⟨r, hr, horder, -⟩
  obtain ⟨r', hr', hsame⟩ := horder _ (.swap (float64 (some 1)) (float64 none) [])
  obtain rfl : float64 none = r := Except.ok.inj (hnan.symm.trans hr)
  obtain rfl : float64 (some 1) = r' := Except.ok.inj (hnum.symm.trans hr')
  revert hsame
  unfold SameNumber
  decide

end Accumulator

end RQuery
