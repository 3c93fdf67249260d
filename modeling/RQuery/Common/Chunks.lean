import RQuery.Common.Outcome

/-!
# Streams of chunks

A stream that delivers its elements in chunks, each of which may fail when it is pulled. What a
consumer sees are the elements before the first failure. `Cuts` says that a stream is one way of
cutting a list into chunks, as far as it does not fail; consumers that work element by element keep
this, and so cannot tell two ways of cutting the same list apart.
-/

namespace RQuery

namespace Chunks

universe u v

variable {ε : Type u} {α β : Type v}

/-- The elements of the chunks before the first failure. -/
def taken : List (Except ε (List α)) → List α
  | [] => []
  | .error _ :: _ => []
  | .ok xs :: rest => xs ++ taken rest

/-- The stream cuts a prefix of the list into chunks, and all of the list if it does not fail. -/
structure Cuts (whole : List α) (s : List (Except ε (List α))) : Prop where
  isPrefix : taken s <+: whole
  complete : (∀ item ∈ s, Outcome.Succeeds item) → taken s = whole

/-- The streams cut the same list. -/
def Agree (s s' : List (Except ε (List α))) : Prop :=
  ∃ whole, Cuts whole s ∧ Cuts whole s'

/-- All chunks are taken where none fails. -/
theorem taken_map_ok (xss : List (List α)) :
    taken (xss.map .ok : List (Except ε (List α))) = xss.flatten := by
  induction xss with
  | nil => rfl
  | cons xs xss ih => rw [List.map_cons, taken, ih, List.flatten_cons]

/-- Chunks cut what they are put together to. -/
theorem cuts_map_ok (xss : List (List α)) :
    Cuts xss.flatten (xss.map .ok : List (Except ε (List α))) :=
  ⟨(taken_map_ok xss) ▸ List.prefix_rfl, fun _ => taken_map_ok xss⟩

/-- A list that is cut without a failure is the concatenation of the chunks. -/
theorem Cuts.eq_flatten {whole : List α} {xss : List (List α)}
    (h : Cuts whole (xss.map .ok : List (Except ε (List α)))) : whole = xss.flatten := by
  rw [← h.complete, taken_map_ok]
  intro item hitem
  obtain ⟨xs, -, rfl⟩ := List.mem_map.mp hitem
  exact ⟨xs, rfl⟩

/-- A failure cuts everything. -/
theorem cuts_error (whole : List α) (e : ε) (rest : List (Except ε (List α))) :
    Cuts whole (.error e :: rest) := by
  refine ⟨List.nil_prefix, fun h => ?_⟩
  exact absurd (h _ List.mem_cons_self) (Outcome.not_succeeds_error e)

/-- A chunk in front is the beginning of the whole. -/
theorem cuts_ok_iff {whole xs : List α} {rest : List (Except ε (List α))} :
    Cuts whole (.ok xs :: rest) ↔ ∃ whole', whole = xs ++ whole' ∧ Cuts whole' rest := by
  constructor
  · intro h
    obtain ⟨more, hmore⟩ := h.isPrefix
    rw [taken, List.append_assoc] at hmore
    refine ⟨taken rest ++ more, hmore.symm, List.prefix_append _ _, fun hrest => ?_⟩
    have hall := h.complete (List.forall_mem_cons.mpr ⟨⟨xs, rfl⟩, hrest⟩)
    rw [taken, ← hmore] at hall
    exact List.append_cancel_left hall
  · rintro ⟨whole', rfl, h⟩
    refine ⟨?_, fun hall => ?_⟩
    · rw [taken]
      exact (List.prefix_append_right_inj xs).mpr h.isPrefix
    · rw [taken, h.complete fun item hitem => hall item (List.mem_cons_of_mem _ hitem)]

/-- Elements are mapped by their numbers. -/
theorem flatMap_eq_range (xs : List β) (f : β → List α) :
    xs.flatMap f = (List.range xs.length).flatMap fun k => (xs[k]?.map f).getD [] := by
  induction xs with
  | nil => rfl
  | cons x xs ih =>
    rw [List.length_cons, List.range_succ_eq_map, List.flatMap_cons, List.flatMap_cons,
      List.flatMap_map, ih]
    rfl

/-- A stream whose chunks, where they do not fail, are those of a numbered list of chunks. -/
theorem cuts_of_getElem? {s : List (Except ε (List α))} {chunk : ℕ → List α}
    (h : ∀ k xs, s[k]? = some (.ok xs) → xs = chunk k) :
    Cuts ((List.range s.length).flatMap chunk) s := by
  induction s generalizing chunk with
  | nil => exact ⟨List.nil_prefix, fun _ => rfl⟩
  | cons item rest ih =>
    cases item with
    | error e => exact cuts_error _ e rest
    | ok xs =>
      obtain rfl := h 0 xs rfl
      rw [List.length_cons, List.range_succ_eq_map, List.flatMap_cons, List.flatMap_map]
      exact cuts_ok_iff.mpr ⟨_, rfl, ih fun k ys hk => h (k + 1) ys hk⟩

/-! ## Working element by element -/

/-- What `f` makes of the elements before the first at which it fails. -/
def traversed (f : α → Except ε (List β)) : List α → List β
  | [] => []
  | x :: xs =>
    match f x with
    | .ok ys => ys ++ traversed f xs
    | .error _ => []

/-- A traversal goes on behind a part that succeeds. -/
theorem traversed_append {f : α → Except ε (List β)} {xs rest : List α} {yss : List (List β)}
    (h : xs.mapM f = .ok yss) : traversed f (xs ++ rest) = yss.flatten ++ traversed f rest := by
  induction xs generalizing yss with
  | nil =>
    obtain rfl : [] = yss := by simpa using h
    rfl
  | cons x xs ih =>
    obtain ⟨ys, yss, hys, hyss, rfl⟩ := Outcome.mapM_cons_eq_ok_iff.mp h
    rw [List.cons_append, traversed, hys, ih hyss, List.flatten_cons, List.append_assoc]

/-- Chunk by chunk, the second stream is what `f` makes of the elements of the first. -/
def Traverses (f : α → Except ε (List β)) (s : List (Except ε (List α)))
    (t : List (Except ε (List β))) : Prop :=
  List.Forall₂ (fun x y => ∀ ys, y = .ok ys → ∃ xs yss, x = .ok xs ∧ xs.mapM f = .ok yss ∧
    ys = yss.flatten) s t

/-- A consumer that does not fail has been given everything, and has worked on all of it. -/
theorem Traverses.of_map_ok {f : α → Except ε (List β)} {s : List (Except ε (List α))}
    {tss : List (List β)} (h : Traverses f s (tss.map .ok)) :
    ∃ (xss : List (List α)) (yss : List (List β)), s = xss.map .ok ∧
      xss.flatten.mapM f = .ok yss ∧ tss.flatten = yss.flatten := by
  induction tss generalizing s with
  | nil =>
    cases h
    exact ⟨[], [], rfl, rfl, rfl⟩
  | cons ts tss ih =>
    rw [List.map_cons] at h
    obtain ⟨x, s, hx, hs, rfl⟩ := List.forall₂_cons_right_iff.mp h
    obtain ⟨xs, yss, rfl, hyss, rfl⟩ := hx ts rfl
    obtain ⟨xss, zss, rfl, hzss, hflat⟩ := ih hs
    refine ⟨xs :: xss, yss ++ zss, rfl, ?_, ?_⟩
    · rw [List.flatten_cons, Outcome.mapM_append_eq_ok_iff]
      exact ⟨yss, zss, hyss, hzss, rfl⟩
    · rw [List.flatten_cons, List.flatten_append, hflat]

/-- Working element by element cuts what is made of the list. -/
theorem Cuts.traverse {f : α → Except ε (List β)} {whole : List α} {s : List (Except ε (List α))}
    {t : List (Except ε (List β))} (h : Cuts whole s) (ht : Traverses f s t) :
    Cuts (traversed f whole) t := by
  induction ht generalizing whole with
  | nil =>
    obtain rfl : [] = whole := h.complete (by simp)
    exact ⟨List.nil_prefix, fun _ => rfl⟩
  | @cons x y s t hxy _ ih =>
    cases y with
    | error e => exact cuts_error _ e t
    | ok ys =>
      obtain ⟨xs, yss, rfl, hyss, rfl⟩ := hxy ys rfl
      obtain ⟨whole', rfl, hrest⟩ := cuts_ok_iff.mp h
      rw [traversed_append hyss]
      exact cuts_ok_iff.mpr ⟨_, rfl, ih hrest⟩

/-- Where `f` does not fail, all that is made of the list is cut. -/
theorem Cuts.traverse_of_mapM {f : α → Except ε (List β)} {whole : List α} {yss : List (List β)}
    {s : List (Except ε (List α))} {t : List (Except ε (List β))} (h : Cuts whole s)
    (ht : Traverses f s t) (hf : whole.mapM f = .ok yss) : Cuts yss.flatten t := by
  have hall : traversed f (whole ++ []) = yss.flatten ++ traversed f [] := traversed_append hf
  rw [traversed, List.append_nil, List.append_nil] at hall
  exact hall ▸ h.traverse ht

/-- Streams that agree are traversed to streams that agree. -/
theorem Agree.traverse {f : α → Except ε (List β)} {s s' : List (Except ε (List α))}
    {t t' : List (Except ε (List β))} (h : Agree s s') (ht : Traverses f s t)
    (ht' : Traverses f s' t') : Agree t t' := by
  obtain ⟨whole, hs, hs'⟩ := h
  exact ⟨_, hs.traverse ht, hs'.traverse ht'⟩

end Chunks

end RQuery
