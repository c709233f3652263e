import ChannelBench.CRun
import ChannelBench.CSequence
import Mathlib.Data.List.ReduceOption

/-! The growable array of `vlist.c`. A `VList` is the C structure with its array, of which the slots
below `len` hold pushed (hence non-`NULL`) pointers and the others are `NULL` or uninitialised. The
operations check what the C code asserts and that every access is inside the array. Each one is
described once, by its effect on the sequence `toList` of the live elements. -/

namespace ChannelBench

open CSem

/-- `VLIST_DEF_SIZE`. -/
def vlistDefSize : ℕ := 16

/-- `struct vlist`. A slot is `none` while it holds no pushed pointer. -/
structure VList (α : Type) where
  size : ℕ
  len : ℕ
  data : List (Option α)
  size_pos : 0 < size
  len_le : len ≤ size
  data_length : data.length = size
  live : ∀ i, i < len → ∃ x, data[i]? = some (some x)

variable {α : Type}

namespace VList

/-- The live elements, in order. -/
def toList (vl : VList α) : List α := (vl.data.take vl.len).reduceOption

theorem take_data (vl : VList α) : vl.data.take vl.len = vl.toList.map some := by
  have hall : ∀ o ∈ vl.data.take vl.len, ∃ x, o = some x := by
    intro o ho
    obtain ⟨i, hi, rfl⟩ := List.getElem_of_mem ho
    obtain ⟨x, hx⟩ := vl.live i (by simp at hi; omega)
    refine ⟨x, ?_⟩
    rw [List.getElem_take]
    exact (List.getElem?_eq_some_iff.mp hx).2
  unfold toList
  generalize vl.data.take vl.len = slots at hall
  induction slots with
  | nil => rfl
  | cons o slots ih =>
      obtain ⟨x, rfl⟩ := hall o List.mem_cons_self
      rw [List.reduceOption_cons_of_some, List.map_cons,
        ← ih fun o ho => hall o (List.mem_cons_of_mem _ ho)]

@[simp] theorem length_toList (vl : VList α) : vl.toList.length = vl.len := by
  have h := congrArg List.length vl.take_data
  rw [List.length_take, vl.data_length, Nat.min_eq_left vl.len_le, List.length_map] at h
  exact h.symm

/-- The array and the sequence of live elements agree below `len`. -/
theorem data_eq (vl : VList α) {i : ℕ} (hi : i < vl.toList.length) :
    vl.data[i]? = some (some vl.toList[i]) := by
  have h := congrArg (·[i]?) vl.take_data
  have hlt : i < vl.len := by simpa using hi
  simpa [List.getElem?_take, hlt, List.getElem?_eq_getElem hi] using h

/-- The sequence is determined by the live slots. -/
theorem toList_eq {vl : VList α} {l : List α} (hlen : vl.len = l.length)
    (hslots : ∀ i (hi : i < l.length), vl.data[i]? = some (some l[i])) : vl.toList = l := by
  refine List.ext_getElem (by simpa using hlen) fun i hi hi' => ?_
  have h := (vl.data_eq hi).symm.trans (hslots i hi')
  simpa using h

/-- A list with room for more pushes that holds given elements. -/
def ofList (l : List α) : VList α where
  size := l.length + vlistDefSize
  len := l.length
  data := l.map some ++ List.replicate vlistDefSize none
  size_pos := Nat.lt_of_lt_of_le (by decide) (Nat.le_add_left _ _)
  len_le := Nat.le_add_right _ _
  data_length := by simp
  live := fun i hi => ⟨l[i], by simp [List.getElem?_append_left, hi]⟩

@[simp] theorem toList_ofList (l : List α) : (ofList l).toList = l := by
  refine toList_eq rfl fun i hi => ?_
  simp [ofList, List.getElem?_append_left, hi]

end VList

/-- `vl_new`. -/
def vlNew : VList α where
  size := vlistDefSize
  len := 0
  data := List.replicate vlistDefSize none
  size_pos := by decide
  len_le := Nat.zero_le _
  data_length := List.length_replicate
  live := fun _ hi => absurd hi (Nat.not_lt_zero _)

/-- `vl_len`. -/
def vlLen (vl : VList α) : ℕ := vl.len

/-- `vl_get`. The read of a slot that holds no pushed pointer is kept as a fault of its own. -/
def vlGet (vl : VList α) (ind : ℕ) : Run α := do
  require (ind < vl.len) .assertion
  match vl.data[ind]? with
  | some (some dat) => pure dat
  | _ => throw .bounds

/-- `vl_set`. -/
def vlSet (vl : VList α) (ind : ℕ) (dat : α) : Run (VList α) :=
  if h : ind < vl.len then
    pure { vl with
      data := vl.data.set ind (some dat)
      data_length := by rw [List.length_set]; exact vl.data_length
      live := by
        intro i hi
        obtain ⟨x, hx⟩ := vl.live i hi
        by_cases hind : ind = i
        · subst hind
          exact ⟨dat, List.getElem?_set_self (List.getElem?_eq_some_iff.mp hx).1⟩
        · exact ⟨x, by rw [List.getElem?_set_ne hind, hx]⟩ }
  else throw .assertion

/-- `vl_setsize`. The copy of `vl->size` slots must fit into the new array. -/
def vlSetsize (vl : VList α) (size : ℕ) : Run (VList α) :=
  if _hassert : vl.len ≤ size then
    if hcopy : vl.size ≤ size then
      pure {
        size := size
        len := vl.len
        data := vl.data ++ List.replicate (size - vl.size) none
        size_pos := Nat.lt_of_lt_of_le vl.size_pos hcopy
        len_le := Nat.le_trans vl.len_le hcopy
        data_length := by
          rw [List.length_append, List.length_replicate, vl.data_length]
          omega
        live := by
          intro i hi
          obtain ⟨x, hx⟩ := vl.live i hi
          exact ⟨x, List.getElem?_append_left (List.getElem?_eq_some_iff.mp hx).1 ▸ hx⟩ }
    else throw .bounds
  else throw .assertion

/-- `vl->data[vl->len++] = dat` behind the assertion that there is room. -/
def vlAppend (vl : VList α) (dat : α) : Run (VList α) :=
  if h : vl.len < vl.size then
    pure { vl with
      len := vl.len + 1
      data := vl.data.set vl.len (some dat)
      len_le := h
      data_length := by rw [List.length_set]; exact vl.data_length
      live := by
        intro i hi
        by_cases hind : vl.len = i
        · subst hind
          exact ⟨dat, List.getElem?_set_self (by rw [vl.data_length]; exact h)⟩
        · obtain ⟨x, hx⟩ := vl.live i (by omega)
          exact ⟨x, by rw [List.getElem?_set_ne hind, hx]⟩ }
  else throw .assertion

/-- `vl_push`. -/
def vlPush (vl : VList α) (dat : α) : Run (VList α) := do
  let vl ← if vl.len = vl.size then vlSetsize vl (vl.size * 2) else pure vl
  vlAppend vl dat

/-- `--vl->len`. -/
def VList.shrink (vl : VList α) : VList α :=
  { vl with
    len := vl.len - 1
    len_le := Nat.le_trans (Nat.sub_le _ _) vl.len_le
    live := fun i hi => vl.live i (by omega) }

/-- `vl_pop`; `none` is `NULL`. -/
def vlPop (vl : VList α) : Run (Option α × VList α) :=
  if vl.len = 0 then
    pure (none, vl)
  else do
    let dat ← vlGet vl (vl.len - 1)
    pure (some dat, vl.shrink)

/-- `vl_del`. -/
def vlDel (vl : VList α) (ind : ℕ) : Run (α × VList α) := do
  let rv ← vlGet vl ind
  let last ← vlGet vl (vl.len - 1)
  let vl ← vlSet vl ind last
  pure (rv, vl.shrink)

/-- `vl_insert`. -/
def vlInsert (vl : VList α) (ind : ℕ) (dat : α) : Run (VList α) := do
  require (ind ≤ vl.len) .assertion
  if ind = vl.len then
    vlPush vl dat
  else
    let old ← vlGet vl ind
    let vl ← vlPush vl old
    vlSet vl ind dat

/-- `vl_poprand`, drawing from a source of `random()` results; `none` is `NULL`. -/
def vlPoprand {σ : Type} (random : σ → ℕ × σ) (vl : VList α) (world : σ) :
    Run (Option α × VList α × σ) :=
  if vl.len = 0 then
    pure (none, vl, world)
  else do
    let draw := random world
    let ind := draw.1 % vl.len
    let rv ← vlGet vl ind
    let (_, vl) ← vlDel vl ind
    pure (some rv, vl, draw.2)

/-! ### What the operations do to the sequence of live elements -/

@[simp] theorem vlLen_eq (vl : VList α) : vlLen vl = vl.toList.length := vl.length_toList.symm

@[simp] theorem toList_vlNew : (vlNew : VList α).toList = [] := rfl

theorem toList_shrink (vl : VList α) : vl.shrink.toList = vl.toList.dropLast := by
  refine VList.toList_eq (by simp [VList.shrink]) fun i hi => ?_
  have hi' : i < vl.toList.length := by simp at hi ⊢; omega
  rw [List.getElem_dropLast]
  exact vl.data_eq hi'

theorem vlGet_eq {vl : VList α} {ind : ℕ} (hi : ind < vl.toList.length) :
    vlGet vl ind = .ok vl.toList[ind] := by
  have hlt : ind < vl.len := by simpa using hi
  simp only [vlGet, require, if_pos hlt, vl.data_eq hi]
  rfl

/-- `vl_get` asserts that there is an element at the index. -/
theorem vlGet_eq_error {vl : VList α} {ind : ℕ} (hi : vl.toList.length ≤ ind) :
    vlGet vl ind = .error .assertion := by
  have hge : ¬ind < vl.len := by simpa using hi
  rw [vlGet, require, if_neg hge]
  rfl

theorem vlSet_returns {vl : VList α} {ind : ℕ} (dat : α) (hi : ind < vl.toList.length) :
    Returns (vlSet vl ind dat) fun vl' => vl'.toList = vl.toList.set ind dat := by
  have hlt : ind < vl.len := by simpa using hi
  rw [vlSet, dif_pos hlt, returns_pure]
  refine VList.toList_eq (by simp) fun i hi' => ?_
  have hi'' : i < vl.toList.length := by simpa using hi'
  by_cases hind : ind = i
  · subst hind
    simpa using List.getElem?_set_self (List.getElem?_eq_some_iff.mp (vl.data_eq hi)).1
  · simp only [List.getElem?_set_ne hind, List.getElem_set_ne hind, vl.data_eq hi'']

theorem vlSetsize_returns {vl : VList α} (size : ℕ) (h : vl.size ≤ size) :
    Returns (vlSetsize vl size) fun vl' => vl'.toList = vl.toList ∧ vl'.size = size := by
  rw [vlSetsize, dif_pos (Nat.le_trans vl.len_le h), dif_pos h, returns_pure]
  refine ⟨VList.toList_eq (by simp) fun i hi => ?_, rfl⟩
  have hdata := vl.data_eq hi
  rw [List.getElem?_append_left (List.getElem?_eq_some_iff.mp hdata).1, hdata]

theorem vlAppend_returns {vl : VList α} (dat : α) (h : vl.len < vl.size) :
    Returns (vlAppend vl dat) fun vl' => vl'.toList = vl.toList ++ [dat] := by
  rw [vlAppend, dif_pos h, returns_pure]
  refine VList.toList_eq (by simp) fun i hi => ?_
  by_cases hind : vl.len = i
  · subst hind
    simp [List.getElem?_set_self (by rw [vl.data_length]; exact h : vl.len < vl.data.length)]
  · have hi' : i < vl.toList.length := by simp at hi ⊢; omega
    simp only [List.getElem?_set_ne hind, List.getElem_append_left hi', vl.data_eq hi']

/-- A push appends; growing the array keeps the elements and their order. -/
theorem vlPush_returns (vl : VList α) (dat : α) :
    Returns (vlPush vl dat) fun vl' => vl'.toList = vl.toList ++ [dat] := by
  unfold vlPush
  split_ifs with hfull
  · refine (vlSetsize_returns (vl.size * 2) (by omega)).bind ?_
    rintro vl' ⟨hlist, hsize⟩
    have hroom : vl'.len < vl'.size := by
      rw [hsize, ← vl'.length_toList, hlist, vl.length_toList, hfull]
      have := vl.size_pos
      omega
    exact (vlAppend_returns dat hroom).mono fun vl'' h => by rw [h, hlist]
  · rw [pure_bind]
    exact vlAppend_returns dat (by have := vl.len_le; omega)

theorem vlPop_returns_some {vl : VList α} (h : vl.toList ≠ []) :
    Returns (vlPop vl) fun r =>
      r.1 = some (vl.toList.getLast h) ∧ r.2.toList = vl.toList.dropLast := by
  have hpos : 0 < vl.toList.length := List.length_pos_of_ne_nil h
  have hlen : vl.len ≠ 0 := by rw [← vl.length_toList]; omega
  rw [vlPop, if_neg hlen, ← vl.length_toList, vlGet_eq (by omega)]
  refine returns_ok.mpr ⟨?_, toList_shrink vl⟩
  rw [List.getLast_eq_getElem]

/-- Deletion returns the element and moves the last one into its place. -/
theorem vlDel_returns {vl : VList α} {ind : ℕ} (hi : ind < vl.toList.length) :
    Returns (vlDel vl ind) fun r =>
      r.1 = vl.toList[ind] ∧ r.2.toList = swapRemove vl.toList ind := by
  have hlast : vl.toList.length - 1 < vl.toList.length := by omega
  rw [vlDel, vlGet_eq hi, ← vl.length_toList, vlGet_eq hlast]
  refine (vlSet_returns _ hi).bind fun vl' hset => returns_pure.mpr ⟨rfl, ?_⟩
  have hget : vl.toList.getLast? = some vl.toList[vl.toList.length - 1] := by
    rw [List.getLast?_eq_getElem?, List.getElem?_eq_getElem hlast]
  rw [toList_shrink, hset, swapRemove, hget]

theorem vlInsert_returns {vl : VList α} {ind : ℕ} (dat : α) (hi : ind ≤ vl.toList.length) :
    Returns (vlInsert vl ind dat) fun vl' => vl'.toList = swapInsert vl.toList ind dat := by
  rw [vlInsert, ← vl.length_toList]
  refine Returns.bind (returns_require.mpr ⟨hi, trivial⟩) (P := fun _ => True) fun _ _ => ?_
  split_ifs with hend
  · refine (vlPush_returns vl dat).mono fun vl' h => ?_
    have hnone : vl.toList[ind]? = none := by rw [hend]; simp
    rw [h, swapInsert, hnone]
  · have hlt : ind < vl.toList.length := by omega
    rw [vlGet_eq hlt]
    refine (vlPush_returns vl vl.toList[ind]).bind fun vl' hpush => ?_
    have hlt' : ind < vl'.toList.length := by rw [hpush, List.length_append]; omega
    refine (vlSet_returns dat hlt').mono fun vl'' hset => ?_
    rw [hset, hpush, List.set_append_left _ _ hlt, swapInsert, List.getElem?_eq_getElem hlt]

/-- A random pick deletes the element that the draw selects. -/
theorem vlPoprand_draws {σ : Type} (random : σ → ℕ × σ) {vl : VList α} (world : σ)
    (h : vl.toList ≠ []) :
    Returns (vlPoprand random vl world) fun r =>
      r.1 = vl.toList[(random world).1 % vl.toList.length]? ∧
        r.2.1.toList = swapRemove vl.toList ((random world).1 % vl.toList.length) ∧ r.2.2 = (random world).2 := by
  have hpos : 0 < vl.toList.length := List.length_pos_of_ne_nil h
  have hlen : vl.len ≠ 0 := by rw [← vl.length_toList]; omega
  have hi := Nat.mod_lt (random world).1 hpos
  rw [vlPoprand, if_neg hlen, ← vl.length_toList]
  dsimp only
  rw [vlGet_eq hi]
  apply (vlDel_returns hi).bind
  rintro ⟨rv, vl'⟩ ⟨-, hdel⟩
  exact returns_pure.mpr ⟨(List.getElem?_eq_getElem hi).symm, hdel, rfl⟩

theorem vlPoprand_returns {σ : Type} (random : σ → ℕ × σ) {vl : VList α} (world : σ)
    (h : vl.toList ≠ []) :
    Returns (vlPoprand random vl world) fun r =>
      ∃ (i : ℕ) (hi : i < vl.toList.length), r.1 = some vl.toList[i] ∧
        r.2.1.toList = swapRemove vl.toList i := by
  have hi := Nat.mod_lt (random world).1 (List.length_pos_of_ne_nil h)
  apply (vlPoprand_draws random world h).mono
  intro r hr
  exact ⟨_, hi, hr.1.trans (List.getElem?_eq_getElem hi), hr.2.1⟩

end ChannelBench
