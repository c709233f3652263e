import ChannelBench.CMachine
import ChannelBench.VList
import Mathlib.Algebra.GroupWithZero.Nat

/-! Runs of the calls of `vlist.h`. A list from `vl_new` answers as a sequence that is appended to, cut at its
end, and deleted from by moving the last element into the gap, as long as its calls satisfy what the functions
assert; its array grows with the sequence, to a size that an `int` holds. -/

namespace ChannelBench

open CSem

/-- A call on a list. -/
inductive VlOp (α : Type) where
  | push (dat : α)
  | pop
  | del (ind : ℕ)
  | insert (ind : ℕ) (dat : α)
  | set (ind : ℕ) (dat : α)
  | get (ind : ℕ)
  | poprand

namespace VlOp

variable {α σ : Type} (random : σ → ℕ × σ)

/-- The call, with its result; `none` is `NULL`, or that there is no result. -/
def run : VlOp α → VList α × σ → Run (Option α × VList α × σ)
  | push dat, (vl, world) => do
      let vl ← vlPush vl dat
      return (none, vl, world)
  | pop, (vl, world) => do
      let (dat, vl) ← vlPop vl
      return (dat, vl, world)
  | del ind, (vl, world) => do
      let (dat, vl) ← vlDel vl ind
      return (some dat, vl, world)
  | insert ind dat, (vl, world) => do
      let vl ← vlInsert vl ind dat
      return (none, vl, world)
  | set ind dat, (vl, world) => do
      let vl ← vlSet vl ind dat
      return (none, vl, world)
  | get ind, (vl, world) => do
      let dat ← vlGet vl ind
      return (some dat, vl, world)
  | poprand, (vl, world) => vlPoprand random vl world

/-- What the call does to a sequence. -/
def spec : VlOp α → List α × σ → Option α × List α × σ
  | push dat, (l, world) => (none, l ++ [dat], world)
  | pop, (l, world) => (l.getLast?, l.dropLast, world)
  | del ind, (l, world) => (l[ind]?, swapRemove l ind, world)
  | insert ind dat, (l, world) => (none, swapInsert l ind dat, world)
  | set ind dat, (l, world) => (none, l.set ind dat, world)
  | get ind, (l, world) => (l[ind]?, l, world)
  | poprand, (l, world) =>
      if l = [] then
        (none, l, world)
      else
        (l[(random world).1 % l.length]?, swapRemove l ((random world).1 % l.length), (random world).2)

/-- What the functions assert about an index, for a sequence that stays below 2^30 elements. -/
def Asserted : VlOp α → List α × σ → Prop
  | push _, t => t.1.length + 1 < 2 ^ 30
  | insert ind _, t => ind ≤ t.1.length ∧ t.1.length + 1 < 2 ^ 30
  | del ind, t | set ind _, t | get ind, t => ind < t.1.length
  | pop, _ | poprand, _ => True

instance : (op : VlOp α) → (t : List α × σ) → Decidable (op.Asserted t)
  | push _, t => inferInstanceAs (Decidable (t.1.length + 1 < 2 ^ 30))
  | insert ind _, t => inferInstanceAs (Decidable (ind ≤ t.1.length ∧ t.1.length + 1 < 2 ^ 30))
  | del ind, t | set ind _, t | get ind, t => inferInstanceAs (Decidable (ind < t.1.length))
  | pop, _ | poprand, _ => isTrue trivial

end VlOp

/-! ### The size of the array -/

section Size

variable {α σ : Type} {vl : VList α}

theorem vlSet_size (ind : ℕ) (dat : α) : Ensures (vlSet vl ind dat) fun vl' => vl'.size = vl.size := by
  unfold vlSet
  split_ifs
  · exact ensures_pure rfl
  · exact ensures_error

/-- A push doubles the size of a full array, whose elements are at most 2^30 - 2. -/
theorem vlPush_size (dat : α) (hlen : vl.toList.length + 1 < 2 ^ 30) (hsize : vl.size < 2 ^ 31) :
    Ensures (vlPush vl dat) fun vl' => vl'.size < 2 ^ 31 := by
  have happend : ∀ vl' : VList α, vl'.size < 2 ^ 31 → Ensures (vlAppend vl' dat) fun vl'' => vl''.size < 2 ^ 31 := by
    intro vl' h
    unfold vlAppend
    split_ifs
    · exact ensures_pure h
    · exact ensures_error
  rw [vl.length_toList] at hlen
  unfold vlPush
  split_ifs with hfull
  · apply (vlSetsize_returns (vl.size * 2) (by omega)).ensures.bind
    intro vl' hvl'
    exact happend vl' (by omega)
  · rw [pure_bind]
    exact happend vl hsize

theorem vlPop_size : Ensures (vlPop vl) fun r => r.2.size = vl.size := by
  unfold vlPop
  split_ifs
  · exact ensures_pure rfl
  · apply (ensures_true _).bind
    intro _ _
    exact ensures_pure rfl

theorem vlDel_size (ind : ℕ) : Ensures (vlDel vl ind) fun r => r.2.size = vl.size := by
  apply (ensures_true _).bind
  intro _ _
  apply (ensures_true _).bind
  intro last _
  apply (vlSet_size ind last).bind
  intro vl' h
  exact ensures_pure h

theorem vlPoprand_size (random : σ → ℕ × σ) (world : σ) :
    Ensures (vlPoprand random vl world) fun r => r.2.1.size = vl.size := by
  unfold vlPoprand
  split_ifs
  · exact ensures_pure rfl
  · apply (ensures_true _).bind
    intro _ _
    apply (vlDel_size _).bind
    intro r h
    exact ensures_pure h

theorem vlInsert_size (ind : ℕ) (dat : α) (hlen : vl.toList.length + 1 < 2 ^ 30) (hsize : vl.size < 2 ^ 31) :
    Ensures (vlInsert vl ind dat) fun vl' => vl'.size < 2 ^ 31 := by
  apply (ensures_true _).bind
  intro _ _
  split_ifs
  · exact vlPush_size dat hlen hsize
  · apply (ensures_true _).bind
    intro old _
    apply (vlPush_size old hlen hsize).bind
    intro vl' h
    apply (vlSet_size ind dat).mono
    intro vl'' h'
    rwa [h']

end Size

/-! ### The calls refine those on a sequence -/

section Refinement

variable {α σ : Type} (random : σ → ℕ × σ)

/-- A list holds a sequence, in an array whose size an `int` holds. -/
structure Holds (st : VList α × σ) (t : List α × σ) : Prop where
  elements : st.1.toList = t.1
  world : st.2 = t.2
  size : st.1.size < 2 ^ 31

theorem vlPop_answers (vl : VList α) :
    Returns (vlPop vl) fun r => r.1 = vl.toList.getLast? ∧ r.2.toList = vl.toList.dropLast := by
  by_cases hnil : vl.toList = []
  · have hlen : vl.len = 0 := by rw [← vl.length_toList, hnil, List.length_nil]
    rw [vlPop, if_pos hlen, returns_pure, hnil]
    exact ⟨rfl, rfl⟩
  · apply (vlPop_returns_some hnil).mono
    intro r hr
    exact ⟨hr.1.trans (List.getLast?_eq_some_getLast hnil).symm, hr.2⟩

/-- An asserted call answers as the one on the sequence and keeps the list in step with it. -/
theorem VlOp.run_refines (op : VlOp α) (st : VList α × σ) (t : List α × σ) (h : Holds st t)
    (hasserted : op.Asserted t) :
    Returns (op.run random st) fun r => r.1 = (op.spec random t).1 ∧ Holds r.2 (op.spec random t).2 := by
  obtain ⟨vl, world⟩ := st
  obtain ⟨l, world'⟩ := t
  obtain ⟨rfl, rfl, hsize⟩ := h
  cases op with
  | push dat =>
      apply ((vlPush_returns vl dat).and_ensures (vlPush_size dat hasserted hsize)).bind
      intro vl' h
      exact returns_pure.mpr ⟨rfl, h.1, rfl, h.2⟩
  | pop =>
      apply ((vlPop_answers vl).and_ensures vlPop_size).bind
      intro r h
      exact returns_pure.mpr ⟨h.1.1, h.1.2, rfl, h.2.symm ▸ hsize⟩
  | del ind =>
      apply ((vlDel_returns hasserted).and_ensures (vlDel_size ind)).bind
      intro r h
      refine returns_pure.mpr ⟨?_, h.1.2, rfl, h.2.symm ▸ hsize⟩
      exact (congrArg some h.1.1).trans (List.getElem?_eq_getElem hasserted).symm
  | insert ind dat =>
      apply ((vlInsert_returns dat hasserted.1).and_ensures (vlInsert_size ind dat hasserted.2 hsize)).bind
      intro vl' h
      exact returns_pure.mpr ⟨rfl, h.1, rfl, h.2⟩
  | set ind dat =>
      apply ((vlSet_returns dat hasserted).and_ensures (vlSet_size ind dat)).bind
      intro vl' h
      exact returns_pure.mpr ⟨rfl, h.1, rfl, h.2.symm ▸ hsize⟩
  | get ind =>
      rw [run, vlGet_eq hasserted, ok_bind, returns_pure]
      exact ⟨(List.getElem?_eq_getElem hasserted).symm, rfl, rfl, hsize⟩
  | poprand =>
      rw [run, spec]
      by_cases hnil : vl.toList = []
      · have hlen : vl.len = 0 := by rw [← vl.length_toList, hnil, List.length_nil]
        rw [if_pos hnil, vlPoprand, if_pos hlen, returns_pure]
        exact ⟨rfl, rfl, rfl, hsize⟩
      · rw [if_neg hnil]
        apply ((vlPoprand_draws random world hnil).and_ensures (vlPoprand_size random world)).mono
        intro r h
        exact ⟨h.1.1, h.1.2.1, h.1.2.2, h.2.symm ▸ hsize⟩

/-- Putting back the element that `vl_del` returns restores the sequence. -/
theorem vlInsert_vlDel (vl : VList α) {ind : ℕ} (hi : ind < vl.toList.length) :
    Returns (do
        let (dat, vl) ← vlDel vl ind
        vlInsert vl ind dat) fun vl' => vl'.toList = vl.toList := by
  apply (vlDel_returns hi).bind
  rintro ⟨dat, vl'⟩ ⟨rfl, hdel⟩
  have hle : ind ≤ vl'.toList.length := by
    rw [hdel, length_swapRemove]
    omega
  apply (vlInsert_returns _ hle).mono
  intro vl'' hinsert
  rw [hinsert, hdel, swapInsert_swapRemove hi]

/-- **A list of pointers.** A list from `vl_new` answers all asserted calls as the abstract sequence does and
holds that sequence after them, in the first elements of an array whose size an `int` holds; enlarging the
array keeps the sequence, and so does deleting an element and putting it back. -/
theorem vlist_refines (ops : List (VlOp α)) (world : σ)
    (hops : LegalAlong (VlOp.spec random) VlOp.Asserted ops ([], world)) :
    Returns (runAll (VlOp.run random) ops (vlNew, world)) fun r =>
      r.1 = (specAll (VlOp.spec random) ops ([], world)).1 ∧
        r.2.1.toList = (specAll (VlOp.spec random) ops ([], world)).2.1 ∧
        r.2.1.len = r.2.1.toList.length ∧ r.2.1.len ≤ r.2.1.size ∧ r.2.1.data.length = r.2.1.size ∧
        r.2.1.size < 2 ^ 31 ∧
        (Returns (vlSetsize r.2.1 (r.2.1.size * 2)) fun vl => vl.toList = r.2.1.toList) ∧
        ∀ ind < r.2.1.len, Returns (do
          let (dat, vl) ← vlDel r.2.1 ind
          vlInsert vl ind dat) fun vl => vl.toList = r.2.1.toList := by
  have hstart : Holds (vlNew, world) (([] : List α), world) := ⟨rfl, rfl, show 16 < 2 ^ 31 by decide⟩
  apply (runAll_simulates_legal Holds (VlOp.run_refines random) ops _ _ hstart hops).mono
  intro r hr
  obtain ⟨hanswers, hholds⟩ := hr
  refine ⟨hanswers, hholds.elements, r.2.1.length_toList.symm, r.2.1.len_le, r.2.1.data_length, hholds.size, ?_, ?_⟩
  · exact (vlSetsize_returns _ (by omega)).mono fun vl h => h.1
  · intro ind hi
    exact vlInsert_vlDel r.2.1 (by rwa [r.2.1.length_toList])

end Refinement

/-- The seventeenth push enlarges the array; its element is deleted and put back at the last index. -/
theorem vlist_refines_grown :
    Returns (runAll (VlOp.run fun draw => (draw, draw + 1))
        ((List.range 17).map .push ++ [.del 16, .insert 16 16, .del 3, .pop, .insert 0 90, .poprand, .get 2])
        (vlNew, 20)) fun r =>
      r.2.1.toList = [90, 1, 2, 16, 0, 5, 6, 7, 8, 9, 10, 11, 12, 13, 14] ∧ r.2.1.size < 2 ^ 31 := by
  have h := vlist_refines (fun draw : ℕ => (draw, draw + 1))
    ((List.range 17).map .push ++ [.del 16, .insert 16 16, .del 3, .pop, .insert 0 90, .poprand, .get 2]) 20
    (by decide)
  apply h.mono
  intro r hr
  exact ⟨hr.2.1, hr.2.2.2.2.2.1⟩

end ChannelBench
