import Mathlib.Data.List.Perm.Basic
import Mathlib.Data.List.Basic
import Mathlib.Tactic.Common

/-! Sequences kept in arrays. `swapRemove` deletes an element by moving the last one into its slot,
and `swapInsert` undoes it. Deletion keeps the multiset of the remaining elements but not their
order, so the lemmas describe both what a deletion does to a sequence split at its index and what
it does up to permutation. Sequences that are made of pieces of the same length have the length one
expects. -/

namespace CSem

variable {α : Type}

/-- Delete the element at an index and move the last element into its place. -/
def swapRemove (l : List α) (i : ℕ) : List α :=
  match l.getLast? with
  | none => []
  | some y => (l.set i y).dropLast

/-- Put an element at an index and move the one it displaces to the end. -/
def swapInsert (l : List α) (i : ℕ) (x : α) : List α :=
  match l[i]? with
  | none => l ++ [x]
  | some y => l.set i x ++ [y]

@[simp] theorem length_swapRemove (l : List α) (i : ℕ) :
    (swapRemove l i).length = l.length - 1 := by
  unfold swapRemove
  split
  · next h => simp [List.getLast?_eq_none_iff.mp h]
  · simp

@[simp] theorem swapRemove_append_singleton (pre : List α) (x : α) :
    swapRemove (pre ++ [x]) pre.length = pre := by
  simp [swapRemove]

@[simp] theorem swapRemove_append_cons (pre mid : List α) (x y : α) :
    swapRemove (pre ++ x :: (mid ++ [y])) pre.length = pre ++ y :: mid := by
  have hlast : (pre ++ x :: (mid ++ [y])).getLast? = some y := by
    rw [show pre ++ x :: (mid ++ [y]) = (pre ++ x :: mid) ++ [y] by simp, List.getLast?_concat]
  have hset : (pre ++ x :: (mid ++ [y])).set pre.length y = (pre ++ y :: mid) ++ [y] := by
    simp
  simp only [swapRemove, hlast, hset, List.dropLast_concat]

/-- A sequence split at an index, with the tail empty or ending in a last element. -/
theorem exists_split {l : List α} {i : ℕ} (hi : i < l.length) :
    ∃ pre rest, l = pre ++ l[i] :: rest ∧ pre.length = i ∧
      (rest = [] ∨ ∃ mid y, rest = mid ++ [y]) := by
  refine ⟨l.take i, l.drop (i + 1), ?_, by simp; omega, ?_⟩
  · rw [List.getElem_cons_drop, List.take_append_drop]
  · rcases List.eq_nil_or_concat (l.drop (i + 1)) with h | ⟨mid, y, h⟩
    · exact Or.inl h
    · exact Or.inr ⟨mid, y, by simpa using h⟩

/-- After a deletion at `pre.length` the elements in front are untouched. -/
theorem swapRemove_split (pre rest : List α) (x : α) :
    ∃ rest', swapRemove (pre ++ x :: rest) pre.length = pre ++ rest' ∧ rest'.Perm rest := by
  rcases List.eq_nil_or_concat rest with rfl | ⟨mid, y, hrest⟩
  · exact ⟨[], by simp, .refl _⟩
  · rw [show rest = mid ++ [y] by simpa using hrest]
    exact ⟨y :: mid, swapRemove_append_cons _ _ _ _, (List.perm_append_singleton y mid).symm⟩

theorem perm_swapRemove {l : List α} {i : ℕ} (hi : i < l.length) :
    (l[i] :: swapRemove l i).Perm l := by
  obtain ⟨pre, rest, hl, hpre, -⟩ := exists_split hi
  obtain ⟨rest', hrest', hperm⟩ := swapRemove_split pre rest l[i]
  have heq : swapRemove l i = pre ++ rest' := by
    rw [← hrest', ← hl, hpre]
  rw [heq]
  calc (l[i] :: (pre ++ rest')).Perm (pre ++ l[i] :: rest') := List.perm_middle.symm
    List.Perm _ (pre ++ l[i] :: rest) := (hperm.cons _).append_left _
    _ = l := hl.symm

/-- Entering an element behind the first `n` entries of an array. -/
theorem take_set_succ {array : List α} {n : ℕ} (hn : n < array.length) (x : α) :
    (array.set n x).take (n + 1) = array.take n ++ [x] := by
  rw [List.take_succ_eq_append_getElem (by rwa [List.length_set]), List.take_set_of_le (Nat.le_refl n),
    List.getElem_set_self]

/-- Deletion from the first `n` entries of an array, which leaves the entries behind them alone. -/
theorem take_set_last {array : List α} {i n : ℕ} (hi : i < n) (hn : n ≤ array.length) :
    (array.set i array[n - 1]).take (n - 1) = swapRemove (array.take n) i := by
  have hlast : (array.take n).getLast? = some array[n - 1] := by
    rw [List.getLast?_eq_getElem?, List.length_take, Nat.min_eq_left hn,
      List.getElem?_take_of_lt (by omega), List.getElem?_eq_getElem]
  simp only [swapRemove, hlast]
  rw [← List.take_set, List.dropLast_eq_take, List.take_take, List.length_take, List.length_set]
  congr 1
  omega

/-- Putting a deleted element back restores the sequence, also when it was the last one. -/
theorem swapInsert_swapRemove {l : List α} {i : ℕ} (hi : i < l.length) :
    swapInsert (swapRemove l i) i l[i] = l := by
  obtain ⟨pre, rest, hl, hpre, hrest⟩ := exists_split hi
  generalize l[i] = x at hl ⊢
  subst hl hpre
  rcases hrest with rfl | ⟨mid, y, rfl⟩
  · simp [swapInsert]
  · rw [swapRemove_append_cons]
    simp [swapInsert]

/-! ### Sequences made of equal pieces -/

section Pieces

variable {β : Type} {piece : α → List β} {n : ℕ}

theorem length_pieces (l : List α) (h : ∀ a ∈ l, (piece a).length = n) :
    (l.flatMap piece).length = l.length * n := by
  calc (l.flatMap piece).length = (l.map fun a => (piece a).length).sum := List.length_flatMap
    _ = (l.map fun _ => n).sum := by rw [List.map_congr_left h]
    _ = l.length * n := by rw [List.map_const', List.sum_replicate_nat]

theorem count_pieces [DecidableEq β] (l : List α) {x : β} (h : ∀ a ∈ l, (piece a).count x = n) :
    (l.flatMap piece).count x = l.length * n := by
  calc (l.flatMap piece).count x = (l.map fun a => (piece a).count x).sum := List.count_flatMap
    _ = (l.map fun _ => n).sum := by rw [List.map_congr_left h]
    _ = l.length * n := by rw [List.map_const', List.sum_replicate_nat]

end Pieces

/-- A prefix that has the last element is everything, if that element does not come earlier. -/
theorem eq_of_prefix_concat {α : Type} {l l' : List α} {x : α} (h : l <+: l' ++ [x]) (hx : x ∈ l) (hnot : x ∉ l') :
    l = l' ++ [x] := by
  rcases List.prefix_concat_iff.mp h with h | h
  · exact h
  · exact absurd (h.subset hx) hnot

end CSem
