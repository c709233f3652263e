import ChannelBench.CRun
import ChannelBench.CSequence
import Mathlib.Algebra.BigOperators.Group.List.Basic
import Mathlib.Algebra.GroupWithZero.Nat
import Mathlib.Logic.Equiv.Basic

/-! Arrays with checked accesses, and the exchange of two entries that in-place shuffles are made of.
An exchange is described by the transposition of indices it performs. -/

namespace CSem

variable {α : Type}

/-- `array[i]`. -/
def readAt (array : List α) (i : ℕ) : Run α :=
  match array[i]? with
  | some x => pure x
  | none => throw .bounds

/-- `array[i] = x`. -/
def writeAt (array : List α) (i : ℕ) (x : α) : Run (List α) :=
  if i < array.length then pure (array.set i x) else throw .bounds

theorem readAt_eq {array : List α} {i : ℕ} (hi : i < array.length) :
    readAt array i = .ok array[i] := by
  rw [readAt, List.getElem?_eq_getElem hi]
  rfl

theorem readAt_of_eq_some {array : List α} {i : ℕ} {x : α} (h : array[i]? = some x) : readAt array i = .ok x := by
  rw [readAt, h]
  rfl

theorem writeAt_eq {array : List α} {i : ℕ} (x : α) (hi : i < array.length) :
    writeAt array i x = .ok (array.set i x) := if_pos hi

/-- Filling an array from the front, one entry further. -/
theorem set_filled (f : ℕ → α) {array : List α} {i : ℕ} (hi : i < array.length) :
    ((List.range i).map f ++ array.drop i).set i (f i) = (List.range (i + 1)).map f ++ array.drop (i + 1) := by
  rw [List.set_append_right _ _ (by simp), List.length_map, List.length_range, Nat.sub_self,
    List.drop_eq_getElem_cons hi, List.set_cons_zero, List.range_succ, List.map_append, List.append_assoc]
  rfl

theorem length_filled (f : ℕ → α) {array : List α} {i : ℕ} (hi : i ≤ array.length) :
    ((List.range i).map f ++ array.drop i).length = array.length := by
  rw [List.length_append, List.length_map, List.length_range, List.length_drop]
  omega

/-- `for (i = 0; i < n; i++) array[i] = f(i)`. -/
theorem fill_returns (f : ℕ → α) {array : List α} {n : ℕ} (hn : n ≤ array.length) :
    Returns (forUpto (fun i array => writeAt array i (f i)) n array) fun array' =>
      array' = (List.range n).map f ++ array.drop n := by
  apply forUpto_returns (fun i array' => array' = (List.range i).map f ++ array.drop i) (by simp)
  rintro i hi _ rfl
  rw [writeAt_eq _ (by rw [length_filled] <;> omega), returns_ok]
  exact set_filled f (by omega)

/-- `for (i = start; i < start + n; i++) sum += array[i]`. -/
theorem sum_returns (array : List ℕ) (start n sum : ℕ) (hn : start + n ≤ array.length) :
    Returns (forUpto (fun i sum => do return sum + (← readAt array (start + i))) n sum) fun sum' =>
      sum' = sum + ((array.drop start).take n).sum := by
  apply forUpto_returns (fun i sum' => sum' = sum + ((array.drop start).take i).sum) (by simp)
  intro i hi sum' hsum
  have hlt : start + i < array.length := by omega
  have hin : i < (array.drop start).length := by
    rw [List.length_drop]
    omega
  rw [readAt_eq hlt, ok_bind, returns_pure, hsum, List.take_succ_eq_append_getElem hin, List.sum_append,
    List.sum_singleton, List.getElem_drop, Nat.add_assoc]

/-- `t = array[p]; array[p] = array[i]; array[i] = t`. -/
def swapAt (array : List α) (i p : ℕ) : Run (List α) := do
  let t ← readAt array p
  let u ← readAt array i
  let array ← writeAt array p u
  writeAt array i t

/-- An array after the exchange of two entries. -/
structure Swapped (i p : ℕ) (array array' : List α) : Prop where
  length_eq : array'.length = array.length
  getElem?_eq : ∀ k, array'[k]? = array[Equiv.swap i p k]?

theorem swapAt_returns {array : List α} {i p : ℕ} (hi : i < array.length) (hp : p < array.length) :
    Returns (swapAt array i p) (Swapped i p array) := by
  rw [swapAt, readAt_eq hp, ok_bind, readAt_eq hi, ok_bind, writeAt_eq _ hp, ok_bind,
    writeAt_eq _ (by rwa [List.length_set]), returns_ok]
  refine ⟨by simp, fun k => ?_⟩
  by_cases hki : k = i
  · subst hki
    rw [Equiv.swap_apply_left, List.getElem?_set_self (by rwa [List.length_set]),
      List.getElem?_eq_getElem hp]
  by_cases hkp : k = p
  · subst hkp
    rw [Equiv.swap_apply_right, List.getElem?_set_ne (Ne.symm hki), List.getElem?_set_self hp,
      List.getElem?_eq_getElem hi]
  · rw [Equiv.swap_apply_of_ne_of_ne hki hkp, List.getElem?_set_ne (Ne.symm hki),
      List.getElem?_set_ne (Ne.symm hkp)]

/-! ### Arrays of counters -/

section Tally

/-- An array of counters after each of a list of its indices has been counted once. -/
def tally (n : ℕ) (keys : List ℕ) : List ℕ := (List.range n).map fun i => keys.count i

variable {n m k : ℕ} {keys : List ℕ}

@[simp] theorem length_tally : (tally n keys).length = n := by
  rw [tally, List.length_map, List.length_range]

theorem getElem?_tally (hk : k < n) : (tally n keys)[k]? = some (keys.count k) := by
  rw [tally, List.getElem?_map, List.getElem?_range hk]
  rfl

/-- `array[k]++` counts one more index. -/
theorem tally_append (hk : k < n) : tally n (keys ++ [k]) = (tally n keys).set k (keys.count k + 1) := by
  apply List.ext_getElem?
  intro i
  by_cases hi : i < n
  · rw [getElem?_tally hi, List.count_append, List.count_singleton, List.getElem?_set, length_tally]
    by_cases hki : k = i
    · subst hki
      simp [hk]
    · simp [hki, getElem?_tally hi]
  · have hle : n ≤ i := Nat.not_lt.mp hi
    rw [List.getElem?_eq_none (by simpa using hle), List.getElem?_eq_none (by simpa using hle)]

theorem sum_tally : (tally n keys).sum = keys.countP (· < n) := by
  induction n with
  | zero => simp [tally]
  | succ n ih =>
      have hsplit : keys.countP (· < n + 1) = keys.countP (· < n) + keys.count n := by
        clear ih
        induction keys with
        | nil => rfl
        | cons k keys ih =>
            rw [List.countP_cons, List.countP_cons, List.count_cons, ih]
            simp only [decide_eq_true_eq, beq_iff_eq]
            split_ifs <;> omega
      rw [hsplit, ← ih]
      simp [tally, List.range_succ]

/-- The counters below a bound. -/
theorem sum_take_tally (hm : m ≤ n) : ((tally n keys).take m).sum = keys.countP (· < m) := by
  rw [← sum_tally, tally, tally, ← List.map_take, List.take_range, Nat.min_eq_left hm]

/-- The counters from a bound on. -/
theorem sum_drop_tally (hkeys : ∀ k ∈ keys, k < n) (hm : m ≤ n) :
    ((tally n keys).drop m).sum = keys.countP (m ≤ ·) := by
  have hall : (tally n keys).sum = keys.length := by
    rw [sum_tally, List.countP_eq_length.mpr (by simpa using hkeys)]
  have hsum := List.sum_take_add_sum_drop (tally n keys) m
  have hcount := List.length_eq_countP_add_countP (fun k => decide (k < m)) (l := keys)
  rw [sum_take_tally hm, hall, hcount] at hsum
  simpa using hsum

end Tally

end CSem
