import Mathlib.Data.Nat.Basic
import Mathlib.Tactic.Common

/-! Sets of numbers as bits of an array of words: bit `n % width` of word `n / width`. Testing,
setting and clearing a bit through a shifted mask are membership, insertion and removal. -/

namespace CSem

variable {width : ℕ}

/-- The bit of a number, which is clear outside the array. -/
def bitAt (words : List (BitVec width)) (n : ℕ) : Bool :=
  (words[n / width]?).elim false fun word => word.getLsbD (n % width)

theorem getLsbD_mask {k j : ℕ} (hj : j < width) :
    (BitVec.ofNat width 1 <<< k).getLsbD j = decide (j = k) := by
  rw [BitVec.getLsbD_shiftLeft, BitVec.getLsbD_one]
  by_cases hjk : j = k
  · simp [hjk, show k < width by omega, show 0 < width by omega]
  · by_cases hlt : j < k
    · simp [hlt, hjk]
    · simp [hjk, show ¬j - k = 0 by omega]

/-- A mask keeps one bit of a word. -/
theorem and_mask_ne_zero (word : BitVec width) {k : ℕ} (hk : k < width) :
    (word &&& BitVec.ofNat width 1 <<< k != BitVec.ofNat width 0) = word.getLsbD k := by
  cases hbit : word.getLsbD k with
  | true =>
      have hne : word &&& BitVec.ofNat width 1 <<< k ≠ BitVec.ofNat width 0 := by
        intro hzero
        have hk' := congrArg (BitVec.getLsbD · k) hzero
        simp [hbit, getLsbD_mask hk] at hk'
      simp [hne]
  | false =>
      have heq : word &&& BitVec.ofNat width 1 <<< k = BitVec.ofNat width 0 := by
        apply BitVec.eq_of_getLsbD_eq
        intro j hj
        rw [BitVec.getLsbD_and, getLsbD_mask hj]
        by_cases hjk : j = k
        · simp [hjk, hbit]
        · simp [hjk]
      simp [heq]

variable {words : List (BitVec width)} {n : ℕ}

/-- Replacing the word of `n` by one that differs in the bit of `n` only. -/
theorem bitAt_set_word {word : BitVec width} (hwidth : 0 < width) (hn : n / width < words.length)
    (hother : ∀ j, j < width → j ≠ n % width →
      word.getLsbD j = (words[n / width]).getLsbD j) (t : ℕ) :
    bitAt (words.set (n / width) word) t =
      if t = n then word.getLsbD (n % width) else bitAt words t := by
  unfold bitAt
  by_cases hword : t / width = n / width
  · rw [hword, List.getElem?_set_self hn, List.getElem?_eq_getElem hn]
    show word.getLsbD (t % width) = if t = n then _ else (words[n / width]).getLsbD (t % width)
    by_cases htn : t = n
    · rw [if_pos htn, htn]
    · rw [if_neg htn]
      apply hother _ (Nat.mod_lt _ hwidth)
      intro hmod
      apply htn
      rw [← Nat.div_add_mod t width, hword, hmod, Nat.div_add_mod]
  · have htn : t ≠ n := fun h => hword (h ▸ rfl)
    rw [if_neg htn, List.getElem?_set_ne (Ne.symm hword)]

/-- Setting a bit inserts the number. -/
theorem bitAt_or_mask (hwidth : 0 < width) (hn : n / width < words.length) (t : ℕ) :
    bitAt (words.set (n / width) (words[n / width] ||| BitVec.ofNat width 1 <<< (n % width))) t =
      if t = n then true else bitAt words t := by
  have hlt : n % width < width := Nat.mod_lt _ hwidth
  rw [bitAt_set_word hwidth hn]
  · simp [getLsbD_mask hlt]
  · intro j hj hne
    simp [getLsbD_mask hj, hne]

/-- Clearing a bit removes the number. -/
theorem bitAt_and_not_mask (hwidth : 0 < width) (hn : n / width < words.length) (t : ℕ) :
    bitAt (words.set (n / width) (words[n / width] &&& ~~~(BitVec.ofNat width 1 <<< (n % width)))) t =
      if t = n then false else bitAt words t := by
  have hlt : n % width < width := Nat.mod_lt _ hwidth
  rw [bitAt_set_word hwidth hn]
  · rw [BitVec.getLsbD_and, BitVec.getLsbD_not, getLsbD_mask hlt]
    simp
  · intro j hj hne
    rw [BitVec.getLsbD_and, BitVec.getLsbD_not, getLsbD_mask hj]
    simp [hj, hne]

theorem bitAt_replicate_zero (count n : ℕ) : bitAt (List.replicate count (BitVec.ofNat width 0)) n = false := by
  unfold bitAt
  rw [List.getElem?_replicate]
  split_ifs <;> simp

end CSem
