import ChannelBench.CArray
import ChannelBench.CBitmap

/-! Loops that enter the members of a bitmap in an array, in order. The words of the bitmap are read one
after another and the bits of a word from the lowest on, so that what has been entered after any number of
bits is the list of the members below that number. -/

namespace CSem

variable {width : ℕ} {α : Type}

/-- The members of a bitmap below `m`, in order. -/
def members (words : List (BitVec width)) (m : ℕ) : List ℕ := (List.range m).filter (bitAt words)

section Members

variable {words : List (BitVec width)} {m : ℕ}

theorem members_succ (words : List (BitVec width)) (m : ℕ) :
    members words (m + 1) = if bitAt words m then members words m ++ [m] else members words m := by
  unfold members
  rw [List.range_succ, List.filter_append]
  cases hbit : bitAt words m with
  | false => simp [hbit]
  | true => simp [hbit]

theorem length_members_le (words : List (BitVec width)) (m : ℕ) : (members words m).length ≤ m := by
  simpa [members] using List.length_filter_le (bitAt words) (List.range m)

theorem nodup_members (words : List (BitVec width)) (m : ℕ) : (members words m).Nodup :=
  List.nodup_range.filter _

theorem mem_members {n : ℕ} : n ∈ members words m ↔ n < m ∧ bitAt words n = true := by
  rw [members, List.mem_filter, List.mem_range]

/-- A function that keeps the numbers below `m` keeps the members. -/
theorem map_members {f : ℕ → ℕ} (hf : ∀ n, n < m → f n = n) : (members words m).map f = members words m := by
  have hid : (members words m).map f = (members words m).map id := by
    apply List.map_congr_left
    intro n hn
    exact hf n (mem_members.mp hn).1
  rw [hid, List.map_id]

theorem bitAt_word {i j : ℕ} (hi : i < words.length) (hj : j < width) :
    bitAt words (i * width + j) = words[i].getLsbD j := by
  have hdiv : (i * width + j) / width = i := by
    rw [Nat.mul_comm, Nat.mul_add_div (by omega), Nat.div_eq_of_lt hj, Nat.add_zero]
  have hmod : (i * width + j) % width = j := by
    rw [Nat.mul_comm, Nat.mul_add_mod, Nat.mod_eq_of_lt hj]
  rw [bitAt, hdiv, hmod, List.getElem?_eq_getElem hi]
  rfl

/-- A bitmap has a member when one of its words is not zero. -/
theorem exists_bitAt_iff : (∃ n, n < words.length * width ∧ bitAt words n = true) ↔
    ∃ word ∈ words, word ≠ BitVec.ofNat width 0 := by
  constructor
  · intro h
    obtain ⟨n, hn, hbit⟩ := h
    have hword : n / width < words.length := Nat.div_lt_of_lt_mul (by rwa [Nat.mul_comm])
    refine ⟨words[n / width], List.getElem_mem hword, ?_⟩
    intro hzero
    rw [bitAt, List.getElem?_eq_getElem hword, hzero] at hbit
    simp at hbit
  · intro h
    obtain ⟨word, hmem, hne⟩ := h
    obtain ⟨i, hi, rfl⟩ := List.getElem_of_mem hmem
    obtain ⟨j, hj, hbit⟩ : ∃ j, j < width ∧ words[i].getLsbD j = true := by
      by_contra hnone
      apply hne
      apply BitVec.eq_of_getLsbD_eq
      intro j hj
      have hclear : words[i].getLsbD j ≠ true := fun hbit => hnone ⟨j, hj, hbit⟩
      simpa using hclear
    have hlast := Nat.mul_le_mul_right width (Nat.succ_le_of_lt hi)
    rw [Nat.succ_mul] at hlast
    exact ⟨i * width + j, by omega, by rw [bitAt_word hi hj, hbit]⟩

end Members

/-- `for (j = 0; j < width; j++) if (word & (1 << j)) array[n++] = i * width + j`. -/
def gatherWord (entry : ℕ → α) (i : ℕ) (word : BitVec width) (st : ℕ × List α) : Run (ℕ × List α) :=
  forUpto (fun j st => do
      if word &&& BitVec.ofNat width 1 <<< j != BitVec.ofNat width 0 then
        let array ← writeAt st.2 st.1 (entry (i * width + j))
        return (st.1 + 1, array)
      else
        return st)
    width st

/-- The members below `m` have been entered in an array of the given length. -/
structure Gathered (entry : ℕ → α) (words : List (BitVec width)) (length m : ℕ) (st : ℕ × List α) : Prop where
  count_eq : st.1 = (members words m).length
  entries_eq : st.2.take st.1 = (members words m).map entry
  length_eq : st.2.length = length

section Gather

variable {entry : ℕ → α} {words : List (BitVec width)} {length m : ℕ} {st : ℕ × List α}

theorem gathered_start {array : List α} (h : array.length = length) :
    Gathered entry words length 0 (0, array) := ⟨rfl, rfl, h⟩

theorem Gathered.count_le (h : Gathered entry words length m st) : st.1 ≤ m := by
  rw [h.count_eq]
  exact length_members_le words m

/-- A bit that is clear enters nothing. -/
theorem Gathered.skip (h : Gathered entry words length m st) (hbit : bitAt words m = false) :
    Gathered entry words length (m + 1) st := by
  have hsame : members words (m + 1) = members words m := by
    rw [members_succ, hbit]
    rfl
  exact ⟨by rw [h.count_eq, hsame], by rw [h.entries_eq, hsame], h.length_eq⟩

/-- A bit that is set enters its number behind the others. -/
theorem Gathered.enter (h : Gathered entry words length m st) (hbit : bitAt words m = true)
    (hroom : st.1 < length) :
    Gathered entry words length (m + 1) (st.1 + 1, st.2.set st.1 (entry m)) := by
  have hmore : members words (m + 1) = members words m ++ [m] := by rw [members_succ, if_pos hbit]
  constructor
  · rw [hmore, List.length_append, h.count_eq]
    rfl
  · rw [hmore, List.map_append, ← h.entries_eq]
    exact take_set_succ (by rwa [h.length_eq]) (entry m)
  · exact List.length_set.trans h.length_eq

/-- The members of one more word are entered. -/
theorem gatherWord_returns {i : ℕ} (hi : i < words.length) (hroom : (i + 1) * width ≤ length)
    (h : Gathered entry words length (i * width) st) :
    Returns (gatherWord entry i words[i] st) (Gathered entry words length ((i + 1) * width)) := by
  rw [Nat.succ_mul] at hroom ⊢
  apply forUpto_returns (fun j => Gathered entry words length (i * width + j)) h
  intro j hj st hst
  have hcount := hst.count_le
  simp only [and_mask_ne_zero _ hj, ← bitAt_word hi hj]
  cases hbit : bitAt words (i * width + j) with
  | false =>
      rw [if_neg Bool.false_ne_true, returns_pure]
      exact hst.skip hbit
  | true =>
      rw [if_pos rfl, writeAt_eq _ (by rw [hst.length_eq]; omega), ok_bind, returns_pure]
      exact hst.enter hbit (by omega)

end Gather

end CSem
