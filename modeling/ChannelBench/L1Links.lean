import ChannelBench.L1State
import ChannelBench.CPath
import Mathlib.Tactic.Ring

/-! The pointers of the L1 probe buffer as independent cells. A pointer is named by its set, its way
and its direction; storing one leaves the others, and so does the write of `probelist` into a line. -/

namespace ChannelBench

open CSem

/-- The name of a pointer: set, way, and 0 for forward or 1 for backward. -/
structure L1Slot where
  set : ℕ
  way : ℕ
  direction : ℕ
  deriving DecidableEq

namespace L1Layout

variable (l1 : L1Layout)

/-- A pointer inside the probe buffer. -/
def Valid (slot : L1Slot) : Prop :=
  slot.set < l1.l1Sets ∧ slot.way < l1.l1Associativity ∧ slot.direction < 2

def slotPtr (slot : L1Slot) : ℕ := l1.ptr slot.set slot.way slot.direction

/-- The number of the line of a pointer. -/
def lineNo (slot : L1Slot) : ℕ := slot.set + slot.way * l1.l1Sets

variable {l1} {slot slot' : L1Slot}

theorem valid_forward {set way : ℕ} (hset : set < l1.l1Sets) (hway : way < l1.l1Associativity) :
    l1.Valid ⟨set, way, 0⟩ := ⟨hset, hway, Nat.zero_lt_two⟩

theorem valid_backward {set way : ℕ} (hset : set < l1.l1Sets) (hway : way < l1.l1Associativity) :
    l1.Valid ⟨set, way, 1⟩ := ⟨hset, hway, Nat.one_lt_two⟩

theorem slotPtr_eq (l1 : L1Layout) (slot : L1Slot) : l1.slotPtr slot =
    l1.memory + l1.lineNo slot * l1.l1Cacheline + slot.direction * l1.sizeofPtr := by
  unfold slotPtr ptr lineNo L1Config.l1Stride
  ring

/-- A line has one set and one way. -/
theorem lineNo_inj (h : l1.Valid slot) (h' : l1.Valid slot')
    (heq : l1.lineNo slot = l1.lineNo slot') : slot.set = slot'.set ∧ slot.way = slot'.way := by
  unfold lineNo at heq
  have hmod := congrArg (· % l1.l1Sets) heq
  simp only [Nat.add_mul_mod_self_right, Nat.mod_eq_of_lt h.1, Nat.mod_eq_of_lt h'.1] at hmod
  rw [hmod] at heq
  exact ⟨hmod, Nat.eq_of_mul_eq_mul_right (Nat.lt_of_le_of_lt (Nat.zero_le _) h.1)
    (Nat.add_left_cancel heq)⟩

theorem line_le (l1 : L1Layout) {m n : ℕ} (h : m < n) :
    m * l1.l1Cacheline + l1.l1Cacheline ≤ n * l1.l1Cacheline := by
  have hmul := Nat.mul_le_mul_right l1.l1Cacheline (Nat.succ_le_of_lt h)
  rwa [Nat.succ_mul] at hmul

theorem direction_le (h : l1.Valid slot) : slot.direction * l1.sizeofPtr ≤ l1.sizeofPtr := by
  have hdir := h.2.2
  rcases Nat.lt_or_ge slot.direction 1 with h0 | h1
  · rw [show slot.direction = 0 by omega, Nat.zero_mul]
    exact Nat.zero_le _
  · rw [show slot.direction = 1 by omega, Nat.one_mul]

/-- Every line is inside the probe buffer. -/
theorem line_inside (h : l1.Valid slot) : l1.memory + l1.lineNo slot * l1.l1Cacheline + l1.l1Cacheline ≤
    l1.memory + l1.toL1Config.l1Stride * l1.l1Associativity := by
  have hline : l1.lineNo slot < l1.l1Associativity * l1.l1Sets := by
    have hmul := Nat.mul_le_mul_right l1.l1Sets (Nat.succ_le_of_lt h.2.1)
    have hset := h.1
    rw [Nat.succ_mul] at hmul
    unfold lineNo
    omega
  have hle := line_le l1 hline
  have hbuffer : l1.l1Associativity * l1.l1Sets * l1.l1Cacheline =
      l1.toL1Config.l1Stride * l1.l1Associativity := by
    unfold L1Config.l1Stride
    ring
  omega

theorem line_fits (h : l1.Valid slot) :
    l1.memory + l1.lineNo slot * l1.l1Cacheline + l1.l1Cacheline ≤ 256 ^ l1.sizeofPtr :=
  (line_inside h).trans l1.memory_fits

theorem slotPtr_lt (h : l1.Valid slot) : l1.slotPtr slot < 256 ^ l1.sizeofPtr := by
  have hfits := line_fits h
  have hdir := direction_le h
  have hroom := l1.line_room
  rw [slotPtr_eq]
  omega

theorem slotPtr_ne_zero (l1 : L1Layout) (slot : L1Slot) : l1.slotPtr slot ≠ 0 := by
  have hpos := l1.memory_pos
  rw [slotPtr_eq]
  omega

/-- Different pointers do not overlap. -/
theorem slotPtr_separated (h : l1.Valid slot) (h' : l1.Valid slot') (hne : slot ≠ slot') :
    l1.slotPtr slot + l1.sizeofPtr ≤ l1.slotPtr slot' ∨
      l1.slotPtr slot' + l1.sizeofPtr ≤ l1.slotPtr slot := by
  have hroom := l1.line_room
  have hptr := l1.ptr_room
  have hdir := direction_le h
  have hdir' := direction_le h'
  rw [slotPtr_eq, slotPtr_eq]
  rcases Nat.lt_trichotomy (l1.lineNo slot) (l1.lineNo slot') with hlt | heq | hlt
  · have := line_le l1 hlt
    omega
  · obtain ⟨hset, hway⟩ := lineNo_inj h h' heq
    have hdirections : slot.direction ≠ slot'.direction := by
      intro hdirection
      apply hne
      cases slot
      cases slot'
      simp_all only
    have hlow := h.2.2
    have hlow' := h'.2.2
    rw [heq]
    rcases Nat.lt_or_gt_of_ne hdirections with h01 | h10
    · rw [show slot.direction = 0 by omega, show slot'.direction = 1 by omega]
      omega
    · rw [show slot.direction = 1 by omega, show slot'.direction = 0 by omega]
      omega
  · have := line_le l1 hlt
    omega

/-- The write into a line is behind both of its pointers. -/
theorem write_apart (h : l1.Valid slot) (h' : l1.Valid slot') :
    l1.slotPtr slot' + l1.sizeofPtr ≤ l1.slotPtr slot + 16 ∨
      l1.slotPtr slot + 16 + 4 ≤ l1.slotPtr slot' := by
  have hroom := l1.line_room
  have hptr := l1.ptr_room
  have hdir := direction_le h
  have hdir' := direction_le h'
  rw [slotPtr_eq, slotPtr_eq]
  rcases Nat.lt_trichotomy (l1.lineNo slot) (l1.lineNo slot') with hlt | heq | hlt
  · have := line_le l1 hlt
    omega
  · rw [heq]
    omega
  · have := line_le l1 hlt
    omega

/-- What the pointer leads to. -/
def follow (l1 : L1Layout) (mem : Mem) (slot : L1Slot) : ℕ := load mem l1.sizeofPtr (l1.slotPtr slot)

/-- Storing a pointer changes that pointer alone. -/
theorem follow_link (mem : Mem) {target : L1Slot} (h : l1.Valid slot) (h' : l1.Valid slot')
    (htarget : l1.Valid target) :
    l1.follow (l1.link mem (l1.slotPtr slot) (l1.slotPtr target)) slot' =
      if slot' = slot then l1.slotPtr target else l1.follow mem slot' := by
  unfold follow link
  split_ifs with heq
  · rw [heq]
    exact load_store_same _ _ _ _ (slotPtr_lt htarget)
  · exact load_store_of_disjoint _ _ (slotPtr_separated h' h heq)

theorem slotPtr_inj (h : l1.Valid slot) (h' : l1.Valid slot')
    (heq : l1.slotPtr slot = l1.slotPtr slot') : slot = slot' := by
  by_contra hne
  have hsep := slotPtr_separated h h' hne
  have hptr := l1.ptr_pos
  omega

end L1Layout

end ChannelBench
