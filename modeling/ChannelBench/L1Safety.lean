import ChannelBench.L1Lists

/-! Memory safety of changing the monitored sets. The accesses to the arrays of `struct l1info` are checked
by the model, and the stores of the links are followed byte by byte: each of them is inside the line of a
set and a way. What is left is the number of monitored sets, which closes the lists at entry `nsets - 1`. -/

namespace ChannelBench

open CSem L1Layout

/-- The bytes outside the probe buffer are as they were. -/
def OutsideKept (l1 : L1Layout) (mem mem' : Mem) : Prop :=
  ∀ a, a < l1.memory ∨ l1.memory + l1.toL1Config.l1Stride * l1.l1Associativity ≤ a → mem' a = mem a

section Outside

variable {l1 : L1Layout} {mem mem' : Mem} {slot : L1Slot} {a b : ℕ}

theorem L1Layout.slotPtr_inside (h : l1.Valid slot) : l1.memory ≤ l1.slotPtr slot ∧
    l1.slotPtr slot + l1.sizeofPtr ≤ l1.memory + l1.toL1Config.l1Stride * l1.l1Associativity := by
  have hline := line_inside h
  have hdirection := direction_le h
  have hroom := l1.line_room
  have hptr := l1.ptr_room
  rw [slotPtr_eq]
  omega

theorem OutsideKept.link (h : OutsideKept l1 mem mem') (hslot : l1.Valid slot) (value : ℕ) :
    OutsideKept l1 mem (l1.link mem' (l1.slotPtr slot) value) := by
  obtain ⟨hlow, hhigh⟩ := slotPtr_inside hslot
  intro a ha
  rw [L1Layout.link, store_apply_of_outside _ _ _ _ (by omega)]
  exact h a ha

/-- Linking one set to another writes inside the probe buffer. -/
theorem OutsideKept.hopLink (h : OutsideKept l1 mem mem') (ha : a < l1.l1Sets) :
    OutsideKept l1 mem (hopLink l1 mem' a b) :=
  (h.link (valid_forward ha l1.last_lt) _).link (valid_backward ha l1.assoc_pos) _

end Outside

section Safety

variable {σ : Type} (random : σ → ℕ × σ) {s : L1info} {masks : List (BitVec 64)}

/-- A mask with a bit set has a word that is not zero. -/
theorem maskOk_iff {C : L1Config} (hmasks : masks.length = C.monitorMask) :
    MaskOk C masks ↔ ∃ mask ∈ masks, mask ≠ 0#64 := by
  have hsets : masks.length * 64 = C.l1Sets := by
    rw [hmasks, L1Config.monitorMask, Nat.div_mul_cancel C.mask_words]
  have hbits : (∃ set, set < masks.length * 64 ∧ bitAt masks set = true) ↔ ∃ mask ∈ masks, mask ≠ 0#64 :=
    exists_bitAt_iff
  rw [hsets] at hbits
  rw [← hbits]
  exact ⟨fun h => h.some_bit, fun h => ⟨hmasks, h⟩⟩

/-- A mask without a bit set leaves no set to close the lists at. -/
theorem l1SetMonitoredSet_eq_error (hsets : s.monitoredSets.length = s.layout.monitorMask)
    (hmonitored : s.monitored.length = s.layout.l1Sets) (hmasks : masks.length = s.layout.monitorMask)
    (hzero : ¬∃ mask ∈ masks, mask ≠ 0#64) (world : σ) :
    l1SetMonitoredSet random s (some masks) world = .error .bounds := by
  have hnone : maskSets s.layout.toL1Config masks = [] := by
    apply List.filter_eq_nil_iff.mpr
    intro set hset hbit
    have hmask : MaskOk s.layout.toL1Config masks := ⟨hmasks, set, List.mem_range.mp hset, hbit⟩
    exact hzero ((maskOk_iff hmasks).mp hmask)
  obtain ⟨st, hst, -, -, hcount, -⟩ := l1MonitorWords_returns hmasks hsets hmonitored
  rw [hnone] at hcount
  rw [l1SetMonitoredSet, hst, ok_bind]
  exact l1Randomise_eq_error random hcount world

/-- **Memory safety.** Whatever the buffer holds and whatever is drawn, `l1_set_monitored_set` stays inside
its arrays and writes inside the probe buffer, if and only if the mask has a bit set. -/
theorem l1SetMonitoredSet_safe_iff (s : L1info) (hsets : s.monitoredSets.length = s.layout.monitorMask)
    (hmonitored : s.monitored.length = s.layout.l1Sets) (hmasks : masks.length = s.layout.monitorMask)
    (world : σ) :
    (∀ mem, Returns (l1SetMonitoredSet random { s with mem } (some masks) world) fun r =>
      OutsideKept s.layout mem r.1.mem) ↔ ∃ mask ∈ masks, mask ≠ 0#64 := by
  constructor
  · intro h
    by_contra hzero
    have hreturns := h s.mem
    rw [l1SetMonitoredSet_eq_error random hsets hmonitored hmasks hzero, returns_error] at hreturns
    exact hreturns
  · intro h mem
    have hmask := (maskOk_iff hmasks).mpr h
    have hstart : OutsideKept s.layout mem mem := fun _ _ => rfl
    have hkeep : ∀ mem' a b, a < s.layout.l1Sets → b < s.layout.l1Sets → OutsideKept s.layout mem mem' →
        OutsideKept s.layout mem (hopLink s.layout mem' a b) := fun _ _ _ ha _ hkept => hkept.hopLink ha
    have hreturns := l1SetMonitoredSet_keeps random s.layout (s := { s with mem }) rfl hsets hmonitored hstart
      hkeep hmask world
    exact hreturns.mono fun r hr => hr.2.1

/-- A prober of the L1 data cache before its first mask. -/
def unmaskedL1 : L1info where
  layout := (x86L1 false).layout ⟨4096, by decide, by decide⟩
  fwdlist := 0
  bkwlist := 0
  monitoredSets := [0#64]
  monitored := List.replicate 64 0
  nsets := 0
  mem := fun _ => 0#8

theorem l1SetMonitoredSet_safe_iff_x86 : (∃ mask ∈ [5#64], mask ≠ 0#64) ∧
    ∀ mem, Returns (l1SetMonitoredSet (fun world => (world, world + 1)) { unmaskedL1 with mem }
      (some [5#64]) 7) fun r => OutsideKept unmaskedL1.layout mem r.1.mem := by
  have hmask : ∃ mask ∈ [5#64], mask ≠ 0#64 := by simp
  exact ⟨hmask, (l1SetMonitoredSet_safe_iff (fun world => (world, world + 1)) unmaskedL1 rfl rfl rfl 7).mpr hmask⟩

/-- Monitoring nothing reads `monitored[-1]`. -/
theorem monitoring_nothing_unsafe : l1SetMonitoredSet (fun world => (world, world + 1)) unmaskedL1
    (some [0#64]) 7 = .error .bounds :=
  l1SetMonitoredSet_eq_error _ rfl rfl rfl (by simp) 7

end Safety

end ChannelBench
