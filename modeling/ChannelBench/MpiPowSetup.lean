import ChannelBench.MpiPowRuns

/-! What `mpi_powm` prepares before its main loop: the modulus with its highest bit set, the base with at most as many
limbs, and room for the result that no operand is in. -/

namespace ChannelBench

open CSem

/-- The absolute value. -/
def Mpi.abs (mem : Limbs) (a : Mpi) : ℕ := num mem a.d a.nlimbs

/-- The limbs of a number were handed out, and the highest one is not zero. -/
structure Mpi.In (h : LimbSpace) (a : Mpi) : Prop where
  fits : a.nlimbs ≤ a.alloced
  below : a.d + a.alloced ≤ h.free
  normal : a.nlimbs = 0 ∨ h.mem (a.d + (a.nlimbs - 1)) ≠ 0

section Prepare

variable {h : LimbSpace} {a base mod : Mpi}

/-- The limbs that were handed out before keep their values. -/
def KeepsBelow (h h' : LimbSpace) : Prop := h.free ≤ h'.free ∧ ∀ a, a < h.free → h'.mem a = h.mem a

theorem KeepsBelow.refl (h : LimbSpace) : KeepsBelow h h := ⟨Nat.le_refl _, fun _ _ => rfl⟩

theorem KeepsBelow.trans {h1 h2 h3 : LimbSpace} (h12 : KeepsBelow h1 h2) (h23 : KeepsBelow h2 h3) : KeepsBelow h1 h3 :=
  ⟨Nat.le_trans h12.1 h23.1, fun a ha => (h23.2 a (Nat.lt_of_lt_of_le ha h12.1)).trans (h12.2 a ha)⟩

theorem KeepsBelow.num_eq {h h' : LimbSpace} (hkeep : KeepsBelow h h') {p n : ℕ} (hp : p + n ≤ h.free) :
    num h'.mem p n = num h.mem p n :=
  num_congr fun i hi => hkeep.2 (p + i) (by omega)

theorem keepsBelow_of_writes {p n free : ℕ} {mem : Limbs} (hwrites : Writes p n h.mem mem) (hp : h.free ≤ p)
    (hfree : h.free ≤ free) : KeepsBelow h { mem := mem, free := free } :=
  ⟨hfree, fun a ha => hwrites a (.inl (by omega))⟩

/-- The limbs of an operand, maybe at another place, and none of the `size` limbs at `rp`. -/
structure Moved (h h' : LimbSpace) (rp size p p' n : ℕ) : Prop where
  below : p' + n ≤ h'.free
  same : ∀ i, i < n → h'.mem (p' + i) = h.mem (p + i)
  apart : Apart rp size p' n

theorem Moved.num_eq {h h' : LimbSpace} {rp size p p' n : ℕ} (hmoved : Moved h h' rp size p p' n) :
    num h'.mem p' n = num h.mem p n := num_congr hmoved.same

theorem Moved.keep {h h' h'' : LimbSpace} {rp size p p' n : ℕ} (hmoved : Moved h h' rp size p p' n)
    (hkeep : KeepsBelow h' h'') : Moved h h'' rp size p p' n where
  below := Nat.le_trans hmoved.below hkeep.1
  same i hi := by
    have hbelow := hmoved.below
    rw [hkeep.2 (p' + i) (by omega), hmoved.same i hi]
  apart := hmoved.apart

theorem mpiResize_returns {nlimbs : ℕ} (ha : a.d + a.alloced ≤ h.free) (hmore : a.alloced < nlimbs) :
    Returns (mpiResize h a nlimbs) fun r => KeepsBelow h r.1 ∧ r.2 = { a with d := h.free, alloced := nlimbs } ∧
      r.1.free = h.free + nlimbs := by
  unfold mpiResize mpiAllocLimbSpace
  rw [if_neg (Nat.not_le_of_lt hmore)]
  dsimp only
  apply (zeroLoop_num h.mem h.free nlimbs).bind
  rintro mem1 ⟨-, hwrites1⟩
  have hcopy : Returns (if a.d ≠ 0 then copyLoop mem1 h.free a.d a.alloced else pure mem1)
      (Writes h.free nlimbs mem1) := by
    by_cases hd : a.d = 0
    · rw [if_neg (not_not.mpr hd)]
      exact returns_pure.mpr (Writes.refl _ _ _)
    · rw [if_pos hd]
      apply (copyLoop_num mem1 (d := h.free) (s := a.d) (n := a.alloced) (.inr ha)).mono
      exact fun mem2 hmem2 => hmem2.2.mono (Nat.le_refl _) (by omega)
  apply hcopy.bind
  intro mem2 hwrites2
  exact returns_pure.mpr
    ⟨keepsBelow_of_writes (hwrites1.trans hwrites2) (Nat.le_refl _) (Nat.le_add_right _ _), rfl, rfl⟩

/-- Room for the result, with the operands moved out of it. -/
structure Roomed (h : LimbSpace) (res : Mpi) (ep esize mp msize bp bsize size : ℕ)
    (r : LimbSpace × Mpi × ℕ × ℕ × ℕ × Bool) : Prop where
  keeps : KeepsBelow h r.1
  place : r.2.2.1 = r.2.1.d ∧ r.2.2.2.2.2 = false
  room : r.2.1.d + r.2.1.alloced ≤ r.1.free ∧ size ≤ r.2.1.alloced
  result : r.2.1.d = res.d ∧ r.2.1.alloced = res.alloced ∨ h.free ≤ r.2.1.d
  exponent : Moved h r.1 r.2.1.d size ep r.2.2.2.1 esize
  base : Moved h r.1 r.2.1.d size bp r.2.2.2.2.1 bsize
  modulus : Apart r.2.1.d size mp msize

end Prepare

end ChannelBench
