import ChannelBench.MpiPowFinish

/-! The result of `mpi_powm`, and what can be seen of its run. -/

namespace ChannelBench

open CSem

section Result

variable {h : LimbSpace} {res base exponent mod : Mpi}

theorem Mpi.In.keep {h h' : LimbSpace} {a : Mpi} (ha : a.In h) (hkeep : KeepsBelow h h') :
    a.In h' ∧ a.abs h'.mem = a.abs h.mem := by
  obtain ⟨hfits, hbelow, hnormal⟩ := ha
  refine ⟨⟨hfits, Nat.le_trans hbelow hkeep.1, ?_⟩, hkeep.num_eq (by omega)⟩
  by_cases hzero : a.nlimbs = 0
  · exact .inl hzero
  · rw [hkeep.2 _ (by omega)]
    exact hnormal

/-- The limbs `u` at the start of the main loop, when the base was copied to the result at `R`, and `X` is new. -/
structure PowmStarted (h : LimbSpace) (res exponent : Mpi) (mp msize bp bsize : ℕ) (u : Limbs) (R X ep bp1 : ℕ) :
    Prop where
  setting : PowmSetting u (X + 2 * (msize + 1)) R X mp msize bp1 bsize
  modulus : num u mp msize = num h.mem mp msize
  base : num u bp1 bsize = num h.mem bp bsize ∧ num u R bsize = num h.mem bp bsize
  exponent : Clear (X + 2 * (msize + 1)) R X (2 * msize) ep exponent.nlimbs ∧
    ∀ i, i < exponent.nlimbs → u (ep + i) = h.mem (exponent.d + i)
  grows : h.free ≤ X
  frame : ∀ a, a < h.free → Apart a 1 res.d res.alloced → Apart a 1 R (2 * msize) ∧ u a = h.mem a

theorem Roomed.start {mp msize bp bsize : ℕ} {r : LimbSpace × Mpi × ℕ × ℕ × ℕ × Bool} {u : Limbs}
    (hroom : Roomed h res exponent.d exponent.nlimbs mp msize bp bsize (2 * msize) r)
    (hbsize : 0 < bsize ∧ bsize ≤ msize) (hmp : mp + msize ≤ h.free)
    (hnorm : 2147483648 ≤ (h.mem (mp + (msize - 1))).toNat)
    (hcopy : num u r.2.1.d bsize = num r.1.mem r.2.2.2.2.1 bsize) (hwrites : Writes r.2.1.d bsize r.1.mem u) :
    PowmStarted h res exponent mp msize bp bsize u r.2.1.d r.1.free r.2.2.2.1 r.2.2.2.2.1 := by
  obtain ⟨h1, res1, rp, ep, bp1, assignRp⟩ := r
  obtain ⟨hkeep, -, ⟨hbelow, hsize⟩, hplace, hep, hbp, hmp1⟩ := hroom
  dsimp only at *
  have hfree := hkeep.1
  have hbelow_ep := hep.below
  have hbelow_bp := hbp.below
  have hapart_ep := hep.apart
  have hapart_bp := hbp.apart
  have hR : res1.d + 2 * msize ≤ h1.free := by omega
  have hinside : ∀ {p n : ℕ}, p + n ≤ h1.free → Apart res1.d (2 * msize) p n →
      Clear (h1.free + 2 * (msize + 1)) res1.d h1.free (2 * msize) p n := by
    intro p n hp hapart
    clear hplace hapart_ep hapart_bp hmp1
    omega
  refine ⟨⟨hbsize, by omega, hinside (by omega) hmp1, hinside hbelow_bp hapart_bp, ?_⟩, ?_, ⟨?_, ?_⟩,
    ⟨hinside hbelow_ep hapart_ep, ?_⟩, hfree, ?_⟩
  · rw [hwrites _ (by omega), hkeep.2 _ (by omega)]
    exact hnorm
  · rw [hwrites.num_eq (by omega), hkeep.num_eq hmp]
  · rw [hwrites.num_eq (by omega), hbp.num_eq]
  · rw [hcopy, hbp.num_eq]
  · intro i hi
    rw [hwrites (ep + i) (by omega), hep.same i hi]
  · intro a ha hares
    have hapart : Apart a 1 res1.d (2 * msize) := by
      clear hapart_ep hapart_bp hmp1
      omega
    exact ⟨hapart, (hwrites a (by omega)).trans (hkeep.2 a ha)⟩

/-- The invariant at the start of the main loop. -/
theorem PowmStarted.init {mp msize bp bsize R X ep bp1 : ℕ} {u : Limbs}
    (hstart : PowmStarted h res exponent mp msize bp bsize u R X ep bp1) :
    PowmInv u (X + 2 * (msize + 1)) R X mp msize bp1 bsize 1 []
      { h := { mem := u, free := X + 2 * (msize + 1) }, rp := R, rsize := bsize, xp := X, e := 0, tspace := none,
        karactx := [], ops := [] } := by
  refine ⟨?_, rfl, .inl ⟨rfl, rfl⟩, ⟨Nat.le_refl _, hstart.setting.sizes.2⟩, fun _ _ => rfl, Nat.le_refl _, ?_, ?_⟩
  · dsimp only
    rw [pow_one, hstart.base.1, hstart.base.2]
  · intro b hb
    exact absurd hb (by simp [Powm.spaces, blocks])
  · exact ⟨fun b hb => absurd hb (by simp), fun b hb => absurd hb (by simp), fun b hb => absurd hb (by simp), trivial⟩

def smallLimbs : LimbSpace := { mem := BitVec.ofNat 32, free := 15 }

/-- The number `d`, or its negative. -/
def smallMpi (d : ℕ) (sign : Bool) : Mpi := { alloced := 1, nlimbs := 1, sign := sign, d := d }

def smallResult : Mpi := { alloced := 2, nlimbs := 0, sign := false, d := 13 }

theorem smallMpi_abs {d : ℕ} (sign : Bool) (hd : d < 15) : (smallMpi d sign).abs smallLimbs.mem = d := by
  show num smallLimbs.mem d 1 = d
  rw [num_one]
  show d % 2 ^ 32 = d
  omega

end Result

end ChannelBench
