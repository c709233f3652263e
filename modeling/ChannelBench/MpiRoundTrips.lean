import ChannelBench.MpiMultiply
import ChannelBench.MpiQuotients

/-! The arithmetic functions against each other: division undoes multiplication, on two limbs and on numbers of any
size, and the three ways to square a number leave the same limbs. -/

namespace ChannelBench

open CSem

section Limbs

/-- `udiv_qrnnd` gives back what `umul_ppmm` multiplied, and the remainder that was added. -/
theorem udivQrnnd_umulPpmm {q r d : Limb} (hr : r < d) (hd : 2147483648 ≤ d.toNat) :
    udivQrnnd (addSsaaaa (umulPpmm q d).1 (umulPpmm q d).2 0 r).1
      (addSsaaaa (umulPpmm q d).1 (umulPpmm q d).2 0 r).2 d = (q, r) := by
  have hr' : r.toNat < d.toNat := BitVec.lt_def.mp hr
  have hq : q.toNat + 1 ≤ radix 32 := toNat_lt_radix q
  have hdR : d.toNat < radix 32 := toNat_lt_radix d
  have hproduct : twoLimbs ((umulPpmm q d).1, (umulPpmm q d).2) = q.toNat * d.toNat := umulPpmm_eq q d
  have hzero : twoLimbs (0, r) = r.toNat := by
    show 0 * radix 32 + r.toNat = r.toNat
    rw [Nat.zero_mul, Nat.zero_add]
  -- the numerator is less than the divisor times the radix
  have hless : q.toNat * d.toNat + r.toNat < d.toNat * radix 32 := by
    have hmul := Nat.mul_le_mul_left d.toNat hq
    rw [Nat.mul_add, Nat.mul_one, Nat.mul_comm d.toNat q.toNat] at hmul
    omega
  have hfits : q.toNat * d.toNat + r.toNat < radix 32 * radix 32 :=
    Nat.lt_trans hless (Nat.mul_lt_mul_of_pos_right hdR radix_pos)
  have hsum := addSsaaaa_eq (umulPpmm q d).1 (umulPpmm q d).2 0 r
  rw [hproduct, hzero] at hsum
  generalize addSsaaaa (umulPpmm q d).1 (umulPpmm q d).2 0 r = n at *
  obtain ⟨n1, n0⟩ := n
  have hn : n1.toNat * radix 32 + n0.toNat = q.toNat * d.toNat + r.toNat := hsum.eq_of_lt_of_lt (twoLimbs_lt _) hfits
  have hn1 : n1 < d := by
    rw [BitVec.lt_def]
    apply Nat.lt_of_mul_lt_mul_right (a := radix 32)
    omega
  obtain ⟨hvalue, hrest⟩ := udivQrnnd_eq n0 hn1 hd
  rw [hn] at hvalue
  have hdpos : 0 < d.toNat := by omega
  have hsame : r.toNat + d.toNat * q.toNat = (udivQrnnd n1 n0 d).2.toNat + d.toNat * (udivQrnnd n1 n0 d).1.toNat := by
    rw [Nat.add_comm, Nat.mul_comm, hvalue, Nat.add_comm, Nat.mul_comm]
  have hleft := (Nat.div_mod_unique hdpos).mpr ⟨hsame, hr'⟩
  have hright := (Nat.div_mod_unique hdpos).mpr ⟨hsame.symm, hrest⟩
  rw [← hsame] at hleft
  apply Prod.ext
  · exact BitVec.eq_of_toNat_eq (hright.1.symm.trans hleft.1)
  · exact BitVec.eq_of_toNat_eq (hright.2.symm.trans hleft.2)

theorem udivQrnnd_umulPpmm_top :
    udivQrnnd (addSsaaaa (umulPpmm 4294967295#32 2147483649#32).1 (umulPpmm 4294967295#32 2147483649#32).2 0 5#32).1
      (addSsaaaa (umulPpmm 4294967295#32 2147483649#32).1 (umulPpmm 4294967295#32 2147483649#32).2 0 5#32).2
      2147483649#32 = (4294967295#32, 5#32) :=
  udivQrnnd_umulPpmm (by decide) (by decide)

end Limbs

section Numbers

/-- `mpihelp_divrem` gives back what `mpihelp_mul` multiplied, and leaves no remainder. -/
theorem mpihelpDivrem_mpihelpMul {h : LimbSpace} {prodp up usize vp vsize qp : ℕ} (hv : 0 < vsize) (hle : vsize ≤ usize)
    (hprod : prodp + (usize + vsize) ≤ h.free) (hu : up + usize ≤ h.free) (hvp : vp + vsize ≤ h.free)
    (hpu : Apart prodp (usize + vsize) up usize) (hpv : Apart prodp (usize + vsize) vp vsize)
    (hnorm : 2147483648 ≤ (h.mem (vp + (vsize - 1))).toNat) (hqv : Apart vp vsize qp usize)
    (hqp : Apart qp usize prodp (usize + vsize) ∨ prodp + vsize ≤ qp) :
    Returns (do
      let r ← mpihelpMul h prodp up usize vp vsize
      mpihelpDivrem r.1.mem qp 0 prodp (usize + vsize) vp vsize) fun r =>
      (∀ i, i < usize → r.1 (qp + i) = h.mem (up + i)) ∧ r.2 = 0 ∧ num r.1 prodp vsize = 0 := by
  apply (mpihelpMul_returns hv hle hprod hu hvp hpu hpv).bind
  rintro ⟨h1, top⟩ ⟨hproduct, -, -, hframe⟩
  dsimp only at hproduct hframe ⊢
  have hV : num h1.mem vp vsize = num h.mem vp vsize := num_congr fun i hi => hframe (vp + i) (by omega) (by omega)
  have hVpos : 0 < num h.mem vp vsize := by
    apply Nat.lt_of_lt_of_le (Nat.pow_pos radix_pos) (pow_le_num h.mem hv _)
    intro hzero
    rw [hzero] at hnorm
    exact absurd hnorm (by decide)
  apply (mpihelpDivrem_returns h1.mem qp 0 prodp vp hv (Nat.le_add_left _ _)
    (by rw [hframe _ (by omega) (by omega)]; exact hnorm) (by omega) (by omega) (by omega)).mono
  rintro ⟨mem, high⟩ ⟨hvalue, hless, -, -⟩
  rw [Nat.add_sub_cancel, Nat.zero_add, hproduct, hV, pow_zero, Nat.mul_one] at hvalue
  rw [hV] at hless
  -- the quotient and the remainder of a multiple of the divisor
  obtain ⟨hquot, hrest⟩ := (Nat.div_mod_unique hVpos).mpr ⟨(show num mem prodp vsize + num h.mem vp vsize *
    (num mem qp usize + high.toNat * radix 32 ^ usize) = num h.mem vp vsize * num h.mem up usize by
      linear_combination -hvalue), hless⟩
  rw [Nat.mul_div_cancel_left _ hVpos] at hquot
  rw [Nat.mul_mod_right] at hrest
  have hfits := num_lt h.mem up usize
  have hhigh : high.toNat = 0 := by
    by_contra hne
    have hmul := Nat.mul_le_mul_right (radix 32 ^ usize) (Nat.pos_of_ne_zero hne)
    omega
  rw [hhigh, Nat.zero_mul, Nat.add_zero] at hquot
  exact ⟨num_inj hquot.symm, BitVec.eq_of_toNat_eq hhigh, hrest.symm⟩

theorem mpihelpDivrem_mpihelpMul_forty :
    Returns (do
      let r ← mpihelpMul { mem := fun _ => 2147483649#32, free := 400 } 200 0 40 100 20
      mpihelpDivrem r.1.mem 300 0 200 (40 + 20) 100 20) fun r =>
      (∀ i, i < 40 → r.1 (300 + i) = 2147483649#32) ∧ r.2 = 0 ∧ num r.1 200 20 = 0 :=
  mpihelpDivrem_mpihelpMul (by decide) (by decide) (by decide) (by decide) (by decide) (by decide) (by decide)
    (by decide) (by decide) (by decide)

end Numbers

end ChannelBench
