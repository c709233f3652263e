import ChannelBench.MpiAddition
import Mathlib.Data.Nat.ModEq
import Mathlib.Data.Nat.Size

/-! The two-word arithmetic of `longlong.h`, in the generic versions that are compiled where no assembler version
is: sums, differences, products and quotients of numbers of two limbs, made of operations on single limbs and on
halves of limbs. -/

namespace ChannelBench

open CSem

/-- `__ll_lowpart`. -/
def llLowpart (t : Limb) : Limb := t &&& 0xffff#32

/-- `__ll_highpart`. -/
def llHighpart (t : Limb) : Limb := t >>> 16

/-- `add_ssaaaa`: the high and the low limb of the sum. -/
def addSsaaaa (ah al bh bl : Limb) : Limb × Limb :=
  let x := al + bl
  (ah + bh + flag (x < al), x)

/-- `sub_ddmmss`: the high and the low limb of the difference. -/
def subDdmmss (ah al bh bl : Limb) : Limb × Limb :=
  let x := al - bl
  (ah - bh - flag (al < x), x)

/-- `umul_ppmm`: the high and the low limb of the product. -/
def umulPpmm (u v : Limb) : Limb × Limb :=
  let ul := llLowpart u
  let uh := llHighpart u
  let vl := llLowpart v
  let vh := llHighpart v
  let x0 := ul * vl
  let x1 := ul * vh
  let x2 := uh * vl
  let x3 := uh * vh
  let x1 := x1 + llHighpart x0
  let x1 := x1 + x2
  let x3 := if x1 < x2 then x3 + 0x10000#32 else x3
  (x3 + llHighpart x1, llLowpart x1 <<< 16 + llLowpart x0)

/-- One of the two halves of `__udiv_qrnnd_c`: `n` and the half limb `part` by `d`. -/
def udivHalf (n part d : Limb) : Limb × Limb :=
  let d1 := llHighpart d
  let d0 := llLowpart d
  let r := n % d1
  let q := n / d1
  let m := q * d0
  let r := r * 0x10000#32 ||| part
  let (q, r) :=
    if r < m then
      let q := q - 1
      let r := r + d
      if d ≤ r then if r < m then (q - 1, r + d) else (q, r) else (q, r)
    else (q, r)
  (q, r - m)

/-- `udiv_qrnnd`, which is `__udiv_qrnnd_c`: the quotient and the remainder. -/
def udivQrnnd (n1 n0 d : Limb) : Limb × Limb :=
  let (q1, r1) := udivHalf n1 (llHighpart n0) d
  let (q0, r0) := udivHalf r1 (llLowpart n0) d
  (q1 * 0x10000#32 ||| q0, r0)

theorem radix_eq : radix 32 = 4294967296 := rfl

theorem toNat_llLowpart (t : Limb) : (llLowpart t).toNat = t.toNat % 65536 :=
  Nat.and_two_pow_sub_one_eq_mod t.toNat 16

theorem toNat_llHighpart (t : Limb) : (llHighpart t).toNat = t.toNat / 65536 := by
  rw [llHighpart, BitVec.toNat_ushiftRight, Nat.shiftRight_eq_div_pow]

theorem toNat_mul_of_lt {x y : Limb} (h : x.toNat * y.toNat < radix 32) : (x * y).toNat = x.toNat * y.toNat := by
  rw [BitVec.toNat_mul]
  exact Nat.mod_eq_of_lt h

/-- A product of halves. -/
theorem toNat_mul_halves {x y : Limb} (hx : x.toNat < 65536) (hy : y.toNat < 65536) :
    (x * y).toNat = x.toNat * y.toNat ∧ x.toNat * y.toNat ≤ 65535 * 65535 := by
  have hle : x.toNat * y.toNat ≤ 65535 * 65535 := Nat.mul_le_mul (by omega) (by omega)
  exact ⟨toNat_mul_of_lt (by rw [radix_eq]; omega), hle⟩

/-! ### Sums, differences and products -/

/-- A number of two limbs, the high one first. -/
def twoLimbs (x : Limb × Limb) : ℕ := x.1.toNat * radix 32 + x.2.toNat

theorem twoLimbs_lt (x : Limb × Limb) : twoLimbs x < radix 32 * radix 32 := by
  have h1 : x.1.toNat + 1 ≤ radix 32 := x.1.isLt
  have h2 : x.2.toNat < radix 32 := x.2.isLt
  have hmul := Nat.mul_le_mul_right (radix 32) h1
  rw [Nat.add_mul, Nat.one_mul] at hmul
  unfold twoLimbs
  omega

/-- The sum, but for what overflows the high limb. -/
theorem addSsaaaa_eq (ah al bh bl : Limb) :
    twoLimbs (addSsaaaa ah al bh bl) ≡ twoLimbs (ah, al) + twoLimbs (bh, bl) [MOD radix 32 * radix 32] := by
  obtain ⟨hlow, -⟩ := add_flag (by decide) bl al
  rw [BitVec.add_comm bl al] at hlow
  unfold twoLimbs addSsaaaa
  dsimp only
  generalize (flag (al + bl < al) : Limb) = carry at *
  have hhigh : (ah + bh + carry).toNat ≡ ah.toNat + bh.toNat + carry.toNat [MOD radix 32] := by
    rw [BitVec.toNat_add, BitVec.toNat_add]
    exact ((Nat.mod_modEq _ _).trans (Nat.ModEq.add_right _ (Nat.mod_modEq _ _)))
  apply ((Nat.ModEq.mul_right' (radix 32) hhigh).add_right (al + bl).toNat).trans
  rw [show (ah.toNat + bh.toNat + carry.toNat) * radix 32 + (al + bl).toNat =
    ah.toNat * radix 32 + al.toNat + (bh.toNat * radix 32 + bl.toNat) by linear_combination hlow]

/-- The difference, but for what is borrowed above the high limb. -/
theorem subDdmmss_eq (ah al bh bl : Limb) :
    twoLimbs (subDdmmss ah al bh bl) + twoLimbs (bh, bl) ≡ twoLimbs (ah, al) [MOD radix 32 * radix 32] := by
  obtain ⟨hlow, -⟩ := sub_flag (by decide) al bl
  unfold twoLimbs subDdmmss
  dsimp only
  generalize (flag (al < al - bl) : Limb) = borrow at *
  have hhigh : (ah - bh - borrow).toNat + borrow.toNat + bh.toNat ≡ ah.toNat [MOD radix 32] := by
    calc (ah - bh - borrow).toNat + borrow.toNat + bh.toNat
        ≡ (ah - bh - borrow + borrow).toNat + bh.toNat [MOD radix 32] := by
          rw [BitVec.toNat_add]
          exact Nat.ModEq.add_right _ (Nat.mod_modEq _ _).symm
      _ ≡ (ah - bh - borrow + borrow + bh).toNat [MOD radix 32] := by
          rw [BitVec.toNat_add (ah - bh - borrow + borrow) bh]
          exact (Nat.mod_modEq _ _).symm
      _ = ah.toNat := by rw [BitVec.sub_add_cancel, BitVec.sub_add_cancel]
  refine Nat.ModEq.trans ?_ ((Nat.ModEq.mul_right' (radix 32) hhigh).add_right al.toNat)
  rw [show (ah - bh - borrow).toNat * radix 32 + (al - bl).toNat + (bh.toNat * radix 32 + bl.toNat) =
    ((ah - bh - borrow).toNat + borrow.toNat + bh.toNat) * radix 32 + al.toNat by linear_combination hlow]

theorem twoLimbs_subDdmmss {ah al bh bl : Limb} (h : twoLimbs (bh, bl) ≤ twoLimbs (ah, al)) :
    twoLimbs (subDdmmss ah al bh bl) = twoLimbs (ah, al) - twoLimbs (bh, bl) := by
  have hlt := twoLimbs_lt (ah, al)
  apply Nat.ModEq.eq_of_lt_of_lt _ (twoLimbs_lt _) (by omega)
  apply Nat.ModEq.add_right_cancel' (twoLimbs (bh, bl))
  rw [Nat.sub_add_cancel h]
  exact subDdmmss_eq ah al bh bl

theorem twoLimbs_lt_iff {ah al bh bl : Limb} :
    twoLimbs (ah, al) < twoLimbs (bh, bl) ↔ ah < bh ∨ ah = bh ∧ al < bl := by
  have h1 := al.isLt
  have h2 := bl.isLt
  rw [BitVec.lt_def, BitVec.lt_def, ← BitVec.toNat_inj]
  unfold twoLimbs
  rw [radix_eq]
  dsimp only
  omega

theorem umulPpmm_eq (u v : Limb) :
    (umulPpmm u v).1.toNat * radix 32 + (umulPpmm u v).2.toNat = u.toNat * v.toNat := by
  have hul : (llLowpart u).toNat < 65536 := by rw [toNat_llLowpart]; omega
  have huh : (llHighpart u).toNat < 65536 := by rw [toNat_llHighpart]; have := u.isLt; omega
  have hvl : (llLowpart v).toNat < 65536 := by rw [toNat_llLowpart]; omega
  have hvh : (llHighpart v).toNat < 65536 := by rw [toNat_llHighpart]; have := v.isLt; omega
  have hu : u.toNat = (llHighpart u).toNat * 65536 + (llLowpart u).toNat := by
    rw [toNat_llHighpart, toNat_llLowpart]
    omega
  have hv : v.toNat = (llHighpart v).toNat * 65536 + (llLowpart v).toNat := by
    rw [toNat_llHighpart, toNat_llLowpart]
    omega
  obtain ⟨h0, hle0⟩ := toNat_mul_halves hul hvl
  obtain ⟨h1, hle1⟩ := toNat_mul_halves hul hvh
  obtain ⟨h2, hle2⟩ := toNat_mul_halves huh hvl
  obtain ⟨h3, hle3⟩ := toNat_mul_halves huh hvh
  have hprod : u.toNat * v.toNat = (llHighpart u * llHighpart v).toNat * 4294967296 +
      ((llLowpart u * llHighpart v).toNat + (llHighpart u * llLowpart v).toNat) * 65536 +
        (llLowpart u * llLowpart v).toNat := by
    rw [h0, h1, h2, h3, hu, hv]
    ring
  rw [← h0] at hle0
  rw [← h1] at hle1
  rw [← h2] at hle2
  rw [← h3] at hle3
  rw [hprod]
  unfold umulPpmm
  dsimp only
  generalize llLowpart u * llLowpart v = x0 at *
  generalize llLowpart u * llHighpart v = x1 at *
  generalize llHighpart u * llLowpart v = x2 at *
  generalize llHighpart u * llHighpart v = x3 at *
  have hx1 : (x1 + llHighpart x0).toNat = x1.toNat + x0.toNat / 65536 := by
    rw [toNat_add_of_lt, toNat_llHighpart]
    rw [toNat_llHighpart, radix_eq]
    omega
  have hmiddle : (x1 + llHighpart x0 + x2).toNat +
      (if x1 + llHighpart x0 + x2 < x2 then 1 else 0) * radix 32 = x1.toNat + x0.toNat / 65536 + x2.toNat := by
    obtain ⟨hsum, -⟩ := add_flag (by decide) (x1 + llHighpart x0) x2
    rw [toNat_flag (by decide), hx1] at hsum
    exact hsum
  rw [radix_eq] at hmiddle ⊢
  generalize x1 + llHighpart x0 + x2 = y at *
  have hy := y.isLt
  have hlow : (llLowpart y <<< 16 + llLowpart x0).toNat = y.toNat % 65536 * 65536 + x0.toNat % 65536 := by
    have hshift : (llLowpart y <<< 16).toNat = y.toNat % 65536 * 65536 := by
      rw [BitVec.toNat_shiftLeft, toNat_llLowpart, Nat.shiftLeft_eq]
      omega
    rw [toNat_add_of_lt, hshift, toNat_llLowpart]
    rw [hshift, toNat_llLowpart, radix_eq]
    omega
  rw [hlow]
  by_cases hlt : y < x2
  · rw [if_pos hlt] at hmiddle ⊢
    have hhigh : (x3 + 0x10000#32 + llHighpart y).toNat = x3.toNat + 65536 + y.toNat / 65536 := by
      have hfirst : (x3 + 0x10000#32).toNat = x3.toNat + 65536 := by
        apply toNat_add_of_lt
        rw [radix_eq]
        show x3.toNat + 65536 < 4294967296
        omega
      rw [toNat_add_of_lt, hfirst, toNat_llHighpart]
      rw [hfirst, toNat_llHighpart, radix_eq]
      omega
    rw [hhigh]
    omega
  · rw [if_neg hlt] at hmiddle ⊢
    have hhigh : (x3 + llHighpart y).toNat = x3.toNat + y.toNat / 65536 := by
      rw [toNat_add_of_lt, toNat_llHighpart]
      rw [toNat_llHighpart, radix_eq]
      omega
    rw [hhigh]
    omega

/-! ### Quotients -/

/-- A half limb below a shifted one. -/
theorem toNat_shifted_or {x part : Limb} (hx : x.toNat < 65536) (hpart : part.toNat < 65536) :
    (x * 0x10000#32 ||| part).toNat = x.toNat * 65536 + part.toNat := by
  have hmul : (x * 0x10000#32).toNat = x.toNat * 65536 := by
    apply toNat_mul_of_lt
    rw [radix_eq]
    show x.toNat * 65536 < 4294967296
    omega
  rw [BitVec.toNat_or, hmul, Nat.mul_comm, ← Nat.two_pow_add_eq_or_of_lt (i := 16) hpart]

/-- How far the estimated quotient of a half can be from the quotient: the estimate is that by the high half of
the divisor, and the product of the low half with it is to be subtracted still. -/
theorem udivHalf_estimate {n part d : Limb} (hn : n < d) (hpart : part.toNat < 65536) (hd : 2147483648 ≤ d.toNat) :
    ∃ q r m : ℕ, (n / llHighpart d).toNat = q ∧ ((n % llHighpart d) * 0x10000#32 ||| part).toNat = r ∧
      (n / llHighpart d * llLowpart d).toNat = m ∧
      n.toNat * 65536 + part.toNat + m = q * d.toNat + r ∧
      n.toNat * 65536 + part.toNat < q * d.toNat + d.toNat ∧ (m = 0 ∨ 0 < q) ∧ (d.toNat ≤ m → 1 < q) := by
  have hn' : n.toNat < d.toNat := BitVec.lt_def.mp hn
  have hdlt := d.isLt
  have hd1 := toNat_llHighpart d
  have hd0 := toNat_llLowpart d
  generalize llHighpart d = d1 at *
  generalize llLowpart d = d0 at *
  have hsplit : d.toNat = d1.toNat * 65536 + d0.toNat := by omega
  have hq : (n / d1).toNat = n.toNat / d1.toNat := BitVec.toNat_udiv
  have hr : (n % d1).toNat = n.toNat % d1.toNat := BitVec.toNat_umod
  have hmod : n.toNat % d1.toNat < d1.toNat := Nat.mod_lt _ (by omega)
  have hdiv := Nat.div_add_mod n.toNat d1.toNat
  have hquot : n.toNat / d1.toNat < 65538 := by
    apply Nat.div_lt_of_lt_mul
    omega
  have hm : (n / d1 * d0).toNat = n.toNat / d1.toNat * d0.toNat := by
    rw [← hq]
    apply toNat_mul_of_lt
    have hle : (n / d1).toNat * d0.toNat ≤ 65537 * 65535 := Nat.mul_le_mul (by omega) (by omega)
    rw [radix_eq]
    omega
  refine ⟨n.toNat / d1.toNat, n.toNat % d1.toNat * 65536 + part.toNat, n.toNat / d1.toNat * d0.toNat, hq, ?_, hm,
    ?_, ?_, ?_, ?_⟩
  · rw [toNat_shifted_or (by omega) hpart, hr]
  · rw [hsplit]
    linear_combination 65536 * hdiv.symm
  · have hlow := Nat.zero_le (n.toNat / d1.toNat * d0.toNat)
    rw [hsplit, Nat.mul_add, ← Nat.mul_assoc, Nat.mul_comm (n.toNat / d1.toNat) d1.toNat]
    omega
  · rcases Nat.eq_zero_or_pos (n.toNat / d1.toNat) with h0 | hpos
    · exact .inl (by rw [h0, Nat.zero_mul])
    · exact .inr hpos
  · intro hle
    by_contra hlt
    have hone : n.toNat / d1.toNat * d0.toNat ≤ 1 * d0.toNat := Nat.mul_le_mul_right _ (by omega)
    omega

/-- A half of the quotient, and the remainder. -/
theorem udivHalf_eq {n part d : Limb} (hn : n < d) (hpart : part.toNat < 65536) (hd : 2147483648 ≤ d.toNat) :
    n.toNat * 65536 + part.toNat = (udivHalf n part d).1.toNat * d.toNat + (udivHalf n part d).2.toNat ∧
      (udivHalf n part d).2.toNat < d.toNat := by
  obtain ⟨q, r, m, hq, hr, hm, hvalue, hless, hpos, htwo⟩ := udivHalf_estimate hn hpart hd
  unfold udivHalf
  dsimp only
  have hdlt := d.isLt
  generalize n / llHighpart d * llLowpart d = M at *
  generalize n / llHighpart d = Q at *
  generalize (n % llHighpart d) * 0x10000#32 ||| part = R at *
  have hmlt := M.isLt
  have hrlt := R.isLt
  by_cases hlt : R < M
  · rw [if_pos hlt]
    have hrm : r < m := by
      rw [BitVec.lt_def, hr, hm] at hlt
      exact hlt
    have hq1 : (Q - 1).toNat = q - 1 := by
      rw [← hq]
      exact toNat_sub_of_ge (show 1 ≤ Q.toNat by omega)
    obtain ⟨q', rfl⟩ : ∃ q', q = q' + 1 := ⟨q - 1, by omega⟩
    rw [Nat.add_sub_cancel] at hq1
    rw [Nat.add_mul, Nat.one_mul] at hvalue hless
    by_cases hcarry : R + d < d
    · -- the sum overflowed, so it is at least `m`
      have hover := add_lt_right_iff.mp hcarry
      have hsum := toNat_add_of_le hover
      rw [radix_eq] at hover hsum
      rw [if_neg (BitVec.not_le.mpr hcarry)]
      dsimp only
      have hrest : (R + d - M).toNat = 4294967296 + (R + d).toNat - M.toNat := toNat_sub_of_lt (by omega)
      rw [hrest, hq1, hsum]
      omega
    · have hfits : ¬radix 32 ≤ R.toNat + d.toNat := fun h => hcarry (add_lt_right_iff.mpr h)
      have hsum := toNat_add_of_lt (Nat.lt_of_not_le hfits)
      rw [radix_eq] at hfits
      rw [if_pos (BitVec.not_lt.mp hcarry)]
      by_cases hagain : R + d < M
      · rw [if_pos hagain]
        rw [BitVec.lt_def, hsum] at hagain
        have hover : radix 32 ≤ (R + d).toNat + d.toNat := by
          rw [radix_eq]
          omega
        have hsum' := toNat_add_of_le hover
        have hq2 : (Q - 1 - 1).toNat = q' - 1 := by
          rw [← hq1]
          exact toNat_sub_of_ge (show 1 ≤ (Q - 1).toNat by omega)
        obtain ⟨q'', rfl⟩ : ∃ q'', q' = q'' + 1 := ⟨q' - 1, by omega⟩
        rw [Nat.add_sub_cancel] at hq2
        rw [Nat.add_mul, Nat.one_mul] at hvalue hless
        rw [radix_eq] at hsum'
        dsimp only
        have hrest : (R + d + d - M).toNat = 4294967296 + (R + d + d).toNat - M.toNat := toNat_sub_of_lt (by omega)
        rw [hrest, hq2, hsum']
        omega
      · rw [if_neg hagain]
        rw [BitVec.lt_def, hsum] at hagain
        dsimp only
        have hrest : (R + d - M).toNat = (R + d).toNat - M.toNat := toNat_sub_of_ge (by omega)
        rw [hrest, hq1, hsum]
        omega
  · rw [if_neg hlt]
    have hmr : m ≤ r := by
      rw [BitVec.lt_def, hr, hm] at hlt
      omega
    dsimp only
    rw [toNat_sub_of_ge (by omega), hq, hr, hm]
    omega

/-- A number of two limbs by a normalized limb. -/
theorem udivQrnnd_eq {n1 d : Limb} (n0 : Limb) (hn : n1 < d) (hd : 2147483648 ≤ d.toNat) :
    n1.toNat * radix 32 + n0.toNat = (udivQrnnd n1 n0 d).1.toNat * d.toNat + (udivQrnnd n1 n0 d).2.toNat ∧
      (udivQrnnd n1 n0 d).2.toNat < d.toNat := by
  have hn' : n1.toNat < d.toNat := BitVec.lt_def.mp hn
  have hn0 := n0.isLt
  have hhigh := toNat_llHighpart n0
  have hlow := toNat_llLowpart n0
  obtain ⟨hvalue1, hless1⟩ := udivHalf_eq hn (show (llHighpart n0).toNat < 65536 by omega) hd
  have hr1 : (udivHalf n1 (llHighpart n0) d).2 < d := BitVec.lt_def.mpr hless1
  obtain ⟨hvalue0, hless0⟩ := udivHalf_eq hr1 (show (llLowpart n0).toNat < 65536 by omega) hd
  -- the half quotients fit their halves
  have hfits : ∀ {q r n part : ℕ}, n * 65536 + part = q * d.toNat + r → n < d.toNat → part < 65536 → q < 65536 := by
    intro q r n part hvalue hnd hpart
    by_contra hge
    have hmul : 65536 * d.toNat ≤ q * d.toNat := Nat.mul_le_mul_right _ (by omega)
    omega
  have hq1 := hfits hvalue1 hn' (by omega)
  have hq0 := hfits hvalue0 hless1 (by omega)
  unfold udivQrnnd
  dsimp only
  rw [toNat_shifted_or hq1 hq0, radix_eq]
  refine ⟨?_, hless0⟩
  rw [hhigh] at hvalue1
  rw [hlow] at hvalue0
  have hsplit := Nat.div_add_mod n0.toNat 65536
  linear_combination 65536 * hvalue1 + hvalue0 - hsplit

/-! ### The number of leading zeros -/

end ChannelBench
