import ChannelBench.MpiProducts

/-! `mpihelp_divrem` of `mpih-div.c`, for divisors of one limb, of two limbs and of more. -/

namespace ChannelBench

open CSem

/-- `q_test` of the divisors of two limbs: the estimated quotient `q`, what `d1` leaves, and the product of `q`
with `d0`. -/
def qTest (d1 d0 n2 : Limb) (st : Limb × Limb × Limb × Limb) :
    Run ((Limb × Limb × Limb × Limb) ⊕ (Limb × Limb × Limb × Limb)) := do
  let (q, r, n1, n0) := st
  if r < n1 ∨ n1 = r ∧ n2 < n0 then
    let (n1, n0) := subDdmmss n1 n0 0 d0
    let st := (q - 1, r + d1, n1, n0)
    if d1 ≤ r + d1 then
      return .inl st
    else
      return .inr st
  else
    return .inr st

/-- A round for a divisor of two limbs: the limb of the quotient, and what is left of `n1`, `n0` and the next
limb `n2`. -/
def divDigitTwo (d1 d0 n1 n0 n2 : Limb) : Run (Limb × Limb × Limb) := do
  if n1 = d1 then
    let q := ~~~0#32
    let r := n0 + d1
    if r < d1 then
      return (q, addSsaaaa (r - d0) n2 0 d0)
    let (q, r, n1, n0) ← loop (qTest d1 d0 n2) 2 (q, r, d0 - flag (d0 ≠ 0), -d0)
    return (q, subDdmmss r n2 n1 n0)
  else
    let (q, r) := udivQrnnd n1 n0 d1
    let (n1, n0) := umulPpmm d0 q
    let (q, r, n1, n0) ← loop (qTest d1 d0 n2) 2 (q, r, n1, n0)
    return (q, subDdmmss r n2 n1 n0)

/-- The loop that corrects the estimate for divisors of more limbs, where `n` is the next limb but one. -/
def qCorrect (dX d1 n : Limb) (st : Limb × Limb × Limb × Limb) : Run ((Limb × Limb × Limb × Limb) ⊕ Limb) := do
  let (q, r, n1, n0) := st
  if r < n1 ∨ n1 = r ∧ n < n0 then
    let q := q - 1
    let r := r + dX
    if r < dX then
      return .inr q
    return .inl (q, r, n1 - flag (n0 < d1), n0 - d1)
  else
    return .inr q

/-- The estimate of a limb of the quotient by the two highest limbs of the divisor. -/
def qEstimate (dX d1 n0 n1 n2 : Limb) : Run Limb := do
  if n0 = dX then
    return ~~~0#32
  else
    let (q, r) := udivQrnnd n0 n1 dX
    let (n1, n0) := umulPpmm d1 q
    loop (qCorrect dX d1 n2) 2 (q, r, n1, n0)

/-- A round for a divisor of more than two limbs: `n0` and `n2` are the limb above those at `np`. -/
def divDigitMany (mem : Limbs) (np dp dsize : ℕ) (dX d1 n0 n2 : Limb) : Run (Limbs × Limb) := do
  let q ← qEstimate dX d1 n0 (mem (np + (dsize - 1))) (mem (np + (dsize - 2)))
  let (mem, cyLimb) ← mpihelpSubmul1 mem np dp dsize q
  if n2 ≠ cyLimb then
    let (mem, _) ← mpihelpAddN mem np np dp dsize
    return (mem, q - 1)
  else
    return (mem, q)

/-- `case 1` of `mpihelp_divrem`. -/
def divremOne (mem : Limbs) (qp qextraLimbs np nsize dp : ℕ) : Run (Limbs × Limb) := do
  let d := mem dp
  let n1 := mem (np + (nsize - 1))
  let (n1, mostSignificantQLimb) : Limb × Limb := if d ≤ n1 then (n1 - d, 1) else (n1, 0)
  let (mem, n1) ← forDownto (fun i (mem, n1) => do
      let qr := udivQrnnd n1 (mem (np + i)) d
      return (Function.update mem (qp + qextraLimbs + i) qr.1, qr.2))
    (nsize - 1) (mem, n1)
  let (mem, n1) ← forDownto (fun i (mem, n1) => do
      let qr := udivQrnnd n1 0 d
      return (Function.update mem (qp + i) qr.1, qr.2))
    qextraLimbs (mem, n1)
  return (Function.update mem np n1, mostSignificantQLimb)

/-- `case 2` of `mpihelp_divrem`. -/
def divremTwo (mem : Limbs) (qp qextraLimbs np nsize dp : ℕ) : Run (Limbs × Limb) := do
  let np := np + (nsize - 2)
  let d1 := mem (dp + 1)
  let d0 := mem dp
  let n1 := mem (np + 1)
  let n0 := mem np
  let (n1, n0, mostSignificantQLimb) : Limb × Limb × Limb :=
    if d1 ≤ n1 ∧ (d1 < n1 ∨ d0 ≤ n0) then
      let n := subDdmmss n1 n0 d1 d0
      (n.1, n.2, 1)
    else (n1, n0, 0)
  let (mem, np, n1, n0) ← forDownto (fun i (mem, np, n1, n0) => do
      let np := if qextraLimbs ≤ i then np - 1 else np
      let mem := if qextraLimbs ≤ i then mem else Function.update mem np 0
      let (q, n1, n0) ← divDigitTwo d1 d0 n1 n0 (mem np)
      return (Function.update mem (qp + i) q, np, n1, n0))
    (qextraLimbs + (nsize - 2)) (mem, np, n1, n0)
  let mem := Function.update mem (np + 1) n1
  return (Function.update mem np n0, mostSignificantQLimb)

/-- `default` of `mpihelp_divrem`. -/
def divremMany (mem : Limbs) (qp qextraLimbs np nsize dp dsize : ℕ) : Run (Limbs × Limb) := do
  let np := np + (nsize - dsize)
  let dX := mem (dp + (dsize - 1))
  let d1 := mem (dp + (dsize - 2))
  let n0 := mem (np + (dsize - 1))
  let (mem, n0, mostSignificantQLimb) ← (
    if dX ≤ n0 ∧ (dX < n0 ∨ 0 ≤ mpihelpCmp mem np dp (dsize - 1)) then do
      let (mem, _) ← mpihelpSubN mem np np dp dsize
      return ((mem, mem (np + (dsize - 1)), 1) : Limbs × Limb × Limb)
    else
      return (mem, n0, 0))
  let (mem, _, _) ← forDownto (fun i (mem, np, n0) => do
      let (mem, np, n2) ← (
        if qextraLimbs ≤ i then
          return ((mem, np - 1, mem (np - 1 + dsize)) : Limbs × ℕ × Limb)
        else do
          let n2 := mem (np + (dsize - 1))
          let mem ← copyDownLoop mem (np + 1) np (dsize - 1)
          return (Function.update mem np 0, np, n2))
      let (mem, q) ← divDigitMany mem np dp dsize dX d1 n0 n2
      let mem := Function.update mem (qp + i) q
      return (mem, np, mem (np + (dsize - 1))))
    (qextraLimbs + (nsize - dsize)) (mem, np, n0)
  return (mem, mostSignificantQLimb)

/-- `mpihelp_divrem`: the limbs after it, and the most significant limb of the quotient. -/
def mpihelpDivrem (mem : Limbs) (qp qextraLimbs np nsize dp dsize : ℕ) : Run (Limbs × Limb) :=
  match dsize with
  -- `1 / dsize`, a division by zero
  | 0 => throw .assertion
  | 1 => divremOne mem qp qextraLimbs np nsize dp
  | 2 => divremTwo mem qp qextraLimbs np nsize dp
  | dsize + 3 => divremMany mem qp qextraLimbs np nsize dp (dsize + 3)

/-! ### Estimates of a limb of the quotient -/

section Estimates

variable {d1 d0 n2 q r n1 n0 : Limb} {X : ℕ}

/-- The estimate `q` of the quotient of `X` by the divisor of the limbs `d1` and `d0`: it is not too small, and `r`
and `n2` are what `q * d1` leaves of `X`. -/
structure Estimate (d1 d0 n2 : Limb) (X : ℕ) (q r n1 n0 : Limb) : Prop where
  value : X = (q.toNat * d1.toNat + r.toNat) * radix 32 + n2.toNat
  product : twoLimbs (n1, n0) = q.toNat * d0.toNat
  less : X < (q.toNat + 1) * twoLimbs (d1, d0)

/-- The quotient of `X`, and what `r`, `n2`, `n1` and `n0` tell about the remainder. -/
structure IsQuotient (d1 d0 n2 : Limb) (X : ℕ) (q r n1 n0 : Limb) : Prop where
  le : q.toNat * twoLimbs (d1, d0) ≤ X
  less : X < (q.toNat + 1) * twoLimbs (d1, d0)
  rest : twoLimbs (subDdmmss r n2 n1 n0) = X - q.toNat * twoLimbs (d1, d0)

theorem twoLimbs_eq (h l : Limb) : twoLimbs (h, l) = h.toNat * radix 32 + l.toNat := rfl

/-- The remainder, when it is known up to multiples of the square of the radix. -/
theorem IsQuotient.of_modEq (hle : q.toNat * twoLimbs (d1, d0) ≤ X) (hless : X < (q.toNat + 1) * twoLimbs (d1, d0))
    (hrest : twoLimbs (r, n2) ≡ X - q.toNat * twoLimbs (d1, d0) + twoLimbs (n1, n0) [MOD radix 32 * radix 32]) :
    IsQuotient d1 d0 n2 X q r n1 n0 where
  le := hle
  less := hless
  rest := by
    have hd := twoLimbs_lt (d1, d0)
    rw [Nat.add_mul, Nat.one_mul] at hless
    apply Nat.ModEq.eq_of_lt_of_lt _ (twoLimbs_lt _) (by omega)
    exact Nat.ModEq.add_right_cancel' (twoLimbs (n1, n0)) ((subDdmmss_eq r n2 n1 n0).trans hrest)

/-- An estimate that passes the test is the quotient. -/
theorem Estimate.done (h : Estimate d1 d0 n2 X q r n1 n0) (htest : ¬(r < n1 ∨ n1 = r ∧ n2 < n0)) :
    IsQuotient d1 d0 n2 X q r n1 n0 := by
  have hle : twoLimbs (n1, n0) ≤ twoLimbs (r, n2) := by
    by_contra hlt
    rcases twoLimbs_lt_iff.mp (Nat.lt_of_not_le hlt) with h | h
    · exact htest (.inl h)
    · exact htest (.inr ⟨h.1.symm, h.2⟩)
  have hvalue : X + twoLimbs (n1, n0) = q.toNat * twoLimbs (d1, d0) + twoLimbs (r, n2) := by
    rw [h.product, h.value, twoLimbs_eq, twoLimbs_eq]
    ring
  apply IsQuotient.of_modEq (by omega) h.less
  rw [show X - q.toNat * twoLimbs (d1, d0) + twoLimbs (n1, n0) = twoLimbs (r, n2) by omega]

/-- An estimate that fails the test is too large. -/
theorem Estimate.next (h : Estimate d1 d0 n2 X q r n1 n0) (htest : r < n1 ∨ n1 = r ∧ n2 < n0) :
    if r + d1 < d1 then
      IsQuotient d1 d0 n2 X (q - 1) (r + d1) (subDdmmss n1 n0 0 d0).1 (subDdmmss n1 n0 0 d0).2
    else
      (r + d1).toNat = r.toNat + d1.toNat ∧
        Estimate d1 d0 n2 X (q - 1) (r + d1) (subDdmmss n1 n0 0 d0).1 (subDdmmss n1 n0 0 d0).2 := by
  have hlt : twoLimbs (r, n2) < twoLimbs (n1, n0) := by
    apply twoLimbs_lt_iff.mpr
    rcases htest with h | h
    · exact .inl h
    · exact .inr ⟨h.1.symm, h.2⟩
  have hvalue : X + twoLimbs (n1, n0) = q.toNat * twoLimbs (d1, d0) + twoLimbs (r, n2) := by
    rw [h.product, h.value, twoLimbs_eq, twoLimbs_eq]
    ring
  have hpos : q.toNat ≠ 0 := by
    intro hzero
    rw [h.product, hzero, Nat.zero_mul] at hlt
    omega
  have hq : (q - 1).toNat + 1 = q.toNat := by
    have hsub : (q - 1).toNat = q.toNat - 1 := toNat_sub_of_ge (show 1 ≤ q.toNat by omega)
    omega
  have hd0 : twoLimbs ((0 : Limb), d0) = d0.toNat := by
    rw [twoLimbs_eq]
    show 0 * radix 32 + d0.toNat = d0.toNat
    omega
  have hmul : q.toNat * d0.toNat = (q - 1).toNat * d0.toNat + d0.toNat := by rw [← hq, Nat.add_mul, Nat.one_mul]
  have hproduct : twoLimbs (subDdmmss n1 n0 0 d0) = (q - 1).toNat * d0.toNat := by
    rw [twoLimbs_subDdmmss, hd0, h.product]
    · omega
    · rw [hd0, h.product]
      omega
  have hless : X < ((q - 1).toNat + 1) * twoLimbs (d1, d0) := by
    rw [hq]
    omega
  by_cases hcarry : r + d1 < d1
  · rw [if_pos hcarry]
    have hover := add_lt_right_iff.mp hcarry
    have hsum := toNat_add_of_le hover
    -- what is left has more than two limbs, so it is not less than the product
    have hvalue' : X + twoLimbs (subDdmmss n1 n0 0 d0) =
        (q - 1).toNat * twoLimbs (d1, d0) + (twoLimbs (r + d1, n2) + radix 32 * radix 32) := by
      have hr : (r + d1).toNat + radix 32 = r.toNat + d1.toNat := by omega
      rw [hproduct, h.value, twoLimbs_eq, twoLimbs_eq, ← hq]
      linear_combination radix 32 * hr.symm
    have hbound := twoLimbs_lt (subDdmmss n1 n0 0 d0)
    apply IsQuotient.of_modEq (by omega) hless
    rw [show X - (q - 1).toNat * twoLimbs (d1, d0) + twoLimbs (subDdmmss n1 n0 0 d0) =
      twoLimbs (r + d1, n2) + radix 32 * radix 32 by omega]
    exact (Nat.add_modEq_right).symm
  · rw [if_neg hcarry]
    have hsum : (r + d1).toNat = r.toNat + d1.toNat := by
      apply toNat_add_of_lt
      by_contra hover
      exact hcarry (add_lt_right_iff.mpr (Nat.le_of_not_lt hover))
    refine ⟨hsum, ?_, hproduct, hless⟩
    rw [h.value, hsum, ← hq]
    ring

/-- The limit of the rounds of a correction: `r` grows by a normalized limb. -/
def correctionRounds (r : Limb) : ℕ := (4294967295 - r.toNat) / 2147483648

theorem correctionRounds_lt (r : Limb) : correctionRounds r < 2 := by
  unfold correctionRounds
  omega

theorem correctionRounds_next (hd1 : 2147483648 ≤ d1.toNat) (hsum : (r + d1).toNat = r.toNat + d1.toNat) :
    correctionRounds (r + d1) < correctionRounds r := by
  have hlt := (r + d1).isLt
  unfold correctionRounds
  rw [hsum] at hlt ⊢
  omega

theorem qTest_returns (hd1 : 2147483648 ≤ d1.toNat) (h : Estimate d1 d0 n2 X q r n1 n0) :
    Returns (loop (qTest d1 d0 n2) 2 (q, r, n1, n0)) fun st => IsQuotient d1 d0 n2 X st.1 st.2.1 st.2.2.1 st.2.2.2 := by
  apply loop_returns (fun st : Limb × Limb × Limb × Limb => Estimate d1 d0 n2 X st.1 st.2.1 st.2.2.1 st.2.2.2) _
    fun st => correctionRounds st.2.1
  · rintro ⟨q, r, n1, n0⟩ hst
    unfold qTest
    dsimp only at hst ⊢
    by_cases htest : r < n1 ∨ n1 = r ∧ n2 < n0
    · rw [if_pos htest]
      have hnext := hst.next htest
      by_cases hcarry : r + d1 < d1
      · rw [if_pos hcarry] at hnext
        rw [if_neg (BitVec.not_le.mpr hcarry)]
        exact returns_pure.mpr hnext
      · rw [if_neg hcarry] at hnext
        rw [if_pos (BitVec.not_lt.mp hcarry)]
        exact returns_pure.mpr ⟨hnext.2, correctionRounds_next hd1 hnext.1⟩
    · rw [if_neg htest]
      exact returns_pure.mpr (hst.done htest)
  · exact h
  · exact correctionRounds_lt r

theorem qCorrect_returns (hd1 : 2147483648 ≤ d1.toNat) (h : Estimate d1 d0 n2 X q r n1 n0) :
    Returns (loop (qCorrect d1 d0 n2) 2 (q, r, n1, n0)) fun q =>
      q.toNat * twoLimbs (d1, d0) ≤ X ∧ X < (q.toNat + 1) * twoLimbs (d1, d0) := by
  apply loop_returns (fun st : Limb × Limb × Limb × Limb => Estimate d1 d0 n2 X st.1 st.2.1 st.2.2.1 st.2.2.2) _
    fun st => correctionRounds st.2.1
  · rintro ⟨q, r, n1, n0⟩ hst
    have hsub : (n1 - flag (n0 < d0), n0 - d0) = subDdmmss n1 n0 0 d0 := by
      have hflag : n0 < n0 - d0 ↔ n0 < d0 := lt_sub_iff.trans BitVec.lt_def.symm
      show (n1 - flag (n0 < d0), n0 - d0) = (n1 - 0#32 - flag (n0 < n0 - d0), n0 - d0)
      simp only [flag, hflag, BitVec.sub_zero]
    unfold qCorrect
    dsimp only at hst ⊢
    by_cases htest : r < n1 ∨ n1 = r ∧ n2 < n0
    · rw [if_pos htest, hsub]
      have hnext := hst.next htest
      by_cases hcarry : r + d1 < d1
      · rw [if_pos hcarry] at hnext ⊢
        exact returns_pure.mpr ⟨hnext.le, hnext.less⟩
      · rw [if_neg hcarry] at hnext ⊢
        exact returns_pure.mpr ⟨hnext.2, correctionRounds_next hd1 hnext.1⟩
    · rw [if_neg htest]
      exact returns_pure.mpr ⟨(hst.done htest).le, (hst.done htest).less⟩
  · exact h
  · exact correctionRounds_lt r

/-- The estimate by the high limb of the divisor. -/
theorem estimate_udivQrnnd {x1 x0 : Limb} (hd1 : 2147483648 ≤ d1.toNat) (hx : x1 < d1) :
    Estimate d1 d0 n2 (twoLimbs (x1, x0) * radix 32 + n2.toNat) (udivQrnnd x1 x0 d1).1 (udivQrnnd x1 x0 d1).2
      (umulPpmm d0 (udivQrnnd x1 x0 d1).1).1 (umulPpmm d0 (udivQrnnd x1 x0 d1).1).2 := by
  obtain ⟨hvalue, hless⟩ := udivQrnnd_eq x0 hx hd1
  have hn2 := toNat_lt_radix n2
  constructor
  · rw [twoLimbs_eq, hvalue]
  · rw [Nat.mul_comm]
    exact umulPpmm_eq d0 _
  · rw [twoLimbs_eq, hvalue]
    have hone := Nat.mul_le_mul_right (radix 32) (Nat.succ_le_of_lt hless)
    rw [Nat.succ_mul] at hone
    calc ((udivQrnnd x1 x0 d1).1.toNat * d1.toNat + (udivQrnnd x1 x0 d1).2.toNat) * radix 32 + n2.toNat
        < (udivQrnnd x1 x0 d1).1.toNat * d1.toNat * radix 32 + d1.toNat * radix 32 := by
          rw [Nat.add_mul]
          omega
      _ = ((udivQrnnd x1 x0 d1).1.toNat + 1) * (d1.toNat * radix 32) := by ring
      _ ≤ ((udivQrnnd x1 x0 d1).1.toNat + 1) * (d1.toNat * radix 32 + d0.toNat) :=
          Nat.mul_le_mul_left _ (Nat.le_add_right _ _)

/-- The special case of `divDigitTwo`, where the estimate is the largest limb. -/
theorem estimate_max {x0 : Limb} (n2 : Limb) (hx : twoLimbs (d1, x0) < twoLimbs (d1, d0)) :
    (if x0 + d1 < d1 then
      twoLimbs (d1, x0) * radix 32 + n2.toNat = (radix 32 - 1) * twoLimbs (d1, d0) +
        twoLimbs (addSsaaaa (x0 + d1 - d0) n2 0 d0) ∧ twoLimbs (addSsaaaa (x0 + d1 - d0) n2 0 d0) < twoLimbs (d1, d0)
    else
      Estimate d1 d0 n2 (twoLimbs (d1, x0) * radix 32 + n2.toNat) (~~~0#32) (x0 + d1) (d0 - flag (d0 ≠ 0)) (-d0)) := by
  have hlt : x0.toNat < d0.toNat := by
    rw [twoLimbs_eq, twoLimbs_eq] at hx
    omega
  have hd1 := toNat_lt_radix d1
  have hd0 := toNat_lt_radix d0
  have hn2 := toNat_lt_radix n2
  by_cases hcarry : x0 + d1 < d1
  · rw [if_pos hcarry]
    have hover := add_lt_right_iff.mp hcarry
    have hsum := toNat_add_of_le hover
    have hhigh : (x0 + d1 - d0).toNat + d0.toNat = x0.toNat + d1.toNat := by
      rw [toNat_sub_of_lt (by omega)]
      omega
    -- the high limb is below that of the divisor
    have hrest : (x0 + d1 - d0).toNat * radix 32 + n2.toNat + d0.toNat < twoLimbs (d1, d0) := by
      have hmul := Nat.mul_le_mul_right (radix 32) (show (x0 + d1 - d0).toNat + 1 ≤ d1.toNat by omega)
      rw [Nat.add_mul, Nat.one_mul] at hmul
      rw [twoLimbs_eq]
      omega
    have hbound := twoLimbs_lt (d1, d0)
    have hadd : twoLimbs (addSsaaaa (x0 + d1 - d0) n2 0 d0) =
        (x0 + d1 - d0).toNat * radix 32 + n2.toNat + d0.toNat := by
      apply Nat.ModEq.eq_of_lt_of_lt _ (twoLimbs_lt _) (by omega)
      apply (addSsaaaa_eq (x0 + d1 - d0) n2 0 d0).trans
      have hzero : twoLimbs ((0 : Limb), d0) = d0.toNat := by
        rw [twoLimbs_eq]
        show 0 * radix 32 + d0.toNat = d0.toNat
        omega
      rw [hzero, twoLimbs_eq]
    rw [hadd]
    refine ⟨?_, hrest⟩
    have hone : radix 32 - 1 + 1 = radix 32 := rfl
    rw [twoLimbs_eq, twoLimbs_eq]
    linear_combination radix 32 * hhigh.symm + (d1.toNat * radix 32 + d0.toNat) * hone.symm
  · rw [if_neg hcarry]
    have hsum : (x0 + d1).toNat = x0.toNat + d1.toNat := by
      apply toNat_add_of_lt
      by_contra hover
      exact hcarry (add_lt_right_iff.mpr (Nat.le_of_not_lt hover))
    have hq : (~~~0#32 : Limb).toNat + 1 = radix 32 := rfl
    have hne : d0 ≠ 0 := by
      rintro rfl
      exact absurd hlt (Nat.not_lt_zero _)
    constructor
    · rw [twoLimbs_eq, hsum]
      linear_combination d1.toNat * radix 32 * hq.symm
    · have hhigh : (d0 - flag (d0 ≠ 0)).toNat + 1 = d0.toNat := by
        rw [flag, if_pos hne]
        have hsub : (d0 - 1#32).toNat = d0.toNat - 1 := toNat_sub_of_ge (show 1 ≤ d0.toNat by omega)
        omega
      have hlow : (-d0).toNat + d0.toNat = radix 32 := by
        rw [BitVec.toNat_neg, ← radix, Nat.mod_eq_of_lt (by omega)]
        omega
      rw [twoLimbs_eq]
      linear_combination radix 32 * hhigh + hlow + d0.toNat * hq.symm
    · rw [hq]
      rw [twoLimbs_eq] at hx ⊢
      have hmul := Nat.mul_le_mul_right (radix 32) (Nat.succ_le_of_lt hx)
      rw [Nat.succ_mul] at hmul
      rw [Nat.mul_comm (radix 32) (twoLimbs _)]
      omega

theorem divDigitTwo_returns {x1 x0 : Limb} (n2 : Limb) (hd1 : 2147483648 ≤ d1.toNat)
    (hx : twoLimbs (x1, x0) < twoLimbs (d1, d0)) :
    Returns (divDigitTwo d1 d0 x1 x0 n2) fun r =>
      twoLimbs (x1, x0) * radix 32 + n2.toNat = r.1.toNat * twoLimbs (d1, d0) + twoLimbs r.2 ∧
        twoLimbs r.2 < twoLimbs (d1, d0) := by
  have hquotient : ∀ {X : ℕ} {st : Limb × Limb × Limb × Limb},
      IsQuotient d1 d0 n2 X st.1 st.2.1 st.2.2.1 st.2.2.2 →
        X = st.1.toNat * twoLimbs (d1, d0) + twoLimbs (subDdmmss st.2.1 n2 st.2.2.1 st.2.2.2) ∧
          twoLimbs (subDdmmss st.2.1 n2 st.2.2.1 st.2.2.2) < twoLimbs (d1, d0) := by
    intro X st h
    obtain ⟨hle, hless, hrest⟩ := h
    rw [hrest]
    rw [Nat.add_mul, Nat.one_mul] at hless
    omega
  unfold divDigitTwo
  by_cases heq : x1 = d1
  · subst heq
    rw [if_pos rfl]
    have hmax := estimate_max n2 hx
    dsimp only
    by_cases hcarry : x0 + x1 < x1
    · rw [if_pos hcarry] at hmax ⊢
      exact returns_pure.mpr hmax
    · rw [if_neg hcarry] at hmax ⊢
      apply (qTest_returns hd1 hmax).bind
      intro st hst
      exact returns_pure.mpr (hquotient hst)
  · rw [if_neg heq]
    have hlt : x1 < d1 := by
      rcases twoLimbs_lt_iff.mp hx with h | h
      · exact h
      · exact absurd h.1 heq
    apply (qTest_returns hd1 (estimate_udivQrnnd hd1 hlt)).bind
    intro st hst
    exact returns_pure.mpr (hquotient hst)

theorem qEstimate_returns {dX d1 n0 n1 n2 : Limb} (hdX : 2147483648 ≤ dX.toNat) (hn0 : n0.toNat ≤ dX.toNat) :
    Returns (qEstimate dX d1 n0 n1 n2) fun q =>
      (q.toNat * twoLimbs (dX, d1) ≤ twoLimbs (n0, n1) * radix 32 + n2.toNat ∧
        twoLimbs (n0, n1) * radix 32 + n2.toNat < (q.toNat + 1) * twoLimbs (dX, d1)) ∨
        n0 = dX ∧ q.toNat + 1 = radix 32 := by
  unfold qEstimate
  by_cases heq : n0 = dX
  · rw [if_pos heq]
    exact returns_pure.mpr (.inr ⟨heq, rfl⟩)
  · rw [if_neg heq]
    have hlt : n0 < dX := by
      have hne : n0.toNat ≠ dX.toNat := fun h => heq (BitVec.eq_of_toNat_eq h)
      exact BitVec.lt_def.mpr (by omega)
    exact (qCorrect_returns hdX (estimate_udivQrnnd hdX hlt)).mono fun _ => .inl

/-- The estimate by the highest limbs is the limb of the quotient or one more. -/
theorem estimate_bounds {dX d1 n0 n1 n2 q : Limb} {P low dlow : ℕ} (hdX : 2147483648 ≤ dX.toNat) (hlow : low < P)
    (hdlow : dlow < P)
    (hless : (twoLimbs (n0, n1) * radix 32 + n2.toNat) * P + low < (twoLimbs (dX, d1) * P + dlow) * radix 32)
    (hq : (q.toNat * twoLimbs (dX, d1) ≤ twoLimbs (n0, n1) * radix 32 + n2.toNat ∧
        twoLimbs (n0, n1) * radix 32 + n2.toNat < (q.toNat + 1) * twoLimbs (dX, d1)) ∨
        n0 = dX ∧ q.toNat + 1 = radix 32) :
    (twoLimbs (n0, n1) * radix 32 + n2.toNat) * P + low < (q.toNat + 1) * (twoLimbs (dX, d1) * P + dlow) ∧
      q.toNat * (twoLimbs (dX, d1) * P + dlow) ≤
        (twoLimbs (n0, n1) * radix 32 + n2.toNat) * P + low + (twoLimbs (dX, d1) * P + dlow) := by
  have hd1 := toNat_lt_radix d1
  rcases hq with ⟨hle, hgt⟩ | ⟨rfl, hq⟩
  · generalize twoLimbs (n0, n1) * radix 32 + n2.toNat = X at *
    have hlarge : radix 32 ≤ twoLimbs (dX, d1) := by
      rw [twoLimbs_eq, radix_eq]
      omega
    generalize twoLimbs (dX, d1) = D at *
    constructor
    · calc X * P + low < (X + 1) * P := by
            rw [Nat.add_mul, Nat.one_mul]
            omega
        _ ≤ (q.toNat + 1) * D * P := Nat.mul_le_mul_right P hgt
        _ ≤ (q.toNat + 1) * (D * P + dlow) := by
            rw [Nat.mul_assoc]
            exact Nat.mul_le_mul_left _ (Nat.le_add_right _ _)
    · have hfirst : q.toNat * D * P ≤ X * P := Nat.mul_le_mul_right P hle
      have hsecond : q.toNat * dlow ≤ D * P :=
        Nat.mul_le_mul (Nat.le_trans (Nat.le_of_lt (toNat_lt_radix q)) hlarge) (Nat.le_of_lt hdlow)
      rw [Nat.mul_add, ← Nat.mul_assoc]
      omega
  · refine ⟨by rw [hq, Nat.mul_comm (radix 32)]; exact hless, ?_⟩
    obtain ⟨q', hq'⟩ : ∃ q', q.toNat = q' + 1 := ⟨q.toNat - 1, by rw [radix_eq] at hq; omega⟩
    have hdivisor : twoLimbs (n0, d1) * P + dlow ≤ (n0.toNat + 1) * radix 32 * P := by
      calc twoLimbs (n0, d1) * P + dlow ≤ (twoLimbs (n0, d1) + 1) * P := by
            rw [Nat.add_mul, Nat.one_mul]
            omega
        _ ≤ (n0.toNat + 1) * radix 32 * P := by
            apply Nat.mul_le_mul_right
            rw [twoLimbs_eq, Nat.add_mul, Nat.one_mul]
            omega
    have hratio : q' * (n0.toNat + 1) ≤ radix 32 * n0.toNat := by
      rw [← hq, hq']
      have hhalf : q' ≤ 2 * n0.toNat := by
        rw [hq', radix_eq] at hq
        omega
      calc q' * (n0.toNat + 1) = q' * n0.toNat + q' := by ring
        _ ≤ q' * n0.toNat + 2 * n0.toNat := by omega
        _ = (q' + 1 + 1) * n0.toNat := by ring
    have hmain : q' * (twoLimbs (n0, d1) * P + dlow) ≤ (twoLimbs (n0, n1) * radix 32 + n2.toNat) * P := by
      calc q' * (twoLimbs (n0, d1) * P + dlow) ≤ q' * ((n0.toNat + 1) * radix 32 * P) := Nat.mul_le_mul_left _ hdivisor
        _ = q' * (n0.toNat + 1) * (radix 32 * P) := by ring
        _ ≤ radix 32 * n0.toNat * (radix 32 * P) := Nat.mul_le_mul_right _ hratio
        _ = n0.toNat * radix 32 * radix 32 * P := by ring
        _ ≤ (twoLimbs (n0, n1) * radix 32 + n2.toNat) * P := by
            apply Nat.mul_le_mul_right
            rw [twoLimbs_eq, Nat.add_mul]
            omega
    rw [hq', Nat.add_mul, Nat.one_mul]
    omega

theorem divDigitMany_returns (mem : Limbs) (np dp n : ℕ) (n2 : Limb) (hapart : Apart np (n + 2) dp (n + 2))
    (hd : 2147483648 ≤ (mem (dp + (n + 1))).toNat)
    (hless : n2.toNat * radix 32 ^ (n + 2) + num mem np (n + 2) < num mem dp (n + 2) * radix 32) :
    Returns (divDigitMany mem np dp (n + 2) (mem (dp + (n + 1))) (mem (dp + n)) n2 n2) fun r =>
      n2.toNat * radix 32 ^ (n + 2) + num mem np (n + 2) = r.2.toNat * num mem dp (n + 2) + num r.1 np (n + 2) ∧
        num r.1 np (n + 2) < num mem dp (n + 2) ∧ Writes np (n + 2) mem r.1 := by
  have hN : n2.toNat * radix 32 ^ (n + 2) + num mem np (n + 2) =
      (twoLimbs (n2, mem (np + (n + 1))) * radix 32 + (mem (np + n)).toNat) * radix 32 ^ n + num mem np n := by
    rw [twoLimbs_eq, num_succ, num_succ]
    ring
  have hD : num mem dp (n + 2) = twoLimbs (mem (dp + (n + 1)), mem (dp + n)) * radix 32 ^ n + num mem dp n := by
    rw [twoLimbs_eq, num_succ, num_succ]
    ring
  have hDlt := num_lt mem dp (n + 2)
  have hn0 : n2.toNat ≤ (mem (dp + (n + 1))).toNat := by
    by_contra hlt
    have hmul := Nat.mul_le_mul_right (radix 32 ^ (n + 2))
      (show (mem (dp + (n + 1))).toNat + 1 ≤ n2.toNat by omega)
    have hbelow : num mem dp (n + 2) * radix 32 ≤ ((mem (dp + (n + 1))).toNat + 1) * radix 32 ^ (n + 2) := by
      have hlow := num_lt mem dp (n + 1)
      calc num mem dp (n + 2) * radix 32
          ≤ (((mem (dp + (n + 1))).toNat + 1) * radix 32 ^ (n + 1)) * radix 32 := by
            apply Nat.mul_le_mul_right
            rw [num_succ, Nat.add_mul, Nat.one_mul]
            omega
        _ = ((mem (dp + (n + 1))).toNat + 1) * radix 32 ^ (n + 2) := by ring
    omega
  unfold divDigitMany
  apply (qEstimate_returns hd hn0).bind
  intro q hq
  rw [hN, hD] at hless
  obtain ⟨hupper, hlower⟩ := estimate_bounds hd (num_lt mem np n) (num_lt mem dp n) hless hq
  rw [← hN, ← hD] at hupper hlower
  apply (mpihelpSubmul1_returns mem q (by omega) (Apart.readsAhead hapart)).bind
  intro r hr
  obtain ⟨mem1, cy⟩ := r
  obtain ⟨hvalue, hwrites⟩ := hr
  dsimp only at hvalue hwrites ⊢
  have hlt1 := num_lt mem1 np (n + 2)
  rw [Nat.add_mul, Nat.one_mul] at hupper
  rw [Nat.mul_comm (num mem dp (n + 2))] at hvalue
  by_cases hne : n2 ≠ cy
  · -- the estimate was one too large, and the divisor is added back
    rw [if_pos hne]
    have hcy : cy.toNat = n2.toNat + 1 := by
      have hne' : n2.toNat ≠ cy.toNat := fun h => hne (BitVec.eq_of_toNat_eq h)
      have hle : n2.toNat ≤ cy.toNat := by
        by_contra hlt
        have hmul := Nat.mul_le_mul_right (radix 32 ^ (n + 2)) (show cy.toNat + 1 ≤ n2.toNat by omega)
        rw [Nat.add_mul, Nat.one_mul] at hmul
        omega
      by_contra hgt
      have hmul := Nat.mul_le_mul_right (radix 32 ^ (n + 2)) (show n2.toNat + 2 ≤ cy.toNat by omega)
      rw [Nat.add_mul] at hmul
      omega
    rw [hcy, Nat.add_mul, Nat.one_mul] at hvalue
    have hdp1 : num mem1 dp (n + 2) = num mem dp (n + 2) := hwrites.num_eq (by omega)
    apply (mpihelpAddN_returns mem1 (by omega) (.inl (Nat.le_refl np)) (Apart.readsAhead hapart)).bind
    intro r hr
    obtain ⟨mem2, cy2⟩ := r
    obtain ⟨hsum, hcy2, hwrites2⟩ := hr
    dsimp only at hsum hcy2 hwrites2 ⊢
    rw [hdp1] at hsum
    have hlt2 := num_lt mem2 np (n + 2)
    have hone : cy2.toNat = 1 := by
      by_contra hzero
      rw [show cy2.toNat = 0 by omega, Nat.zero_mul] at hsum
      omega
    rw [hone, Nat.one_mul] at hsum
    have hpos : q.toNat ≠ 0 := by
      intro hzero
      rw [hzero, Nat.zero_mul] at hvalue
      omega
    have hq1 : (q - 1).toNat + 1 = q.toNat := by
      have hsub : (q - 1).toNat = q.toNat - 1 := toNat_sub_of_ge (show 1 ≤ q.toNat by omega)
      omega
    have hmul : q.toNat * num mem dp (n + 2) = (q - 1).toNat * num mem dp (n + 2) + num mem dp (n + 2) := by
      rw [← hq1, Nat.add_mul, Nat.one_mul]
    refine returns_pure.mpr ⟨?_, ?_, hwrites.trans hwrites2⟩
    · dsimp only
      omega
    · dsimp only
      omega
  · rw [if_neg hne]
    obtain rfl := not_not.mp hne
    refine returns_pure.mpr ⟨?_, ?_, hwrites⟩
    · dsimp only
      omega
    · dsimp only
      omega

end Estimates

end ChannelBench
