import ChannelBench.MpiShifts

/-! Products with one limb (`mpih-mul1.c`, `mpih-mul2.c`, `mpih-mul3.c`) and the base cases of `mpih-mul.c`, which
multiply row by row. -/

namespace ChannelBench

open CSem

/-- The product of a limb with `s2Limb` and the carry of the limb before. -/
def mulCarry (s2Limb x cy : Limb) : Limb × Limb :=
  let (prodHigh, prodLow) := umulPpmm x s2Limb
  let prodLow := prodLow + cy
  (prodLow, flag (prodLow < cy) + prodHigh)

/-- `mpihelp_mul_1`. -/
def mpihelpMul1 (mem : Limbs) (res s1 s1Size : ℕ) (s2Limb : Limb) : Run (Limbs × Limb) :=
  wordLoop (fun x _ cy => mulCarry s2Limb x cy) mem res s1 s1 s1Size

/-- `mpihelp_addmul_1`. -/
def mpihelpAddmul1 (mem : Limbs) (res s1 s1Size : ℕ) (s2Limb : Limb) : Run (Limbs × Limb) :=
  wordLoop (fun s x cy =>
      let (prodLow, cyLimb) := mulCarry s2Limb s cy
      let prodLow := x + prodLow
      (prodLow, cyLimb + flag (prodLow < x)))
    mem res s1 res s1Size

/-- `mpihelp_submul_1`. -/
def mpihelpSubmul1 (mem : Limbs) (res s1 s1Size : ℕ) (s2Limb : Limb) : Run (Limbs × Limb) :=
  wordLoop (fun s x cy =>
      let (prodLow, cyLimb) := mulCarry s2Limb s cy
      let prodLow := x - prodLow
      (prodLow, cyLimb + flag (x < prodLow)))
    mem res s1 res s1Size

/-- The row of the first limb, which is stored. -/
def mulFirstRow (mem : Limbs) (prodp up usize : ℕ) (vLimb : Limb) : Run (Limbs × Limb) := do
  if vLimb ≤ 1 then
    let mem ← (if vLimb = 1 then copyLoop mem prodp up usize else zeroLoop mem prodp usize)
    return (mem, 0)
  else
    mpihelpMul1 mem prodp up usize vLimb

/-- The row of another limb, which is added. -/
def mulNextRow (mem : Limbs) (prodp up usize : ℕ) (vLimb : Limb) : Run (Limbs × Limb) := do
  if vLimb ≤ 1 then
    if vLimb = 1 then
      mpihelpAddN mem prodp prodp up usize
    else
      return (mem, 0)
  else
    mpihelpAddmul1 mem prodp up usize vLimb

/-- The rows of the base cases, one for each limb of the second operand. -/
def mulRows (mem : Limbs) (prodp up usize vp vsize : ℕ) : Run (Limbs × Limb) := do
  let (mem, cy) ← mulFirstRow mem prodp up usize (mem vp)
  let mem := Function.update mem (prodp + usize) cy
  forUpto (fun i (mem, _) => do
      let (mem, cy) ← mulNextRow mem (prodp + (i + 1)) up usize (mem (vp + (i + 1)))
      return (Function.update mem (prodp + (i + 1) + usize) cy, cy))
    (vsize - 1) (mem, cy)

/-- `mul_n_basecase`. -/
def mulNBasecase (mem : Limbs) (prodp up vp size : ℕ) : Run (Limbs × Limb) := mulRows mem prodp up size vp size

section OneLimb

variable {res s1 size : ℕ}

theorem mulCarry_eq (s2Limb x cy : Limb) :
    (mulCarry s2Limb x cy).1.toNat + (mulCarry s2Limb x cy).2.toNat * radix 32 = x.toNat * s2Limb.toNat + cy.toNat := by
  have hproduct := umulPpmm_eq x s2Limb
  have hfits := twoLimbs_lt (umulPpmm x s2Limb)
  unfold mulCarry
  dsimp only
  generalize umulPpmm x s2Limb = p at *
  obtain ⟨hsum, hflag⟩ := add_flag (by decide) p.2 cy
  generalize (flag (p.2 + cy < cy) : Limb) = f at *
  have hx : x.toNat < 4294967296 := x.isLt
  have hs : s2Limb.toNat < 4294967296 := s2Limb.isLt
  have hcy := cy.isLt
  have hle : x.toNat * s2Limb.toNat ≤ 4294967295 * 4294967295 := Nat.mul_le_mul (by omega) (by omega)
  have hhigh : (f + p.1).toNat = f.toNat + p.1.toNat := by
    apply toNat_add_of_lt
    rw [radix_eq] at *
    omega
  rw [hhigh]
  linear_combination hproduct + hsum

theorem mpihelpMul1_returns (mem : Limbs) (s2Limb : Limb) (hsize : 0 < size) (hread : ReadsAhead res s1 size) :
    Returns (mpihelpMul1 mem res s1 size s2Limb) fun r =>
      num r.1 res size + r.2.toNat * radix 32 ^ size = num mem s1 size * s2Limb.toNat ∧ Writes res size mem r.1 := by
  apply (wordLoop_returns s2Limb.toNat 0 1 (fun _ : Limb => True) trivial _ mem hsize hread hread).mono
  · intro r hr
    obtain ⟨hvalue, -, hwrites⟩ := hr
    refine ⟨?_, hwrites⟩
    zify
    linear_combination hvalue
  · intro x y cy _
    have hrow := mulCarry_eq s2Limb x cy
    zify at hrow
    exact ⟨by linear_combination hrow, trivial⟩

theorem mpihelpAddmul1_returns (mem : Limbs) (s2Limb : Limb) (hsize : 0 < size) (hread : ReadsAhead res s1 size) :
    Returns (mpihelpAddmul1 mem res s1 size s2Limb) fun r =>
      num r.1 res size + r.2.toNat * radix 32 ^ size = num mem res size + num mem s1 size * s2Limb.toNat ∧
        Writes res size mem r.1 := by
  apply (wordLoop_returns s2Limb.toNat 1 1 (fun _ : Limb => True) trivial _ mem hsize hread
    (.inl (Nat.le_refl res))).mono
  · intro r hr
    obtain ⟨hvalue, -, hwrites⟩ := hr
    refine ⟨?_, hwrites⟩
    zify
    linear_combination hvalue
  · intro s x cy _
    refine ⟨?_, trivial⟩
    have hrow := mulCarry_eq s2Limb s cy
    dsimp only
    generalize mulCarry s2Limb s cy = p at *
    obtain ⟨hsum, hflag⟩ := add_flag (by decide) p.1 x
    rw [BitVec.add_comm] at hsum hflag
    generalize (flag (x + p.1 < x) : Limb) = f at *
    have hx : x.toNat < 4294967296 := x.isLt
    have hcy : cy.toNat < 4294967296 := cy.isLt
    have hs : s.toNat * s2Limb.toNat ≤ 4294967295 * 4294967295 :=
      Nat.mul_le_mul (Nat.le_of_lt_succ s.isLt) (Nat.le_of_lt_succ s2Limb.isLt)
    have hhigh : (p.2 + f).toNat = p.2.toNat + f.toNat := by
      apply toNat_add_of_lt
      rw [radix_eq] at *
      omega
    rw [hhigh]
    zify at hrow hsum
    push_cast
    linear_combination hrow + hsum

theorem mpihelpSubmul1_returns (mem : Limbs) (s2Limb : Limb) (hsize : 0 < size) (hread : ReadsAhead res s1 size) :
    Returns (mpihelpSubmul1 mem res s1 size s2Limb) fun r =>
      num r.1 res size + num mem s1 size * s2Limb.toNat = num mem res size + r.2.toNat * radix 32 ^ size ∧
        Writes res size mem r.1 := by
  apply (wordLoop_returns (-s2Limb.toNat) 1 (-1) (fun _ : Limb => True) trivial _ mem hsize hread
    (.inl (Nat.le_refl res))).mono
  · intro r hr
    obtain ⟨hvalue, -, hwrites⟩ := hr
    refine ⟨?_, hwrites⟩
    zify
    linear_combination hvalue
  · intro s x cy _
    refine ⟨?_, trivial⟩
    have hrow := mulCarry_eq s2Limb s cy
    dsimp only
    generalize mulCarry s2Limb s cy = p at *
    obtain ⟨hdiff, hflag⟩ := sub_flag (by decide) x p.1
    generalize (flag (x < x - p.1) : Limb) = f at *
    have hcy : cy.toNat < 4294967296 := cy.isLt
    have hs : s.toNat * s2Limb.toNat ≤ 4294967295 * 4294967295 :=
      Nat.mul_le_mul (Nat.le_of_lt_succ s.isLt) (Nat.le_of_lt_succ s2Limb.isLt)
    have hhigh : (p.2 + f).toNat = p.2.toNat + f.toNat := by
      apply toNat_add_of_lt
      rw [radix_eq] at *
      omega
    rw [hhigh]
    zify at hrow hdiff
    push_cast
    linear_combination hdiff - hrow

end OneLimb

/-! ### The base cases -/

section Rows

variable {prodp up usize vp vsize size : ℕ}

theorem eq_zero_of_le_one {v : Limb} (hle : v ≤ 1) (hne : v ≠ 1) : v = 0 := by
  have hone : v.toNat ≠ 1 := fun h => hne (BitVec.eq_of_toNat_eq h)
  have hle' : v.toNat ≤ 1 := hle
  apply BitVec.eq_of_toNat_eq
  show v.toNat = 0
  omega

theorem mulFirstRow_returns (mem : Limbs) (vLimb : Limb) (husize : 0 < usize)
    (hup : Apart prodp usize up usize) :
    Returns (mulFirstRow mem prodp up usize vLimb) fun r =>
      num r.1 prodp usize + r.2.toNat * radix 32 ^ usize = num mem up usize * vLimb.toNat ∧
        Writes prodp usize mem r.1 := by
  unfold mulFirstRow
  by_cases hle : vLimb ≤ 1
  · rw [if_pos hle]
    by_cases hone : vLimb = 1
    · subst hone
      rw [if_pos rfl]
      apply (copyLoop_num mem hup.readsAhead).bind
      intro mem' hmem'
      obtain ⟨hvalue, hwrites⟩ := hmem'
      refine returns_pure.mpr ⟨?_, hwrites⟩
      show num mem' prodp usize + 0 * radix 32 ^ usize = num mem up usize * 1
      rw [hvalue, Nat.zero_mul, Nat.mul_one, Nat.add_zero]
    · have hzero := eq_zero_of_le_one hle hone
      subst hzero
      rw [if_neg hone]
      apply (zeroLoop_num mem prodp usize).bind
      intro mem' hmem'
      obtain ⟨hvalue, hwrites⟩ := hmem'
      refine returns_pure.mpr ⟨?_, hwrites⟩
      show num mem' prodp usize + 0 * radix 32 ^ usize = num mem up usize * 0
      rw [hvalue, Nat.zero_mul, Nat.mul_zero]
  · rw [if_neg hle]
    exact mpihelpMul1_returns mem vLimb husize hup.readsAhead

theorem mulNextRow_returns (mem : Limbs) (vLimb : Limb) (husize : 0 < usize)
    (hup : Apart prodp usize up usize) :
    Returns (mulNextRow mem prodp up usize vLimb) fun r =>
      num r.1 prodp usize + r.2.toNat * radix 32 ^ usize = num mem prodp usize + num mem up usize * vLimb.toNat ∧
        Writes prodp usize mem r.1 := by
  unfold mulNextRow
  by_cases hle : vLimb ≤ 1
  · rw [if_pos hle]
    by_cases hone : vLimb = 1
    · subst hone
      rw [if_pos rfl]
      apply (mpihelpAddN_returns mem husize (.inl (Nat.le_refl prodp)) hup.readsAhead).mono
      intro r hr
      obtain ⟨hvalue, -, hwrites⟩ := hr
      exact ⟨by rw [hvalue]; exact congrArg _ (Nat.mul_one _).symm, hwrites⟩
    · have hzero := eq_zero_of_le_one hle hone
      subst hzero
      rw [if_neg hone]
      refine returns_pure.mpr ⟨?_, Writes.refl prodp usize mem⟩
      show num mem prodp usize + 0 * radix 32 ^ usize = num mem prodp usize + num mem up usize * 0
      rw [Nat.zero_mul, Nat.mul_zero]
  · rw [if_neg hle]
    exact mpihelpAddmul1_returns mem vLimb husize hup.readsAhead

/-- The rows make the product, and the last carry is its top limb. -/
theorem mulRows_returns (mem : Limbs) (husize : 0 < usize) (hvsize : 0 < vsize)
    (hup : Apart prodp (usize + vsize) up usize) (hvp : Apart prodp (usize + vsize) vp vsize) :
    Returns (mulRows mem prodp up usize vp vsize) fun r =>
      num r.1 prodp (usize + vsize) = num mem up usize * num mem vp vsize ∧
        r.2 = r.1 (prodp + (usize + vsize - 1)) ∧ Writes prodp (usize + vsize) mem r.1 := by
  obtain ⟨vsize, rfl⟩ : ∃ k, vsize = k + 1 := ⟨vsize - 1, by omega⟩
  unfold mulRows
  rw [Nat.add_sub_cancel]
  apply (mulFirstRow_returns mem (mem vp) husize (by omega)).bind
  intro r hr
  obtain ⟨mem1, cy1⟩ := r
  obtain ⟨hfirst, hwrites1⟩ := hr
  dsimp only at hfirst hwrites1 ⊢
  have hloop := @forUpto_returns _ (fun i (st : Limbs × Limb) => (do
      let (mem, cy) ← mulNextRow st.1 (prodp + (i + 1)) up usize (st.1 (vp + (i + 1)))
      return (Function.update mem (prodp + (i + 1) + usize) cy, cy) : Run (Limbs × Limb)))
    (fun i st => num st.1 prodp (usize + (i + 1)) = num mem up usize * num mem vp (i + 1) ∧
      st.2 = st.1 (prodp + (usize + i)) ∧ Writes prodp (usize + (i + 1)) mem st.1)
    vsize (Function.update mem1 (prodp + usize) cy1, cy1) ?_ ?_
  · exact hloop
  · refine ⟨?_, ?_, ?_⟩
    · rw [num_update_top, num_one]
      exact hfirst
    · exact (Function.update_self (prodp + usize) cy1 mem1).symm
    · exact (hwrites1.mono (by omega) (by omega)).trans (writes_update mem1 _ (by omega) (by omega))
  · intro i hi st hst
    obtain ⟨mem', cy⟩ := st
    obtain ⟨hvalue, -, hwrites⟩ := hst
    dsimp only at hvalue hwrites ⊢
    have hu : num mem' up usize = num mem up usize := hwrites.num_eq (by omega)
    have hv : mem' (vp + (i + 1)) = mem (vp + (i + 1)) := hwrites _ (by omega)
    rw [hv]
    apply (mulNextRow_returns mem' (mem (vp + (i + 1))) husize (by omega)).bind
    intro r hr
    obtain ⟨mem2, cy2⟩ := r
    obtain ⟨hrow, hwrites2⟩ := hr
    dsimp only at hrow hwrites2 ⊢
    have hlow : num mem2 prodp (i + 1) = num mem' prodp (i + 1) := hwrites2.num_eq (.inl (Nat.le_refl _))
    apply returns_pure.mpr
    refine ⟨?_, ?_, ?_⟩
    · dsimp only
      rw [show usize + (i + 1 + 1) = (i + 1) + usize + 1 by omega, show prodp + (i + 1) + usize =
        prodp + ((i + 1) + usize) by omega, num_update_top, num_add, hlow, num_succ mem vp (i + 1)]
      rw [Nat.add_comm usize (i + 1), num_add] at hvalue
      rw [hu] at hrow
      rw [pow_add]
      linear_combination hvalue + radix 32 ^ (i + 1) * hrow
    · dsimp only
      rw [show prodp + (usize + (i + 1)) = prodp + (i + 1) + usize by omega, Function.update_self]
    · exact ((hwrites.mono (by omega) (by omega)).trans (hwrites2.mono (by omega) (by omega))).trans
        (writes_update mem2 _ (by omega) (by omega))

theorem mulNBasecase_returns (mem : Limbs) (hsize : 0 < size) (hup : Apart prodp (2 * size) up size)
    (hvp : Apart prodp (2 * size) vp size) :
    Returns (mulNBasecase mem prodp up vp size) fun r =>
      num r.1 prodp (2 * size) = num mem up size * num mem vp size ∧ Writes prodp (2 * size) mem r.1 := by
  rw [Nat.two_mul] at *
  apply (mulRows_returns mem hsize hsize hup hvp).mono
  intro r hr
  exact ⟨hr.1, hr.2.2⟩

end Rows

end ChannelBench
