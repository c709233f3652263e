import ChannelBench.MpiProducts

/-! Karatsuba's multiplication and squaring of `mpih-mul.c`, for operands of the same number of limbs. A product of
`size` limbs works in the `2 * size` limbs of its result and in `2 * size` limbs of temporary space. -/

namespace ChannelBench

open CSem

def karatsubaThreshold : ℕ := 16

/-- The difference of the two halves of an operand, the smaller one from the larger one, and whether the high
half is the smaller one. -/
def subHalves (mem : Limbs) (prodp up hsize : ℕ) : Run (Limbs × Bool) := do
  if 0 ≤ mpihelpCmp mem (up + hsize) up hsize then
    let (mem, _) ← mpihelpSubN mem prodp (up + hsize) up hsize
    return (mem, false)
  else
    let (mem, _) ← mpihelpSubN mem prodp up (up + hsize) hsize
    return (mem, true)

/-- Product H is added once more, and product M is added or subtracted: the carry is that above `size` limbs. -/
def addProductsHM (mem : Limbs) (prodp tspace hsize : ℕ) (negflg : Bool) : Run (Limbs × Limb) := do
  let size := 2 * hsize
  let mem ← copyLoop mem (prodp + hsize) (prodp + size) hsize
  let (mem, cy) ← mpihelpAddN mem (prodp + size) (prodp + size) (prodp + size + hsize) hsize
  if negflg then
    let (mem, borrow) ← mpihelpSubN mem (prodp + hsize) (prodp + hsize) tspace size
    return (mem, cy - borrow)
  else
    let (mem, carry) ← mpihelpAddN mem (prodp + hsize) (prodp + hsize) tspace size
    return (mem, cy + carry)

/-- Product L is added twice. -/
def addProductL (mem : Limbs) (prodp tspace hsize : ℕ) (cy : Limb) : Run Limbs := do
  let size := 2 * hsize
  let (mem, carry) ← mpihelpAddN mem (prodp + hsize) (prodp + hsize) tspace size
  let cy := cy + carry
  let mem ← (if cy ≠ 0 then
      Prod.fst <$> mpihelpAdd1 mem (prodp + hsize + size) (prodp + hsize + size) hsize cy
    else pure mem)
  let mem ← copyLoop mem prodp tspace hsize
  let (mem, cy) ← mpihelpAddN mem (prodp + hsize) (prodp + hsize) (tspace + hsize) hsize
  if cy ≠ 0 then
    Prod.fst <$> mpihelpAdd1 mem (prodp + size) (prodp + size) size 1
  else
    return mem

/-- `mul_n`, with `recurse` for `MPN_MUL_N_RECURSE`. -/
def mulN (recurse : Limbs → ℕ → ℕ → ℕ → ℕ → ℕ → Run Limbs) (mem : Limbs) (prodp up vp size tspace : ℕ) :
    Run Limbs := do
  if size % 2 = 1 then
    let esize := size - 1
    let mem ← recurse mem prodp up vp esize tspace
    let (mem, cyLimb) ← mpihelpAddmul1 mem (prodp + esize) up esize (mem (vp + esize))
    let mem := Function.update mem (prodp + esize + esize) cyLimb
    let (mem, cyLimb) ← mpihelpAddmul1 mem (prodp + esize) vp size (mem (up + esize))
    return Function.update mem (prodp + esize + size) cyLimb
  else
    let hsize := size / 2
    let mem ← recurse mem (prodp + size) (up + hsize) (vp + hsize) hsize tspace
    let (mem, negflg) ← subHalves mem prodp up hsize
    let (mem, less) ← subHalves mem (prodp + hsize) vp hsize
    let negflg := if less then negflg else !negflg
    let mem ← recurse mem tspace prodp (prodp + hsize) hsize (tspace + size)
    let (mem, cy) ← addProductsHM mem prodp tspace hsize negflg
    let mem ← recurse mem tspace up vp hsize (tspace + size)
    addProductL mem prodp tspace hsize cy

/-- `MPN_MUL_N_RECURSE`, for recursions of at most the given depth. -/
def mpnMulNRecurse : ℕ → Limbs → ℕ → ℕ → ℕ → ℕ → ℕ → Run Limbs
  | 0, _, _, _, _, _, _ => throw .rounds
  | depth + 1, mem, prodp, up, vp, size, tspace =>
      if size < karatsubaThreshold then
        Prod.fst <$> mulNBasecase mem prodp up vp size
      else
        mulN (mpnMulNRecurse depth) mem prodp up vp size tspace

section Steps

variable {prodp up tspace n : ℕ}

theorem subHalves_returns (mem : Limbs) (prodp up : ℕ) (hn : 0 < n) (hup : Apart prodp n up (2 * n)) :
    Returns (subHalves mem prodp up n) fun r =>
      (if r.2 then num r.1 prodp n + num mem (up + n) n = num mem up n
        else num r.1 prodp n + num mem up n = num mem (up + n) n) ∧ Writes prodp n mem r.1 := by
  have hhigh : ReadsAhead prodp (up + n) n := Apart.readsAhead (by omega)
  have hlow : ReadsAhead prodp up n := Apart.readsAhead (by omega)
  -- nothing is borrowed when the smaller half is subtracted
  have hborrow : ∀ {m' : Limbs} {x y : ℕ} {cy : Limb}, num m' prodp n + y = x + cy.toNat * radix 32 ^ n → y ≤ x →
      cy.toNat ≤ 1 → num m' prodp n + y = x := by
    intro m' x y cy hvalue hle hcy
    have hlt := num_lt m' prodp n
    rcases Nat.le_one_iff_eq_zero_or_eq_one.mp hcy with h | h
    · rw [h, Nat.zero_mul] at hvalue
      exact hvalue
    · rw [h, Nat.one_mul] at hvalue
      omega
  unfold subHalves
  by_cases hcmp : 0 ≤ mpihelpCmp mem (up + n) up n
  · rw [if_pos hcmp]
    rw [mpihelpCmp_nonneg_iff] at hcmp
    apply (mpihelpSubN_returns mem hn hhigh hlow).bind
    intro r hr
    obtain ⟨hvalue, hcy, hwrites⟩ := hr
    exact returns_pure.mpr ⟨hborrow hvalue hcmp hcy, hwrites⟩
  · rw [if_neg hcmp]
    rw [mpihelpCmp_nonneg_iff] at hcmp
    apply (mpihelpSubN_returns mem hn hlow hhigh).bind
    intro r hr
    obtain ⟨hvalue, hcy, hwrites⟩ := hr
    exact returns_pure.mpr ⟨hborrow hvalue (by omega) hcy, hwrites⟩

theorem addProductsHM_returns (mem : Limbs) (negflg : Bool) (hn : 0 < n)
    (htspace : Apart prodp (4 * n) tspace (2 * n)) :
    Returns (addProductsHM mem prodp tspace n negflg) fun r =>
      ∃ c b : Limb, r.2 = c - b ∧ c.toNat ≤ 2 ∧ b.toNat ≤ 1 ∧
        num r.1 (prodp + n) (2 * n) + c.toNat * radix 32 ^ (2 * n) + (if negflg then num mem tspace (2 * n) else 0) =
          num mem (prodp + 2 * n) n + (num mem (prodp + 2 * n) n + num mem (prodp + 3 * n) n) * radix 32 ^ n +
            (if negflg then 0 else num mem tspace (2 * n)) + b.toNat * radix 32 ^ (2 * n) ∧
        Writes (prodp + n) (2 * n) mem r.1 := by
  unfold addProductsHM
  dsimp only
  apply (copyLoop_num mem (Apart.readsAhead (by omega))).bind
  intro mem1 hmem1
  obtain ⟨hcopied, hwrites1⟩ := hmem1
  have h1a : num mem1 (prodp + 2 * n) n = num mem (prodp + 2 * n) n := hwrites1.num_eq (by omega)
  have h1b : num mem1 (prodp + 2 * n + n) n = num mem (prodp + 3 * n) n := by
    rw [show prodp + 2 * n + n = prodp + 3 * n by omega]
    exact hwrites1.num_eq (by omega)
  apply (mpihelpAddN_returns mem1 hn (.inl (Nat.le_refl _)) (Apart.readsAhead (by omega))).bind
  intro r hr
  obtain ⟨mem2, cy⟩ := r
  obtain ⟨hsum, hcy, hwrites2⟩ := hr
  dsimp only at hsum hcy hwrites2 ⊢
  rw [h1a, h1b] at hsum
  have hlow : num mem2 (prodp + n) n = num mem (prodp + 2 * n) n := by
    rw [← hcopied]
    exact hwrites2.num_eq (by omega)
  have hX : num mem2 (prodp + n) (2 * n) + cy.toNat * radix 32 ^ (2 * n) =
      num mem (prodp + 2 * n) n + (num mem (prodp + 2 * n) n + num mem (prodp + 3 * n) n) * radix 32 ^ n := by
    rw [num_halves, hlow, show prodp + n + n = prodp + 2 * n by omega]
    linear_combination radix 32 ^ n * hsum
  have hM : num mem2 tspace (2 * n) = num mem tspace (2 * n) := by
    rw [hwrites2.num_eq (by omega), hwrites1.num_eq (by omega)]
  have hwrites : Writes (prodp + n) (2 * n) mem mem2 :=
    (hwrites1.mono (by omega) (by omega)).trans (hwrites2.mono (by omega) (by omega))
  have hread : ReadsAhead (prodp + n) tspace (2 * n) := Apart.readsAhead (by omega)
  cases negflg with
  | true =>
      apply (mpihelpSubN_returns mem2 (by omega) (.inl (Nat.le_refl _)) hread).bind
      intro r hr
      obtain ⟨hvalue, hborrow, hwrites3⟩ := hr
      refine returns_pure.mpr ⟨cy, r.2, rfl, by omega, hborrow, ?_, hwrites.trans hwrites3⟩
      simp only [if_true]
      rw [hM] at hvalue
      linear_combination hvalue + hX
  | false =>
      apply (mpihelpAddN_returns mem2 (by omega) (.inl (Nat.le_refl _)) hread).bind
      intro r hr
      obtain ⟨hvalue, hcarry, hwrites3⟩ := hr
      have hradix := two_le_radix (w := 32) (by decide)
      have hc : (cy + r.2).toNat = cy.toNat + r.2.toNat := toNat_add_of_lt (by rw [radix_eq]; omega)
      refine returns_pure.mpr
        ⟨cy + r.2, 0, (BitVec.sub_zero _).symm, by omega, Nat.zero_le 1, ?_, hwrites.trans hwrites3⟩
      simp only [if_false, Bool.false_eq_true]
      rw [hM] at hvalue
      rw [hc]
      show _ = _ + 0 * _
      linear_combination hvalue + hX

/-- `if (cy) mpihelp_add_1 (p, p, n, cy)`, with the carry that is lost. -/
theorem addCarry_returns (mem : Limbs) (p : ℕ) (cy s2Limb : Limb) (hn : 0 < n) (hcy : cy ≠ 0 → s2Limb = cy) :
    Returns (if cy ≠ 0 then Prod.fst <$> mpihelpAdd1 mem p p n s2Limb else pure mem) fun mem' =>
      ∃ lost : ℕ, num mem' p n + lost * radix 32 ^ n = num mem p n + cy.toNat ∧ Writes p n mem mem' := by
  by_cases h0 : cy = 0
  · subst h0
    rw [if_neg (fun hne => hne rfl)]
    exact returns_pure.mpr ⟨0, by simp, Writes.refl p n mem⟩
  · rw [if_pos h0, map_eq_pure_bind, hcy h0]
    apply (mpihelpAdd1_returns mem cy hn (.inl (Nat.le_refl p))).bind
    intro r hr
    obtain ⟨hvalue, -, hwrites⟩ := hr
    exact returns_pure.mpr ⟨r.2.toNat, hvalue, hwrites⟩

/-- The last steps complete the product `W`, when the carries that are lost are those of a product that fits. -/
theorem addProductL_returns (mem : Limbs) {c b : Limb} {W : ℕ} (hn : 0 < n)
    (htspace : Apart prodp (4 * n) tspace (2 * n)) (hc : c.toNat ≤ 2) (hb : b.toNat ≤ 1) (hW : W < radix 32 ^ (4 * n))
    (hmiddle : b.toNat * radix 32 ^ (2 * n) ≤
      num mem (prodp + n) (2 * n) + c.toNat * radix 32 ^ (2 * n) + num mem tspace (2 * n))
    (hvalue : num mem tspace (2 * n) + (num mem (prodp + n) (2 * n) + c.toNat * radix 32 ^ (2 * n) +
      num mem (prodp + 3 * n) n * radix 32 ^ (2 * n) + num mem tspace (2 * n)) * radix 32 ^ n =
        W + b.toNat * radix 32 ^ (3 * n)) :
    Returns (addProductL mem prodp tspace n (c - b)) fun mem' =>
      num mem' prodp (4 * n) = W ∧ Writes prodp (4 * n) mem mem' := by
  unfold addProductL
  dsimp only
  apply (mpihelpAddN_returns mem (by omega) (.inl (Nat.le_refl _)) (Apart.readsAhead (by omega))).bind
  intro r hr
  obtain ⟨mem1, carry⟩ := r
  obtain ⟨hsum1, hcarry, hwrites1⟩ := hr
  dsimp only at hsum1 hcarry hwrites1 ⊢
  -- the carry is not negative any more
  have hnonneg : b.toNat ≤ c.toNat + carry.toNat := by
    by_contra hlt
    have hb1 : b.toNat = 1 := by omega
    have hlow := num_lt mem1 (prodp + n) (2 * n)
    rw [hb1, Nat.one_mul, show c.toNat = 0 by omega, Nat.zero_mul] at hmiddle
    rw [show carry.toNat = 0 by omega, Nat.zero_mul] at hsum1
    omega
  have hcy : (c - b + carry).toNat + b.toNat = c.toNat + carry.toNat := by
    have hc' := c.isLt
    rw [BitVec.toNat_add, BitVec.toNat_sub]
    omega
  have hX1 : num mem1 tspace (2 * n) = num mem tspace (2 * n) := hwrites1.num_eq (by omega)
  have hY1 : num mem1 (prodp + 3 * n) n = num mem (prodp + 3 * n) n := hwrites1.num_eq (by omega)
  rw [show prodp + n + 2 * n = prodp + 3 * n by omega]
  apply (addCarry_returns mem1 (prodp + 3 * n) _ _ hn fun _ => rfl).bind
  intro mem2 hmem2
  obtain ⟨lost2, hsum2, hwrites2⟩ := hmem2
  have hT2 : num mem2 tspace (2 * n) = num mem tspace (2 * n) := by rw [hwrites2.num_eq (by omega), hX1]
  apply (copyLoop_num mem2 (Apart.readsAhead (by omega))).bind
  intro mem3 hmem3
  obtain ⟨hcopied, hwrites3⟩ := hmem3
  have hT3 : num mem3 (tspace + n) n = num mem2 (tspace + n) n := hwrites3.num_eq (by omega)
  apply (mpihelpAddN_returns mem3 hn (.inl (Nat.le_refl _)) (Apart.readsAhead (by omega))).bind
  intro r hr
  obtain ⟨mem4, cy⟩ := r
  obtain ⟨hsum4, hcy4, hwrites4⟩ := hr
  dsimp only at hsum4 hcy4 hwrites4 ⊢
  have hone : cy ≠ 0 → (1 : Limb) = cy := by
    intro hne
    have hne' : cy.toNat ≠ 0 := fun h => hne (BitVec.eq_of_toNat_eq h)
    exact BitVec.eq_of_toNat_eq (show 1 = cy.toNat by omega)
  apply (addCarry_returns mem4 (prodp + 2 * n) _ _ (n := 2 * n) (by omega) hone).mono
  intro mem5 hmem5
  obtain ⟨lost5, hsum5, hwrites5⟩ := hmem5
  have hwrites : Writes prodp (4 * n) mem mem5 :=
    ((((hwrites1.mono (by omega) (by omega)).trans (hwrites2.mono (by omega) (by omega))).trans
      (hwrites3.mono (by omega) (by omega))).trans (hwrites4.mono (by omega) (by omega))).trans
        (hwrites5.mono (by omega) (by omega))
  refine ⟨?_, hwrites⟩
  -- the four quarters of the result
  have hq0 : num mem5 prodp n = num mem2 tspace n := by
    rw [hwrites5.num_eq (by omega), hwrites4.num_eq (by omega), hcopied]
  have hq1 : num mem5 (prodp + n) n = num mem4 (prodp + n) n := hwrites5.num_eq (by omega)
  have hq1' : num mem3 (prodp + n) n = num mem1 (prodp + n) n := by
    rw [hwrites3.num_eq (by omega), hwrites2.num_eq (by omega)]
  have hq2 : num mem4 (prodp + 2 * n) (2 * n) =
      num mem1 (prodp + 2 * n) n + num mem2 (prodp + 3 * n) n * radix 32 ^ n := by
    rw [hwrites4.num_eq (by omega), hwrites3.num_eq (by omega), num_halves,
      show prodp + 2 * n + n = prodp + 3 * n by omega, hwrites2.num_eq (by omega)]
  have hsplit : num mem1 (prodp + n) (2 * n) = num mem1 (prodp + n) n + num mem1 (prodp + 2 * n) n * radix 32 ^ n := by
    rw [num_halves, show prodp + n + n = prodp + 2 * n by omega]
  have hhalves : num mem2 tspace (2 * n) = num mem2 tspace n + num mem2 (tspace + n) n * radix 32 ^ n :=
    num_halves _ _ _
  have htotal : num mem5 prodp (4 * n) = num mem5 prodp n + num mem5 (prodp + n) n * radix 32 ^ n +
      num mem5 (prodp + 2 * n) (2 * n) * radix 32 ^ (2 * n) := by
    rw [show 4 * n = 2 * (2 * n) by omega, num_halves, num_halves]
  rw [hT3, hq1'] at hsum4
  rw [hq2] at hsum5
  rw [hT2] at hhalves
  rw [hY1] at hsum2
  rw [hsplit] at hsum1
  have hequation : num mem5 prodp (4 * n) + (lost2 + lost5) * radix 32 ^ (4 * n) = W := by
    rw [htotal, hq0, hq1]
    zify at *
    linear_combination hvalue + radix 32 ^ n * hsum1 + radix 32 ^ (3 * n) * hsum2 + radix 32 ^ n * hsum4 +
      radix 32 ^ (2 * n) * hsum5 - hhalves + radix 32 ^ (3 * n) * hcy
  have hlost : lost2 + lost5 = 0 := by
    by_contra hne
    have hmul := Nat.mul_le_mul_right (radix 32 ^ (4 * n)) (show 1 ≤ lost2 + lost5 by omega)
    omega
  rw [hlost, Nat.zero_mul] at hequation
  exact hequation

end Steps

/-! ### The products -/

/-- The result and the temporary space of a product of `k` limbs. -/
abbrev InSpaces (prodp tspace k a : ℕ) : Prop := prodp ≤ a ∧ a < prodp + 2 * k ∨ tspace ≤ a ∧ a < tspace + 2 * k

/-- A multiplication of operands of `k` limbs that leaves the product and works in `2 * k` limbs of temporary
space. -/
def Multiplies (mul : Limbs → ℕ → ℕ → ℕ → ℕ → ℕ → Run Limbs) (k : ℕ) : Prop :=
  ∀ (mem : Limbs) (prodp up vp tspace : ℕ), Apart prodp (2 * k) up k → Apart prodp (2 * k) vp k →
    Apart prodp (2 * k) tspace (2 * k) → Apart tspace (2 * k) up k → Apart tspace (2 * k) vp k →
      Returns (mul mem prodp up vp k tspace) fun mem' =>
        num mem' prodp (2 * k) = num mem up k * num mem vp k ∧
          WritesIn (InSpaces prodp tspace k) mem mem'

/-- Karatsuba's identity for the product of the differences, with the sign that `negflg` tells. -/
theorem karatsuba_identity {u0 u1 v0 v1 du dv : ℕ} {uless vless : Bool}
    (hu : if uless then du + u1 = u0 else du + u0 = u1) (hv : if vless then dv + v1 = v0 else dv + v0 = v1) :
    u1 * v1 + u0 * v0 + (if (if vless then uless else !uless) then 0 else du * dv) =
      u1 * v0 + u0 * v1 + (if (if vless then uless else !uless) then du * dv else 0) := by
  cases uless <;> cases vless <;> simp only [if_true, if_false, Bool.false_eq_true, Bool.not_false, Bool.not_true] at *
    <;> subst hu hv <;> ring

section Products

variable {n k : ℕ}

/-- The product from the products of the halves. -/
theorem addProducts_returns {prodp tspace u0 u1 v0 v1 : ℕ} (mem : Limbs) {c b : Limb} {neg : Bool}
    {du dv hlow hhigh : ℕ} (hn : 0 < n) (htspace : Apart prodp (4 * n) tspace (2 * n)) (hc : c.toNat ≤ 2)
    (hb : b.toNat ≤ 1) (hu : u0 + u1 * radix 32 ^ n < radix 32 ^ (2 * n))
    (hv : v0 + v1 * radix 32 ^ n < radix 32 ^ (2 * n))
    (hidentity : u1 * v1 + u0 * v0 + (if neg then 0 else du * dv) = u1 * v0 + u0 * v1 + (if neg then du * dv else 0))
    (hH : hlow + hhigh * radix 32 ^ n = u1 * v1) (hY : num mem (prodp + 3 * n) n = hhigh)
    (hL : num mem tspace (2 * n) = u0 * v0)
    (hX : num mem (prodp + n) (2 * n) + c.toNat * radix 32 ^ (2 * n) + (if neg then du * dv else 0) =
      hlow + (hlow + hhigh) * radix 32 ^ n + (if neg then 0 else du * dv) + b.toNat * radix 32 ^ (2 * n)) :
    Returns (addProductL mem prodp tspace n (c - b)) fun mem' =>
      num mem' prodp (4 * n) = (u0 + u1 * radix 32 ^ n) * (v0 + v1 * radix 32 ^ n) ∧
        Writes prodp (4 * n) mem mem' := by
  have hprod : num mem (prodp + n) (2 * n) + c.toNat * radix 32 ^ (2 * n) + num mem tspace (2 * n) =
      u1 * v0 + u0 * v1 + hlow * radix 32 ^ n + b.toNat * radix 32 ^ (2 * n) := by
    rw [hL]
    linear_combination hX + hidentity + hH
  apply addProductL_returns mem hn htspace hc hb
  · calc (u0 + u1 * radix 32 ^ n) * (v0 + v1 * radix 32 ^ n) < radix 32 ^ (2 * n) * radix 32 ^ (2 * n) :=
          Nat.mul_lt_mul'' hu hv
      _ = radix 32 ^ (4 * n) := by ring
  · rw [hprod]
    exact Nat.le_add_left _ _
  · rw [hY]
    linear_combination radix 32 ^ n * hprod + hL + radix 32 ^ (2 * n) * hH

/-- The rest of a product after product M, with `mulL` for product L. -/
theorem addProductsHML_returns {prodp tspace u0 u1 v0 v1 : ℕ} {mem mem4 : Limbs} {neg : Bool} {du dv : ℕ}
    (mulL : Limbs → Run Limbs) (hn : 0 < n) (htspace : Apart prodp (2 * (2 * n)) tspace (2 * (2 * n)))
    (hu : u0 + u1 * radix 32 ^ n < radix 32 ^ (2 * n)) (hv : v0 + v1 * radix 32 ^ n < radix 32 ^ (2 * n))
    (hidentity : u1 * v1 + u0 * v0 + (if neg then 0 else du * dv) = u1 * v0 + u0 * v1 + (if neg then du * dv else 0))
    (hwrites4 : WritesIn (InSpaces prodp tspace (2 * n)) mem mem4)
    (hH : num mem4 (prodp + 2 * n) (2 * n) = u1 * v1) (hM : num mem4 tspace (2 * n) = du * dv)
    (hmulL : ∀ mem5, WritesIn (InSpaces prodp tspace (2 * n)) mem mem5 → Returns (mulL mem5) fun mem6 =>
      num mem6 tspace (2 * n) = u0 * v0 ∧ WritesIn (InSpaces tspace (tspace + 2 * n) n) mem5 mem6) :
    Returns (addProductsHM mem4 prodp tspace n neg >>= fun r =>
        mulL r.1 >>= fun mem => addProductL mem prodp tspace n r.2) fun mem' =>
      num mem' prodp (2 * (2 * n)) = (u0 + u1 * radix 32 ^ n) * (v0 + v1 * radix 32 ^ n) ∧
        WritesIn (InSpaces prodp tspace (2 * n)) mem mem' := by
  apply (addProductsHM_returns mem4 neg hn (by omega)).bind
  intro r hr
  obtain ⟨mem5, cy⟩ := r
  obtain ⟨c, b, rfl, hc, hb, hX, hwrites5⟩ := hr
  dsimp only at hX hwrites5 ⊢
  rw [hM] at hX
  have h05 := hwrites4.trans (hwrites5.writesIn (by omega))
  apply (hmulL mem5 h05).bind
  intro mem6 hmem6
  obtain ⟨hL, hwrites6⟩ := hmem6
  have h06 := h05.trans (hwrites6.mono (by omega))
  have hX6 : num mem6 (prodp + n) (2 * n) = num mem5 (prodp + n) (2 * n) := hwrites6.num_eq (by omega)
  have hY6 : num mem6 (prodp + 3 * n) n = num mem4 (prodp + 3 * n) n := by
    rw [hwrites6.num_eq (by omega), hwrites5.num_eq (by omega)]
  rw [num_halves, show prodp + 2 * n + n = prodp + 3 * n by omega] at hH
  rw [← hX6] at hX
  apply (addProducts_returns mem6 hn (by omega) hc hb hu hv hidentity hH hY6 hL hX).mono
  intro mem7 hmem7
  obtain ⟨hvalue, hwrites7⟩ := hmem7
  rw [show 2 * (2 * n) = 4 * n by omega]
  exact ⟨hvalue, h06.trans (hwrites7.writesIn (by omega))⟩

/-- The product of operands of an odd number of limbs, after that of all but their top limbs. -/
theorem addTopLimbs_returns {prodp up vp tspace e : ℕ} {mem : Limbs} {run : Run Limbs} (he : 0 < e)
    (hpu : Apart prodp (2 * (e + 1)) up (e + 1)) (hpv : Apart prodp (2 * (e + 1)) vp (e + 1))
    (htu : Apart tspace (2 * (e + 1)) up (e + 1)) (htv : Apart tspace (2 * (e + 1)) vp (e + 1))
    (hrun : Returns run fun mem1 =>
      num mem1 prodp (2 * e) = num mem up e * num mem vp e ∧ WritesIn (InSpaces prodp tspace e) mem mem1) :
    Returns (run >>= fun mem => mpihelpAddmul1 mem (prodp + e) up e (mem (vp + e)) >>= fun r =>
        mpihelpAddmul1 (Function.update r.1 (prodp + e + e) r.2) (prodp + e) vp (e + 1)
          (Function.update r.1 (prodp + e + e) r.2 (up + e)) >>= fun r =>
            pure (Function.update r.1 (prodp + e + (e + 1)) r.2)) fun mem' =>
      num mem' prodp (2 * (e + 1)) = num mem up (e + 1) * num mem vp (e + 1) ∧
        WritesIn (InSpaces prodp tspace (e + 1)) mem mem' := by
  apply hrun.bind
  intro mem1 hmem1
  obtain ⟨hprod, hwrites1⟩ := hmem1
  have hu1 : num mem1 up e = num mem up e := hwrites1.num_eq (by omega)
  have hutop1 : mem1 (up + e) = mem (up + e) := hwrites1 _ (by omega)
  have hvtop1 : mem1 (vp + e) = mem (vp + e) := hwrites1 _ (by omega)
  have hv1 : num mem1 vp (e + 1) = num mem vp (e + 1) := hwrites1.num_eq (by omega)
  rw [hvtop1]
  apply (mpihelpAddmul1_returns mem1 (mem (vp + e)) he (Apart.readsAhead (by omega))).bind
  intro r hr
  obtain ⟨mem2, cy2⟩ := r
  obtain ⟨hvalue2, hwrites2⟩ := hr
  dsimp only at hvalue2 hwrites2 ⊢
  have hutop2 : Function.update mem2 (prodp + e + e) cy2 (up + e) = mem (up + e) := by
    rw [Function.update_of_ne (by omega), hwrites2 _ (by omega), hutop1]
  have hv2 : num (Function.update mem2 (prodp + e + e) cy2) vp (e + 1) = num mem vp (e + 1) := by
    rw [num_update_of_ne mem2 _ (by omega), hwrites2.num_eq (by omega), hv1]
  rw [hutop2]
  apply (mpihelpAddmul1_returns _ (mem (up + e)) (by omega) (Apart.readsAhead (by omega))).bind
  intro r hr
  obtain ⟨mem3, cy3⟩ := r
  obtain ⟨hvalue3, hwrites3⟩ := hr
  dsimp only at hvalue3 hwrites3 ⊢
  apply returns_pure.mpr
  constructor
  · have hlow : num mem3 prodp e = num mem1 prodp e := by
      rw [hwrites3.num_eq (by omega), num_update_of_ne mem2 _ (by omega), hwrites2.num_eq (by omega)]
    rw [show prodp + e + e = (prodp + e) + e by omega, num_update_top, hv2] at hvalue3
    rw [show 2 * (e + 1) = e + (e + 1) + 1 by omega, show prodp + e + (e + 1) = prodp + (e + (e + 1)) by omega,
      num_update_top, num_add, hlow]
    rw [num_halves] at hprod
    rw [hu1] at hvalue2
    rw [num_succ mem vp] at hvalue3 ⊢
    rw [num_succ mem up]
    linear_combination hprod + radix 32 ^ e * hvalue2 + radix 32 ^ e * hvalue3
  · have hlast : Writes (prodp + e + (e + 1)) 1 mem3 (Function.update mem3 (prodp + e + (e + 1)) cy3) :=
      writes_update mem3 _ (by omega) (by omega)
    have hmid : Writes (prodp + e + e) 1 mem2 (Function.update mem2 (prodp + e + e) cy2) :=
      writes_update mem2 _ (by omega) (by omega)
    exact ((((hwrites1.mono (by omega)).trans (hwrites2.writesIn (by omega))).trans
      (hmid.writesIn (by omega))).trans (hwrites3.writesIn (by omega))).trans (hlast.writesIn (by omega))

theorem mulN_multiplies {recurse : Limbs → ℕ → ℕ → ℕ → ℕ → ℕ → Run Limbs} (hk : 2 ≤ k)
    (hrec : ∀ j, 0 < j → j < k → Multiplies recurse j) : Multiplies (mulN recurse) k := by
  intro mem prodp up vp tspace hpu hpv hpt htu htv
  unfold mulN
  by_cases hodd : k % 2 = 1
  · rw [if_pos hodd]
    obtain ⟨e, rfl⟩ : ∃ e, k = e + 1 := ⟨k - 1, by omega⟩
    exact addTopLimbs_returns (by omega) hpu hpv htu htv
      (hrec e (by omega) (by omega) mem prodp up vp tspace (by omega) (by omega) (by omega) (by omega) (by omega))
  · rw [if_neg hodd]
    obtain ⟨n, rfl⟩ : ∃ n, k = 2 * n := ⟨k / 2, by omega⟩
    have hn : 0 < n := by omega
    have hhalf := hrec n hn (by omega)
    dsimp only
    rw [show 2 * n / 2 = n by omega]
    -- product H
    apply (hhalf mem (prodp + 2 * n) (up + n) (vp + n) tspace (by omega) (by omega) (by omega) (by omega)
      (by omega)).bind
    intro mem1 hmem1
    obtain ⟨hH, hwrites1⟩ := hmem1
    -- product M
    apply (subHalves_returns mem1 prodp up hn (by omega)).bind
    intro r hr
    obtain ⟨mem2, uless⟩ := r
    obtain ⟨hdu, hwrites2⟩ := hr
    dsimp only at hdu hwrites2 ⊢
    apply (subHalves_returns mem2 (prodp + n) vp hn (by omega)).bind
    intro r hr
    obtain ⟨mem3, vless⟩ := r
    obtain ⟨hdv, hwrites3⟩ := hr
    dsimp only at hdv hwrites3 ⊢
    apply (hhalf mem3 tspace prodp (prodp + n) (tspace + 2 * n) (by omega) (by omega) (by omega) (by omega)
      (by omega)).bind
    intro mem4 hmem4
    obtain ⟨hM, hwrites4⟩ := hmem4
    have h01 : WritesIn (InSpaces prodp tspace (2 * n)) mem mem1 := hwrites1.mono (by omega)
    have h02 := h01.trans (hwrites2.writesIn (by omega))
    have h03 := h02.trans (hwrites3.writesIn (by omega))
    have h04 := h03.trans (hwrites4.mono (by omega))
    rw [h01.num_eq (by omega), h01.num_eq (by omega)] at hdu
    rw [h02.num_eq (by omega), h02.num_eq (by omega)] at hdv
    rw [num_halves mem up, num_halves mem vp]
    apply addProductsHML_returns (recurse · tspace up vp n (tspace + 2 * n)) hn hpt
      (num_halves mem up n ▸ num_lt mem up (2 * n)) (num_halves mem vp n ▸ num_lt mem vp (2 * n))
      (karatsuba_identity hdu hdv) h04
    · rw [← hH, hwrites4.num_eq (by omega), hwrites3.num_eq (by omega), hwrites2.num_eq (by omega)]
    · rw [hM, hwrites3.num_eq (by omega)]
    · intro mem5 h05
      rw [← h05.num_eq (q := up) (m := n) (by omega), ← h05.num_eq (q := vp) (m := n) (by omega)]
      exact hhalf mem5 tspace up vp (tspace + 2 * n) (by omega) (by omega) (by omega) (by omega) (by omega)

/-- Products of operands of any number of limbs, when the recursion is as deep as there are limbs. -/
theorem mpnMulNRecurse_multiplies : ∀ {depth k : ℕ}, 0 < k → k ≤ depth → Multiplies (mpnMulNRecurse depth) k
  | 0, _, hk, hdepth => absurd hk (by omega)
  | depth + 1, k, hk, hdepth => by
      by_cases hbase : k < karatsubaThreshold
      · intro mem prodp up vp tspace hpu hpv _ _ _
        rw [mpnMulNRecurse, if_pos hbase, map_eq_pure_bind]
        apply (mulNBasecase_returns mem hk hpu hpv).bind
        intro r hr
        exact returns_pure.mpr ⟨hr.1, hr.2.writesIn (by omega)⟩
      · have htwo : 2 ≤ k := by
          unfold karatsubaThreshold at hbase
          omega
        have hrec : ∀ j, 0 < j → j < k → Multiplies (mpnMulNRecurse depth) j := fun j hj hlt =>
          mpnMulNRecurse_multiplies hj (by omega)
        intro mem prodp up vp tspace hpu hpv hpt htu htv
        rw [mpnMulNRecurse, if_neg hbase]
        exact mulN_multiplies htwo hrec mem prodp up vp tspace hpu hpv hpt htu htv

end Products

end ChannelBench
