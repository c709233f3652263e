import ChannelBench.CLimbs

/-! The additive functions of the multi-precision integers: `mpi-inline.h`, `mpih-add1.c`, `mpih-sub1.c`,
`mpih-cmp.c` and the copying macros of `mpi-internal.h`. A pointer to limbs is an address in a memory of limbs.
Every function is described by the numbers it leaves, for operands that the result may overlap as far as no
limb is read after it was written. -/

namespace ChannelBench

open CSem

/-- `mpi_limb_t`. -/
abbrev Limb := BitVec 32

abbrev Limbs := ℕ → Limb

/-- `mpihelp_add_n`: the memory after it, and the carry. -/
def mpihelpAddN (mem : Limbs) (res s1 s2 size : ℕ) : Run (Limbs × Limb) :=
  wordLoop (fun x y cy =>
      let y := y + cy
      let cy : Limb := flag (y < cy)
      let y := y + x
      (y, cy + flag (y < x)))
    mem res s1 s2 size

/-- `mpihelp_sub_n`: the memory after it, and the borrow. -/
def mpihelpSubN (mem : Limbs) (res s1 s2 size : ℕ) : Run (Limbs × Limb) :=
  wordLoop (fun x y cy =>
      let y := y + cy
      let cy : Limb := flag (y < cy)
      let y := x - y
      (y, cy + flag (x < y)))
    mem res s1 s2 size

/-- `while (--s1_size) …` of `mpihelp_add_1` and `mpihelp_sub_1`, after `i` limbs. A step tells the limb to store
and whether to stop; the outcome is the number of limbs done and the carry. -/
def rippleLoop (step : Limb → Limb × Bool) (res s1 size : ℕ) (st : Limbs × ℕ) :
    Run ((Limbs × ℕ) ⊕ (Limbs × ℕ × Limb)) := do
  let (mem, i) := st
  if i < size then
    let out := step (mem (s1 + i))
    let mem := Function.update mem (res + i) out.1
    if out.2 then
      return .inr (mem, i + 1, 0)
    return .inl (mem, i + 1)
  else
    return .inr (mem, i, 1)

/-- What `mpihelp_add_1` and `mpihelp_sub_1` do after the first limb: the carry runs up, and the rest is copied. -/
def ripple (step : Limb → Limb × Bool) (mem : Limbs) (res s1 size : ℕ) (carry : Bool) : Run (Limbs × Limb) := do
  let (mem, i, cy) ← (if carry then loop (rippleLoop step res s1 size) (size + 1) (mem, 1) else pure (mem, 1, 0))
  if cy = 1 then
    return (mem, 1)
  if res ≠ s1 then
    return (← copyLoop mem (res + i) (s1 + i) (size - i), 0)
  return (mem, 0)

/-- `mpihelp_add_1`. -/
def mpihelpAdd1 (mem : Limbs) (res s1 size : ℕ) (s2Limb : Limb) : Run (Limbs × Limb) := do
  require (0 < size) .bounds
  let x := mem s1
  let s2Limb := s2Limb + x
  ripple (fun x => (x + 1, x + 1 ≠ 0)) (Function.update mem res s2Limb) res s1 size (s2Limb < x)

/-- `mpihelp_cmp`: the limbs are compared from the most significant one on. -/
def mpihelpCmp (mem : Limbs) (op1 op2 : ℕ) : ℕ → ℤ
  | 0 => 0
  | size + 1 =>
      if mem (op1 + size) ≠ mem (op2 + size) then
        if mem (op2 + size) < mem (op1 + size) then 1 else -1
      else mpihelpCmp mem op1 op2 size

section AddSub

variable {res s1 s2 size : ℕ}

theorem mpihelpAddN_returns (mem : Limbs) (hsize : 0 < size) (h1 : ReadsAhead res s1 size)
    (h2 : ReadsAhead res s2 size) :
    Returns (mpihelpAddN mem res s1 s2 size) fun r =>
      num r.1 res size + r.2.toNat * radix 32 ^ size = num mem s1 size + num mem s2 size ∧
        r.2.toNat ≤ 1 ∧ Writes res size mem r.1 := by
  apply (wordLoop_returns 1 1 1 (fun cy : Limb => cy.toNat ≤ 1) (by decide) _ mem hsize h1 h2).mono
  · intro r hr
    obtain ⟨hvalue, hcy, hwrites⟩ := hr
    refine ⟨?_, hcy, hwrites⟩
    zify
    linear_combination hvalue
  · intro x y cy hcy
    obtain ⟨hsum, hcarry⟩ := add_carry (by decide) x y hcy
    zify at hsum
    exact ⟨by dsimp only; linear_combination hsum, hcarry⟩

theorem mpihelpSubN_returns (mem : Limbs) (hsize : 0 < size) (h1 : ReadsAhead res s1 size)
    (h2 : ReadsAhead res s2 size) :
    Returns (mpihelpSubN mem res s1 s2 size) fun r =>
      num r.1 res size + num mem s2 size = num mem s1 size + r.2.toNat * radix 32 ^ size ∧
        r.2.toNat ≤ 1 ∧ Writes res size mem r.1 := by
  apply (wordLoop_returns 1 (-1) (-1) (fun cy : Limb => cy.toNat ≤ 1) (by decide) _ mem hsize h1 h2).mono
  · intro r hr
    obtain ⟨hvalue, hcy, hwrites⟩ := hr
    refine ⟨?_, hcy, hwrites⟩
    zify
    linear_combination hvalue
  · intro x y cy hcy
    obtain ⟨hdiff, hborrow⟩ := sub_borrow (by decide) x y hcy
    zify at hdiff
    exact ⟨by dsimp only; linear_combination hdiff, hborrow⟩

end AddSub

/-! ### `mpihelp_add_1` and `mpihelp_sub_1` -/

section Ripple

variable {step : Limb → Limb × Bool} {e v : ℤ} {start : Limbs} {res s1 size : ℕ}

/-- The number left so far, with the carry `c` still to add, or to subtract when `e` is negative. -/
structure Rippled (e v : ℤ) (start : Limbs) (res s1 i c : ℕ) (mem : Limbs) : Prop where
  value : (num mem res i : ℤ) + e * c * radix 32 ^ i = num start s1 i + v
  writes : Writes res i start mem

theorem Rippled.next (hstep : ∀ x, ((step x).1.toNat : ℤ) + e * (if (step x).2 then 0 else 1) * radix 32 = x.toNat + e)
    (hread : ReadsAhead res s1 size) {mem : Limbs} {i : ℕ} (hi : i < size)
    (h : Rippled e v start res s1 i 1 mem) :
    Rippled e v start res s1 (i + 1) (if (step (mem (s1 + i))).2 then 0 else 1)
      (Function.update mem (res + i) (step (mem (s1 + i))).1) where
  value := by
    have hx : mem (s1 + i) = start (s1 + i) := h.writes _ (by rcases hread with hr | hr <;> omega)
    have hvalue := h.value
    have hlinear := hstep (start (s1 + i))
    rw [hx, num_update_top, num_succ]
    push_cast at hvalue hlinear ⊢
    linear_combination (radix 32 : ℤ) ^ i * hlinear + hvalue
  writes := (h.writes.mono (Nat.le_refl res) (by omega)).trans (writes_update mem _ (by omega) (by omega))

/-- The rest is copied when there is no carry any more. -/
theorem Rippled.copy (hread : ReadsAhead res s1 size) {mem : Limbs} {i : ℕ} (hi : i ≤ size)
    (h : Rippled e v start res s1 i 0 mem) :
    Returns (copyLoop mem (res + i) (s1 + i) (size - i)) (Rippled e v start res s1 size 0) := by
  have hread' : ReadsAhead (res + i) (s1 + i) (size - i) := by
    rcases hread with hr | hr
    · exact .inl (by omega)
    · exact .inr (by omega)
  apply (copyLoop_num mem hread').mono
  intro mem' hmem'
  obtain ⟨hcopied, hwrites⟩ := hmem'
  have hlow : num mem' res i = num mem res i := hwrites.num_eq (.inl (Nat.le_refl _))
  have hhigh : num mem (s1 + i) (size - i) = num start (s1 + i) (size - i) := by
    apply h.writes.num_eq
    rcases hread with hr | hr
    · exact .inr (by omega)
    · exact .inl (by omega)
  have hvalue := h.value
  obtain ⟨rest, rfl⟩ : ∃ rest, size = i + rest := ⟨size - i, by omega⟩
  rw [Nat.add_sub_cancel_left] at hcopied hhigh
  constructor
  · rw [num_add, num_add, hlow, hcopied, hhigh]
    push_cast at hvalue ⊢
    linear_combination hvalue
  · exact (h.writes.mono (Nat.le_refl res) (by omega)).trans (hwrites.mono (by omega) (by omega))

/-- In place, the rest is there already. -/
theorem Rippled.same {mem : Limbs} {i : ℕ} (hi : i ≤ size) (h : Rippled e v start res res i 0 mem) :
    Rippled e v start res res size 0 mem := by
  have hhigh : num mem (res + i) (size - i) = num start (res + i) (size - i) :=
    h.writes.num_eq (.inr (Nat.le_refl _))
  have hvalue := h.value
  obtain ⟨rest, rfl⟩ : ∃ rest, size = i + rest := ⟨size - i, by omega⟩
  rw [Nat.add_sub_cancel_left] at hhigh
  constructor
  · rw [num_add, num_add, hhigh]
    push_cast at hvalue ⊢
    linear_combination hvalue
  · exact h.writes.mono (Nat.le_refl res) (by omega)

theorem ripple_returns {s : Limbs}
    (hstep : ∀ x, ((step x).1.toNat : ℤ) + e * (if (step x).2 then 0 else 1) * radix 32 = x.toNat + e)
    (hread : ReadsAhead res s1 size) (hsize : 0 < size) {mem : Limbs} {carry : Bool}
    (h : Rippled e v s res s1 1 carry.toNat mem) :
    Returns (ripple step mem res s1 size carry) fun r =>
      Rippled e v s res s1 size r.2.toNat r.1 ∧ r.2.toNat ≤ 1 := by
  have hloop : Returns (if carry then loop (rippleLoop step res s1 size) (size + 1) (mem, 1)
      else pure (mem, 1, 0)) fun r => r.2.1 ≤ size ∧ (r.2.2 = 1 → r.2.1 = size) ∧ r.2.2.toNat ≤ 1 ∧
        Rippled e v s res s1 r.2.1 r.2.2.toNat r.1 := by
    have hne : (0 : Limb) ≠ 1 := by decide
    cases carry with
    | false => exact returns_pure.mpr ⟨hsize, fun hone => absurd hone hne, Nat.zero_le 1, h⟩
    | true =>
        apply loop_returns (fun st : Limbs × ℕ => st.2 ≤ size ∧ Rippled e v s res s1 st.2 1 st.1) _
          fun st => size - st.2
        · intro st hst
          obtain ⟨mem, i⟩ := st
          obtain ⟨hle, hst⟩ := hst
          dsimp only at hle hst
          unfold rippleLoop
          dsimp only
          by_cases hi : i < size
          · rw [if_pos hi]
            have hnext := hst.next hstep hread hi
            by_cases hstop : (step (mem (s1 + i))).2
            · rw [if_pos hstop] at hnext ⊢
              exact returns_pure.mpr ⟨hi, fun hone => absurd hone hne, Nat.zero_le 1, hnext⟩
            · rw [if_neg hstop] at hnext ⊢
              exact returns_pure.mpr ⟨⟨hi, hnext⟩, by show size - (i + 1) < size - i; omega⟩
          · rw [if_neg hi]
            exact returns_pure.mpr ⟨hle, fun _ => Nat.le_antisymm hle (Nat.le_of_not_lt hi), Nat.le_refl 1, hst⟩
        · exact ⟨hsize, h⟩
        · show size - 1 < size + 1
          omega
  unfold ripple
  apply hloop.bind
  intro r hr
  obtain ⟨mem', i, cy⟩ := r
  obtain ⟨hi, hend, hcy, hvalue⟩ := hr
  dsimp only at hi hend hcy hvalue ⊢
  by_cases hone : cy = 1
  · rw [if_pos hone]
    rw [hend hone, hone] at hvalue
    exact returns_pure.mpr ⟨hvalue, Nat.le_refl 1⟩
  · rw [if_neg hone]
    have hzero : cy.toNat = 0 := by
      have hne : cy.toNat ≠ 1 := fun h => hone (BitVec.eq_of_toNat_eq h)
      omega
    rw [hzero] at hvalue
    by_cases hsame : res = s1
    · subst hsame
      rw [if_neg (fun hne => hne rfl)]
      exact returns_pure.mpr ⟨hvalue.same hi, Nat.zero_le 1⟩
    · rw [if_pos hsame]
      apply (hvalue.copy hread hi).bind
      intro mem'' hmem''
      exact returns_pure.mpr ⟨hmem'', Nat.zero_le 1⟩

theorem toNat_add_one (x : Limb) :
    (x + 1).toNat + (if x + 1 ≠ 0 then 0 else 1) * radix 32 = x.toNat + 1 := by
  have hx := x.isLt
  by_cases h : x + 1 = 0
  · rw [if_neg (fun hne => hne h), h]
    have hmod := congrArg BitVec.toNat h
    simp only [BitVec.toNat_add] at hmod
    change (x.toNat + 1) % 2 ^ 32 = 0 at hmod
    show 0 + 1 * 2 ^ 32 = x.toNat + 1
    omega
  · rw [if_pos h]
    have hne : ¬(x.toNat + 1) % 2 ^ 32 = 0 := fun h0 => h (BitVec.eq_of_toNat_eq h0)
    show (x.toNat + 1) % 2 ^ 32 + 0 * radix 32 = x.toNat + 1
    omega

theorem mpihelpAdd1_returns (mem : Limbs) (s2Limb : Limb) (hsize : 0 < size) (hread : ReadsAhead res s1 size) :
    Returns (mpihelpAdd1 mem res s1 size s2Limb) fun r =>
      num r.1 res size + r.2.toNat * radix 32 ^ size = num mem s1 size + s2Limb.toNat ∧
        r.2.toNat ≤ 1 ∧ Writes res size mem r.1 := by
  unfold mpihelpAdd1
  rw [require_pos hsize, pure_bind]
  dsimp only
  apply (ripple_returns (e := 1) (v := s2Limb.toNat) (s := mem) _ hread hsize _).mono
  · intro r hr
    obtain ⟨⟨hvalue, hwrites⟩, hcy⟩ := hr
    refine ⟨?_, hcy, hwrites⟩
    zify
    linear_combination hvalue
  · intro x
    have hone := toNat_add_one x
    zify at hone
    simp only [decide_eq_true_eq]
    linear_combination hone
  · constructor
    · obtain ⟨hsum, -⟩ := add_flag (by decide) s2Limb (mem s1)
      have hcarry : (decide (s2Limb + mem s1 < mem s1)).toNat = (flag (s2Limb + mem s1 < mem s1) : Limb).toNat :=
        (toNat_flag_decide (by decide) _).symm
      rw [hcarry, num_one, num_one, Function.update_self]
      zify at hsum
      linear_combination hsum
    · exact writes_update mem _ (Nat.le_refl res) (Nat.lt_succ_self res)

end Ripple

/-! ### `mpihelp_sub` -/

section Sizes

variable {res s1 s2 m n : ℕ}

end Sizes

/-! ### `mpihelp_cmp` and `MPN_NORMALIZE` -/

/-- The first limb that differs, from the top, decides. -/
theorem mpihelpCmp_eq (mem : Limbs) (op1 op2 n : ℕ) : mpihelpCmp mem op1 op2 n =
    if num mem op2 n < num mem op1 n then 1 else if num mem op1 n < num mem op2 n then -1 else 0 := by
  induction n with
  | zero => rfl
  | succ n ih =>
      rw [mpihelpCmp, num_succ, num_succ]
      have h1 := num_lt mem op1 n
      have h2 := num_lt mem op2 n
      have htop : ∀ {x y : ℕ} {a b : Limb}, x < radix 32 ^ n → a < b →
          x + a.toNat * radix 32 ^ n < y + b.toNat * radix 32 ^ n := by
        intro x y a b hx hab
        have hle : a.toNat + 1 ≤ b.toNat := BitVec.lt_def.mp hab
        have hmul := Nat.mul_le_mul_right (radix 32 ^ n) hle
        rw [Nat.add_mul, Nat.one_mul] at hmul
        omega
      by_cases heq : mem (op1 + n) = mem (op2 + n)
      · rw [if_neg (fun hne => hne heq), ih, heq]
        simp only [Nat.add_lt_add_iff_right]
      · rw [if_pos heq]
        by_cases hlt : mem (op2 + n) < mem (op1 + n)
        · rw [if_pos hlt, if_pos (htop h2 hlt)]
        · have hgt : mem (op1 + n) < mem (op2 + n) := by
            rw [BitVec.lt_def] at hlt ⊢
            have hne : (mem (op1 + n)).toNat ≠ (mem (op2 + n)).toNat := fun h => heq (BitVec.eq_of_toNat_eq h)
            omega
          rw [if_neg hlt, if_neg (Nat.lt_asymm (htop h1 hgt)), if_pos (htop h1 hgt)]

theorem mpihelpCmp_nonneg_iff (mem : Limbs) (op1 op2 n : ℕ) :
    0 ≤ mpihelpCmp mem op1 op2 n ↔ num mem op2 n ≤ num mem op1 n := by
  rw [mpihelpCmp_eq]
  split_ifs <;> omega

end ChannelBench
