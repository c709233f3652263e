import ChannelBench.MpiDivide

/-! `mpihelp_divrem` divides: the three cases of the size of the divisor go through the limbs of the numerator, and
of the zeros below it, in the same way. -/

namespace ChannelBench

open CSem

section Dividing

variable {u mem mem' : Limbs} {D e k qp np n qh W i : ℕ}

/-- The division of the `n + k` limbs at `np`, with `e` zeros below them, when `i` limbs of the quotient are missing:
`W` is the remainder of the limbs that were divided. -/
structure Dividing (u : Limbs) (D e k qp np n qh W i : ℕ) (mem : Limbs) : Prop where
  value : num u np (n + k) * radix 32 ^ e = num u np (i - e) * radix 32 ^ e +
    (W + D * (num mem (qp + i) (e + k - i) + qh * radix 32 ^ (e + k - i))) * radix 32 ^ i
  less : W < D
  frame : ∀ a, Apart a 1 (qp + i) (e + k - i) → a < np + (i - e) ∨ np + (n + k) ≤ a → mem a = u a

/-- Where the quotient may be: it is apart from the numerator, or above its remainder. -/
abbrev QuotientRange (qp np e k n : ℕ) : Prop := Apart qp (e + k) np (n + k) ∨ np + n ≤ qp

/-- The next limb of the numerator and of the zeros below it. -/
def nextLimb (u : Limbs) (np e i : ℕ) : ℕ := if e ≤ i then (u (np + (i - e))).toNat else 0

/-- A round leaves a limb of the quotient, and may write the limbs of the remainder. -/
theorem Dividing.next (h : Dividing u D e k qp np n qh W (i + 1) mem) (hqp : QuotientRange qp np e k n) (hi : i < e + k)
    {q : Limb} {W' : ℕ} (hvalue : W * radix 32 + nextLimb u np e i = q.toNat * D + W') (hless : W' < D)
    (hq : mem' (qp + i) = q)
    (hkeep : ∀ a, a ≠ qp + i → Apart a 1 (np + (i - e)) n → mem' a = mem a) :
    Dividing u D e k qp np n qh W' i mem' where
  value := by
    have hhigh : num mem' (qp + i + 1) (e + k - (i + 1)) = num mem (qp + (i + 1)) (e + k - (i + 1)) :=
      num_congr fun j hj => hkeep _ (by omega) (by omega)
    have hlow : num u np (i + 1 - e) * radix 32 ^ e =
        num u np (i - e) * radix 32 ^ e + nextLimb u np e i * radix 32 ^ i := by
      unfold nextLimb
      by_cases he : e ≤ i
      · obtain ⟨j, rfl⟩ := Nat.exists_eq_add_of_le he
        rw [if_pos he, show e + j + 1 - e = j + 1 by omega, Nat.add_sub_cancel_left, num_succ, pow_add]
        ring
      · rw [if_neg he, show i + 1 - e = 0 by omega, show i - e = 0 by omega]
        ring
    have hsucc : e + k - i = e + k - (i + 1) + 1 := by omega
    rw [h.value, hlow, hsucc, num_cons, hq, hhigh]
    linear_combination radix 32 ^ i * hvalue
  less := hless
  frame a hquot hnum := by
    rw [hkeep a (by omega) (by omega)]
    exact h.frame a (by omega) (by omega)

/-- The limbs of the numerator that were not divided are those of before. -/
theorem Dividing.unread (h : Dividing u D e k qp np n qh W i mem) (hqp : QuotientRange qp np e k n) (hi : i ≤ e + k)
    {j : ℕ} (hj : j < i - e) : mem (np + j) = u (np + j) := h.frame _ (by omega) (by omega)

/-- The quotient, with `r.2` above it, and the remainder. -/
structure Divided (u : Limbs) (D e k qp np n : ℕ) (r : Limbs × Limb) : Prop where
  value : num u np (n + k) * radix 32 ^ e =
    (num r.1 qp (e + k) + r.2.toNat * radix 32 ^ (e + k)) * D + num r.1 np n
  less : num r.1 np n < D
  high : r.2.toNat ≤ 1
  frame : ∀ a, Apart a 1 qp (e + k) → Apart a 1 np (n + k) → r.1 a = u a

/-- The remainder is stored when there are no limbs left. -/
theorem Dividing.done (h : Dividing u D e k qp np n qh W 0 mem) (hqp : QuotientRange qp np e k n) {high : Limb}
    (hhigh : high.toNat = qh) (hone : qh ≤ 1) (hrest : num mem' np n = W) (hwrites : Writes np n mem mem') :
    Divided u D e k qp np n (mem', high) where
  value := by
    have hquot : num mem' qp (e + k) = num mem qp (e + k) := hwrites.num_eq (by omega)
    have hvalue := h.value
    rw [Nat.zero_sub, num_zero, Nat.sub_zero, Nat.add_zero] at hvalue
    dsimp only
    rw [hquot, hrest, hhigh, hvalue]
    ring
  less := by
    dsimp only
    rw [hrest]
    exact h.less
  high := by
    dsimp only
    rw [hhigh]
    exact hone
  frame a hquot hnum := by
    dsimp only
    rw [hwrites a (by omega)]
    exact h.frame a (by omega) (by omega)

end Dividing

section Cases

variable {qp qextra np k dp : ℕ}

theorem divremOne_returns (mem : Limbs) (hqp : QuotientRange qp np qextra k 1) (hd : 2147483648 ≤ (mem dp).toNat) :
    Returns (divremOne mem qp qextra np (1 + k) dp) (Divided mem (mem dp).toNat qextra k qp np 1) := by
  have hdlt := toNat_lt_radix (mem dp)
  have hn1lt := toNat_lt_radix (mem (np + k))
  unfold divremOne
  dsimp only
  rw [Nat.add_sub_cancel_left]
  -- the top limb
  obtain ⟨n1, high, hfirst, hn1, hhigh, htop⟩ : ∃ n1 high : Limb,
      (if mem dp ≤ mem (np + k) then (mem (np + k) - mem dp, 1) else (mem (np + k), 0)) = (n1, high) ∧
        n1.toNat < (mem dp).toNat ∧ high.toNat ≤ 1 ∧
        (mem (np + k)).toNat = n1.toNat + (mem dp).toNat * high.toNat := by
    by_cases hle : mem dp ≤ mem (np + k)
    · have hle' : (mem dp).toNat ≤ (mem (np + k)).toNat := hle
      have hsub := toNat_sub_of_ge hle'
      rw [if_pos hle]
      refine ⟨_, _, rfl, ?_, Nat.le_refl 1, ?_⟩
      · rw [radix_eq] at hn1lt
        omega
      · show _ = _ + (mem dp).toNat * 1
        omega
    · have hlt : (mem (np + k)).toNat < (mem dp).toNat := BitVec.lt_def.mp (BitVec.not_le.mp hle)
      rw [if_neg hle]
      refine ⟨_, _, rfl, hlt, Nat.zero_le 1, ?_⟩
      show _ = _ + (mem dp).toNat * 0
      omega
  rw [hfirst]
  dsimp only
  have hstart : Dividing mem (mem dp).toNat qextra k qp np 1 high.toNat n1.toNat (qextra + k) mem := by
    refine ⟨?_, hn1, fun _ _ _ => rfl⟩
    rw [Nat.add_sub_cancel_left, Nat.sub_self, num_zero, Nat.add_comm 1 k, num_succ, htop, pow_add]
    ring
  -- a round divides the remainder and the next limb
  have hround : ∀ {i : ℕ} {m : Limbs} {n1 x q r : Limb}, i < qextra + k →
      Dividing mem (mem dp).toNat qextra k qp np 1 high.toNat n1.toNat (i + 1) m →
      x.toNat = nextLimb mem np qextra i → udivQrnnd n1 x (mem dp) = (q, r) →
        Dividing mem (mem dp).toNat qextra k qp np 1 high.toNat r.toNat i (Function.update m (qp + i) q) := by
    intro i m n1 x q r hi hm hx hqr
    obtain ⟨hvalue, hless⟩ := udivQrnnd_eq x (BitVec.lt_def.mpr hm.less) hd
    rw [hx, hqr] at hvalue
    rw [hqr] at hless
    exact hm.next hqp hi hvalue hless (Function.update_self _ _ _) fun a ha _ => Function.update_of_ne ha _ _
  have hloop1 := @forDownto_returns _ (fun i (st : Limbs × Limb) => (do
      let qr := udivQrnnd st.2 (st.1 (np + i)) (mem dp)
      return (Function.update st.1 (qp + qextra + i) qr.1, qr.2) : Run (Limbs × Limb)))
    (fun i st => i ≤ k ∧ Dividing mem (mem dp).toNat qextra k qp np 1 high.toNat st.2.toNat (qextra + i) st.1)
    (by
      rintro i ⟨m, n1⟩ ⟨hi, hm⟩
      dsimp only at hm ⊢
      rcases hqr : udivQrnnd n1 (m (np + i)) (mem dp) with ⟨q, r⟩
      apply returns_pure.mpr
      have hlt : i < k := hi
      refine ⟨Nat.le_of_lt hlt, ?_⟩
      rw [Nat.add_assoc qp]
      apply hround (i := qextra + i) (Nat.add_lt_add_left hlt qextra) hm _ hqr
      rw [hm.unread hqp (Nat.add_le_add_left hlt qextra) (by omega), nextLimb,
        if_pos (Nat.le_add_right _ _), Nat.add_sub_cancel_left])
    k (mem, n1) ⟨Nat.le_refl k, hstart⟩
  apply hloop1.bind
  rintro ⟨m, n1⟩ ⟨-, hm⟩
  have hloop2 := @forDownto_returns _ (fun i (st : Limbs × Limb) => (do
      let qr := udivQrnnd st.2 0 (mem dp)
      return (Function.update st.1 (qp + i) qr.1, qr.2) : Run (Limbs × Limb)))
    (fun i st => i ≤ qextra ∧ Dividing mem (mem dp).toNat qextra k qp np 1 high.toNat st.2.toNat i st.1)
    (by
      rintro i ⟨m, n1⟩ ⟨hi, hm⟩
      dsimp only at hm ⊢
      rcases hqr : udivQrnnd n1 0 (mem dp) with ⟨q, r⟩
      apply returns_pure.mpr
      have hlt : i < qextra := hi
      refine ⟨Nat.le_of_lt hlt, hround (Nat.lt_add_right k hlt) hm ?_ hqr⟩
      rw [nextLimb, if_neg (Nat.not_le.mpr hlt)]
      rfl)
    qextra (m, n1) ⟨Nat.le_refl qextra, hm⟩
  apply hloop2.bind
  rintro ⟨m, n1⟩ ⟨-, hm⟩
  apply returns_pure.mpr
  exact hm.done hqp rfl hhigh (by rw [num_one, Function.update_self]) (writes_update m _ (Nat.le_refl _) (by omega))

theorem num_two (mem : Limbs) (p : ℕ) : num mem p 2 = twoLimbs (mem (p + 1), mem p) := by
  rw [num_succ, num_one, pow_one, twoLimbs_eq]
  ring

theorem divremTwo_returns (mem : Limbs) (hqp : QuotientRange qp np qextra k 2)
    (hd : 2147483648 ≤ (mem (dp + 1)).toNat) :
    Returns (divremTwo mem qp qextra np (2 + k) dp) (Divided mem (num mem dp 2) qextra k qp np 2) := by
  rw [num_two]
  generalize hd1 : mem (dp + 1) = d1 at *
  generalize hd0 : mem dp = d0
  have hwindow := twoLimbs_lt (mem (np + k + 1), mem (np + k))
  unfold divremTwo
  dsimp only
  rw [Nat.add_sub_cancel_left, hd1, hd0]
  -- the two top limbs
  obtain ⟨n1, n0, high, hfirst, hless, hhigh, htop⟩ : ∃ n1 n0 high : Limb,
      (if d1 ≤ mem (np + k + 1) ∧ (d1 < mem (np + k + 1) ∨ d0 ≤ mem (np + k)) then
        let n := subDdmmss (mem (np + k + 1)) (mem (np + k)) d1 d0
        (n.1, n.2, (1 : Limb))
      else (mem (np + k + 1), mem (np + k), 0)) = (n1, n0, high) ∧
        twoLimbs (n1, n0) < twoLimbs (d1, d0) ∧ high.toNat ≤ 1 ∧
        twoLimbs (mem (np + k + 1), mem (np + k)) = twoLimbs (n1, n0) + twoLimbs (d1, d0) * high.toNat := by
    generalize mem (np + k + 1) = x1 at *
    generalize mem (np + k) = x0 at *
    have hiff : d1 ≤ x1 ∧ (d1 < x1 ∨ d0 ≤ x0) ↔ twoLimbs (d1, d0) ≤ twoLimbs (x1, x0) := by
      rw [← Nat.not_lt, twoLimbs_lt_iff, BitVec.lt_def, BitVec.lt_def, BitVec.lt_def, BitVec.le_def, BitVec.le_def,
        ← BitVec.toNat_inj]
      omega
    by_cases hle : d1 ≤ x1 ∧ (d1 < x1 ∨ d0 ≤ x0)
    · rw [if_pos hle]
      rw [hiff] at hle
      have hsub : twoLimbs ((subDdmmss x1 x0 d1 d0).1, (subDdmmss x1 x0 d1 d0).2) = _ := twoLimbs_subDdmmss hle
      refine ⟨(subDdmmss x1 x0 d1 d0).1, (subDdmmss x1 x0 d1 d0).2, 1, rfl, ?_, Nat.le_refl 1, ?_⟩
      · rw [hsub]
        rw [twoLimbs_eq d1, radix_eq] at *
        omega
      · rw [hsub]
        show _ = _ + _ * 1
        omega
    · rw [if_neg hle]
      rw [hiff] at hle
      refine ⟨_, _, _, rfl, Nat.lt_of_not_le hle, Nat.zero_le 1, ?_⟩
      show _ = _ + _ * 0
      omega
  rw [hfirst]
  dsimp only
  have hstart : Dividing mem (twoLimbs (d1, d0)) qextra k qp np 2 high.toNat (twoLimbs (n1, n0)) (qextra + k) mem := by
    refine ⟨?_, hless, fun _ _ _ => rfl⟩
    rw [Nat.add_sub_cancel_left, Nat.sub_self, num_zero, Nat.add_comm 2 k, num_add, num_two, htop, pow_add]
    ring
  have hloop := @forDownto_returns _ (fun i (st : Limbs × ℕ × Limb × Limb) => (do
      let np := if qextra ≤ i then st.2.1 - 1 else st.2.1
      let mem := if qextra ≤ i then st.1 else Function.update st.1 np 0
      let r ← divDigitTwo d1 d0 st.2.2.1 st.2.2.2 (mem np)
      return (Function.update mem (qp + i) r.1, np, r.2) : Run (Limbs × ℕ × Limb × Limb)))
    (fun i st => i ≤ qextra + k ∧ st.2.1 = np + (i - qextra) ∧
      Dividing mem (twoLimbs (d1, d0)) qextra k qp np 2 high.toNat (twoLimbs st.2.2) i st.1)
    (by
      rintro i ⟨m, p, n1, n0⟩ ⟨hi, rfl, hm⟩
      dsimp only at hm ⊢
      have hp : (if qextra ≤ i then np + (i + 1 - qextra) - 1 else np + (i + 1 - qextra)) = np + (i - qextra) := by
        split_ifs <;> omega
      rw [hp]
      generalize hm1 : (if qextra ≤ i then m else Function.update m (np + (i - qextra)) 0) = m1
      have hkeep : ∀ a, a ≠ np + (i - qextra) → m1 a = m a := by
        intro a ha
        rw [← hm1]
        split_ifs
        · rfl
        · exact Function.update_of_ne ha _ _
      have hx : (m1 (np + (i - qextra))).toNat = nextLimb mem np qextra i := by
        rw [← hm1, nextLimb]
        by_cases he : qextra ≤ i
        · rw [if_pos he, if_pos he, hm.unread hqp (by omega) (by omega)]
        · rw [if_neg he, if_neg he, Function.update_self]
          rfl
      apply (divDigitTwo_returns (m1 (np + (i - qextra))) hd hm.less).bind
      rintro ⟨q, x1, x0⟩ ⟨hvalue, hrest⟩
      dsimp only at hvalue hrest ⊢
      rw [hx] at hvalue
      apply returns_pure.mpr
      refine ⟨by omega, rfl, ?_⟩
      apply hm.next hqp (by omega) hvalue hrest (Function.update_self _ _ _)
      intro a ha hwindow
      rw [Function.update_of_ne ha, hkeep a (by omega)])
    (qextra + k) (mem, np + k, n1, n0)
    ⟨Nat.le_refl _, by rw [Nat.add_sub_cancel_left], hstart⟩
  apply hloop.bind
  rintro ⟨m, p, n1, n0⟩ ⟨-, hp, hm⟩
  rw [Nat.zero_sub, Nat.add_zero] at hp
  dsimp only at hp hm ⊢
  subst hp
  apply returns_pure.mpr
  apply hm.done hqp rfl hhigh
  · rw [num_two, Function.update_self, Function.update_of_ne (by omega), Function.update_self]
  · exact (writes_update m _ (by omega) (by omega)).trans (writes_update _ _ (by omega) (by omega))

/-- The comparison of the top limbs of the numerator with the divisor. -/
theorem divremMany_compare (mem : Limbs) (p n : ℕ) :
    mem (dp + n) ≤ mem (p + n) ∧ (mem (dp + n) < mem (p + n) ∨ 0 ≤ mpihelpCmp mem p dp n) ↔
      num mem dp (n + 1) ≤ num mem p (n + 1) := by
  have hd := num_lt mem dp n
  have hp := num_lt mem p n
  rw [mpihelpCmp_nonneg_iff, num_succ, num_succ, BitVec.le_def, BitVec.lt_def]
  rcases Nat.lt_trichotomy (mem (dp + n)).toNat (mem (p + n)).toNat with hlt | heq | hgt
  · have hmul := Nat.mul_le_mul_right (radix 32 ^ n) (Nat.succ_le_of_lt hlt)
    rw [Nat.succ_mul] at hmul
    omega
  · rw [heq]
    omega
  · have hmul := Nat.mul_le_mul_right (radix 32 ^ n) (Nat.succ_le_of_lt hgt)
    rw [Nat.succ_mul] at hmul
    omega

/-- The first limb of the quotient of a normalized divisor. -/
theorem divremMany_top (mem : Limbs) (p n : ℕ) (hapart : Apart p (n + 1) dp (n + 1))
    (hd : 2147483648 ≤ (mem (dp + n)).toNat) :
    Returns (if mem (dp + n) ≤ mem (p + n) ∧ (mem (dp + n) < mem (p + n) ∨ 0 ≤ mpihelpCmp mem p dp n) then do
        let (mem, _) ← mpihelpSubN mem p p dp (n + 1)
        return ((mem, mem (p + n), 1) : Limbs × Limb × Limb)
      else
        return (mem, mem (p + n), 0)) fun r =>
      num r.1 p (n + 1) < num mem dp (n + 1) ∧ r.2.1 = r.1 (p + n) ∧ r.2.2.toNat ≤ 1 ∧
        num mem p (n + 1) = num r.1 p (n + 1) + num mem dp (n + 1) * r.2.2.toNat ∧ Writes p (n + 1) mem r.1 := by
  by_cases hle : num mem dp (n + 1) ≤ num mem p (n + 1)
  · rw [if_pos ((divremMany_compare mem p n).mpr hle)]
    apply (mpihelpSubN_returns mem (by omega) (.inl (Nat.le_refl p)) (Apart.readsAhead hapart)).bind
    rintro ⟨mem1, cy⟩ ⟨hvalue, hcy, hwrites⟩
    dsimp only at hvalue hcy hwrites ⊢
    have hlt := num_lt mem1 p (n + 1)
    have hzero : cy.toNat = 0 := by
      by_contra hne
      rw [show cy.toNat = 1 by omega, Nat.one_mul] at hvalue
      omega
    rw [hzero, Nat.zero_mul] at hvalue
    -- the divisor has its highest bit set
    have hhalf : radix 32 ^ (n + 1) ≤ 2 * num mem dp (n + 1) := by
      have hmul := Nat.mul_le_mul_right (radix 32 ^ n) hd
      rw [num_succ, pow_succ, Nat.mul_comm, radix_eq] at *
      omega
    have hp := num_lt mem p (n + 1)
    refine returns_pure.mpr ⟨by dsimp only; omega, rfl, Nat.le_refl 1, ?_, hwrites⟩
    show _ = _ + _ * 1
    dsimp only
    omega
  · rw [if_neg fun h => hle ((divremMany_compare mem p n).mp h)]
    refine returns_pure.mpr ⟨Nat.lt_of_not_le hle, rfl, Nat.zero_le 1, ?_, fun _ _ => rfl⟩
    show num mem p (n + 1) = num mem p (n + 1) + _ * 0
    omega

theorem divremMany_returns (mem : Limbs) {n : ℕ} (hqp : QuotientRange qp np qextra k (n + 2))
    (hdp : Apart dp (n + 2) np (n + 2 + k)) (hdq : Apart dp (n + 2) qp (qextra + k))
    (hd : 2147483648 ≤ (mem (dp + (n + 1))).toNat) :
    Returns (divremMany mem qp qextra np (n + 2 + k) dp (n + 2))
      (Divided mem (num mem dp (n + 2)) qextra k qp np (n + 2)) := by
  unfold divremMany
  dsimp only
  rw [Nat.add_sub_cancel_left, show n + 2 - 1 = n + 1 by omega, show n + 2 - 2 = n by omega]
  apply (divremMany_top mem (np + k) (n + 1) (by omega) hd).bind
  rintro ⟨mem1, n0, high⟩ ⟨hless, htop, hhigh, hvalue, hwrites⟩
  dsimp only at hless htop hhigh hvalue hwrites ⊢
  have hstart : Dividing mem (num mem dp (n + 2)) qextra k qp np (n + 2) high.toNat (num mem1 (np + k) (n + 2))
      (qextra + k) mem1 := by
    refine ⟨?_, hless, fun a _ ha => hwrites a (by omega)⟩
    rw [Nat.add_sub_cancel_left, Nat.sub_self, num_zero, Nat.add_comm (n + 2) k, num_add, hvalue, pow_add]
    ring
  have hloop := @forDownto_returns _ (fun i (st : Limbs × ℕ × Limb) => (do
      let r ← (
        if qextra ≤ i then
          return ((st.1, st.2.1 - 1, st.1 (st.2.1 - 1 + (n + 2))) : Limbs × ℕ × Limb)
        else do
          let n2 := st.1 (st.2.1 + (n + 1))
          let mem ← copyDownLoop st.1 (st.2.1 + 1) st.2.1 (n + 1)
          return (Function.update mem st.2.1 0, st.2.1, n2))
      let r' ← divDigitMany r.1 r.2.1 dp (n + 2) (mem (dp + (n + 1))) (mem (dp + n)) st.2.2 r.2.2
      let mem := Function.update r'.1 (qp + i) r'.2
      return (mem, r.2.1, mem (r.2.1 + (n + 1))) : Run (Limbs × ℕ × Limb)))
    (fun i st => i ≤ qextra + k ∧ st.2.1 = np + (i - qextra) ∧ st.2.2 = st.1 (st.2.1 + (n + 1)) ∧
      Dividing mem (num mem dp (n + 2)) qextra k qp np (n + 2) high.toNat (num st.1 (np + (i - qextra)) (n + 2)) i st.1)
    ?_ (qextra + k) (mem1, np + k, n0)
    ⟨Nat.le_refl _, by rw [Nat.add_sub_cancel_left], htop, by rw [Nat.add_sub_cancel_left]; exact hstart⟩
  · apply hloop.bind
    rintro ⟨m, p, n0⟩ ⟨-, -, -, hm⟩
    rw [Nat.zero_sub, Nat.add_zero] at hm
    apply returns_pure.mpr
    exact hm.done hqp rfl hhigh rfl fun _ _ => rfl
  · rintro i ⟨m, p, x⟩ ⟨hi, rfl, hx, hm⟩
    dsimp only at hx hm ⊢
    subst hx
    generalize hW : num m (np + (i + 1 - qextra)) (n + 2) = W at *
    -- the limbs of the remainder and the next limb
    have hwindow : Returns (
        if qextra ≤ i then
          return ((m, np + (i + 1 - qextra) - 1, m (np + (i + 1 - qextra) - 1 + (n + 2))) : Limbs × ℕ × Limb)
        else do
          let n2 := m (np + (i + 1 - qextra) + (n + 1))
          let mem ← copyDownLoop m (np + (i + 1 - qextra) + 1) (np + (i + 1 - qextra)) (n + 1)
          return (Function.update mem (np + (i + 1 - qextra)) 0, np + (i + 1 - qextra), n2)) fun r =>
        r.2.1 = np + (i - qextra) ∧ r.2.2 = m (np + (i + 1 - qextra) + (n + 1)) ∧
          r.2.2.toNat * radix 32 ^ (n + 2) + num r.1 (np + (i - qextra)) (n + 2) =
            W * radix 32 + nextLimb mem np qextra i ∧ Writes (np + (i - qextra)) (n + 2) m r.1 := by
      by_cases he : qextra ≤ i
      · have hread := hm.unread hqp (by omega) (j := i - qextra) (by omega)
        rw [if_pos he, nextLimb, if_pos he, ← hread, ← hW]
        rw [show np + (i + 1 - qextra) = np + (i - qextra) + 1 by omega, Nat.add_sub_cancel]
        refine returns_pure.mpr ⟨rfl, ?_, ?_, fun _ _ => rfl⟩
        · exact congrArg m (by omega)
        · dsimp only
          rw [Nat.add_comm _ (num m (np + (i - qextra)) (n + 2)), ← num_succ, num_cons]
          ring
      · rw [if_neg he, nextLimb, if_neg he, ← hW, show i + 1 - qextra = 0 by omega, show i - qextra = 0 by omega,
          Nat.add_zero]
        apply (copyDownLoop_num m (d := np + 1) (s := np) (n := n + 1) (.inl (by omega))).bind
        rintro m1 ⟨hcopied, hwrites⟩
        refine returns_pure.mpr ⟨rfl, rfl, ?_, ?_⟩
        · dsimp only
          rw [num_cons, Function.update_self, num_update_of_ne m1 _ (.inl (by omega)), hcopied, num_succ m np (n + 1)]
          show _ + (0 + _) = _
          ring
        · exact (hwrites.mono (by omega) (by omega)).trans (writes_update m1 _ (by omega) (by omega))
    apply hwindow.bind
    rintro ⟨m1, p, n2⟩ ⟨rfl, rfl, hN, hwrites1⟩
    dsimp only at hN hwrites1 ⊢
    have hdp1 : ∀ j, j < n + 2 → m1 (dp + j) = mem (dp + j) := by
      intro j hj
      rw [hwrites1 _ (by omega)]
      exact hm.frame _ (by omega) (by omega)
    have hD : num m1 dp (n + 2) = num mem dp (n + 2) := num_congr hdp1
    have hdigit := divDigitMany_returns m1 (np + (i - qextra)) dp n (m (np + (i + 1 - qextra) + (n + 1))) (by omega)
      (by
        rw [hdp1 _ (by omega)]
        exact hd)
      (by
        have hmul := Nat.mul_le_mul_right (radix 32) (Nat.succ_le_of_lt hm.less)
        have hx : nextLimb mem np qextra i < radix 32 := by
          unfold nextLimb
          split_ifs
          · exact toNat_lt_radix _
          · exact radix_pos
        rw [Nat.succ_mul] at hmul
        rw [hN, hD]
        omega)
    rw [hdp1 _ (by omega), hdp1 _ (by omega)] at hdigit
    apply hdigit.bind
    rintro ⟨m2, q⟩ ⟨hquot, hrest, hwrites2⟩
    dsimp only at hquot hrest hwrites2 ⊢
    rw [hN, hD] at hquot
    rw [hD] at hrest
    have hkept : num (Function.update m2 (qp + i) q) (np + (i - qextra)) (n + 2) = num m2 (np + (i - qextra)) (n + 2) :=
      num_update_of_ne m2 _ (by omega)
    apply returns_pure.mpr
    refine ⟨by omega, rfl, rfl, ?_⟩
    rw [hkept]
    apply hm.next hqp (by omega) hquot hrest (Function.update_self _ _ _)
    intro a ha hwindow
    rw [Function.update_of_ne ha, hwrites2 a (by omega), hwrites1 a (by omega)]

/-- `mpihelp_divrem` leaves the quotient of the numerator, with `qextra` zeros below it, and the remainder. -/
theorem mpihelpDivrem_returns (mem : Limbs) (qp qextra np dp : ℕ) {nsize dsize : ℕ} (hdsize : 0 < dsize)
    (hle : dsize ≤ nsize) (hd : 2147483648 ≤ (mem (dp + (dsize - 1))).toNat) (hdp : Apart dp dsize np nsize)
    (hdq : Apart dp dsize qp (qextra + (nsize - dsize)))
    (hqp : Apart qp (qextra + (nsize - dsize)) np nsize ∨ np + dsize ≤ qp) :
    Returns (mpihelpDivrem mem qp qextra np nsize dp dsize) fun r =>
      num mem np nsize * radix 32 ^ qextra = (num r.1 qp (qextra + (nsize - dsize)) +
        r.2.toNat * radix 32 ^ (qextra + (nsize - dsize))) * num mem dp dsize + num r.1 np dsize ∧
      num r.1 np dsize < num mem dp dsize ∧ r.2.toNat ≤ 1 ∧
      ∀ a, Apart a 1 qp (qextra + (nsize - dsize)) → Apart a 1 np nsize → r.1 a = mem a := by
  obtain ⟨k, rfl⟩ := Nat.exists_eq_add_of_le hle
  rw [Nat.add_sub_cancel_left] at *
  have hdivided : Returns (mpihelpDivrem mem qp qextra np (dsize + k) dp dsize)
      (Divided mem (num mem dp dsize) qextra k qp np dsize) := by
    match dsize, hdsize with
    | 1, _ =>
        rw [num_one]
        exact divremOne_returns mem hqp hd
    | 2, _ => exact divremTwo_returns mem hqp hd
    | n + 3, _ => exact divremMany_returns mem hqp hdp hdq hd
  exact hdivided.mono fun r hr => ⟨hr.value, hr.less, hr.high, hr.frame⟩

end Cases

end ChannelBench
