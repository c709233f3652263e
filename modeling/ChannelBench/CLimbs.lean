import ChannelBench.CRun
import Mathlib.Algebra.GroupWithZero.Nat
import Mathlib.Logic.Function.Basic
import Mathlib.Tactic.LinearCombination
import Mathlib.Tactic.Ring
import Mathlib.Tactic.Zify

/-! Natural numbers in a memory of words, the least significant word first. An operation on such numbers is
described by the numbers it leaves and by the range of addresses it writes; numbers outside the range are those
of before. -/

namespace CSem

/-- The radix of words of `w` bits. -/
def radix (w : ℕ) : ℕ := 2 ^ w

section Words

variable {w : ℕ} {x y : BitVec w}

/-- The value of a C comparison. -/
def flag (p : Prop) [Decidable p] : BitVec w := if p then 1#w else 0#w

theorem toNat_flag (hw : 0 < w) (p : Prop) [Decidable p] : (flag p : BitVec w).toNat = if p then 1 else 0 := by
  unfold flag
  split_ifs
  · exact BitVec.toNat_one hw
  · exact BitVec.toNat_zero

theorem toNat_flag_decide (hw : 0 < w) (p : Prop) [Decidable p] : (flag p : BitVec w).toNat = (decide p).toNat := by
  rw [toNat_flag hw]
  by_cases hp : p
  · rw [if_pos hp, decide_eq_true hp]
    rfl
  · rw [if_neg hp, decide_eq_false hp]
    rfl

theorem toNat_add_of_lt (h : x.toNat + y.toNat < radix w) : (x + y).toNat = x.toNat + y.toNat := by
  rw [BitVec.toNat_add]
  exact Nat.mod_eq_of_lt h

theorem toNat_add_of_le (h : radix w ≤ x.toNat + y.toNat) : (x + y).toNat = x.toNat + y.toNat - radix w := by
  have hx : x.toNat < radix w := x.isLt
  have hy : y.toNat < radix w := y.isLt
  rw [BitVec.toNat_add, ← radix, Nat.mod_eq_sub_mod h, Nat.mod_eq_of_lt (by omega)]

/-- `sum < y` after `sum = x + y` tells whether the addition overflowed. -/
theorem add_lt_right_iff : x + y < y ↔ radix w ≤ x.toNat + y.toNat := by
  have hx : x.toNat < radix w := x.isLt
  rw [BitVec.lt_def]
  by_cases h : radix w ≤ x.toNat + y.toNat
  · rw [toNat_add_of_le h]
    omega
  · rw [toNat_add_of_lt (by omega)]
    omega

theorem toNat_sub_of_ge (h : y.toNat ≤ x.toNat) : (x - y).toNat = x.toNat - y.toNat := BitVec.toNat_sub_of_le h

theorem toNat_sub_of_lt (h : x.toNat < y.toNat) : (x - y).toNat = radix w + x.toNat - y.toNat := by
  have hy : y.toNat < radix w := y.isLt
  rw [BitVec.toNat_sub, ← radix, show radix w - y.toNat + x.toNat = radix w + x.toNat - y.toNat by omega,
    Nat.mod_eq_of_lt (by omega)]

/-- `difference > x` after `difference = x - y` tells whether the subtraction borrowed. -/
theorem lt_sub_iff : x < x - y ↔ x.toNat < y.toNat := by
  have hy : y.toNat < radix w := y.isLt
  rw [BitVec.lt_def]
  by_cases h : y.toNat ≤ x.toNat
  · rw [toNat_sub_of_ge h]
    omega
  · rw [toNat_sub_of_lt (by omega)]
    omega

/-- A sum, and the flag that it overflowed. -/
theorem add_flag (hw : 0 < w) (x y : BitVec w) :
    (x + y).toNat + (flag (x + y < y) : BitVec w).toNat * radix w = x.toNat + y.toNat ∧
      (flag (x + y < y) : BitVec w).toNat ≤ 1 := by
  rw [toNat_flag hw]
  by_cases h : radix w ≤ x.toNat + y.toNat
  · rw [if_pos (add_lt_right_iff.mpr h), toNat_add_of_le h]
    omega
  · rw [if_neg fun hlt => h (add_lt_right_iff.mp hlt), toNat_add_of_lt (by omega)]
    omega

/-- A difference, and the flag that it borrowed. -/
theorem sub_flag (hw : 0 < w) (x y : BitVec w) :
    (x - y).toNat + y.toNat = x.toNat + (flag (x < x - y) : BitVec w).toNat * radix w ∧
      (flag (x < x - y) : BitVec w).toNat ≤ 1 := by
  rw [toNat_flag hw]
  have hy : y.toNat < radix w := y.isLt
  by_cases h : x.toNat < y.toNat
  · rw [if_pos (lt_sub_iff.mpr h), toNat_sub_of_lt h]
    omega
  · rw [if_neg fun hlt => h (lt_sub_iff.mp hlt), toNat_sub_of_ge (by omega)]
    omega

theorem two_le_radix (hw : 0 < w) : 2 ≤ radix w := by
  calc 2 = 2 ^ 1 := rfl
    _ ≤ 2 ^ w := Nat.pow_le_pow_right (by decide) hw

/-- Flags of which at most one is set. -/
theorem toNat_flags (hw : 0 < w) {f g : BitVec w} (hf : f.toNat ≤ 1) (hg : g.toNat ≤ 1)
    (hone : f.toNat = 1 → g.toNat = 0) : (f + g).toNat = f.toNat + g.toNat ∧ f.toNat + g.toNat ≤ 1 := by
  have hle : f.toNat + g.toNat ≤ 1 := by omega
  have hradix := two_le_radix hw
  exact ⟨toNat_add_of_lt (by omega), hle⟩

/-- The sum of two words and a carry, and the next carry. -/
theorem add_carry (hw : 0 < w) (x y : BitVec w) {cy : BitVec w} (hcy : cy.toNat ≤ 1) :
    (y + cy + x).toNat + (flag (y + cy < cy) + flag (y + cy + x < x) : BitVec w).toNat * radix w =
        x.toNat + y.toNat + cy.toNat ∧
      (flag (y + cy < cy) + flag (y + cy + x < x) : BitVec w).toNat ≤ 1 := by
  have hx : x.toNat < radix w := x.isLt
  have hy : y.toNat < radix w := y.isLt
  obtain ⟨hfirst, hf⟩ := add_flag hw y cy
  obtain ⟨hsecond, hg⟩ := add_flag hw (y + cy) x
  have hone : (flag (y + cy < cy) : BitVec w).toNat = 1 → (flag (y + cy + x < x) : BitVec w).toNat = 0 := by
    intro hset
    rw [hset] at hfirst
    by_contra hne
    rw [show (flag (y + cy + x < x) : BitVec w).toNat = 1 by omega] at hsecond
    omega
  obtain ⟨hsum, hle⟩ := toNat_flags hw hf hg hone
  rw [hsum]
  exact ⟨by linear_combination hfirst + hsecond, hle⟩

/-- The difference of two words and a borrow, and the next borrow. -/
theorem sub_borrow (hw : 0 < w) (x y : BitVec w) {cy : BitVec w} (hcy : cy.toNat ≤ 1) :
    (x - (y + cy)).toNat + y.toNat + cy.toNat =
        x.toNat + (flag (y + cy < cy) + flag (x < x - (y + cy)) : BitVec w).toNat * radix w ∧
      (flag (y + cy < cy) + flag (x < x - (y + cy)) : BitVec w).toNat ≤ 1 := by
  have hx : x.toNat < radix w := x.isLt
  have hy : y.toNat < radix w := y.isLt
  obtain ⟨hfirst, hf⟩ := add_flag hw y cy
  obtain ⟨hsecond, hg⟩ := sub_flag hw x (y + cy)
  have hdiff : (x - (y + cy)).toNat < radix w := (x - (y + cy)).isLt
  have hone : (flag (y + cy < cy) : BitVec w).toNat = 1 → (flag (x < x - (y + cy)) : BitVec w).toNat = 0 := by
    intro hset
    rw [hset] at hfirst
    by_contra hne
    rw [show (flag (x < x - (y + cy)) : BitVec w).toNat = 1 by omega] at hsecond
    omega
  obtain ⟨hsum, hle⟩ := toNat_flags hw hf hg hone
  rw [hsum]
  exact ⟨by linear_combination hsecond - hfirst, hle⟩

end Words

section Numbers

variable {w : ℕ}

theorem radix_pos : 0 < radix w := Nat.two_pow_pos w

theorem toNat_lt_radix (x : BitVec w) : x.toNat < radix w := x.isLt

/-- The number in the `n` words from `p` on. -/
def num (mem : ℕ → BitVec w) (p : ℕ) : ℕ → ℕ
  | 0 => 0
  | n + 1 => num mem p n + (mem (p + n)).toNat * radix w ^ n

@[simp] theorem num_zero (mem : ℕ → BitVec w) (p : ℕ) : num mem p 0 = 0 := rfl

theorem num_succ (mem : ℕ → BitVec w) (p n : ℕ) :
    num mem p (n + 1) = num mem p n + (mem (p + n)).toNat * radix w ^ n := rfl

@[simp] theorem num_one (mem : ℕ → BitVec w) (p : ℕ) : num mem p 1 = (mem p).toNat := by
  rw [num_succ, num_zero, Nat.zero_add, Nat.pow_zero, Nat.mul_one, Nat.add_zero]

theorem num_lt (mem : ℕ → BitVec w) (p n : ℕ) : num mem p n < radix w ^ n := by
  induction n with
  | zero => exact Nat.one_pos
  | succ n ih =>
      have hword : (mem (p + n)).toNat + 1 ≤ radix w := toNat_lt_radix _
      calc num mem p (n + 1) < radix w ^ n + (mem (p + n)).toNat * radix w ^ n := by
            rw [num_succ]
            omega
        _ = ((mem (p + n)).toNat + 1) * radix w ^ n := by ring
        _ ≤ radix w * radix w ^ n := Nat.mul_le_mul_right _ hword
        _ = radix w ^ (n + 1) := by ring

/-- A number whose top word is not zero. -/
theorem pow_le_num (mem : ℕ → BitVec w) {p n : ℕ} (hn : 0 < n) (htop : mem (p + (n - 1)) ≠ 0#w) :
    radix w ^ (n - 1) ≤ num mem p n := by
  obtain ⟨n, rfl⟩ : ∃ k, n = k + 1 := ⟨n - 1, by omega⟩
  rw [Nat.add_sub_cancel] at *
  have hpos : 0 < (mem (p + n)).toNat := Nat.pos_of_ne_zero fun h => htop (BitVec.eq_of_toNat_eq (by simpa using h))
  have hmul := Nat.mul_le_mul_right (radix w ^ n) hpos
  rw [num_succ]
  omega

theorem num_congr {mem mem' : ℕ → BitVec w} {p p' n : ℕ} (h : ∀ i, i < n → mem (p + i) = mem' (p' + i)) :
    num mem p n = num mem' p' n := by
  induction n with
  | zero => rfl
  | succ n ih => rw [num_succ, num_succ, ih fun i hi => h i (by omega), h n (by omega)]

/-- Equal numbers of the same size have equal words. -/
theorem num_inj {mem mem' : ℕ → BitVec w} {p p' n : ℕ} (h : num mem p n = num mem' p' n) :
    ∀ i, i < n → mem (p + i) = mem' (p' + i) := by
  induction n with
  | zero => exact fun i hi => absurd hi (Nat.not_lt_zero i)
  | succ n ih =>
      have hpos : 0 < radix w ^ n := Nat.pow_pos radix_pos
      rw [num_succ, num_succ, Nat.mul_comm, Nat.mul_comm (mem' (p' + n)).toNat] at h
      have hleft := (Nat.div_mod_unique hpos).mpr ⟨h, num_lt mem p n⟩
      have hright := (Nat.div_mod_unique hpos).mpr
        ⟨Eq.refl (num mem' p' n + radix w ^ n * (mem' (p' + n)).toNat), num_lt mem' p' n⟩
      intro i hi
      rcases Nat.lt_succ_iff_lt_or_eq.mp hi with hlt | rfl
      · exact ih (hleft.2.symm.trans hright.2) i hlt
      · exact BitVec.eq_of_toNat_eq (hleft.1.symm.trans hright.1)

/-- A number is its low part and its high part. -/
theorem num_add (mem : ℕ → BitVec w) (p m n : ℕ) :
    num mem p (m + n) = num mem p m + num mem (p + m) n * radix w ^ m := by
  induction n with
  | zero => rw [Nat.add_zero, num_zero, Nat.zero_mul, Nat.add_zero]
  | succ n ih =>
      rw [← Nat.add_assoc, num_succ, ih, num_succ, Nat.add_assoc p m n]
      ring

theorem num_halves (mem : ℕ → BitVec w) (p n : ℕ) :
    num mem p (2 * n) = num mem p n + num mem (p + n) n * radix w ^ n := by
  rw [Nat.two_mul, num_add]

/-- A number is its first word and the number from the next word on. -/
theorem num_cons (mem : ℕ → BitVec w) (p n : ℕ) :
    num mem p (n + 1) = (mem p).toNat + num mem (p + 1) n * radix w := by
  rw [Nat.add_comm n 1, num_add, num_one, pow_one]

end Numbers

section Writes

variable {α : Type} {mem mem' mem'' : ℕ → α} {p n p' n' : ℕ}

/-- Only the `n` addresses from `p` on may have changed. -/
def Writes (p n : ℕ) (mem mem' : ℕ → α) : Prop := ∀ a, a < p ∨ p + n ≤ a → mem' a = mem a

theorem Writes.refl (p n : ℕ) (mem : ℕ → α) : Writes p n mem mem := fun _ _ => rfl

theorem Writes.trans (h : Writes p n mem mem') (h' : Writes p n mem' mem'') : Writes p n mem mem'' :=
  fun a ha => (h' a ha).trans (h a ha)

theorem Writes.mono (h : Writes p n mem mem') (hlow : p' ≤ p) (hhigh : p + n ≤ p' + n') :
    Writes p' n' mem mem' := fun a ha => h a (by omega)

theorem writes_update (mem : ℕ → α) {a : ℕ} (x : α) (hlow : p ≤ a) (hhigh : a < p + n) :
    Writes p n mem (Function.update mem a x) :=
  fun b hb => Function.update_of_ne (by omega) _ _

/-- A number outside the range is that of before. -/
theorem Writes.num_eq {w : ℕ} {mem mem' : ℕ → BitVec w} (h : Writes p n mem mem') {q m : ℕ}
    (hq : q + m ≤ p ∨ p + n ≤ q) : num mem' q m = num mem q m :=
  num_congr fun i hi => h (q + i) (by omega)

theorem num_update_of_ne {w : ℕ} (mem : ℕ → BitVec w) {a q m : ℕ} (x : BitVec w) (ha : a < q ∨ q + m ≤ a) :
    num (Function.update mem a x) q m = num mem q m :=
  num_congr fun i hi => Function.update_of_ne (by omega) _ _

/-- A write to the top word. -/
theorem num_update_top {w : ℕ} (mem : ℕ → BitVec w) (q m : ℕ) (x : BitVec w) :
    num (Function.update mem (q + m) x) q (m + 1) = num mem q m + x.toNat * radix w ^ m := by
  rw [num_succ, num_update_of_ne mem x (.inr (Nat.le_refl _)), Function.update_self]

/-- Words that are read at `s` while words are written at `d`, both from the first one on: no word is read
after it was written. -/
def ReadsAhead (d s n : ℕ) : Prop := d ≤ s ∨ s + n ≤ d

theorem ReadsAhead.take {d s m n : ℕ} (h : ReadsAhead d s (m + n)) : ReadsAhead d s m := by
  rcases h with h | h
  · exact .inl h
  · exact .inr (by omega)

theorem ReadsAhead.drop {d s m n : ℕ} (h : ReadsAhead d s (m + n)) : ReadsAhead (d + m) (s + m) n := by
  rcases h with h | h
  · exact .inl (by omega)
  · exact .inr (by omega)

/-- Two ranges that have no address in common. -/
abbrev Apart (p n q m : ℕ) : Prop := p + n ≤ q ∨ q + m ≤ p

theorem Apart.readsAhead {d s n : ℕ} (h : Apart d n s n) : ReadsAhead d s n := by
  rcases h with h | h
  · exact .inl (by omega)
  · exact .inr h

/-- Only the addresses in `S` may have changed. -/
def WritesIn (S : ℕ → Prop) (mem mem' : ℕ → α) : Prop := ∀ a, ¬S a → mem' a = mem a

section WritesIn

variable {S S' : ℕ → Prop}

theorem Writes.writesIn (h : Writes p n mem mem') (hS : ∀ a, p ≤ a → a < p + n → S a) : WritesIn S mem mem' := by
  intro a ha
  apply h
  by_contra hin
  exact ha (hS a (by omega) (by omega))

theorem WritesIn.refl (S : ℕ → Prop) (mem : ℕ → α) : WritesIn S mem mem := fun _ _ => rfl

theorem WritesIn.trans (h : WritesIn S mem mem') (h' : WritesIn S mem' mem'') : WritesIn S mem mem'' :=
  fun a ha => (h' a ha).trans (h a ha)

theorem WritesIn.mono (h : WritesIn S mem mem') (hS : ∀ a, S a → S' a) : WritesIn S' mem mem' :=
  fun a ha => h a fun hin => ha (hS a hin)

theorem WritesIn.num_eq {w : ℕ} {mem mem' : ℕ → BitVec w} (h : WritesIn S mem mem') {q m : ℕ}
    (hq : ∀ a, q ≤ a → a < q + m → ¬S a) : num mem' q m = num mem q m :=
  num_congr fun i hi => h (q + i) (hq (q + i) (by omega) (by omega))

end WritesIn

end Writes

/-! ### Loops over numbers -/

section Loops

variable {w : ℕ}

/-- A `do … while` loop over the `n` words at `s` and at `t`, which leaves a word at `d` and a carry. -/
def wordLoop (step : BitVec w → BitVec w → BitVec w → BitVec w × BitVec w) (mem : ℕ → BitVec w)
    (d s t n : ℕ) : Run ((ℕ → BitVec w) × BitVec w) := do
  require (0 < n) .rounds
  forUpto (fun j st => do
      let out := step (st.1 (s + j)) (st.1 (t + j)) st.2
      return (Function.update st.1 (d + j) out.1, out.2))
    n (mem, 0#w)

/-- A loop whose step is linear in the two words and in the carry is linear in the two numbers. -/
theorem wordLoop_returns {step : BitVec w → BitVec w → BitVec w → BitVec w × BitVec w} (a b e : ℤ)
    (Small : BitVec w → Prop) (hzero : Small 0#w)
    (hstep : ∀ x y cy, Small cy → ((step x y cy).1.toNat : ℤ) + e * (step x y cy).2.toNat * radix w =
      a * x.toNat + b * y.toNat + e * cy.toNat ∧ Small (step x y cy).2)
    (mem : ℕ → BitVec w) {d s t n : ℕ} (hn : 0 < n) (hs : ReadsAhead d s n) (ht : ReadsAhead d t n) :
    Returns (wordLoop step mem d s t n) fun r =>
      (num r.1 d n : ℤ) + e * r.2.toNat * radix w ^ n = a * num mem s n + b * num mem t n ∧
        Small r.2 ∧ Writes d n mem r.1 := by
  unfold wordLoop
  rw [require_pos hn, pure_bind]
  apply forUpto_returns fun j (r : (ℕ → BitVec w) × BitVec w) =>
    (num r.1 d j : ℤ) + e * r.2.toNat * radix w ^ j = a * num mem s j + b * num mem t j ∧
      Small r.2 ∧ Writes d j mem r.1
  · exact ⟨by simp, hzero, Writes.refl d 0 mem⟩
  · intro j hj r hr
    obtain ⟨mem', cy⟩ := r
    obtain ⟨hvalue, hsmall, hwrites⟩ := hr
    dsimp only at hvalue hsmall hwrites ⊢
    have hx : mem' (s + j) = mem (s + j) := hwrites _ (by rcases hs with h | h <;> omega)
    have hy : mem' (t + j) = mem (t + j) := hwrites _ (by rcases ht with h | h <;> omega)
    rw [hx, hy]
    obtain ⟨hlinear, hsmall'⟩ := hstep (mem (s + j)) (mem (t + j)) cy hsmall
    apply returns_pure.mpr
    refine ⟨?_, hsmall', ?_⟩
    · dsimp only
      rw [num_update_top, num_succ mem s, num_succ mem t]
      push_cast
      linear_combination (radix w : ℤ) ^ j * hlinear + hvalue
    · exact (hwrites.mono (Nat.le_refl d) (by omega)).trans (writes_update mem' _ (by omega) (by omega))

/-- `for (i = 0; i < n; i++) d[i] = s[i]`. -/
def copyLoop {α : Type} (mem : ℕ → α) (d s n : ℕ) : Run (ℕ → α) :=
  forUpto (fun i mem => return Function.update mem (d + i) (mem (s + i))) n mem

theorem copyLoop_returns {α : Type} (mem : ℕ → α) {d s n : ℕ} (hs : ReadsAhead d s n) :
    Returns (copyLoop mem d s n) fun mem' => (∀ i, i < n → mem' (d + i) = mem (s + i)) ∧ Writes d n mem mem' := by
  apply forUpto_returns fun j (mem' : ℕ → α) => (∀ i, i < j → mem' (d + i) = mem (s + i)) ∧ Writes d j mem mem'
  · exact ⟨fun i hi => absurd hi (Nat.not_lt_zero i), Writes.refl d 0 mem⟩
  · intro j hj mem' hmem'
    obtain ⟨hcopied, hwrites⟩ := hmem'
    have hread : mem' (s + j) = mem (s + j) := hwrites _ (by rcases hs with h | h <;> omega)
    apply returns_pure.mpr
    constructor
    · intro i hi
      rcases Nat.lt_succ_iff_lt_or_eq.mp hi with hlt | rfl
      · rw [Function.update_of_ne (by omega), hcopied i hlt]
      · rw [Function.update_self, hread]
    · exact (hwrites.mono (Nat.le_refl d) (by omega)).trans (writes_update mem' _ (by omega) (by omega))

theorem copyLoop_num (mem : ℕ → BitVec w) {d s n : ℕ} (hs : ReadsAhead d s n) :
    Returns (copyLoop mem d s n) fun mem' => num mem' d n = num mem s n ∧ Writes d n mem mem' :=
  (copyLoop_returns mem hs).mono fun _ h => ⟨num_congr h.1, h.2⟩

/-- `for (i = n - 1; i >= 0; i--) d[i] = s[i]`. -/
def copyDownLoop {α : Type} (mem : ℕ → α) (d s n : ℕ) : Run (ℕ → α) :=
  forDownto (fun i mem => return Function.update mem (d + i) (mem (s + i))) n mem

theorem copyDownLoop_num (mem : ℕ → BitVec w) {d s n : ℕ} (hs : s ≤ d ∨ d + n ≤ s) :
    Returns (copyDownLoop mem d s n) fun mem' => num mem' d n = num mem s n ∧ Writes d n mem mem' := by
  have hloop := @forDownto_returns _ (fun i (mem : ℕ → BitVec w) => (return Function.update mem (d + i) (mem (s + i))))
    (fun j (mem' : ℕ → BitVec w) => j ≤ n ∧ (∀ i, j ≤ i → i < n → mem' (d + i) = mem (s + i)) ∧
      Writes (d + j) (n - j) mem mem') ?_ n mem ?_
  · apply hloop.mono
    intro mem' hmem'
    obtain ⟨-, hcopied, hwrites⟩ := hmem'
    exact ⟨num_congr fun i hi => hcopied i (Nat.zero_le i) hi, hwrites.mono (by omega) (by omega)⟩
  · intro j mem' hmem'
    obtain ⟨hj, hcopied, hwrites⟩ := hmem'
    have hread : mem' (s + j) = mem (s + j) := hwrites _ (by omega)
    apply returns_pure.mpr
    refine ⟨by omega, ?_, ?_⟩
    · intro i hi hin
      rcases Nat.eq_or_lt_of_le hi with rfl | hlt
      · rw [Function.update_self, hread]
      · rw [Function.update_of_ne (by omega), hcopied i hlt hin]
    · exact (hwrites.mono (by omega) (by omega)).trans (writes_update mem' _ (by omega) (by omega))
  · exact ⟨Nat.le_refl n, fun i hi hin => absurd hin (by omega), fun _ _ => rfl⟩

/-- `for (i = 0; i < n; i++) d[i] = 0`. -/
def zeroLoop (mem : ℕ → BitVec w) (d n : ℕ) : Run (ℕ → BitVec w) :=
  forUpto (fun i mem => return Function.update mem (d + i) 0#w) n mem

theorem zeroLoop_num (mem : ℕ → BitVec w) (d n : ℕ) :
    Returns (zeroLoop mem d n) fun mem' => num mem' d n = 0 ∧ Writes d n mem mem' := by
  apply forUpto_returns fun j (mem' : ℕ → BitVec w) => num mem' d j = 0 ∧ Writes d j mem mem'
  · exact ⟨rfl, Writes.refl d 0 mem⟩
  · intro j hj mem' hmem'
    obtain ⟨hzero, hwrites⟩ := hmem'
    apply returns_pure.mpr
    constructor
    · rw [num_update_top, hzero, BitVec.toNat_zero, Nat.zero_mul]
    · exact (hwrites.mono (Nat.le_refl d) (by omega)).trans (writes_update mem' _ (by omega) (by omega))

end Loops

end CSem
