import ChannelBench.CRun
import Mathlib.Tactic.Ring

/-! The ticks of the multicore attack of `l3spy.c`. Trojan and spy wait for instants at fixed distances
from the start, the trojan for the multiples of the tick length and the spy a little later. The distance
is a product of two `int`s, and it is compared with a difference of 64-bit counter values, so the ticks
whose product leaves the range of `int` wait for something else. -/

namespace ChannelBench

open CSem

/-- `SYN_TICK_MULTI_TROJAN`. -/
def synTickMultiTrojan : ℕ := 500000

/-- `SYN_TICK_MULTI_SPY_OFFSET`. -/
def synTickMultiSpyOffset : ℕ := 50000

/-- `offset` in `waiting_probe`: an `int` product, widened to `ccnt_t`. -/
def probeOffset (tick : BitVec 32) (spy : Bool) : BitVec 64 :=
  let offset := ((tick + 1#32) * BitVec.ofNat 32 synTickMultiTrojan).signExtend 64
  if spy then offset + BitVec.ofNat 64 synTickMultiSpyOffset else offset

/-- `waiting_probe` of the multicore build, with the readings of `rdtscp_64` from the call on. The result
is the number of the reading that ends the wait. -/
def waitingProbe (fuel : ℕ) (readings : ℕ → BitVec 64) (start : BitVec 64) (tick : BitVec 32) (spy : Bool) :
    Run ℕ :=
  loop (fun k => if readings k - start < probeOffset tick spy then return .inl (k + 1) else return .inr k) fuel 0

/-- The first reading that is at least `d` cycles after the start. -/
def FirstAfter (readings : ℕ → BitVec 64) (start : BitVec 64) (d k : ℕ) : Prop :=
  d ≤ (readings k - start).toNat ∧ ∀ j, j < k → (readings j - start).toNat < d

theorem waitingProbe_eq_ok {readings : ℕ → BitVec 64} {start : BitVec 64} {tick : BitVec 32} {spy : Bool} {k : ℕ} :
    (∃ fuel, waitingProbe fuel readings start tick spy = .ok k) ↔
      FirstAfter readings start (probeOffset tick spy).toNat k := by
  simp only [waitingProbe, loop_search_eq_ok, FirstAfter, BitVec.lt_def, Nat.not_lt, Nat.zero_le, true_and,
    true_imp_iff, Nat.zero_add]
  constructor
  · rintro ⟨_, -, h⟩
    exact h
  · intro h
    exact ⟨k + 1, Nat.lt_succ_self k, h⟩

/-- The wait of a tick ends exactly `d` cycles after the start, as exactly as the clock is read. -/
def WaitsUntil (tick : BitVec 32) (spy : Bool) (d : ℕ) : Prop :=
  ∀ (readings : ℕ → BitVec 64) (start : BitVec 64) (k : ℕ),
    (∃ fuel, waitingProbe fuel readings start tick spy = .ok k) ↔ FirstAfter readings start d k

/-- A clock that stands still tells two distances apart. -/
theorem firstAfter_still {d elapsed : ℕ} (helapsed : elapsed < 2 ^ 64) :
    FirstAfter (fun _ => BitVec.ofNat 64 elapsed) 0 d 0 ↔ d ≤ elapsed := by
  have hclock : (BitVec.ofNat 64 elapsed - 0#64).toNat = elapsed := by
    rw [BitVec.sub_zero, BitVec.toNat_ofNat, Nat.mod_eq_of_lt helapsed]
  show (d ≤ (BitVec.ofNat 64 elapsed - 0#64).toNat ∧ ∀ j, j < 0 → _) ↔ d ≤ elapsed
  rw [hclock]
  exact ⟨fun h => h.1, fun h => ⟨h, fun j hj => absurd hj (Nat.not_lt_zero j)⟩⟩

theorem waitsUntil_iff {tick : BitVec 32} {spy : Bool} {d : ℕ} :
    WaitsUntil tick spy d ↔ (probeOffset tick spy).toNat = d := by
  constructor
  · intro h
    by_contra hne
    have hsame : ∀ elapsed, elapsed < 2 ^ 64 → ((probeOffset tick spy).toNat ≤ elapsed ↔ d ≤ elapsed) := by
      intro elapsed helapsed
      rw [← firstAfter_still helapsed, ← firstAfter_still helapsed, ← waitingProbe_eq_ok]
      exact h _ _ _
    have hoffset := (probeOffset tick spy).isLt
    rcases Nat.lt_or_gt_of_ne hne with hlt | hgt
    · exact absurd ((hsame _ hoffset).mp (le_refl _)) (by omega)
    · exact absurd ((hsame d (by omega)).mpr (le_refl d)) (by omega)
  · rintro rfl readings start k
    exact waitingProbe_eq_ok

/-! ### The range of the product -/

/-- The instant of a tick, in cycles after the start. -/
def deadline (tick : ℕ) (spy : Bool) : ℕ :=
  (tick + 1) * synTickMultiTrojan + if spy then synTickMultiSpyOffset else 0

theorem deadline_trojan (tick : ℕ) : deadline tick false = (tick + 1) * synTickMultiTrojan := by
  simp [deadline]

theorem deadline_spy (tick : ℕ) : deadline tick true = deadline tick false + synTickMultiSpyOffset := by
  simp [deadline]

/-- The number of ticks whose product is an `int`. -/
def exactTicks : ℕ := 4294

theorem exactTicks_iff (tick : ℕ) : tick < exactTicks ↔ (tick + 1) * synTickMultiTrojan < 2 ^ 31 := by
  unfold exactTicks synTickMultiTrojan
  omega

theorem product_eq (tick : ℕ) :
    (BitVec.ofNat 32 tick + 1#32) * BitVec.ofNat 32 synTickMultiTrojan =
      BitVec.ofNat 32 ((tick + 1) * synTickMultiTrojan) := by
  rw [BitVec.ofNat_mul, BitVec.ofNat_add]

/-- An `int` keeps its value in a wider unsigned type if it is not negative. -/
theorem toNat_signExtend_of_lt {x : ℕ} (hx : x < 2 ^ 31) : ((BitVec.ofNat 32 x).signExtend 64).toNat = x := by
  have hfits : x < 2 ^ 32 := by omega
  have hmsb : (BitVec.ofNat 32 x).msb = false := by
    rw [BitVec.msb_eq_decide, BitVec.toNat_ofNat, Nat.mod_eq_of_lt hfits]
    exact decide_eq_false (by omega)
  rw [BitVec.signExtend_eq_setWidth_of_msb_false hmsb, BitVec.setWidth_ofNat_of_le_of_lt (by decide) hfits,
    BitVec.toNat_ofNat, Nat.mod_eq_of_lt (by omega)]

/-- A product out of the range of `int` arrives as something else. -/
theorem toNat_signExtend_ne {x : ℕ} (hx : 2 ^ 31 ≤ x) (hx' : x < 2 ^ 63) :
    ((BitVec.ofNat 32 x).signExtend 64).toNat ≠ x := by
  intro h
  have hwide := BitVec.toInt_eq_toNat_of_lt (x := (BitVec.ofNat 32 x).signExtend 64) (by omega)
  rw [BitVec.toInt_signExtend_of_le (by decide), h] at hwide
  have hnarrow := BitVec.toInt_lt (x := BitVec.ofNat 32 x)
  omega

theorem probeOffset_trojan (tick : ℕ) : probeOffset (BitVec.ofNat 32 tick) false =
    (BitVec.ofNat 32 ((tick + 1) * synTickMultiTrojan)).signExtend 64 := by
  rw [← product_eq, probeOffset, if_neg Bool.false_ne_true]

theorem probeOffset_spy (tick : ℕ) : probeOffset (BitVec.ofNat 32 tick) true =
    probeOffset (BitVec.ofNat 32 tick) false + BitVec.ofNat 64 synTickMultiSpyOffset := rfl

/-- The ticks whose product is an `int` wait for their instant. -/
theorem probeOffset_exact {tick : ℕ} (htick : tick < exactTicks) (spy : Bool) :
    (probeOffset (BitVec.ofNat 32 tick) spy).toNat = deadline tick spy := by
  have hlt := (exactTicks_iff tick).mp htick
  have htrojan : (probeOffset (BitVec.ofNat 32 tick) false).toNat = (tick + 1) * synTickMultiTrojan := by
    rw [probeOffset_trojan, toNat_signExtend_of_lt hlt]
  cases spy with
  | false => rw [htrojan, deadline_trojan]
  | true =>
      have hoffset : synTickMultiSpyOffset < 2 ^ 31 := by decide
      rw [probeOffset_spy, BitVec.toNat_add, htrojan, BitVec.toNat_ofNat, Nat.mod_eq_of_lt (by omega),
        Nat.mod_eq_of_lt (by omega), deadline_spy, deadline_trojan]

/-- No later tick does. -/
theorem probeOffset_inexact {tick : ℕ} (htick : exactTicks ≤ tick) (hint : tick < 2 ^ 31) :
    (probeOffset (BitVec.ofNat 32 tick) false).toNat ≠ deadline tick false := by
  have hge : 2 ^ 31 ≤ (tick + 1) * synTickMultiTrojan := by
    rw [← Nat.not_lt, ← exactTicks_iff, Nat.not_lt]
    exact htick
  have hlt : (tick + 1) * synTickMultiTrojan < 2 ^ 63 := by
    unfold synTickMultiTrojan
    omega
  rw [probeOffset_trojan, deadline_trojan]
  exact toNat_signExtend_ne hge hlt

/-! ### The law of the ticks -/

/-- The law of an attack with `n` data points: every wait ends at its instant, and the instants of trojan
and spy alternate. -/
structure TicksAlternate (n : ℕ) : Prop where
  waits : ∀ i, i < n → ∀ spy, WaitsUntil (BitVec.ofNat 32 i) spy (deadline i spy)
  trojan_before_spy : ∀ i, i < n →
    probeOffset (BitVec.ofNat 32 i) false < probeOffset (BitVec.ofNat 32 i) true
  spy_before_trojan : ∀ i, i + 1 < n →
    probeOffset (BitVec.ofNat 32 i) true < probeOffset (BitVec.ofNat 32 (i + 1)) false

theorem deadline_lt_spy (tick : ℕ) : deadline tick false < deadline tick true := by
  rw [deadline_spy]
  exact Nat.lt_add_of_pos_right (by decide)

theorem deadline_lt_succ (tick : ℕ) : deadline tick true < deadline (tick + 1) false := by
  rw [deadline_spy, deadline_trojan, deadline_trojan, Nat.succ_mul (tick + 1)]
  exact Nat.add_lt_add_left (by decide) _

/-- **The ticks and the range of `int`.** The law holds exactly of the attacks with at most 4294 data
points. -/
theorem ticks_alternate_iff (n : ℕ) : TicksAlternate n ↔ n ≤ exactTicks := by
  constructor
  · intro h
    by_contra hn
    have hwait := waitsUntil_iff.mp (h.waits exactTicks (by omega) false)
    exact probeOffset_inexact (le_refl _) (by decide) hwait
  · intro hn
    constructor
    · intro i hi spy
      exact waitsUntil_iff.mpr (probeOffset_exact (by omega) spy)
    · intro i hi
      rw [BitVec.lt_def, probeOffset_exact (by omega), probeOffset_exact (by omega)]
      exact deadline_lt_spy i
    · intro i hi
      rw [BitVec.lt_def, probeOffset_exact (by omega), probeOffset_exact (by omega)]
      exact deadline_lt_succ i

/-- With the default number of data points the trojan waits at tick 4294 for a distance that is negative
as an `int`. -/
theorem ticks_lost_by_default :
    probeOffset 4294#32 false = 18446744071562084320#64 ∧ deadline 4294 false = 2147500000 ∧
      ¬TicksAlternate 409600 := by
  refine ⟨by decide, by decide, ?_⟩
  intro h
  have hwait := waitsUntil_iff.mp (h.waits 4294 (by decide) false)
  exact probeOffset_inexact (by decide) (by decide) hwait

end ChannelBench
