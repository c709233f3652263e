import ChannelBench.EvictionPassRules
import Mathlib.Algebra.BigOperators.Intervals
import Mathlib.Algebra.Order.BigOperators.Group.Finset
import Mathlib.Data.List.Forall2

/-! The timing side of an eviction test: the histogram of `timestats.c`, its order statistics, and the
verdict that `timedwalk` and `checkevict` draw from the access times of one test. A time that is 0 or
at least `TIME_MAX` is filed in slot 0, and the statistics start counting at slot 1. They therefore
answer 0, which is below every threshold, when too few samples are in range. -/

namespace ChannelBench

open CSem

/-- `TIME_MAX`. -/
def timeMax : ℕ := 1024

theorem timeMax_pos : 0 < timeMax := by decide

/-- `struct ts`: how many samples there are of each time, the outliers in slot 0. A test takes at most 256
samples, so neither the counters nor the sums of the statistics come near the bounds of their types. -/
structure Ts where
  data : Vector ℕ timeMax

/-- `ts->data[i]`. -/
def Ts.count (ts : Ts) (i : ℕ) : ℕ := if h : i < timeMax then ts.data[i] else 0

/-- `ts->data[i]++`. -/
def Ts.bump (ts : Ts) (i : ℕ) (h : i < timeMax) : Ts := { data := ts.data.set i (ts.data[i] + 1) h }

/-- `ts_clear`, which is also what `ts_alloc` does to the histogram it hands out. -/
def tsClear : Ts := { data := Vector.replicate timeMax 0 }

/-- `ts_add`. -/
def tsAdd (ts : Ts) (tm : ℤ) : Ts :=
  if h : tm < timeMax ∧ 0 ≤ tm then ts.bump tm.toNat (by omega) else ts.bump 0 timeMax_pos

/-- `for (i = 0; i < n; i++) c += ts->data[i]`, from 0. -/
def tsTotal (ts : Ts) : ℕ → ℤ
  | 0 => 0
  | n + 1 => tsTotal ts n + ts.count n

/-- `for (; i < TIME_MAX; i++) if ((c -= ts->data[i]) < 0) return i; return 0`. -/
def tsRank (ts : Ts) (c : ℤ) (i : ℕ) : ℕ :=
  if i < timeMax then
    if c - ts.count i < 0 then i else tsRank ts (c - ts.count i) (i + 1)
  else 0
termination_by timeMax - i

/-- `ts_median`. -/
def tsMedian (ts : Ts) : ℤ := tsRank ts ((tsTotal ts timeMax + 1) / 2) 1

/-- `ts_percentile`. -/
def tsPercentile (ts : Ts) (percentile : ℤ) : ℤ :=
  tsRank ts ((tsTotal ts timeMax * percentile + 50) / 100) 1

/-- The platforms the attack is built for. -/
inductive Target where
  | x86
  | tx1
  | hikey
  | sabre
  deriving DecidableEq, Repr

/-- `L3_THRESHOLD`. -/
def Target.l3Threshold : Target → ℕ
  | .x86 => 140
  | .tx1 => 150
  | .hikey => 150
  | .sabre => 110

/-- `CHECKTIMES` of `cachemap.c` and of `l3_arm.c`. -/
def Target.checktimes : Target → ℕ
  | .x86 => 16
  | _ => 256

/-- The statistic `timedwalk` returns. -/
def Target.statistic : Target → Ts → ℤ
  | .x86 => tsMedian
  | _ => fun ts => tsPercentile ts 90

/-- The histogram of the access times; `int tm` takes a `uint32_t`. -/
def tsOfTimes (times : List (BitVec 32)) : Ts := times.foldl (fun ts time => tsAdd ts time.toInt) tsClear

/-- What `timedwalk` returns for the access times of its walks. -/
def timedwalk (p : Target) (times : Vector (BitVec 32) p.checktimes) : ℤ :=
  p.statistic (tsOfTimes times.toList)

/-- The verdict of `checkevict`. -/
def evicted (p : Target) (times : Vector (BitVec 32) p.checktimes) : Bool :=
  decide ((p.l3Threshold : ℤ) < timedwalk p times)

/-- A machine whose walks take the given access times. `timedwalk` finds the link of its first page
written, so it does not return early. -/
def timedMachine {σ Page : Type} (p : Target) (random : σ → ℕ × σ)
    (walks : List (Page × Page) → Page → Page → σ → Vector (BitVec 32) p.checktimes × σ) :
    Machine σ Page where
  random := random
  timedwalk := fun links head candidate world =>
    (timedwalk p (walks links head candidate world).1, (walks links head candidate world).2)
  l3Threshold := p.l3Threshold

/-- `checkevict` answers with the verdict on the times of the walk it asks for. -/
theorem checkevict_timed {σ Page : Type} (p : Target) (random : σ → ℕ × σ)
    (walks : List (Page × Page) → Page → Page → σ → Vector (BitVec 32) p.checktimes × σ)
    {es : VList Page} (candidate : Page) (world : σ) (hes : es.toList ≠ []) :
    Returns (checkevict (timedMachine p random walks) es candidate world) fun r => ∃ links head,
      links.map Prod.fst = es.toList ∧ r.1 = evicted p (walks links head candidate world).1 :=
  checkevict_returns (timedMachine p random walks) candidate world hes

/-! ### The histogram counts -/

/-- The slot a time is filed in. -/
def slot (time : BitVec 32) : ℕ := if time.toNat < timeMax then time.toNat else 0

theorem count_bump (ts : Ts) {i : ℕ} (h : i < timeMax) (x : ℕ) :
    (ts.bump i h).count x = ts.count x + if x = i then 1 else 0 := by
  unfold Ts.count Ts.bump
  by_cases hx : x < timeMax
  · rw [dif_pos hx, dif_pos hx, Vector.getElem_set]
    by_cases hxi : x = i
    · subst hxi
      simp
    · rw [if_neg (Ne.symm hxi), if_neg hxi, Nat.add_zero]
  · rw [dif_neg hx, dif_neg hx, if_neg (by omega)]

theorem count_clear (x : ℕ) : tsClear.count x = 0 := by
  simp [Ts.count, tsClear]

/-- A time below `TIME_MAX` is itself as an `int`, and any other one is negative or too large. -/
theorem count_tsAdd (ts : Ts) (time : BitVec 32) (x : ℕ) :
    (tsAdd ts time.toInt).count x = ts.count x + if x = slot time then 1 else 0 := by
  have hmax : timeMax < 2 ^ 31 := by decide
  have hint := BitVec.toInt_eq_toNat_cond time
  by_cases htime : time.toNat < timeMax
  · have hnat : time.toInt = time.toNat := by
      rw [hint, if_pos (by omega)]
    rw [tsAdd, dif_pos (by omega), count_bump, slot, if_pos htime, hnat, Int.toNat_natCast]
  · have hout : ¬(time.toInt < timeMax ∧ 0 ≤ time.toInt) := by
      split_ifs at hint <;> omega
    rw [tsAdd, dif_neg hout, count_bump, slot, if_neg htime]

theorem count_tsOfTimes (times : List (BitVec 32)) (x : ℕ) :
    (tsOfTimes times).count x = times.countP fun time => slot time = x := by
  suffices h : ∀ ts : Ts, (times.foldl (fun ts time => tsAdd ts time.toInt) ts).count x =
      ts.count x + times.countP fun time => slot time = x by
    rw [tsOfTimes, h, count_clear, Nat.zero_add]
  induction times with
  | nil => simp
  | cons time times ih =>
      intro ts
      rw [List.foldl_cons, ih, count_tsAdd, List.countP_cons]
      simp only [decide_eq_true_eq, eq_comm (a := x)]
      omega

/-- The samples in a range of slots. -/
def Ts.within (ts : Ts) (low high : ℕ) : ℕ := ∑ x ∈ Finset.Ico low high, ts.count x

theorem Ts.within_empty (ts : Ts) {low high : ℕ} (h : high ≤ low) : ts.within low high = 0 := by
  rw [Ts.within, Finset.Ico_eq_empty (Nat.not_lt.mpr h), Finset.sum_empty]

theorem Ts.within_head (ts : Ts) {low high : ℕ} (h : low < high) :
    ts.within low high = ts.count low + ts.within (low + 1) high :=
  Finset.sum_eq_sum_Ico_succ_bot h ts.count

theorem Ts.within_last (ts : Ts) {low high : ℕ} (h : low ≤ high) :
    ts.within low (high + 1) = ts.within low high + ts.count high :=
  Finset.sum_Ico_succ_top h ts.count

theorem within_tsOfTimes (times : List (BitVec 32)) (low high : ℕ) :
    (tsOfTimes times).within low high = times.countP fun time => low ≤ slot time ∧ slot time < high := by
  simp only [Ts.within, count_tsOfTimes]
  induction times with
  | nil => simp
  | cons time times ih =>
      simp only [List.countP_cons, Finset.sum_add_distrib, ih, decide_eq_true_eq]
      rw [Finset.sum_ite_eq]
      simp only [Finset.mem_Ico]

theorem tsTotal_eq (ts : Ts) (n : ℕ) : tsTotal ts n = ts.within 0 n := by
  induction n with
  | zero => rfl
  | succ n ih => rw [tsTotal, ih, ts.within_last (Nat.zero_le n), Nat.cast_add]

theorem slot_lt (time : BitVec 32) : slot time < timeMax := by
  unfold slot
  split_ifs with h
  · exact h
  · exact timeMax_pos

/-- Every sample is counted. -/
theorem tsTotal_tsOfTimes (times : List (BitVec 32)) : tsTotal (tsOfTimes times) timeMax = times.length := by
  rw [tsTotal_eq, within_tsOfTimes, List.countP_eq_length.mpr]
  intro time _
  simpa using slot_lt time

/-! ### The order statistics -/

/-- The statistic is above a threshold when at most `c` of the samples from slot `i` on are not above
it, and more than `c` are in range at all. -/
theorem lt_tsRank_iff (ts : Ts) (threshold : ℕ) {c : ℤ} {i : ℕ} (hc : 0 ≤ c) :
    threshold < tsRank ts c i ↔
      ts.within i (min (threshold + 1) timeMax) ≤ c ∧ c < ts.within i timeMax := by
  induction c, i using tsRank.induct ts with
  | case1 c i hi hneg =>
      rw [tsRank, if_pos hi, if_pos hneg, ts.within_head hi]
      by_cases hslow : threshold < i
      · rw [ts.within_empty (by omega)]
        omega
      · rw [ts.within_head (by omega)]
        omega
  | case2 c i hi hpos ih =>
      rw [tsRank, if_pos hi, if_neg hpos, ih (by omega), ts.within_head hi]
      by_cases hslow : threshold < i
      · rw [ts.within_empty (show min (threshold + 1) timeMax ≤ i by omega),
          ts.within_empty (show min (threshold + 1) timeMax ≤ i + 1 by omega)]
        omega
      · rw [ts.within_head (show i < min (threshold + 1) timeMax by omega)]
        omega
  | case3 c i hi =>
      rw [tsRank, if_neg hi, ts.within_empty (show timeMax ≤ i by omega)]
      omega

/-- The time can be counted by the statistics. -/
def inRange (time : BitVec 32) : Prop := 0 < time.toNat ∧ time.toNat < timeMax

instance (time : BitVec 32) : Decidable (inRange time) := inferInstanceAs (Decidable (_ ∧ _))

/-- The time counts as a hit. -/
def fast (p : Target) (time : BitVec 32) : Prop := 0 < time.toNat ∧ time.toNat ≤ p.l3Threshold

instance (p : Target) (time : BitVec 32) : Decidable (fast p time) := inferInstanceAs (Decidable (_ ∧ _))

/-- The number of fast samples a test can have and still find an eviction: half of 16, 90 of 100 of
256. -/
def Target.rank : Target → ℕ
  | .x86 => 8
  | _ => 230

theorem Target.threshold_lt (p : Target) : p.l3Threshold < timeMax := by
  cases p <;> decide

theorem slot_inRange (time : BitVec 32) : 1 ≤ slot time ∧ slot time < timeMax ↔ inRange time := by
  unfold slot inRange
  split_ifs with h <;> omega

theorem slot_fast (p : Target) (time : BitVec 32) :
    1 ≤ slot time ∧ slot time < min (p.l3Threshold + 1) timeMax ↔ fast p time := by
  have hp := p.threshold_lt
  unfold slot fast
  split_ifs with h <;> omega

/-- What `timedwalk` returns is the first slot up to which more than `rank` samples are filed. -/
theorem timedwalk_eq (p : Target) (times : Vector (BitVec 32) p.checktimes) :
    timedwalk p times = tsRank (tsOfTimes times.toList) p.rank 1 := by
  have hcount := tsTotal_tsOfTimes times.toList
  rw [Vector.length_toList] at hcount
  cases p with
  | x86 =>
      show tsMedian _ = _
      rw [tsMedian, hcount]
      rfl
  | _ =>
      show tsPercentile _ 90 = _
      rw [tsPercentile, hcount]
      rfl

/-- **The verdict.** A page is evicted when few samples are fast and enough samples are in range. -/
theorem evicted_iff (p : Target) (times : Vector (BitVec 32) p.checktimes) :
    evicted p times = true ↔
      times.toList.countP (fast p ·) ≤ p.rank ∧ p.rank < times.toList.countP (inRange ·) := by
  rw [evicted, decide_eq_true_eq, timedwalk_eq, Int.ofNat_lt, lt_tsRank_iff _ _ (Int.natCast_nonneg _),
    Int.ofNat_le, Int.ofNat_lt, within_tsOfTimes, within_tsOfTimes]
  simp only [slot_inRange, slot_fast]

theorem countP_le_of_forall₂ {P Q : BitVec 32 → Bool} {times times' : List (BitVec 32)}
    (h : List.Forall₂ (fun time time' => Q time' → P time) times times') :
    times'.countP Q ≤ times.countP P := by
  induction h with
  | nil => exact le_refl _
  | @cons time time' times times' hhead _ ih =>
      rw [List.countP_cons, List.countP_cons]
      split_ifs with hQ hP
      · omega
      · exact absurd (hhead hQ) hP
      · omega
      · exact ih

/-- A sample that is at least as long counts as fast only if the shorter one did. -/
theorem countP_fast_le {p : Target} {times times' : Vector (BitVec 32) p.checktimes}
    (hslower : ∀ k (hk : k < p.checktimes), times[k].toNat ≤ times'[k].toNat)
    (hzero : ∀ k (hk : k < p.checktimes), times[k].toNat = 0 →
      times'[k].toNat = 0 ∨ p.l3Threshold < times'[k].toNat) :
    times'.toList.countP (fast p ·) ≤ times.toList.countP (fast p ·) := by
  apply countP_le_of_forall₂
  rw [List.forall₂_iff_get]
  refine ⟨by rw [Vector.length_toList, Vector.length_toList], ?_⟩
  intro k hk hk'
  rw [Vector.length_toList] at hk
  have hle := hslower k hk
  have hpos := hzero k hk
  simp only [List.get_eq_getElem, Vector.getElem_toList, fast, decide_eq_true_eq]
  omega

/-- A test all of whose samples took the same time. -/
theorem evicted_replicate (p : Target) (time : BitVec 32) :
    evicted p (Vector.replicate p.checktimes time) = true ↔
      p.l3Threshold < time.toNat ∧ time.toNat < timeMax := by
  have hrank : p.rank < p.checktimes := by cases p <;> decide
  have hthreshold := p.threshold_lt
  rw [evicted_iff, Vector.toList_replicate, List.countP_replicate, List.countP_replicate]
  simp only [decide_eq_true_eq]
  split_ifs with hfast hrange hrange <;> simp only [fast, inRange] at hfast hrange <;> omega

/-- **Slower memory and the range of the histogram.** If every sample of the second test is at least as
long, and none of the first is 0 (or one that is stays 0 or is above the threshold), a page evicted by
the first test is evicted by the second exactly if enough samples of the second are in range. -/
theorem evicted_slower_iff {p : Target} {times times' : Vector (BitVec 32) p.checktimes}
    (hslower : ∀ k (hk : k < p.checktimes), times[k].toNat ≤ times'[k].toNat)
    (hzero : ∀ k (hk : k < p.checktimes), times[k].toNat = 0 →
      times'[k].toNat = 0 ∨ p.l3Threshold < times'[k].toNat)
    (hevicted : evicted p times = true) :
    evicted p times' = true ↔ p.rank < times'.toList.countP (inRange ·) := by
  have hfast := ((evicted_iff p times).mp hevicted).1
  rw [evicted_iff]
  constructor
  · intro h
    exact h.2
  · intro hrange
    exact ⟨(countP_fast_le hslower hzero).trans hfast, hrange⟩

/-- Sixteen samples of 300 cycles are as much of an eviction as sixteen of 200, since all are in range. -/
theorem evicted_slower_300 :
    evicted .x86 (Vector.replicate (Target.checktimes .x86) 300) = true ↔
      Target.rank .x86 < (Vector.replicate (Target.checktimes .x86) (300 : BitVec 32)).toList.countP (inRange ·) :=
  evicted_slower_iff (by simp) (by simp) ((evicted_replicate .x86 200).mpr (by decide))

/-- The law for all samples below `2 ^ 31`. -/
def SlowerStaysEvicted (p : Target) : Prop :=
  ∀ times times' : Vector (BitVec 32) p.checktimes,
    (∀ k (hk : k < p.checktimes), times[k].toNat ≤ times'[k].toNat ∧ times'[k].toNat < 2 ^ 31) →
      evicted p times = true → evicted p times' = true

/-- Samples of 1023 cycles are an eviction, and samples of 1024 are outliers. -/
theorem slower_memory_missed : ¬SlowerStaysEvicted .x86 ∧ ¬SlowerStaysEvicted .tx1 := by
  have hmiss : ∀ p : Target, p.l3Threshold < 1023 → ¬SlowerStaysEvicted p := by
    intro p hp h
    have hslow : evicted p (Vector.replicate _ 1023) = true := (evicted_replicate p 1023).mpr ⟨hp, by decide⟩
    have hout := h _ (Vector.replicate _ 1024) (by simp) hslow
    exact absurd ((evicted_replicate p 1024).mp hout).2 (by decide)
  exact ⟨hmiss .x86 (by decide), hmiss .tx1 (by decide)⟩

end ChannelBench
