import ChannelBench.CRun
import ChannelBench.CTimeline
import Mathlib.Data.BitVec
import Mathlib.Logic.Function.Basic

/-! The recorders of `l3_kd_spy.c`, `l3_kd_spy_arm.c` and `timer.c`. They read a cycle counter over and
over and take a jump between two readings for the time in which another thread ran: a jump closes a
record, with the time before it as online time and the jump as offline time. -/

namespace ChannelBench

open CSem

def tsThreshold : ℕ := 100000

def timerDetectIntervalNs : ℕ := 1200

/-! ### The recording loop -/

/-- The values that a loop puts into a record. -/
structure Tick (w : ℕ) where
  start : BitVec w
  prev : BitVec w
  cur : BitVec w
  prevS : BitVec 32
  secret : BitVec 32

/-- The variables of a recording loop after the readings `0, …, k` of the counter. -/
structure TickState (R : Type) (w : ℕ) where
  record : R
  i : ℕ
  k : ℕ
  start : BitVec w
  prev : BitVec w
  prevS : BitVec 32

section Loop

variable {R : Type} {w : ℕ}

/-- A round of the loop. `readings k` is reading `k` of the counter, and `secret k` is what a read of
the shared secret finds after it. -/
def tickRound (write : R → ℕ → Tick w → R) (threshold n : ℕ) (readings : ℕ → BitVec w)
    (secret : ℕ → BitVec 32) (st : TickState R w) : Run (TickState R w ⊕ R) :=
  if st.i < n then
    let cur := readings (st.k + 1)
    if threshold ≤ (cur - st.prev).toNat then
      let secret := secret (st.k + 1)
      return .inl {
        record := write st.record st.i ⟨st.start, st.prev, cur, st.prevS, secret⟩
        i := st.i + 1
        k := st.k + 1
        start := cur
        prev := cur
        prevS := secret }
    else
      return .inl { st with k := st.k + 1, prev := cur }
  else
    return .inr st.record

/-- The loop, entered after the first reading of the counter and of the secret. -/
def tickLoop (write : R → ℕ → Tick w → R) (threshold n : ℕ) (readings : ℕ → BitVec w)
    (secret : ℕ → BitVec 32) (fuel : ℕ) (record : R) : Run R :=
  loop (tickRound write threshold n readings secret) fuel
    { record, i := 0, k := 0, start := readings 0, prev := readings 0, prevS := secret 0 }

end Loop

/-- `struct bench_kernel_schedule`, with `ccnt_t` of `c` bits. -/
structure KernelSchedule (c : ℕ) where
  prevs : ℕ → BitVec c
  starts : ℕ → BitVec c
  curs : ℕ → BitVec c
  prevSec : ℕ → BitVec 32
  curSec : ℕ → BitVec 32

/-- The assignments to `r_addr` in `l3_kd_spy`. -/
def KernelSchedule.write {c w : ℕ} (r : KernelSchedule c) (i : ℕ) (tick : Tick w) : KernelSchedule c where
  prevs := Function.update r.prevs i (tick.prev.setWidth c)
  starts := Function.update r.starts i (tick.start.setWidth c)
  curs := Function.update r.curs i (tick.cur.setWidth c)
  prevSec := Function.update r.prevSec i tick.prevS
  curSec := Function.update r.curSec i tick.secret

/-- `l3_kd_spy` of `l3_kd_spy.c`. -/
def l3KdSpy (dataPoints : ℕ) (readings : ℕ → BitVec 64) (secret : ℕ → BitVec 32) (fuel : ℕ)
    (r : KernelSchedule 64) : Run (KernelSchedule 64) :=
  tickLoop KernelSchedule.write tsThreshold dataPoints readings secret fuel r

/-- `l3_kd_spy` of `l3_kd_spy_arm.c`: the variables have 32 bits, whatever the width of `ccnt_t`. -/
def l3KdSpyArm {c : ℕ} (dataPoints : ℕ) (readings : ℕ → BitVec 32) (secret : ℕ → BitVec 32) (fuel : ℕ)
    (r : KernelSchedule c) : Run (KernelSchedule c) :=
  tickLoop KernelSchedule.write tsThreshold dataPoints readings secret fuel r

/-- `struct bench_timer_online`. -/
structure TimerOnline (c : ℕ) where
  prevs : ℕ → BitVec c
  starts : ℕ → BitVec c
  sec : ℕ → BitVec 32

/-- The assignments to `r_addr` in `timer_low`. -/
def TimerOnline.write {c : ℕ} (r : TimerOnline c) (i : ℕ) (tick : Tick c) : TimerOnline c where
  prevs := Function.update r.prevs i tick.prev
  starts := Function.update r.starts i tick.start
  sec := Function.update r.sec i tick.prevS

/-- `timer_low`. -/
def timerLow {c : ℕ} (dataPoints : ℕ) (readings : ℕ → BitVec c) (secret : ℕ → BitVec 32) (fuel : ℕ)
    (r : TimerOnline c) : Run (TimerOnline c) :=
  tickLoop TimerOnline.write timerDetectIntervalNs dataPoints readings secret fuel r

/-! ### The times that the manager prints -/

/-- The online times that `run_single_llc_kernel_schedule` prints, with their secrets. -/
def KernelSchedule.onlineTimes {c : ℕ} (r : KernelSchedule c) (warmups dataPoints : ℕ) :
    List (BitVec 32 × BitVec c) :=
  (List.range' warmups (dataPoints - warmups)).map fun i => (r.prevSec i, r.prevs i - r.starts i)

/-- The offline times that `run_single_llc_kernel_schedule` prints, with their secrets. -/
def KernelSchedule.offlineTimes {c : ℕ} (r : KernelSchedule c) (warmups dataPoints : ℕ) :
    List (BitVec 32 × BitVec c) :=
  (List.range' warmups (dataPoints - warmups)).map fun i => (r.curSec i, r.curs i - r.prevs i)

/-- The times that `run_single_timer` prints, with their secrets. -/
def TimerOnline.onlineTimes {c : ℕ} (r : TimerOnline c) (warmups dataPoints : ℕ) :
    List (BitVec 32 × BitVec c) :=
  (List.range' warmups (dataPoints - warmups)).map fun i => (r.sec i, r.prevs i - r.starts i)

/-! ### What the loop records -/

/-- The counter jumps between the readings `k` and `k + 1`. -/
def IsTick {w : ℕ} (threshold : ℕ) (readings : ℕ → BitVec w) (k : ℕ) : Prop :=
  threshold ≤ (readings (k + 1) - readings k).toNat

instance {w : ℕ} (threshold : ℕ) (readings : ℕ → BitVec w) : DecidablePred (IsTick threshold readings) :=
  fun k => inferInstanceAs (Decidable (threshold ≤ (readings (k + 1) - readings k).toNat))

/-- The jumps before reading `m`. -/
def ticks {w : ℕ} (threshold : ℕ) (readings : ℕ → BitVec w) (m : ℕ) : List ℕ :=
  cuts (IsTick threshold readings) m

theorem isTick_ticks {w threshold m i : ℕ} {readings : ℕ → BitVec w}
    (hi : i < (ticks threshold readings m).length) :
    IsTick threshold readings ((ticks threshold readings m).getD i 0) := by
  rw [List.getD_eq_getElem _ _ hi]
  exact (mem_cuts.mp (List.getElem_mem hi)).2

/-- The record of jump `i`. It covers the time from the reading after the jump before it (or from the
first reading), with the secret that was read then. -/
def tickAt {w : ℕ} (readings : ℕ → BitVec w) (secret : ℕ → BitVec 32) (ticks : List ℕ) (i : ℕ) :
    Tick w where
  start := readings (opens ticks i)
  prev := readings (ticks.getD i 0)
  cur := readings (ticks.getD i 0 + 1)
  prevS := secret (opens ticks i)
  secret := secret (ticks.getD i 0 + 1)

theorem tickAt_append {w : ℕ} (readings : ℕ → BitVec w) (secret : ℕ → BitVec 32) {ticks : List ℕ}
    {i : ℕ} (hi : i < ticks.length) (k : ℕ) :
    tickAt readings secret (ticks ++ [k]) i = tickAt readings secret ticks i := by
  unfold tickAt
  rw [opens_append (Nat.le_of_lt hi), List.getD_append _ _ _ _ hi]

section Records

variable {R V : Type} {w : ℕ} {write : R → ℕ → Tick w → R} {get : R → ℕ → V} {view : Tick w → V}
  {threshold n : ℕ} {readings : ℕ → BitVec w} {secret : ℕ → BitVec 32}

/-- The loop has recorded the jumps so far, and its variables are those of the open record. -/
structure TicksRecorded (get : R → ℕ → V) (view : Tick w → V) (threshold n : ℕ)
    (readings : ℕ → BitVec w) (secret : ℕ → BitVec 32) (st : TickState R w) : Prop where
  i_eq : st.i = (ticks threshold readings st.k).length
  i_le : st.i ≤ n
  prev_eq : st.prev = readings st.k
  start_eq : st.start = readings (opens (ticks threshold readings st.k) st.i)
  prevS_eq : st.prevS = secret (opens (ticks threshold readings st.k) st.i)
  records : ∀ i, i < st.i →
    get st.record i = view (tickAt readings secret (ticks threshold readings st.k) i)

/-- A round takes one more reading into account. -/
theorem tickRound_returns (hwrite : ∀ r i tick j,
      get (write r i tick) j = if j = i then view tick else get r j) {st : TickState R w}
    (h : TicksRecorded get view threshold n readings secret st) :
    Returns (tickRound write threshold n readings secret st) (Sum.elim
      (fun st' => TicksRecorded get view threshold n readings secret st' ∧ st.i < n ∧
        st'.k = st.k + 1)
      fun r => n ≤ st.i ∧ r = st.record) := by
  unfold tickRound
  by_cases hi : st.i < n
  · rw [if_pos hi]
    dsimp only
    by_cases htick : IsTick threshold readings st.k
    · have hjump : threshold ≤ (readings (st.k + 1) - st.prev).toNat := by
        rw [h.prev_eq]
        exact htick
      have hticks : ticks threshold readings (st.k + 1) = ticks threshold readings st.k ++ [st.k] :=
        cuts_succ_of_pos htick
      have hopens : opens (ticks threshold readings (st.k + 1)) (st.i + 1) = st.k + 1 := by
        rw [hticks, h.i_eq, opens_append_length]
      rw [if_pos hjump]
      apply returns_pure.mpr
      refine ⟨⟨?_, hi, rfl, ?_, ?_, ?_⟩, hi, rfl⟩
      · rw [hticks, List.length_append, ← h.i_eq]
        rfl
      · rw [hopens]
      · rw [hopens]
      · intro i hlt
        dsimp only at hlt ⊢
        rw [hwrite, hticks]
        rcases Nat.lt_succ_iff_lt_or_eq.mp hlt with hlt | rfl
        · rw [if_neg (Nat.ne_of_lt hlt), h.records i hlt, tickAt_append]
          rw [← h.i_eq]
          exact hlt
        · rw [if_pos rfl, tickAt, opens_append (Nat.le_of_eq h.i_eq),
            List.getD_append_right _ _ _ _ (Nat.le_of_eq h.i_eq.symm), ← h.i_eq, Nat.sub_self,
            ← h.start_eq, ← h.prevS_eq, h.prev_eq]
          rfl
    · have hjump : ¬threshold ≤ (readings (st.k + 1) - st.prev).toNat := by
        rw [h.prev_eq]
        exact htick
      have hticks : ticks threshold readings (st.k + 1) = ticks threshold readings st.k :=
        cuts_succ_of_neg htick
      rw [if_neg hjump]
      apply returns_pure.mpr
      refine ⟨⟨?_, h.i_le, rfl, ?_, ?_, ?_⟩, hi, rfl⟩
      · rw [hticks]
        exact h.i_eq
      · rw [hticks]
        exact h.start_eq
      · rw [hticks]
        exact h.prevS_eq
      · rw [hticks]
        exact h.records
  · rw [if_neg hi]
    exact returns_pure.mpr ⟨Nat.le_of_not_lt hi, rfl⟩

/-- If the counter jumps often enough, the loop ends and has recorded the first jumps. -/
theorem tickLoop_returns (hwrite : ∀ r i tick j,
      get (write r i tick) j = if j = i then view tick else get r j) {m fuel : ℕ}
    (hticks : n ≤ (ticks threshold readings m).length) (hfuel : m < fuel) (record : R) :
    Returns (tickLoop write threshold n readings secret fuel record) fun r =>
      ∃ m, (ticks threshold readings m).length = n ∧
        ∀ i, i < n → get r i = view (tickAt readings secret (ticks threshold readings m) i) := by
  apply loop_returns (TicksRecorded get view threshold n readings secret) _ fun st => m - st.k
  · intro st hst
    apply (tickRound_returns hwrite hst).mono
    intro out hout
    cases out with
    | inl st' =>
        obtain ⟨hst', hi, hk⟩ := hout
        have hmore : st.k < m := by
          by_contra hnot
          have hle := length_cuts_le_of_le (p := IsTick threshold readings) (Nat.le_of_not_lt hnot)
          rw [hst.i_eq] at hi
          exact absurd (Nat.lt_of_lt_of_le hi hticks) (Nat.not_lt.mpr hle)
        refine ⟨hst', ?_⟩
        show m - st'.k < m - st.k
        omega
    | inr r =>
        obtain ⟨hn, rfl⟩ := hout
        have hi : st.i = n := Nat.le_antisymm hst.i_le hn
        exact ⟨st.k, hst.i_eq.symm.trans hi, fun i hlt => hst.records i (hi.symm ▸ hlt)⟩
  · exact ⟨rfl, Nat.zero_le _, rfl, rfl, rfl, fun i hi => absurd hi (Nat.not_lt_zero i)⟩
  · exact hfuel

end Records

end ChannelBench
