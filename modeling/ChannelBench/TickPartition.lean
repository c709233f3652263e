import ChannelBench.TickRecorders

/-! The records partition the time. The online time of a record starts where the offline time of the
record before it ended, so the printed times add up to the time from the start of the first record to the
end of the last one. -/

namespace ChannelBench

open CSem

section Schedule

variable {c w : ℕ}

/-- The law of the records of `l3_kd_spy`. The jumps of the counter are recorded, each once and in
order; a record starts where the one before it ended, with the secret read there. -/
structure SchedulePartition (threshold n : ℕ) (readings : ℕ → BitVec w) (secret : ℕ → BitVec 32)
    (r : KernelSchedule c) : Prop where
  recorded : ∃ m, (ticks threshold readings m).length = n ∧ ∀ i, i < n →
    IsTick threshold readings ((ticks threshold readings m).getD i 0) ∧
      r.prevs i = (readings ((ticks threshold readings m).getD i 0)).setWidth c ∧
      r.curs i = (readings ((ticks threshold readings m).getD i 0 + 1)).setWidth c ∧
      r.curSec i = secret ((ticks threshold readings m).getD i 0 + 1)
  starts_zero : 0 < n → r.starts 0 = (readings 0).setWidth c
  starts_succ : ∀ i, i + 1 < n → r.starts (i + 1) = r.curs i
  prevSec_zero : 0 < n → r.prevSec 0 = secret 0
  prevSec_succ : ∀ i, i + 1 < n → r.prevSec (i + 1) = r.curSec i
  times : ∀ first, first < n → ((r.onlineTimes first n).map Prod.snd).sum +
    ((r.offlineTimes first n).map Prod.snd).sum = r.curs (n - 1) - r.starts first

/-- The fields of a record. -/
def KernelSchedule.get (r : KernelSchedule c) (i : ℕ) :
    BitVec c × BitVec c × BitVec c × BitVec 32 × BitVec 32 :=
  (r.prevs i, r.starts i, r.curs i, r.prevSec i, r.curSec i)

/-- The fields of a record, from the values put into it. -/
def Tick.schedule (tick : Tick w) (c : ℕ) : BitVec c × BitVec c × BitVec c × BitVec 32 × BitVec 32 :=
  (tick.prev.setWidth c, tick.start.setWidth c, tick.cur.setWidth c, tick.prevS, tick.secret)

theorem KernelSchedule.get_write (r : KernelSchedule c) (i : ℕ) (tick : Tick w) (j : ℕ) :
    (r.write i tick).get j = if j = i then tick.schedule c else r.get j := by
  by_cases hj : j = i
  · subst hj
    simp [get, write, Tick.schedule]
  · simp [get, write, hj]

/-- If every record starts where the one before it ended, the printed times add up. -/
theorem KernelSchedule.sum_times (r : KernelSchedule c) {n : ℕ}
    (h : ∀ i, i + 1 < n → r.starts (i + 1) = r.curs i) {first : ℕ} (hfirst : first < n) :
    ((r.onlineTimes first n).map Prod.snd).sum + ((r.offlineTimes first n).map Prod.snd).sum =
      r.curs (n - 1) - r.starts first := by
  obtain ⟨k, rfl⟩ := Nat.exists_eq_add_of_lt hfirst
  have hsum := sum_stretches r.starts r.prevs r.curs first k fun i _ hi => h i (by omega)
  unfold onlineTimes offlineTimes
  rw [List.map_map, List.map_map, show first + k + 1 - first = k + 1 by omega, Nat.add_sub_cancel]
  exact hsum

/-- The law holds of what the loop leaves in the arrays. -/
theorem schedulePartition_of_records {threshold n : ℕ} {readings : ℕ → BitVec w}
    {secret : ℕ → BitVec 32} {r : KernelSchedule c} {m : ℕ}
    (hlength : (ticks threshold readings m).length = n)
    (hrecords : ∀ i, i < n →
      r.get i = (tickAt readings secret (ticks threshold readings m) i).schedule c) :
    SchedulePartition threshold n readings secret r := by
  have hprev : ∀ i, i < n → r.prevs i = _ := fun i hi => congrArg (·.1) (hrecords i hi)
  have hstart : ∀ i, i < n → r.starts i = _ := fun i hi => congrArg (·.2.1) (hrecords i hi)
  have hcur : ∀ i, i < n → r.curs i = _ := fun i hi => congrArg (·.2.2.1) (hrecords i hi)
  have hprevS : ∀ i, i < n → r.prevSec i = _ := fun i hi => congrArg (·.2.2.2.1) (hrecords i hi)
  have hsecret : ∀ i, i < n → r.curSec i = _ := fun i hi => congrArg (·.2.2.2.2) (hrecords i hi)
  have hsucc : ∀ i, i + 1 < n → r.starts (i + 1) = r.curs i := by
    intro i hi
    rw [hstart (i + 1) hi, hcur i (Nat.lt_of_succ_lt hi)]
    rfl
  constructor
  · exact ⟨m, hlength, fun i hi =>
      ⟨isTick_ticks (hlength.symm ▸ hi), hprev i hi, hcur i hi, hsecret i hi⟩⟩
  · exact fun h => hstart 0 h
  · exact hsucc
  · exact fun h => hprevS 0 h
  · intro i hi
    rw [hprevS (i + 1) hi, hsecret i (Nat.lt_of_succ_lt hi)]
    rfl
  · exact fun first hfirst => r.sum_times hsucc hfirst

end Schedule

section Timer

variable {c : ℕ}

/-- The law of the records of `timer_low`, which leaves out the end of a record and the secret read
there. -/
structure OnlinePartition (threshold n : ℕ) (readings : ℕ → BitVec c) (secret : ℕ → BitVec 32)
    (r : TimerOnline c) (closed : ℕ → ℕ) : Prop where
  closed_eq : ∃ m, (ticks threshold readings m).length = n ∧
    ∀ i, i < n → closed i = (ticks threshold readings m).getD i 0 + 1
  jump : ∀ i, i < n → threshold ≤ (readings (closed i) - readings (closed i - 1)).toNat
  prevs_eq : ∀ i, i < n → r.prevs i = readings (closed i - 1)
  starts_zero : 0 < n → r.starts 0 = readings 0
  starts_succ : ∀ i, i + 1 < n → r.starts (i + 1) = readings (closed i)
  sec_zero : 0 < n → r.sec 0 = secret 0
  sec_succ : ∀ i, i + 1 < n → r.sec (i + 1) = secret (closed i)
  times : ∀ first, first < n → ((r.onlineTimes first n).map Prod.snd).sum +
    ((List.range' first (n - first)).map fun i => readings (closed i) - r.prevs i).sum =
      readings (closed (n - 1)) - r.starts first

/-- The fields of a record. -/
def TimerOnline.get (r : TimerOnline c) (i : ℕ) : BitVec c × BitVec c × BitVec 32 :=
  (r.prevs i, r.starts i, r.sec i)

/-- The fields of a record, from the values put into it. -/
def Tick.online (tick : Tick c) : BitVec c × BitVec c × BitVec 32 := (tick.prev, tick.start, tick.prevS)

theorem TimerOnline.get_write (r : TimerOnline c) (i : ℕ) (tick : Tick c) (j : ℕ) :
    (r.write i tick).get j = if j = i then tick.online else r.get j := by
  by_cases hj : j = i
  · subst hj
    simp [get, write, Tick.online]
  · simp [get, write, hj]

/-- The law holds of what the loop leaves in the arrays. -/
theorem onlinePartition_of_records {threshold n : ℕ} {readings : ℕ → BitVec c}
    {secret : ℕ → BitVec 32} {r : TimerOnline c} {m : ℕ}
    (hlength : (ticks threshold readings m).length = n)
    (hrecords : ∀ i, i < n → r.get i = (tickAt readings secret (ticks threshold readings m) i).online) :
    OnlinePartition threshold n readings secret r
      fun i => (ticks threshold readings m).getD i 0 + 1 := by
  have hprev : ∀ i, i < n → r.prevs i = _ := fun i hi => congrArg (·.1) (hrecords i hi)
  have hstart : ∀ i, i < n → r.starts i = _ := fun i hi => congrArg (·.2.1) (hrecords i hi)
  have hsec : ∀ i, i < n → r.sec i = _ := fun i hi => congrArg (·.2.2) (hrecords i hi)
  have hsucc : ∀ i, i + 1 < n →
      r.starts (i + 1) = readings ((ticks threshold readings m).getD i 0 + 1) := fun i hi => hstart (i + 1) hi
  constructor
  · exact ⟨m, hlength, fun _ _ => rfl⟩
  · exact fun i hi => isTick_ticks (hlength.symm ▸ hi)
  · exact hprev
  · exact fun h => hstart 0 h
  · exact hsucc
  · exact fun h => hsec 0 h
  · exact fun i hi => hsec (i + 1) hi
  · intro first hfirst
    obtain ⟨k, rfl⟩ := Nat.exists_eq_add_of_lt hfirst
    have hsum := sum_stretches r.starts r.prevs
      (fun i => readings ((ticks threshold readings m).getD i 0 + 1)) first k
      fun i _ hi => hsucc i (by omega)
    unfold TimerOnline.onlineTimes
    rw [List.map_map, show first + k + 1 - first = k + 1 by omega, Nat.add_sub_cancel]
    exact hsum

end Timer

/-- **The recorders partition the time.** Whenever the counter jumps at least `n` times, the loops end,
and their `n` records are the first `n` jumps: a record starts at the reading that closed the record
before it, with the secret that was read there, and the printed times add up to the whole time, in the
arithmetic of `ccnt_t`. -/
theorem tickRecorders_partition (n m fuel : ℕ) (hfuel : m < fuel) (secret : ℕ → BitVec 32) :
    (∀ (readings : ℕ → BitVec 64) (r : KernelSchedule 64),
      n ≤ (ticks tsThreshold readings m).length →
        Returns (l3KdSpy n readings secret fuel r) (SchedulePartition tsThreshold n readings secret)) ∧
    (∀ (c : ℕ) (readings : ℕ → BitVec 32) (r : KernelSchedule c),
      n ≤ (ticks tsThreshold readings m).length →
        Returns (l3KdSpyArm n readings secret fuel r) (SchedulePartition tsThreshold n readings secret)) ∧
    (∀ (c : ℕ) (readings : ℕ → BitVec c) (r : TimerOnline c),
      n ≤ (ticks timerDetectIntervalNs readings m).length →
        Returns (timerLow n readings secret fuel r) fun r =>
          ∃ closed, OnlinePartition timerDetectIntervalNs n readings secret r closed) := by
  refine ⟨?_, ?_, ?_⟩
  · intro readings r hticks
    apply (tickLoop_returns KernelSchedule.get_write hticks hfuel r).mono
    intro r' hr'
    obtain ⟨m', hlength, hrecords⟩ := hr'
    exact schedulePartition_of_records hlength hrecords
  · intro c readings r hticks
    apply (tickLoop_returns KernelSchedule.get_write hticks hfuel r).mono
    intro r' hr'
    obtain ⟨m', hlength, hrecords⟩ := hr'
    exact schedulePartition_of_records hlength hrecords
  · intro c readings r hticks
    apply (tickLoop_returns TimerOnline.get_write hticks hfuel r).mono
    intro r' hr'
    obtain ⟨m', hlength, hrecords⟩ := hr'
    exact ⟨_, onlinePartition_of_records hlength hrecords⟩

theorem tickRecorders_partition_three :
    Returns (l3KdSpy 3 (fun k => BitVec.ofNat 64 (200000 * k)) (BitVec.ofNat 32) 7
        ⟨fun _ => 0, fun _ => 0, fun _ => 0, fun _ => 0, fun _ => 0⟩) (fun r =>
      r.starts 2 = r.curs 1) ∧
    Returns (l3KdSpyArm 3 (fun k => BitVec.ofNat 32 (2000000000 * k)) (BitVec.ofNat 32) 7
        (⟨fun _ => 0, fun _ => 0, fun _ => 0, fun _ => 0, fun _ => 0⟩ : KernelSchedule 64)) (fun r =>
      r.prevSec 2 = r.curSec 1) ∧
    Returns (timerLow 3 (fun k => BitVec.ofNat 64 (1000 * k * k)) (BitVec.ofNat 32) 7
        ⟨fun _ => 0, fun _ => 0, fun _ => 0⟩) (fun r => r.starts 0 = 0) := by
  obtain ⟨hx86, harm, htimer⟩ := tickRecorders_partition 3 6 7 (by decide) (BitVec.ofNat 32)
  refine ⟨?_, ?_, ?_⟩
  · exact (hx86 _ _ (by decide +kernel)).mono fun r hr => hr.starts_succ 1 (by decide)
  · exact (harm 64 _ _ (by decide +kernel)).mono fun r hr => hr.prevSec_succ 1 (by decide)
  · apply (htimer 64 _ _ (by decide +kernel)).mono
    intro r hr
    obtain ⟨closed, hclosed⟩ := hr
    exact hclosed.starts_zero (by decide)

end ChannelBench
