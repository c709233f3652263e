import ChannelBench.FlushState

/-! What the flush benchmarks record. The calibration stops at the first of its batches whose differences are all
the same, or after the last one, and the overhead is the least difference of that batch. A recorded cost is the
time of a run without the overhead, so it wraps below zero exactly when the run is shorter than all of them. -/

namespace ChannelBench

open CSem

variable {w : ℕ}

/-! ### The checks of a batch -/

/-- All entries are the same. -/
def Steady (array : List (BitVec w)) : Prop := ∀ x ∈ array, ∀ y ∈ array, x = y

instance (array : List (BitVec w)) : Decidable (Steady array) :=
  inferInstanceAs (Decidable (∀ x ∈ array, ∀ y ∈ array, x = y))

section Batch

variable {array : List (BitVec w)} (hlength : array.length = benchOverheadRuns)

include hlength

theorem overheadStable_returns : Returns (overheadStable array) fun stable => stable = true ↔ Steady array := by
  have hpos : 0 < array.length := by
    rw [hlength]
    decide
  apply loop_returns
    (fun i => 0 < i ∧ i ≤ benchOverheadRuns ∧ ∀ k (hk : k < array.length), k < i → array[k] = array[0])
    _ (fun i => benchOverheadRuns - i)
  · intro i hi
    obtain ⟨hi, hle, hsame⟩ := hi
    by_cases hlt : i < benchOverheadRuns
    · have hhere : i < array.length := by omega
      have hbefore : i - 1 < array.length := by omega
      have hfirst := hsame (i - 1) hbefore (by omega)
      rw [if_pos hlt, readAt_eq hhere, ok_bind, readAt_eq hbefore, ok_bind]
      by_cases hne : array[i] ≠ array[i - 1]
      · rw [if_pos hne, returns_pure]
        show false = true ↔ _
        have hunsteady : ¬Steady array := fun hsteady =>
          hne (hsteady _ (List.getElem_mem hhere) _ (List.getElem_mem hbefore))
        simp [hunsteady]
      · rw [if_neg hne]
        refine returns_pure.mpr ⟨⟨by omega, hlt, ?_⟩, by omega⟩
        intro k hk hki
        rcases Nat.lt_succ_iff_lt_or_eq.mp hki with hki | rfl
        · exact hsame k hk hki
        · rw [not_not.mp hne, hfirst]
    · rw [if_neg hlt, returns_pure]
      have hsteady : Steady array := by
        intro x hx y hy
        obtain ⟨k, hk, rfl⟩ := List.getElem_of_mem hx
        obtain ⟨k', hk', rfl⟩ := List.getElem_of_mem hy
        rw [hsame k hk (by omega), hsame k' hk' (by omega)]
      simp [hsteady]
  · refine ⟨Nat.one_pos, by decide, ?_⟩
    intro k hk hk1
    have hzero : k = 0 := by omega
    subst hzero
    rfl
  · decide

theorem findMinOverhead_returns : Returns (findMinOverhead array) fun min => IsLeast { x | x ∈ array } min := by
  have hpos : 0 < array.length := by
    rw [hlength]
    decide
  rw [findMinOverhead, readAt_eq hpos, ok_bind]
  have hloop : Returns (forUpto (fun k min => do
      let x ← readAt array (k + 1)
      if x < min then
        return x
      else
        return min) (benchOverheadRuns - 1) array[0]) fun min =>
      min ∈ array ∧ ∀ i (hi : i < array.length), i < benchOverheadRuns - 1 + 1 → min ≤ array[i] := by
    apply forUpto_returns fun k min =>
      min ∈ array ∧ ∀ i (hi : i < array.length), i < k + 1 → min ≤ array[i]
    · refine ⟨List.getElem_mem hpos, ?_⟩
      intro i hi hi1
      have hzero : i = 0 := by omega
      subst hzero
      exact BitVec.le_refl _
    · intro k hk min hmin
      obtain ⟨hmem, hle⟩ := hmin
      have hnext : k + 1 < array.length := by omega
      rw [readAt_eq hnext, ok_bind]
      by_cases hlt : array[k + 1] < min
      · rw [if_pos hlt, returns_pure]
        refine ⟨List.getElem_mem hnext, ?_⟩
        intro i hi hik
        rcases Nat.lt_succ_iff_lt_or_eq.mp hik with hik | rfl
        · exact BitVec.le_trans (BitVec.le_of_lt hlt) (hle i hi hik)
        · exact BitVec.le_refl _
      · rw [if_neg hlt, returns_pure]
        refine ⟨hmem, ?_⟩
        intro i hi hik
        rcases Nat.lt_succ_iff_lt_or_eq.mp hik with hik | rfl
        · exact hle i hi hik
        · exact BitVec.not_lt.mp hlt
  apply hloop.mono
  intro min hmin
  refine ⟨hmin.1, ?_⟩
  intro y hy
  obtain ⟨i, hi, rfl⟩ := List.getElem_of_mem hy
  have hlast : benchOverheadRuns - 1 + 1 = array.length := by
    rw [hlength]
    rfl
  exact hmin.2 i hi (by omega)

end Batch

/-! ### The calibration -/

section Calibration

variable (reading : ℕ → BitVec w)

/-- The difference of the two readings from reading `n` on. -/
def difference (n : ℕ) : BitVec w := reading (n + 1) - reading n

/-- The differences that batch `b` keeps: the last one of each group of warm-ups. -/
def batch (b : ℕ) : List (BitVec w) :=
  (List.range benchOverheadRuns).map fun j => difference reading (200 * b + 20 * j + 18)

@[simp] theorem length_batch (b : ℕ) : (batch reading b).length = benchOverheadRuns := by
  rw [batch, List.length_map, List.length_range]

/-- The warm-ups for one entry keep the last difference. -/
theorem warmups_return {array : List (BitVec w)} {j : ℕ} (hj : j < array.length) (n : ℕ) :
    Returns (forUpto (fun _ (st : List (BitVec w) × ℕ) => do
        let start := reading st.2
        let stop := reading (st.2 + 1)
        let localOverhead ← writeAt st.1 j (stop - start)
        return (localOverhead, st.2 + 2))
      benchWarmups (array, n)) (· = (array.set j (difference reading (n + 18)), n + 20)) := by
  have hloop : Returns (forUpto (fun _ (st : List (BitVec w) × ℕ) => do
        let start := reading st.2
        let stop := reading (st.2 + 1)
        let localOverhead ← writeAt st.1 j (stop - start)
        return (localOverhead, st.2 + 2))
      benchWarmups (array, n)) fun st => st.2 = n + 2 * benchWarmups ∧ st.1 =
        if benchWarmups = 0 then array else array.set j (difference reading (n + 2 * benchWarmups - 2)) := by
    apply forUpto_returns (fun k (st : List (BitVec w) × ℕ) => st.2 = n + 2 * k ∧
      st.1 = if k = 0 then array else array.set j (difference reading (n + 2 * k - 2))) ⟨rfl, rfl⟩
    intro k _ st hst
    obtain ⟨array', n'⟩ := st
    obtain ⟨hn, harray⟩ := hst
    dsimp only at hn harray ⊢
    have hlength : array'.length = array.length := by
      rw [harray]
      split_ifs
      · rfl
      · rw [List.length_set]
    have hset : ∀ x, array'.set j x = array.set j x := by
      intro x
      rw [harray]
      split_ifs
      · rfl
      · rw [List.set_set]
    rw [writeAt_eq _ (by omega), ok_bind, returns_pure]
    dsimp only
    rw [hset, hn, if_neg (Nat.succ_ne_zero k), show n + 2 * (k + 1) - 2 = n + 2 * k by omega]
    exact ⟨by omega, rfl⟩
  exact hloop.mono fun st hst => Prod.ext hst.2 hst.1

theorem overheadBatch_returns {array : List (BitVec w)} (hlength : array.length = benchOverheadRuns) (b : ℕ) :
    Returns (overheadBatch reading array (200 * b)) (· = (batch reading b, 200 * (b + 1))) := by
  have hloop : Returns (overheadBatch reading array (200 * b)) fun st =>
      st.1 = (List.range benchOverheadRuns).map (fun j => difference reading (200 * b + 20 * j + 18)) ++
        array.drop benchOverheadRuns ∧ st.2 = 200 * b + 20 * benchOverheadRuns := by
    apply forUpto_returns (fun j (st : List (BitVec w) × ℕ) =>
      st.1 = (List.range j).map (fun j => difference reading (200 * b + 20 * j + 18)) ++ array.drop j ∧
        st.2 = 200 * b + 20 * j) ⟨rfl, rfl⟩
    intro j hj st hst
    obtain ⟨array', n⟩ := st
    obtain ⟨harray, hn⟩ := hst
    dsimp only at harray hn
    subst harray hn
    apply (warmups_return reading (by rw [length_filled] <;> omega) _).mono
    rintro _ rfl
    exact ⟨set_filled (fun j => difference reading (200 * b + 20 * j + 18)) (by omega), by omega⟩
  apply hloop.mono
  intro st hst
  rw [List.drop_of_length_le hlength.le, List.append_nil] at hst
  exact Prod.ext hst.1 (by rw [hst.2, benchOverheadRuns]; omega)

/-- The batch at which the calibration stops. -/
def stopBatch : ℕ := ((List.range 3).find? fun b => Steady (batch reading b)).getD 3

theorem stopBatch_eq {b : ℕ} (hb : b ≤ 3) (hbefore : ∀ b', b' < b → ¬Steady (batch reading b'))
    (hstop : Steady (batch reading b) ∨ b = 3) : stopBatch reading = b := by
  rcases Nat.lt_or_eq_of_le hb with hlt | rfl
  · have hsteady : Steady (batch reading b) := by
      rcases hstop with h | h
      · exact h
      · omega
    have hfind : ((List.range 3).find? fun b => Steady (batch reading b)) = some b := by
      rw [List.find?_range_eq_some]
      exact ⟨decide_eq_true hsteady, List.mem_range.mpr hlt, fun j hj => by simp [hbefore j hj]⟩
    rw [stopBatch, hfind]
    rfl
  · have hfind : ((List.range 3).find? fun b => Steady (batch reading b)) = none := by
      rw [List.find?_eq_none]
      intro b hb
      simp [hbefore b (List.mem_range.mp hb)]
    rw [stopBatch, hfind]
    rfl

/-- The differences of the batch at which the calibration stops. -/
def calibration : List (BitVec w) := batch reading (stopBatch reading)

/-- The overhead is the least difference that the calibration stops with. -/
theorem measureOverhead_returns {array : List (BitVec w)} (hlength : array.length = benchOverheadRuns) :
    Returns (measureOverhead reading array 0) fun r =>
      IsLeast { x | x ∈ calibration reading } r.2.1 ∧ r.2.2 = 200 * (stopBatch reading + 1) := by
  apply loop_returns (fun st : ℕ × List (BitVec w) × ℕ => st.1 ≤ benchOverheadRetries ∧ st.2.2 = 200 * st.1 ∧
      st.2.1.length = benchOverheadRuns ∧ (∀ b, b < st.1 → ¬Steady (batch reading b)) ∧
      (0 < st.1 → st.2.1 = batch reading (st.1 - 1)))
    _ (fun st => benchOverheadRetries - st.1)
  · intro st hst
    obtain ⟨b, array, n⟩ := st
    obtain ⟨hle, hn, hlength, hbefore, hlast⟩ := hst
    dsimp only at hle hn hlength hbefore hlast ⊢
    subst hn
    by_cases hlt : b < benchOverheadRetries
    · have hb : b ≤ 3 := Nat.le_of_lt_succ hlt
      rw [if_pos hlt]
      apply (overheadBatch_returns reading hlength b).bind
      rintro _ rfl
      apply (overheadStable_returns (length_batch reading b)).bind
      intro stable hstable
      have hpos : 0 < (batch reading b).length := by
        rw [length_batch]
        decide
      cases stable with
      | true =>
          have hsteady := hstable.mp rfl
          have hstop : stopBatch reading = b := stopBatch_eq reading hb hbefore (.inl hsteady)
          rw [if_pos rfl, readAt_eq hpos, ok_bind, returns_pure]
          show IsLeast { x | x ∈ calibration reading } _ ∧ _
          rw [calibration, hstop]
          refine ⟨⟨List.getElem_mem hpos, ?_⟩, rfl⟩
          intro y hy
          rw [hsteady y hy _ (List.getElem_mem hpos)]
          exact BitVec.le_refl _
      | false =>
          have hunsteady : ¬Steady (batch reading b) := fun h => Bool.false_ne_true (hstable.mpr h)
          rw [if_neg Bool.false_ne_true]
          refine returns_pure.mpr ⟨⟨hlt, rfl, length_batch reading b, ?_, fun _ => rfl⟩, by dsimp only; omega⟩
          intro b' hb'
          rcases Nat.lt_succ_iff_lt_or_eq.mp hb' with hb' | rfl
          · exact hbefore b' hb'
          · exact hunsteady
    · have hfour : b = 4 := Nat.le_antisymm hle (Nat.not_lt.mp hlt)
      subst hfour
      have harray : array = batch reading 3 := hlast (by decide)
      have hstop : stopBatch reading = 3 :=
        stopBatch_eq reading (le_refl _) (fun b hb => hbefore b (by omega)) (.inr rfl)
      rw [if_neg hlt]
      apply (findMinOverhead_returns hlength).bind
      intro min hmin
      rw [returns_pure]
      show IsLeast { x | x ∈ calibration reading } _ ∧ _
      rw [calibration, hstop, ← harray]
      exact ⟨hmin, rfl⟩
  · exact ⟨Nat.zero_le _, rfl, hlength, fun b hb => absurd hb (Nat.not_lt_zero b), fun h => absurd h (lt_irrefl 0)⟩
  · exact Nat.lt_succ_of_le (Nat.sub_le _ _)

end Calibration

/-! ### The runs -/

section Runs

variable (reading : ℕ → BitVec w)

/-- The time of a run: its end reading without its start reading. -/
def elapsed (i : ℕ) : BitVec w := difference reading (200 * (stopBatch reading + 1) + 2 * i)

/-- A benchmark records the times of its runs without the overhead. -/
theorem cacheFlushBenchmark_returns (tagged yields : Bool) {work : Run Unit}
    (hwork : Returns work fun _ => True)
    (leftovers : (Fin benchOverheadRuns → BitVec w) × (Fin benchCacheFlushRuns → BitVec w)) :
    Returns (cacheFlushBenchmark reading tagged yields work leftovers) fun s =>
      IsLeast { x | x ∈ calibration reading } s.record.overhead ∧
        s.record.costs = (List.range benchCacheFlushRuns).map fun i => elapsed reading i - s.record.overhead := by
  obtain ⟨⟨⟩, rfl, -⟩ := hwork
  apply (measureOverhead_returns reading List.length_ofFn).bind
  intro r hr
  obtain ⟨stable, overhead, taken⟩ := r
  obtain ⟨hleast, htaken⟩ := hr
  dsimp only at hleast htaken ⊢
  subst htaken
  have hlength : (List.ofFn leftovers.2).length = benchCacheFlushRuns := List.length_ofFn
  refine Returns.bind (P := fun s : FlushState w => s.record.overhead = overhead ∧
    s.record.costs = (List.range benchCacheFlushRuns).map fun i => elapsed reading i - overhead) ?_ ?_
  · have hloop : Returns (forUpto (flushRound reading tagged yields (.ok ()) overhead) benchCacheFlushRuns {
        taken := 200 * (stopBatch reading + 1)
        record := { overhead, costs := List.ofFn leftovers.2 }
        calls := [.setMR 0 0, .send] }) fun s =>
        s.taken = 200 * (stopBatch reading + 1) + 2 * benchCacheFlushRuns ∧ s.record.overhead = overhead ∧
          s.record.costs = (List.range benchCacheFlushRuns).map (fun i => elapsed reading i - overhead) ++
            (List.ofFn leftovers.2).drop benchCacheFlushRuns := by
      apply forUpto_returns (fun i (s : FlushState w) => s.taken = 200 * (stopBatch reading + 1) + 2 * i ∧
        s.record.overhead = overhead ∧ s.record.costs =
          (List.range i).map (fun i => elapsed reading i - overhead) ++ (List.ofFn leftovers.2).drop i)
        ⟨rfl, rfl, rfl⟩
      intro i hi s hs
      obtain ⟨htaken, hoverhead, hcosts⟩ := hs
      have hdiff : reading (s.taken + 1) - reading s.taken = elapsed reading i := by
        rw [htaken]
        rfl
      rw [flushRound]
      dsimp only
      rw [ok_bind, hdiff, hcosts, writeAt_eq _ (by rw [length_filled] <;> omega), ok_bind, returns_pure]
      refine ⟨by dsimp only; omega, hoverhead, ?_⟩
      exact set_filled (fun i => elapsed reading i - overhead) (by omega)
    apply hloop.mono
    intro s hs
    obtain ⟨-, hoverhead, hcosts⟩ := hs
    rw [List.drop_of_length_le hlength.le, List.append_nil] at hcosts
    exact ⟨hoverhead, hcosts⟩
  · intro s hs
    obtain ⟨hoverhead, hcosts⟩ := hs
    rw [returns_pure, hoverhead]
    exact ⟨hleast, hcosts⟩

theorem L1Prober.prime_returns (prober : L1Prober) : Returns prober.prime fun _ => True := by
  cases prober with
  | data s =>
      have hprime : Returns (l1Prime s) fun _ => True := by
        apply forUpto_returns (fun _ _ => True) trivial
        intro _ _ _ _
        exact returns_pure.mpr trivial
      exact hprime.bind fun _ _ => returns_pure.mpr trivial
  | instruction l1 masks s inv =>
      exact (l1iPrime_returns inv (le_refl _)).bind fun _ _ => returns_pure.mpr trivial

theorem LlcBuffer.access_returns (b : LlcBuffer) : Returns b.access fun _ => True := by
  have haccess : Returns (accessLlcBuffer b.l3Size b.l1Cacheline b.buf) fun _ => True := by
    apply forUpto_returns (fun _ _ => True) trivial
    intro _ _ _ _
    exact returns_pure.mpr trivial
  exact haccess.bind fun _ _ => returns_pure.mpr trivial

theorem FlushBench.run_returns (bench : FlushBench)
    (leftovers : (Fin benchOverheadRuns → BitVec w) × (Fin benchCacheFlushRuns → BitVec w)) :
    Returns (bench.run reading leftovers) fun s =>
      IsLeast { x | x ∈ calibration reading } s.record.overhead ∧
        s.record.costs = (List.range benchCacheFlushRuns).map fun i => elapsed reading i - s.record.overhead := by
  cases bench with
  | llcCacheFlush b => exact cacheFlushBenchmark_returns reading _ _ b.access_returns leftovers
  | llcCacheFlushOnly b => exact cacheFlushBenchmark_returns reading _ _ b.access_returns leftovers
  | l1CacheNothing => exact cacheFlushBenchmark_returns reading _ _ (returns_pure.mpr trivial) leftovers
  | l1CacheFlushOnly prober => exact cacheFlushBenchmark_returns reading _ _ prober.prime_returns leftovers
  | l1CacheFlush prober => exact cacheFlushBenchmark_returns reading _ _ prober.prime_returns leftovers

end Runs

/-- A difference does not wrap exactly when the subtrahend is not larger. -/
theorem sub_le_self_iff (a b : BitVec w) : a - b ≤ a ↔ b ≤ a := by
  have ha := a.isLt
  have hb := b.isLt
  rw [BitVec.le_def, BitVec.le_def, BitVec.toNat_sub]
  constructor
  · intro h
    by_contra hlt
    rw [Nat.mod_eq_of_lt (by omega)] at h
    omega
  · intro h
    rw [show 2 ^ w - b.toNat + a.toNat = a.toNat - b.toNat + 2 ^ w by omega, Nat.add_mod_right,
      Nat.mod_eq_of_lt (by omega)]
    omega

/-- **When the recorded costs do not wrap.** In every benchmark no cost is larger than the time of its run
exactly when no run is shorter than every difference that the calibration stopped with. -/
theorem flushCosts_le_iff (reading : ℕ → BitVec w) (bench : FlushBench)
    (leftovers : (Fin benchOverheadRuns → BitVec w) × (Fin benchCacheFlushRuns → BitVec w)) :
    Returns (bench.run reading leftovers) fun s =>
      (∀ i, i < benchCacheFlushRuns → ∃ cost, s.record.costs[i]? = some cost ∧ cost ≤ elapsed reading i) ↔
        ∀ i, i < benchCacheFlushRuns → ∃ x ∈ calibration reading, x ≤ elapsed reading i := by
  apply (bench.run_returns reading leftovers).mono
  intro s hs
  obtain ⟨hleast, hcosts⟩ := hs
  have hcost : ∀ i, i < benchCacheFlushRuns →
      s.record.costs[i]? = some (elapsed reading i - s.record.overhead) := by
    intro i hi
    rw [hcosts, List.getElem?_map, List.getElem?_range hi]
    rfl
  constructor
  · intro h i hi
    obtain ⟨cost, hget, hle⟩ := h i hi
    rw [hcost i hi] at hget
    cases hget
    exact ⟨s.record.overhead, hleast.1, (sub_le_self_iff _ _).mp hle⟩
  · intro h i hi
    obtain ⟨x, hx, hle⟩ := h i hi
    exact ⟨_, hcost i hi, (sub_le_self_iff _ _).mpr (BitVec.le_trans (hleast.2 hx) hle)⟩

/-- A counter that is read every 5 cycles during the calibration, and every cycle after it. -/
def warmingCounter (n : ℕ) : BitVec 64 := if n < 200 then BitVec.ofNat 64 (5 * n) else BitVec.ofNat 64 (1000 + n)

theorem warmingCounter_batch : batch warmingCounter 0 = List.replicate benchOverheadRuns 5#64 := by decide

/-- The calibration finds an overhead of 5 cycles, and the first run of `l1_cache_nothing` takes 1 cycle: the
recorded cost is `2 ^ 64 - 4`. -/
theorem flushCosts_wrap :
    (∀ n, n < 200 → warmingCounter (2 * n) ≤ warmingCounter (2 * n + 1)) ∧
      Returns (FlushBench.l1CacheNothing.run warmingCounter (fun _ => 0, fun _ => 0)) fun s =>
        elapsed warmingCounter 0 = 1#64 ∧ s.record.costs[0]? = some (-4#64) ∧ ¬-4#64 ≤ elapsed warmingCounter 0 := by
  have hsteady : Steady (batch warmingCounter 0) := by
    rw [warmingCounter_batch]
    intro x hx y hy
    rw [List.eq_of_mem_replicate hx, List.eq_of_mem_replicate hy]
  have hstop : stopBatch warmingCounter = 0 :=
    stopBatch_eq warmingCounter (by decide) (fun b hb => absurd hb (Nat.not_lt_zero b)) (.inl hsteady)
  have helapsed : elapsed warmingCounter 0 = 1#64 := by
    rw [elapsed, hstop]
    decide
  refine ⟨?_, ?_⟩
  · intro n hn
    rw [BitVec.le_def, warmingCounter, warmingCounter]
    split_ifs <;> rw [BitVec.toNat_ofNat, BitVec.toNat_ofNat, Nat.mod_eq_of_lt (by omega),
      Nat.mod_eq_of_lt (by omega)] <;> omega
  · apply (FlushBench.l1CacheNothing.run_returns warmingCounter (fun _ => 0, fun _ => 0)).mono
    intro s hs
    obtain ⟨hleast, hcosts⟩ := hs
    have hoverhead : s.record.overhead = 5#64 := by
      have hmem : s.record.overhead ∈ calibration warmingCounter := hleast.1
      rw [calibration, hstop, warmingCounter_batch] at hmem
      exact List.eq_of_mem_replicate hmem
    refine ⟨helapsed, ?_, ?_⟩
    · rw [hcosts, List.getElem?_map, List.getElem?_range (by decide), Option.map_some, helapsed, hoverhead]
      rfl
    · rw [helapsed]
      decide

end ChannelBench
