import ChannelBench.L1iProbes
import ChannelBench.ProberCounting

/-! What the probes store for a set. `probelist` and `l1i_probe` compare the elapsed count as a `uint32_t`
before they cut it to 16 bits. `probetime` returns it as an `int`, so `l3_probe` and `l3_bprobe` take a count
from 2^31 on for a negative one and store its low half. -/

namespace ChannelBench

open CSem

section Timing

variable {σ : Type} (env : World σ)

/-- `t > UINT16_MAX ? UINT16_MAX : t` for an `int`. -/
def clampInt (t : ℤ) : BitVec 16 :=
  if 65535 < t then 0xffff#16 else BitVec.ofInt 16 t

/-- One round of `l3_probe`, or of `l3_bprobe`, which probes backward. -/
def timeRound (kind : Probe) (s : L3pp) (i : ℕ) (st : List (BitVec 16) × Mem × σ) :
    Run (List (BitVec 16) × Mem × σ) := do
  let head ← readAt s.monitoredhead i
  let (t, mem, world) ← kind.run env.clock env.threshold s.geo.sizeofPtr head st.2.1 st.2.2
  return (st.1 ++ [clampInt t], mem, world)

/-- The loop of a timing probe over the monitored sets, with the results it records. -/
def timeSets (kind : Probe) (s : L3pp) (world : σ) : Run (List (BitVec 16) × L3pp × σ) := do
  let (results, mem, world) ← forUpto (timeRound env kind s) s.nmonitored ([], s.mem, world)
  return (results, { s with mem }, world)

/-- `l3_probe`. -/
def l3Probe (s : L3pp) (world : σ) : Run (List (BitVec 16) × L3pp × σ) :=
  timeSets env .probetime s world

/-- `l3_bprobe`. -/
def l3Bprobe (s : L3pp) (world : σ) : Run (List (BitVec 16) × L3pp × σ) :=
  timeSets env .bprobetime s world

/-- A call to the prober. -/
inductive ProbeOp where
  | counting (op : CountOp)
  | probe
  | bprobe

def ProbeOp.run : ProbeOp → L3pp × σ → Run (List (BitVec 16) × L3pp × σ)
  | counting op, st => op.run env st
  | probe, st => l3Probe env st.1 st.2
  | bprobe, st => l3Bprobe env st.1 st.2

end Timing

/-! ### The stored results -/

section Stored

variable {σ : Type} (clock : σ → BitVec 32 × σ) (world : σ)

/-- The count that elapsed around the probing of a set: the second reading for it less the first. -/
def probeElapsed (k : ℕ) : BitVec 32 :=
  reading clock world (2 * k + 1) - reading clock world (2 * k)

/-- The result stored for a set is the elapsed count, or the largest one when the count has no 16 bits. -/
def Saturated (results : List (BitVec 16)) (k : ℕ) : Prop :=
  ∃ result, results[k]? = some result ∧ result.toNat = min (probeElapsed clock world k).toNat 65535

/-- The counts that an `int` keeps, and those whose low half is the largest result anyway. -/
def KeptByInt (elapsed : BitVec 32) : Prop :=
  elapsed.toNat < 2 ^ 31 ∨ elapsed.toNat % 2 ^ 16 = 65535

variable {clock world}

theorem toNat_clampTime (elapsed : BitVec 32) : (clampTime elapsed).toNat = min elapsed.toNat 65535 := by
  unfold clampTime
  split_ifs with h
  · have hlt : 65535 < elapsed.toNat := h
    rw [Nat.min_eq_right hlt.le]
    rfl
  · have hle : elapsed.toNat ≤ 65535 := Nat.not_lt.mp h
    rw [BitVec.toNat_setWidth, Nat.min_eq_left hle, Nat.mod_eq_of_lt (by omega)]

/-- A count that an `int` takes for a negative one loses its high half. -/
theorem toNat_clampInt (elapsed : BitVec 32) : (clampInt elapsed.toInt).toNat =
    if elapsed.toNat < 2 ^ 31 then min elapsed.toNat 65535 else elapsed.toNat % 2 ^ 16 := by
  have hlt := elapsed.isLt
  by_cases hneg : elapsed.toNat < 2 ^ 31
  · have hint : elapsed.toInt = elapsed.toNat := by
      rw [BitVec.toInt_eq_toNat_cond, if_pos (by omega)]
    rw [if_pos hneg, clampInt, hint]
    split_ifs with hlarge
    · rw [Nat.min_eq_right (by omega)]
      rfl
    · rw [BitVec.toNat_ofInt]
      omega
  · have hint : elapsed.toInt = elapsed.toNat - 2 ^ 32 := by
      rw [BitVec.toInt_eq_toNat_cond, if_neg (by omega)]
      rfl
    rw [if_neg hneg, clampInt, hint, if_neg (by omega), BitVec.toNat_ofInt]
    omega

theorem clampInt_iff (elapsed : BitVec 32) :
    (clampInt elapsed.toInt).toNat = min elapsed.toNat 65535 ↔ KeptByInt elapsed := by
  rw [toNat_clampInt, KeptByInt]
  split_ifs with h
  · exact iff_of_true rfl (.inl h)
  · rw [Nat.min_eq_right (by omega)]
    omega

/-- Of two saturated results the one for the larger count is the larger one. -/
theorem Saturated.monotone {results results' : List (BitVec 16)} {k k' : ℕ} {world' : σ}
    (h : Saturated clock world results k) (h' : Saturated clock world' results' k')
    (hle : probeElapsed clock world k ≤ probeElapsed clock world' k') :
    ∃ result result', results[k]? = some result ∧ results'[k']? = some result' ∧ result ≤ result' := by
  obtain ⟨result, hresult, heq⟩ := h
  obtain ⟨result', hresult', heq'⟩ := h'
  refine ⟨result, result', hresult, hresult', ?_⟩
  have hcounts : (probeElapsed clock world k).toNat ≤ (probeElapsed clock world' k').toNat := hle
  rw [BitVec.le_def, heq, heq']
  exact min_le_min_right _ hcounts

theorem saturated_segmentTimes {n k : ℕ} (hk : k < n) (rest : List (BitVec 16)) :
    Saturated clock world (segmentTimes clock world n ++ rest) k := by
  refine ⟨clampTime (probeElapsed clock world k), ?_, toNat_clampTime _⟩
  rw [List.getElem?_append_left (by rw [segmentTimes, List.length_map, List.length_range]; exact hk),
    segmentTimes, List.getElem?_map, List.getElem?_range hk]
  rfl

end Stored

/-! ### `probelist` -/

/-- The times that `probelist` writes do not depend on where the list leads. -/
theorem probelist_times {σ : Type} (clock : σ → BitVec 32 × σ) (sizeofPtr : ℕ) (write : Bool)
    (pp segments seglen : ℕ) (mem : Mem) (world : σ) :
    Returns (probelist clock sizeofPtr write pp segments seglen mem world) fun r =>
      r.2.1 = segmentTimes clock world segments := by
  rw [probelist]
  apply Returns.bind (forUpto_returns (fun k (st : ℕ × List (BitVec 16) × Mem × σ) =>
    st.2.1 = segmentTimes clock world k ∧ st.2.2.2 = worldAt clock world (2 * k)) ⟨rfl, rfl⟩ _)
  · intro st hst
    exact returns_pure.mpr hst.1
  · intro k _ st hst
    obtain ⟨hresults, hworld⟩ := hst
    rw [returns_pure, hworld, source_worldAt clock, source_worldAt clock]
    refine ⟨?_, rfl⟩
    rw [segmentTimes, List.range_succ, List.map_append, List.map_singleton, hresults]
    rfl

/-! ### `l3_probe` and `l3_bprobe` -/

section Walks

variable {σ : Type} (clock : σ → BitVec 32 × σ) (threshold : BitVec 32) {sizeofPtr pp : ℕ}

/-- A walk that counts nothing leaves the environment as it is. -/
theorem probeWalk_id {τ : Type} (mem : Mem) (acc : τ) :
    Ensures (probeWalk sizeofPtr id pp mem acc) fun r => r.2 = acc := by
  apply loop_ensures (fun s : ℕ × Mem × τ => s.2.2 = acc) _ _ rfl
  intro s hs
  apply (ensures_true _).bind
  intro _ _
  dsimp only
  split_ifs
  · exact ensures_pure hs
  · exact ensures_pure hs

/-- The time of a probe is the difference of two readings, taken for an `int`. -/
theorem probetime_elapsed (hpp : pp ≠ 0) (mem : Mem) (world : σ) :
    Ensures (probetime clock sizeofPtr pp mem world) fun r =>
      r.1 = ((clock (clock world).2).1 - (clock world).1).toInt ∧ r.2.2 = (clock (clock world).2).2 := by
  rw [probetime, if_neg hpp]
  apply (probeWalk_id mem (clock world).2).bind
  rintro ⟨mem', world'⟩ rfl
  exact ensures_pure ⟨rfl, rfl⟩

theorem Probe.run_elapsed {kind : Probe} (hkind : kind.counting = false) (hpp : pp ≠ 0) (mem : Mem) (world : σ) :
    Ensures (kind.run clock threshold sizeofPtr pp mem world) fun r =>
      r.1 = ((clock (clock world).2).1 - (clock world).1).toInt ∧ r.2.2 = (clock (clock world).2).2 := by
  cases kind with
  | probetime => exact probetime_elapsed clock hpp mem world
  | bprobetime =>
      rw [run, ChannelBench.bprobetime, if_neg hpp]
      exact probetime_elapsed clock (by omega) mem world
  | probecount => cases hkind
  | bprobecount => cases hkind

end Walks

section Prober

variable {σ : Type} (env : World σ) {g : Geometry} {before : List RingOp} {s : L3pp}

/-- What a timing probe records for the first sets. -/
def intTimes (clock : σ → BitVec 32 × σ) (world : σ) (n : ℕ) : List (BitVec 16) :=
  (List.range n).map fun k => clampInt (probeElapsed clock world k).toInt

theorem intTimes_succ (clock : σ → BitVec 32 × σ) (world : σ) (k : ℕ) :
    intTimes clock world (k + 1) = intTimes clock world k ++ [clampInt (probeElapsed clock world k).toInt] := by
  rw [intTimes, List.range_succ, List.map_append]
  rfl

/-- A timing probe comes back from every monitored set, reads the counter twice for each of them and
overwrites no link. -/
theorem timeSets_returns (h : RingInv g before s) {kind : Probe} (hkind : kind.counting = false) (world : σ) :
    Returns (timeSets env kind s world) fun r =>
      r.1 = intTimes env.clock world s.nmonitored ∧ RingInv g before r.2.1 := by
  have hgeo := h.geo_eq
  subst hgeo
  apply (forUpto_returns (fun k (st : List (BitVec 16) × Mem × σ) => st.1 = intTimes env.clock world k ∧
    SameLinks s.geo s.mem st.2.1 ∧ st.2.2 = worldAt env.clock world (2 * k))
    ⟨rfl, SameLinks.refl s.geo s.mem, rfl⟩ _).bind
  · intro st hst
    obtain ⟨hresults, hlinks, -⟩ := hst
    rw [returns_pure]
    exact ⟨hresults, h.with_links hlinks⟩
  · intro k hk st hst
    obtain ⟨hresults, hlinks, hworld⟩ := hst
    obtain ⟨set, hlive, -, hset, -, hhead⟩ := h.monitored.entry hk
    have hlinked := h.with_links hlinks
    obtain ⟨r, hr, honce⟩ := kind.run_returns env.clock env.threshold hset
      (fun _ => hlinked.forward set hset (.inl (hlinked.live set hlive)))
      (fun _ => hlinked.backward set hset (hlinked.live set hlive)) st.2.2
    obtain ⟨ht, hnext⟩ := (Probe.run_elapsed env.clock env.threshold hkind (headOf_ne_zero hset) st.2.1
      st.2.2).of_ok r hr
    rw [hworld, source_worldAt env.clock, source_worldAt env.clock] at ht hnext
    rw [timeRound, readAt_of_eq_some hhead, ok_bind, hr, ok_bind, returns_pure]
    refine ⟨?_, hlinks.trans honce.links, hnext⟩
    rw [intTimes_succ, probeElapsed, ht, hresults]

/-- Such a result is right for the counts that an `int` keeps, and for no other ones. -/
theorem saturated_intTimes_iff {clock : σ → BitVec 32 × σ} {world : σ} {n k : ℕ} (hk : k < n) :
    Saturated clock world (intTimes clock world n) k ↔ KeptByInt (probeElapsed clock world k) := by
  have hresult : (intTimes clock world n)[k]? = some (clampInt (probeElapsed clock world k).toInt) := by
    rw [intTimes, List.getElem?_map, List.getElem?_range hk]
    rfl
  rw [← clampInt_iff]
  constructor
  · intro h
    obtain ⟨result, hstored, heq⟩ := h
    rw [hresult] at hstored
    rwa [Option.some.inj hstored]
  · intro h
    exact ⟨_, hresult, h⟩

/-- Every call that does not fault keeps the rings. -/
theorem ProbeOp.run_ensures (op : ProbeOp) (st : L3pp × σ) (h : ∃ before, RingInv g before st.1) :
    Ensures (op.run env st) fun r => ∃ before, RingInv g before r.2.1 := by
  cases op with
  | counting op => exact op.run_ensures env st h
  | probe =>
      obtain ⟨before, h⟩ := h
      exact (timeSets_returns env h rfl st.2).ensures.mono fun _ hr => ⟨before, hr.2⟩
  | bprobe =>
      obtain ⟨before, h⟩ := h
      exact (timeSets_returns env h rfl st.2).ensures.mono fun _ hr => ⟨before, hr.2⟩

end Prober

/-- **Saturation.** `probelist` and `l1i_probe` store every elapsed count saturated. `l3_probe` and `l3_bprobe`
do so for the counts that an `int` keeps, or whose low half is the largest result anyway, and for no other ones.
Where results are saturated, the one for the larger count is the larger one. -/
theorem probes_saturate_iff {σ : Type} (env : World σ) (world : σ) (mem : Mem)
    (C : L1iConfig) (code : Malloc C.sizeofPtr (C.pageSize * (C.l1Associativity + 1)))
    (codeLeftovers : (Fin C.iMonitorMask → BitVec 64) × (Fin C.l1iSets → BitVec 8))
    {first : List (BitVec 64)} (hfirst : C.iMonitorMask ≤ first.length)
    {calls : List L1iCall} (hcalls : ∀ call ∈ calls, call.Admissible C)
    (P : Platform) (block : Malloc P.sizeofPtr (P.l3Size + 4096))
    (leftovers : (n : ℕ) → (Fin n → ℕ) × (Fin n → ℕ)) (ops : List ProbeOp) :
    (∀ sizeofPtr write pp segments seglen mem now,
      Returns (probelist env.clock sizeofPtr write pp segments seglen mem now) fun r =>
        ∀ k < segments, Saturated env.clock now r.2.1 k) ∧
    (Returns (do
        let st ← l1iPrepare C code codeLeftovers mem env.random (some first) world
        runAll (l1iCall env.random) calls st) fun r =>
      ∀ fuel, C.l1iAssociativity ≤ fuel → ∀ results now, r.2.1.nsets ≤ results.length →
        Returns (l1iProbe env.clock fuel r.2.1 results now) fun probed =>
          ∀ k < r.2.1.nsets, Saturated env.clock now probed.2.1 k) ∧
    (Returns (l3Prepare P block leftovers mem) fun s =>
      Ensures (runAll (ProbeOp.run env) ops (s, world)) fun r => ∀ now,
        (Returns (l3Probe env r.2.1 now) fun out => ∀ k < r.2.1.nmonitored,
          (Saturated env.clock now out.1 k ↔ KeptByInt (probeElapsed env.clock now k))) ∧
        (Returns (l3Bprobe env r.2.1 now) fun out => ∀ k < r.2.1.nmonitored,
          (Saturated env.clock now out.1 k ↔ KeptByInt (probeElapsed env.clock now k)))) ∧
    ∀ results results' k k' now now', Saturated env.clock now results k → Saturated env.clock now' results' k' →
      probeElapsed env.clock now k ≤ probeElapsed env.clock now' k' →
        ∃ result result', results[k]? = some result ∧ results'[k']? = some result' ∧ result ≤ result' := by
  refine ⟨?_, ?_, ?_, ?_⟩
  · intro sizeofPtr write pp segments seglen mem now
    apply (probelist_times env.clock sizeofPtr write pp segments seglen mem now).mono
    intro r hr k hk
    have h : Saturated env.clock now (segmentTimes env.clock now segments ++ []) k :=
      saturated_segmentTimes hk []
    rwa [List.append_nil, ← hr] at h
  · apply (l1i_calls_returns env.random C code codeLeftovers mem hfirst hcalls world).mono
    intro r h fuel hfuel results now hroom
    apply (l1iProbe_returns env.clock h hfuel hroom now).mono
    intro probed hprobed k hk
    rw [hprobed.2]
    exact saturated_segmentTimes hk _
  · apply (l3Prepare_returns P block leftovers mem).mono
    intro s hs
    obtain ⟨sets, heads, hs, -, -⟩ := hs
    have hstart : RingInv s.geo [] s := by
      rw [hs]
      exact RingInv.fresh _ _ _ _
    apply (runAll_ensures (fun st : L3pp × σ => ∃ before, RingInv s.geo before st.1)
      (fun op st _ => ProbeOp.run_ensures env op st) ops (s, world) (fun _ _ => trivial) ⟨[], hstart⟩).mono
    intro r hr now
    obtain ⟨before, hinv⟩ := hr
    have hiff : ∀ kind : Probe, kind.counting = false → Returns (timeSets env kind r.2.1 now) fun out =>
        ∀ k < r.2.1.nmonitored,
          (Saturated env.clock now out.1 k ↔ KeptByInt (probeElapsed env.clock now k)) := by
      intro kind hkind
      apply (timeSets_returns env hinv hkind now).mono
      intro out hout k hk
      rw [hout.1]
      exact saturated_intTimes_iff hk
    exact ⟨hiff .probetime rfl, hiff .bprobetime rfl⟩
  · intro results results' k k' now now' h h' hle
    exact h.monotone h' hle

/-- A counter that 2^31 cycles elapse on between two readings. -/
def slowCounter : World (BitVec 32) where
  random := fun world => (0, world)
  clock := fun world => (world, world + 0x80000000#32)
  threshold := 110#32

theorem probes_saturate_iff_sabre :
    (Returns (do
        let st ← l1iPrepare (x86L1i true) ⟨0x1234, by decide, by decide⟩ (fun _ => 0, fun _ => 0) (fun _ => 0)
          slowCounter.random (some [5#64]) 0
        runAll (l1iCall slowCounter.random) [.rewrite] st) fun r =>
      ∀ fuel, (x86L1i true).l1iAssociativity ≤ fuel → ∀ results now, r.2.1.nsets ≤ results.length →
        Returns (l1iProbe slowCounter.clock fuel r.2.1 results now) fun probed =>
          ∀ k < r.2.1.nsets, Saturated slowCounter.clock now probed.2.1 k) ∧
    (Returns (l3Prepare (sabre false) ⟨4096, by decide, by decide⟩ (fun _ => (fun _ => 0, fun _ => 0))
        (fun _ => 0)) fun s =>
      Ensures (runAll (ProbeOp.run slowCounter) [.counting (.monitoring (.monitor 7)), .probe] (s, 0)) fun r =>
        Returns (l3Probe slowCounter r.2.1 r.2.2) fun out => ∀ k < r.2.1.nmonitored,
          (Saturated slowCounter.clock r.2.2 out.1 k ↔ KeptByInt (probeElapsed slowCounter.clock r.2.2 k))) := by
  have h := probes_saturate_iff slowCounter 0 (fun _ => 0) (x86L1i true) ⟨0x1234, by decide, by decide⟩
    (fun _ => 0, fun _ => 0) (show (x86L1i true).iMonitorMask ≤ [5#64].length by decide)
    (show ∀ call ∈ [L1iCall.rewrite], call.Admissible (x86L1i true) by
      intro call hcall
      rw [List.mem_singleton.mp hcall]
      trivial)
    (sabre false) ⟨4096, by decide, by decide⟩ (fun _ => (fun _ => 0, fun _ => 0))
    [.counting (.monitoring (.monitor 7)), .probe]
  exact ⟨h.2.1, h.2.2.1.mono fun s hs => hs.mono fun r hr => (hr r.2.2).1⟩

/-- A probe of one set that takes 2^31 cycles stores the result of a probe that takes none. -/
theorem probes_not_saturated :
    ¬Returns (do
        let s ← l3Prepare (sabre false) ⟨4096, by decide, by decide⟩ (fun _ => (fun _ => 0, fun _ => 0))
          (fun _ => 0)
        let r ← l3Monitor s 0
        l3Probe slowCounter r.2 0) fun out => Saturated slowCounter.clock 0 out.1 0 := by
  intro h
  obtain ⟨s, hs, sets, heads, hfresh, hngroups, hgroupsize⟩ := l3Prepare_returns (sabre false)
    ⟨4096, by decide, by decide⟩ (fun _ => (fun _ => 0, fun _ => 0)) (fun _ => 0)
  have hset : 0 < s.geo.nsets := by
    rw [Geometry.nsets, hngroups, hgroupsize]
    decide
  obtain ⟨r, hr, hinv, hlive⟩ := monitor_fresh sets heads (fun _ => 0) hset
  rw [← hfresh] at hr
  rw [hs, ok_bind, show l3Monitor s 0 = .ok r from hr, ok_bind] at h
  have hmonitored : 0 < r.2.nmonitored := by
    rw [← hinv.monitored.length_live, hlive]
    exact Nat.one_pos
  obtain ⟨out, -, hsaturated, hout, -⟩ := h.and (timeSets_returns slowCounter hinv rfl 0)
  rw [hout, saturated_intTimes_iff hmonitored] at hsaturated
  have helapsed : (probeElapsed slowCounter.clock 0 0).toNat = 2 ^ 31 := by decide
  rw [KeptByInt, helapsed] at hsaturated
  omega

end ChannelBench
