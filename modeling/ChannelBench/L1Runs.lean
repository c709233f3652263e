import ChannelBench.L1Walks

/-! Runs of the L1 prober. After any calls, with any order drawn by `random()` and any probes in between,
both lists cover the sets of the last mask and nothing else. -/

namespace ChannelBench

open CSem L1Layout

section Probes

variable {l1 : L1Layout} {sets : List ℕ} {s : L1info} {σ : Type} (clock : σ → BitVec 32 × σ)
  (write : Bool)

namespace L1Inv

theorem nsets_live (h : L1Inv l1 sets s) : s.nsets = s.live.length := by
  rw [h.nsets_eq, h.live_perm.length_eq]

theorem slots_forward (h : L1Inv l1 sets s) (hsets : SetList l1 sets) :
    Slots l1 (s.live.flatMap l1.fwdBlock) := by
  intro node hnode
  obtain ⟨set, hset, hnode⟩ := List.mem_flatMap.mp hnode
  obtain ⟨slot, hslot, -, hptr⟩ := slot_of_mem_fwdBlock ((h.setList hsets).bounded set hset) hnode
  exact ⟨slot, hslot, hptr⟩

theorem slots_backward (h : L1Inv l1 sets s) (hsets : SetList l1 sets) :
    Slots l1 (s.live.flatMap l1.bkwBlock) := by
  intro node hnode
  obtain ⟨set, hset, hnode⟩ := List.mem_flatMap.mp hnode
  obtain ⟨slot, hslot, -, hptr⟩ := slot_of_mem_bkwBlock ((h.setList hsets).bounded set hset) hnode
  exact ⟨slot, hslot, hptr⟩

theorem covers_of_path {start : ℕ} {block : ℕ → List ℕ} (h : L1Inv l1 sets s)
    (hblock : ∀ set, (block set).length = l1.l1Associativity)
    (hpath : Path (load s.mem l1.sizeofPtr) start (s.live.flatMap block) start)
    (hnodup : (s.live.flatMap block).Nodup) :
    Covers l1.sizeofPtr s.mem start (s.nsets * l1.l1Associativity) s.live block := by
  have hlength := length_pieces s.live fun set _ => hblock set
  rw [h.nsets_live, ← hlength]
  exact ⟨hpath.iterate_eq, hpath.iterate_length, hnodup⟩

/-- The forward list covers the monitored sets. -/
theorem covers_forward (h : L1Inv l1 sets s) (hsets : SetList l1 sets) :
    Covers l1.sizeofPtr s.mem s.fwdlist (s.nsets * l1.l1Associativity) s.live l1.fwdBlock := by
  have hlive := h.setList hsets
  exact h.covers_of_path (length_fwdBlock l1) (h.linked.path_forward h.ways hlive)
    (nodup_blocks hlive (fun _ => nodup_fwdBlock) fun _ _ hset => slot_of_mem_fwdBlock hset)

/-- So does the backward list. -/
theorem covers_backward (h : L1Inv l1 sets s) (hsets : SetList l1 sets) :
    Covers l1.sizeofPtr s.mem s.bkwlist (s.nsets * l1.l1Associativity) s.live l1.bkwBlock := by
  have hlive := h.setList hsets
  exact h.covers_of_path (length_bkwBlock l1) (h.linked.path_backward h.ways hlive)
    (nodup_blocks hlive (fun _ => nodup_bkwBlock) fun _ _ hset => slot_of_mem_bkwBlock hset)

/-- The lists do not depend on what is in the lines behind the pointers. -/
theorem with_mem (h : L1Inv l1 sets s) (hsets : SetList l1 sets) {mem : Mem}
    (hsame : SameSlots l1 s.mem mem) : L1Inv l1 sets { s with mem } where
  layout_eq := h.layout_eq
  masks_length := h.masks_length
  monitored_length := h.monitored_length
  nsets_eq := h.nsets_eq
  live_perm := h.live_perm
  ways := by
    intro set way hset hway
    rw [hsame _ (valid_forward hset (by omega)), hsame _ (valid_backward hset hway)]
    exact h.ways set way hset hway
  linked := by
    have hlive := h.setList hsets
    have hhop : ∀ a b, a ∈ s.live → Hop l1 s.mem a b → Hop l1 mem a b := by
      intro a b ha hop
      have hbound := hlive.bounded a ha
      rw [Hop, hsame _ (valid_forward hbound l1.last_lt), hsame _ (valid_backward hbound l1.assoc_pos)]
      exact hop
    refine ⟨?_, ?_, h.linked.fwd, h.linked.bkw⟩
    · have hops := h.linked.hops
      rw [List.isChain_iff_getElem] at hops ⊢
      exact fun i hi => hhop _ _ (List.getElem_mem _) (hops i hi)
    · intro first hfirst last hlast
      exact hhop _ _ (List.mem_of_mem_getLast? hlast) (h.linked.closes first hfirst last hlast)

end L1Inv

theorem l1Probe_returns (h : L1Inv l1 sets s) (hsets : SetList l1 sets) (world : σ) :
    Returns (l1Probe clock write s world) fun r => r.1 = 1 ∧
      r.2.1 = segmentTimes clock world s.nsets ∧ L1Inv l1 sets r.2.2.1 := by
  have hlayout := h.layout_eq
  subst hlayout
  have hpath := h.linked.path_forward h.ways (h.setList hsets)
  have hprobe := probelist_returns clock write (length_fwdBlock s.layout) (h.slots_forward hsets) hpath world
  rw [← h.nsets_live] at hprobe
  apply hprobe.bind
  intro r hr
  obtain ⟨hback, hresults, hsame⟩ := hr
  rw [returns_pure]
  exact ⟨hback, hresults, h.with_mem hsets hsame⟩

theorem l1Bprobe_returns (h : L1Inv l1 sets s) (hsets : SetList l1 sets) (world : σ) :
    Returns (l1Bprobe clock write s world) fun r =>
      r.1 = segmentTimes clock world s.nsets ∧ L1Inv l1 sets r.2.1 := by
  have hlayout := h.layout_eq
  subst hlayout
  have hpath := h.linked.path_backward h.ways (h.setList hsets)
  have hprobe := probelist_returns clock write (length_bkwBlock s.layout) (h.slots_backward hsets) hpath world
  rw [← h.nsets_live] at hprobe
  apply hprobe.bind
  intro r hr
  obtain ⟨-, hresults, hsame⟩ := hr
  rw [returns_pure]
  exact ⟨hresults, h.with_mem hsets hsame⟩

theorem l1Prime_returns (h : L1Inv l1 sets s) (hsets : SetList l1 sets) :
    Returns (l1Prime s) fun p => p = s.fwdlist := by
  have hpath := h.linked.path_forward h.ways (h.setList hsets)
  have hprime := primelist_returns (length_fwdBlock l1) (h.slots_forward hsets) hpath
  rw [← h.nsets_live] at hprime
  rw [l1Prime, h.layout_eq]
  exact hprime

end Probes

/-! ### Runs -/

/-- A call to the prober after `l1_prepare`. -/
inductive L1Op where
  | setMonitoredSet (masks : List (BitVec 64))
  | randomise
  | probe
  | bprobe
  | prime

/-- The result of a call, with what it wrote to `results`. -/
inductive L1Out where
  | done
  | probed (back : ℤ) (results : List (BitVec 16))
  | bprobed (results : List (BitVec 16))
  | primed (p : ℕ)

namespace L1Op

def run {σ : Type} (random : σ → ℕ × σ) (clock : σ → BitVec 32 × σ) (write : Bool) :
    L1Op → L1info × σ → Run (L1Out × L1info × σ)
  | setMonitoredSet masks, (s, world) => do
      let st ← l1SetMonitoredSet random s (some masks) world
      return (.done, st)
  | randomise, (s, world) => do
      let st ← l1Randomise random s world
      return (.done, st)
  | probe, (s, world) => do
      let (back, results, st) ← l1Probe clock write s world
      return (.probed back results, st)
  | bprobe, (s, world) => do
      let (results, st) ← l1Bprobe clock write s world
      return (.bprobed results, st)
  | prime, (s, world) => do
      let p ← l1Prime s
      return (.primed p, s, world)

/-- The mask that was set last, in a list of calls with the latest one first. -/
def lastMask (masks : List (BitVec 64)) : List L1Op → List (BitVec 64)
  | setMonitoredSet masks' :: _ => masks'
  | _ :: before => lastMask masks before
  | [] => masks

/-- A mask that is set has a bit set. -/
def Masked (C : L1Config) : L1Op → Prop
  | setMonitoredSet masks => MaskOk C masks
  | _ => True

variable {l1 : L1Layout} {s : L1info} {masks : List (BitVec 64)} {before : List L1Op} {σ : Type}
  (random : σ → ℕ × σ) (clock : σ → BitVec 32 × σ) (write : Bool)

/-- The lists are those of the last mask, which has a bit set. -/
def Inv (l1 : L1Layout) (masks : List (BitVec 64)) (before : List L1Op) (s : L1info) : Prop :=
  MaskOk l1.toL1Config (lastMask masks before) ∧
    L1Inv l1 (maskSets l1.toL1Config (lastMask masks before)) s

theorem run_inv (op : L1Op) (h : Inv l1 masks before s) (hop : op.Masked l1.toL1Config) (world : σ) :
    Returns (op.run random clock write (s, world)) fun r => Inv l1 masks (op :: before) r.2.1 := by
  obtain ⟨hmask, hinv⟩ := h
  have hsets := hmask.setList
  cases op with
  | setMonitoredSet masks' =>
      apply (l1SetMonitoredSet_returns random l1 hinv.layout_eq hinv.masks_length hinv.monitored_length
        hinv.ways hop world).bind
      intro r hr
      exact returns_pure.mpr ⟨hop, hr⟩
  | randomise =>
      apply (l1Randomise_returns random hinv.ready hsets world).bind
      intro r hr
      exact returns_pure.mpr ⟨hmask, hr⟩
  | probe =>
      apply (l1Probe_returns clock write hinv hsets world).bind
      intro r hr
      exact returns_pure.mpr ⟨hmask, hr.2.2⟩
  | bprobe =>
      apply (l1Bprobe_returns clock write hinv hsets world).bind
      intro r hr
      exact returns_pure.mpr ⟨hmask, hr.2⟩
  | prime =>
      apply (l1Prime_returns hinv hsets).bind
      intro p _
      exact returns_pure.mpr ⟨hmask, hinv⟩

end L1Op

open L1Op

/-- **Lists.** After `l1_prepare` and any calls, both lists cover exactly the sets of the last mask, block
by block in the order of `monitored`, and a probe comes back and writes one time for every set. -/
theorem l1_lists {σ : Type} (C : L1Config) (block : Malloc C.sizeofPtr C.l1ProbeBuffer)
    (leftovers : (Fin C.monitorMask → BitVec 64) × (Fin C.l1Sets → ℕ)) (mem : Mem)
    (random : σ → ℕ × σ) (clock : σ → BitVec 32 × σ) (write : Bool) (masks : List (BitVec 64))
    (hmasks : MaskOk C masks) (ops : List L1Op)
    (hops : ∀ op ∈ ops, Masked C op) (world : σ) :
    Returns (do
        let st ← l1Prepare C block leftovers mem random (some masks) world
        runAll (L1Op.run random clock write) ops st) fun r =>
      r.2.1.layout = C.layout block ∧
        r.2.1.live.Perm (maskSets C (lastMask masks ops.reverse)) ∧
        r.2.1.live.length = r.2.1.nsets ∧
        Covers C.sizeofPtr r.2.1.mem r.2.1.fwdlist (r.2.1.nsets * C.l1Associativity) r.2.1.live
          r.2.1.layout.fwdBlock ∧
        Covers C.sizeofPtr r.2.1.mem r.2.1.bkwlist (r.2.1.nsets * C.l1Associativity) r.2.1.live
          r.2.1.layout.bkwBlock ∧
        Returns (l1Probe clock write r.2.1 r.2.2) fun q => q.1 = 1 ∧ q.2.1.length = r.2.1.nsets ∧
          q.2.1 = segmentTimes clock r.2.2 r.2.1.nsets := by
  apply (l1Prepare_returns C block leftovers mem random hmasks world).bind
  intro st hst
  have hstart : Inv (C.layout block) masks [] st.1 := ⟨hmasks, hst⟩
  apply (runAll_inv (fun before st => Inv (C.layout block) masks before st.1)
    (fun before op st h hop => run_inv random clock write op h hop st.2) ops [] st
    (legal_of_forall ops [] hops) hstart).mono
  intro r hr
  rw [List.append_nil] at hr
  obtain ⟨hmask, hinv⟩ := hr
  have hsets := hmask.setList
  refine ⟨hinv.layout_eq, hinv.live_perm, hinv.nsets_live.symm, ?_, ?_, ?_⟩
  · rw [hinv.layout_eq]
    exact hinv.covers_forward hsets
  · rw [hinv.layout_eq]
    exact hinv.covers_backward hsets
  · apply (l1Probe_returns clock write hinv hsets r.2.2).mono
    intro q hq
    obtain ⟨hback, hresults, -⟩ := hq
    refine ⟨hback, ?_, hresults⟩
    rw [hresults, segmentTimes, List.length_map, List.length_range]

theorem l1_lists_remasked :
    Returns (do
        let st ← l1Prepare (x86L1 false) ⟨4096, by decide, by decide⟩ (fun _ => 0#64, fun _ => 0)
          (fun _ => 0#8) (fun world => (world, world + 1)) (some [5#64]) 7
        runAll (L1Op.run (fun world => (world, world + 1)) (fun world => (0#32, world)) true)
          [.probe, .setMonitoredSet [10#64], .bprobe, .randomise, .prime] st) fun r =>
      r.2.1.live.Perm [1, 3] ∧ r.2.1.nsets = 2 := by
  have hmask : ∀ mask : BitVec 64, mask = 5#64 ∨ mask = 10#64 → MaskOk (x86L1 false) [mask] := by
    intro mask hmask
    rcases hmask with rfl | rfl
    · exact ⟨by decide, 0, by decide, by decide⟩
    · exact ⟨by decide, 1, by decide, by decide⟩
  have hsets : maskSets (x86L1 false) [10#64] = [1, 3] := by decide
  apply (l1_lists (x86L1 false) ⟨4096, by decide, by decide⟩ (fun _ => 0#64, fun _ => 0)
    (fun _ => 0#8) (fun world => (world, world + 1)) (fun world => (0#32, world)) true [5#64]
    (hmask _ (.inl rfl)) [.probe, .setMonitoredSet [10#64], .bprobe, .randomise, .prime] (by
      intro op hop
      simp only [List.mem_cons, List.not_mem_nil, or_false] at hop
      rcases hop with rfl | rfl | rfl | rfl | rfl
      · trivial
      · exact hmask _ (.inr rfl)
      · trivial
      · trivial
      · trivial) 7).mono
  intro r hr
  obtain ⟨-, hperm, hlength, -⟩ := hr
  have hlast : r.2.1.live.Perm [1, 3] := hsets ▸ hperm
  exact ⟨hlast, by rw [← hlength, hlast.length_eq]; rfl⟩

end ChannelBench
