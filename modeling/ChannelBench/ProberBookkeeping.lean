import ChannelBench.CMachine
import ChannelBench.ProberMonitor
import Mathlib.Data.Finset.Card

/-! The bookkeeping of the L3 prober over whole runs. The abstract prober is a finite set of monitored
sets, into which `l3_monitor` inserts, from which `l3_unmonitor` removes, which `l3_unmonitorall`
clears and which `l3_randomise` leaves alone; the first two answer whether the set changed. -/

namespace ChannelBench

open CSem

/-- A call that changes the monitored sets. -/
inductive MonitorOp where
  | monitor (line : ℤ)
  | unmonitor (line : ℤ)
  | unmonitorall
  | randomise

namespace MonitorOp

/-- The call on a prober, with the result of those that return one. The source of `random()` results
is part of the state. -/
def run {σ : Type} (random : σ → ℕ × σ) : MonitorOp → L3pp × σ → Run (Option ℤ × L3pp × σ)
  | monitor line, (s, world) => do
      let (changed, s) ← l3Monitor s line
      return (some changed, s, world)
  | unmonitor line, (s, world) => do
      let (changed, s) ← l3Unmonitor s line
      return (some changed, s, world)
  | unmonitorall, (s, world) => do
      let s ← l3Unmonitorall s
      return (none, s, world)
  | randomise, (s, world) => do
      let (s, world) ← l3Randomise random s world
      return (none, s, world)

/-- What a call does to the set of monitored sets. -/
def apply (nsets : ℕ) : MonitorOp → Finset ℕ → Finset ℕ
  | monitor line, sets => if 0 ≤ line ∧ line < nsets then insert line.toNat sets else sets
  | unmonitor line, sets => if 0 ≤ line ∧ line < nsets then sets.erase line.toNat else sets
  | unmonitorall, _ => ∅
  | randomise, sets => sets

/-- The call on the abstract prober: `l3_monitor` and `l3_unmonitor` return 1 when the set of monitored
sets changes and 0 otherwise. -/
def spec (nsets : ℕ) (op : MonitorOp) (sets : Finset ℕ) : Option ℤ × Finset ℕ :=
  let changed := some (if op.apply nsets sets = sets then 0 else 1)
  match op with
  | monitor _ | unmonitor _ => (changed, op.apply nsets sets)
  | unmonitorall | randomise => (none, op.apply nsets sets)

end MonitorOp

/-- A prober and the finite set it stands for. -/
structure Tracks (g : Geometry) (s : L3pp) (sets : Finset ℕ) : Prop where
  geo_eq : s.geo = g
  monitored : Monitored s
  sets_eq : s.live.toFinset = sets

theorem monitor_tracks {g : Geometry} {s : L3pp} {sets : Finset ℕ} (h : Tracks g s sets) (line : ℤ) :
    Returns (l3Monitor s line) fun r =>
      some r.1 = ((MonitorOp.monitor line).spec g.nsets sets).1 ∧
        Tracks g r.2 ((MonitorOp.monitor line).spec g.nsets sets).2 := by
  obtain ⟨rfl, hmonitored, rfl⟩ := h
  apply (l3Monitor_returns hmonitored line).mono
  intro r hr
  cases hr with
  | rejected h =>
      have hsame : (MonitorOp.monitor line).apply s.geo.nsets s.live.toFinset = s.live.toFinset := by
        simp only [MonitorOp.apply]
        split_ifs with hrange
        · apply Finset.insert_eq_self.mpr
          rw [List.mem_toFinset]
          rcases h with h | h | h
          · omega
          · omega
          · exact h
        · rfl
      simp only [MonitorOp.spec, hsame]
      exact ⟨rfl, rfl, hmonitored, rfl⟩
  | added hlow hhigh hnew hmonitored' hgeo hlive =>
      have hchange : (MonitorOp.monitor line).apply s.geo.nsets s.live.toFinset =
          insert line.toNat s.live.toFinset := if_pos ⟨hlow, hhigh⟩
      have hne : insert line.toNat s.live.toFinset ≠ s.live.toFinset := by
        rw [Ne, Finset.insert_eq_self, List.mem_toFinset]
        exact hnew
      simp only [MonitorOp.spec, hchange, if_neg hne]
      refine ⟨trivial, hgeo, hmonitored', ?_⟩
      ext t
      rw [List.mem_toFinset, hlive, List.mem_append, List.mem_singleton, Finset.mem_insert, List.mem_toFinset]
      exact or_comm

theorem unmonitor_tracks {g : Geometry} {s : L3pp} {sets : Finset ℕ} (h : Tracks g s sets)
    (line : ℤ) :
    Returns (l3Unmonitor s line) fun r =>
      some r.1 = ((MonitorOp.unmonitor line).spec g.nsets sets).1 ∧
        Tracks g r.2 ((MonitorOp.unmonitor line).spec g.nsets sets).2 := by
  obtain ⟨rfl, hmonitored, rfl⟩ := h
  apply (l3Unmonitor_returns hmonitored line).mono
  intro r hr
  cases hr with
  | rejected h =>
      have hsame : (MonitorOp.unmonitor line).apply s.geo.nsets s.live.toFinset =
          s.live.toFinset := by
        simp only [MonitorOp.apply]
        split_ifs with hrange
        · apply Finset.erase_eq_self.mpr
          rw [List.mem_toFinset]
          rcases h with h | h | h
          · omega
          · omega
          · exact h
        · rfl
      simp only [MonitorOp.spec, hsame]
      exact ⟨rfl, rfl, hmonitored, rfl⟩
  | removed hlow hhigh hmonitored' hgeo hlive =>
      have hchange : (MonitorOp.unmonitor line).apply s.geo.nsets s.live.toFinset =
          s.live.toFinset.erase line.toNat := if_pos ⟨hlow, hhigh⟩
      have hnodup := List.nodup_cons.mp (hlive.nodup_iff.mpr hmonitored.nodup)
      have hne : s.live.toFinset.erase line.toNat ≠ s.live.toFinset := by
        rw [Ne, Finset.erase_eq_self, List.mem_toFinset, not_not]
        exact hlive.subset List.mem_cons_self
      simp only [MonitorOp.spec, hchange, if_neg hne]
      refine ⟨trivial, hgeo, hmonitored', ?_⟩
      rw [← List.toFinset_eq_of_perm _ _ hlive, List.toFinset_cons, Finset.erase_insert]
      rw [List.mem_toFinset]
      exact hnodup.1

/-- Every call does to the prober what it does to the abstract one. -/
theorem MonitorOp.run_tracks {σ : Type} (random : σ → ℕ × σ) {g : Geometry} (op : MonitorOp)
    (s : L3pp) (world : σ) {sets : Finset ℕ} (h : Tracks g s sets) :
    Returns (op.run random (s, world)) fun r =>
      r.1 = (op.spec g.nsets sets).1 ∧ Tracks g r.2.1 (op.spec g.nsets sets).2 := by
  cases op with
  | monitor line =>
      exact (monitor_tracks h line).bind fun r hr => returns_pure.mpr hr
  | unmonitor line =>
      exact (unmonitor_tracks h line).bind fun r hr => returns_pure.mpr hr
  | unmonitorall =>
      apply (l3Unmonitorall_returns h.monitored).bind
      intro s' hs'
      obtain ⟨hmonitored, hgeo, hlive, -⟩ := hs'
      rw [returns_pure]
      exact ⟨rfl, hgeo.trans h.geo_eq, hmonitored, by rw [hlive]; rfl⟩
  | randomise =>
      apply (l3Randomise_returns random h.monitored world).bind
      intro r hr
      obtain ⟨hmonitored, hgeo, hlive, -⟩ := hr
      rw [returns_pure]
      exact ⟨rfl, hgeo.trans h.geo_eq, hmonitored,
        (List.toFinset_eq_of_perm _ _ hlive).trans h.sets_eq⟩

/-- A prober that `l3_prepare` has made tracks the abstract one along every run. -/
theorem prepared_tracks {σ : Type} (P : Platform) (block : Malloc P.sizeofPtr (P.l3Size + 4096))
    (leftovers : (n : ℕ) → (Fin n → ℕ) × (Fin n → ℕ)) (mem : Mem) (random : σ → ℕ × σ) (world : σ)
    (ops : List MonitorOp) :
    Returns (l3Prepare P block leftovers mem) fun s =>
      (s.geo.ngroups = P.l3ProbeGroups ∧ s.geo.nsets = P.l3ProbeGroups * P.l3SetsPerPage) ∧
        Returns (runAll (MonitorOp.run random) ops (s, world)) fun r =>
          r.1 = (specAll (MonitorOp.spec s.geo.nsets) ops ∅).1 ∧
            Tracks s.geo r.2.1 (specAll (MonitorOp.spec s.geo.nsets) ops ∅).2 := by
  apply (l3Prepare_returns P block leftovers mem).mono
  intro s hs
  obtain ⟨sets, heads, hs, hngroups, hgroupsize⟩ := hs
  refine ⟨⟨hngroups, by rw [Geometry.nsets, hngroups, hgroupsize]⟩, ?_⟩
  have hstart : Tracks s.geo s ∅ := by
    refine ⟨rfl, ?_, ?_⟩
    · rw [hs]
      exact Monitored.fresh _ _ _ _
    · rw [hs]
      rfl
  exact runAll_simulates (fun st sets => Tracks s.geo st.1 sets)
    (fun op st sets h => MonitorOp.run_tracks random op st.1 st.2 h) ops (s, world) ∅ hstart

/-- **Bookkeeping.** After `l3_prepare` and any calls, with any `random()` results, no access has left
its array, the bitmap, the index array and the head array record the same sets, and both the sets
and the results of the calls are those of the abstract prober. -/
theorem l3_bookkeeping {σ : Type} (P : Platform) (block : Malloc P.sizeofPtr (P.l3Size + 4096))
    (leftovers : (n : ℕ) → (Fin n → ℕ) × (Fin n → ℕ)) (mem : Mem) (random : σ → ℕ × σ) (world : σ)
    (ops : List MonitorOp) :
    Returns (l3Prepare P block leftovers mem) fun s =>
      s.geo.nsets = P.l3ProbeGroups * P.l3SetsPerPage ∧
        Returns (runAll (MonitorOp.run random) ops (s, world)) fun r =>
          r.2.1.geo = s.geo ∧ Monitored r.2.1 ∧
            (r.1, r.2.1.live.toFinset) = specAll (MonitorOp.spec s.geo.nsets) ops ∅ := by
  apply (prepared_tracks P block leftovers mem random world ops).mono
  intro s hs
  obtain ⟨⟨-, hnsets⟩, hrun⟩ := hs
  refine ⟨hnsets, hrun.mono ?_⟩
  intro r hr
  obtain ⟨houts, htracks⟩ := hr
  exact ⟨htracks.geo_eq, htracks.monitored, by rw [houts, htracks.sets_eq]⟩

/-! ### Reading the monitored sets -/

end ChannelBench
