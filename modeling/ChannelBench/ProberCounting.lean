import ChannelBench.ProberRuns

/-! The counting probes of the L3 prober. `l3_probecount` and `l3_bprobecount` probe every monitored set and
prime it again by counting up a counter in its lines. The links of a set are clamped to the pages of its
group, but `prime` is given the associativity as it is, so a counting probe reads past the end of a group
with fewer pages. -/

namespace ChannelBench

open CSem

/-- `prime`. -/
def prime (mem : Mem) (vl : VList ℕ) (offset count : ℕ) : Run Mem :=
  forUpto (fun i mem => do
      let page ← vlGet vl i
      return store mem 4 (page + offset) ((load mem 4 (page + offset) + 1) % 2 ^ 32))
    count mem

section Counting

variable {σ : Type} (env : World σ)

/-- One round of `l3_probecount`, or of `l3_bprobecount`, which probes backward. The result is cut to 16
bits. -/
def countRound (kind : Probe) (s : L3pp) (i : ℕ) (st : List (BitVec 16) × Mem × σ) :
    Run (List (BitVec 16) × Mem × σ) := do
  let head ← readAt s.monitoredhead i
  let (rv, mem, world) ← kind.run env.clock env.threshold s.geo.sizeofPtr head st.2.1 st.2.2
  let g ← readAt s.monitoredset i
  let group ← readAt s.geo.groups (g / s.geo.groupsize)
  let offset := g % s.geo.groupsize * s.geo.cacheline + 2 * s.geo.sizeofPtr
  let mem ← prime mem group offset s.geo.associativity
  let mem ← prime mem group offset s.geo.associativity
  let mem ← prime mem group offset s.geo.associativity
  return (st.1 ++ [BitVec.ofInt 16 rv], mem, world)

/-- The loop of a counting probe over the monitored sets, with the results it records. -/
def countSets (kind : Probe) (s : L3pp) (world : σ) : Run (List (BitVec 16) × L3pp × σ) := do
  let (results, mem, world) ← forUpto (countRound env kind s) s.nmonitored ([], s.mem, world)
  return (results, { s with mem }, world)

/-- `l3_probecount`. -/
def l3Probecount (s : L3pp) (world : σ) : Run (List (BitVec 16) × L3pp × σ) :=
  countSets env .probecount s world

/-- `l3_bprobecount`. -/
def l3Bprobecount (s : L3pp) (world : σ) : Run (List (BitVec 16) × L3pp × σ) :=
  countSets env .bprobecount s world

end Counting

/-! ### Priming a set -/

section Priming

variable {g : Geometry} {mem mem' mem'' : Mem} {set : ℕ}

theorem SameLinks.trans (h : SameLinks g mem mem') (h' : SameLinks g mem' mem'') : SameLinks g mem mem'' := by
  intro set j hset hj place hplace
  rw [h' set j hset hj place hplace, h set j hset hj place hplace]

/-- Counting in one line of a set overwrites no link. -/
theorem sameLinks_count (hset : set < g.nsets) {j : ℕ} (hj : j < (g.pagesOf set).length) (mem : Mem) :
    SameLinks g mem (bump g.sizeofPtr mem (g.line set j)) := by
  intro set' j' hset' hj' place hplace
  exact load_bump mem (counter_apart hset hset' hj hj' (Nat.zero_le _) hplace)

/-- `prime` counts in the lines of a set when its group has that many pages. -/
theorem prime_returns (hset : set < g.nsets) {count : ℕ} (hcount : count ≤ (g.pagesOf set).length) (mem : Mem) :
    Returns (prime mem (getElem g.groups (set / g.groupsize) (g.group_lt hset))
      (set % g.groupsize * g.cacheline + 2 * g.sizeofPtr) count) (SameLinks g mem) := by
  apply forUpto_returns (fun _ mem' => SameLinks g mem mem') (SameLinks.refl g mem)
  intro i hi mem' hmem'
  have hpage : i < (g.pagesOf set).length := by omega
  have hpage' : i < (getElem g.groups (set / g.groupsize) (g.group_lt hset)).toList.length := by
    rwa [← g.pagesOf_eq hset]
  have hline : (getElem g.groups (set / g.groupsize) (g.group_lt hset)).toList[i] +
      (set % g.groupsize * g.cacheline + 2 * g.sizeofPtr) = g.line set i + 2 * g.sizeofPtr := by
    rw [Geometry.line_eq hpage, Geometry.offset]
    simp only [g.pagesOf_eq hset]
    omega
  rw [vlGet_eq hpage', ok_bind, returns_pure, hline]
  exact hmem'.trans (sameLinks_count hset hpage mem')

/-- Otherwise it reads the group behind its last page. -/
theorem prime_eq_error {vl : VList ℕ} {offset count : ℕ} (hcount : vl.toList.length < count) (mem : Mem) :
    prime mem vl offset count = .error .assertion := by
  apply forUpto_eq_error (fun _ _ => True) trivial _ hcount
  · intro mem' _
    rw [vlGet_eq_error (le_refl _)]
    rfl
  · intro i _ mem' _
    by_cases hi : i < vl.toList.length
    · rw [vlGet_eq hi]
      exact .inl (returns_ok.mpr trivial)
    · rw [vlGet_eq_error (Nat.not_lt.mp hi)]
      exact .inr rfl

end Priming

/-! ### Counting in all monitored sets -/

section CountingRules

variable {g : Geometry} {before : List RingOp} {s : L3pp} {σ : Type} (env : World σ)

/-- The links of a prober survive a change of its memory that keeps them. -/
theorem RingInv.with_links (h : RingInv g before s) {mem : Mem} (hlinks : SameLinks g s.mem mem) :
    RingInv g before { s with mem } where
  geo_eq := h.geo_eq
  monitored := h.monitored.with_mem mem
  forward := fun set hset hin => hlinks.linkedAt hset (Nat.zero_le _) (h.forward set hset hin)
  backward := fun set hset hin => hlinks.linkedAt hset (le_refl _) (h.backward set hset hin)
  live := h.live

/-- The group of a set has as many pages as `prime` is told to touch. -/
def Geometry.CountsInRange (g : Geometry) (set : ℕ) : Prop := g.associativity ≤ (g.pagesOf set).length

instance (g : Geometry) (set : ℕ) : Decidable (g.CountsInRange set) :=
  inferInstanceAs (Decidable (_ ≤ _))

/-- Every round of a counting probe probes its set, which overwrites no link, and primes it three times. -/
theorem countRound_eq (h : RingInv g before s) (kind : Probe) {set : ℕ} (hlive : set ∈ s.live)
    (hset : set < g.nsets) {i : ℕ} (hentry : s.monitoredset[i]? = some set)
    (hhead : s.monitoredhead[i]? = some (g.headOf set)) {st : List (BitVec 16) × Mem × σ}
    (hlinks : SameLinks g s.mem st.2.1) :
    ∃ (rv : ℤ) (mem : Mem) (world : σ), SameLinks g s.mem mem ∧ countRound env kind s i st = (do
      let group := getElem g.groups (set / g.groupsize) (g.group_lt hset)
      let offset := set % g.groupsize * g.cacheline + 2 * g.sizeofPtr
      let mem ← prime mem group offset g.associativity
      let mem ← prime mem group offset g.associativity
      let mem ← prime mem group offset g.associativity
      return (st.1 ++ [BitVec.ofInt 16 rv], mem, world)) := by
  have hgeo := h.geo_eq
  subst hgeo
  have hlinked := h.with_links hlinks
  obtain ⟨⟨rv, mem, world⟩, hr, honce⟩ := kind.run_returns env.clock env.threshold hset
    (fun _ => hlinked.forward set hset (.inl (hlinked.live set hlive)))
    (fun _ => hlinked.backward set hset (hlinked.live set hlive)) st.2.2
  refine ⟨rv, mem, world, hlinks.trans honce.links, ?_⟩
  rw [countRound, readAt_of_eq_some hhead, ok_bind, hr, ok_bind]
  dsimp only
  rw [readAt_of_eq_some hentry, ok_bind, readAt_group hset, ok_bind]

/-- A round returns when its group has enough pages. -/
theorem countRound_returns (h : RingInv g before s) (kind : Probe) {set : ℕ} (hlive : set ∈ s.live)
    (hset : set < g.nsets) {i : ℕ} (hentry : s.monitoredset[i]? = some set)
    (hhead : s.monitoredhead[i]? = some (g.headOf set)) {st : List (BitVec 16) × Mem × σ}
    (hlinks : SameLinks g s.mem st.2.1) (hrange : g.CountsInRange set) :
    Returns (countRound env kind s i st) fun st' =>
      st'.1.length = st.1.length + 1 ∧ SameLinks g s.mem st'.2.1 := by
  obtain ⟨rv, mem, world, hlinks', hround⟩ := countRound_eq env h kind hlive hset hentry hhead hlinks
  rw [hround]
  apply (prime_returns hset hrange mem).bind
  intro mem₁ h₁
  apply (prime_returns hset hrange mem₁).bind
  intro mem₂ h₂
  apply (prime_returns hset hrange mem₂).bind
  intro mem₃ h₃
  rw [returns_pure]
  exact ⟨by simp, ((hlinks'.trans h₁).trans h₂).trans h₃⟩

/-- A round reads past the end of its group otherwise. -/
theorem countRound_eq_error (h : RingInv g before s) (kind : Probe) {set : ℕ} (hlive : set ∈ s.live)
    (hset : set < g.nsets) {i : ℕ} (hentry : s.monitoredset[i]? = some set)
    (hhead : s.monitoredhead[i]? = some (g.headOf set)) {st : List (BitVec 16) × Mem × σ}
    (hlinks : SameLinks g s.mem st.2.1) (hrange : ¬g.CountsInRange set) :
    countRound env kind s i st = .error .assertion := by
  obtain ⟨rv, mem, world, -, hround⟩ := countRound_eq env h kind hlive hset hentry hhead hlinks
  have hshort : (getElem g.groups (set / g.groupsize) (g.group_lt hset)).toList.length < g.associativity := by
    rw [← g.pagesOf_eq hset]
    exact Nat.not_le.mp hrange
  rw [hround]
  dsimp only
  rw [prime_eq_error hshort]
  rfl

/-- A counting probe records a result for every monitored set and overwrites no link when all groups it
primes have enough pages. -/
theorem countSets_returns (h : RingInv g before s) (kind : Probe) (world : σ)
    (hrange : ∀ set ∈ s.live, g.CountsInRange set) :
    Returns (countSets env kind s world) fun r =>
      r.1.length = s.nmonitored ∧ RingInv g before r.2.1 ∧ r.2.1 = { s with mem := r.2.1.mem } := by
  apply (forUpto_returns (fun i (st : List (BitVec 16) × Mem × σ) =>
    st.1.length = i ∧ SameLinks g s.mem st.2.1) ⟨rfl, SameLinks.refl g s.mem⟩ _).bind
  · intro st hst
    rw [returns_pure]
    exact ⟨hst.1, h.with_links hst.2, rfl⟩
  · intro i hi st hst
    obtain ⟨set, hlive, -, hset, hentry, hhead⟩ := h.monitored.entry hi
    rw [h.geo_eq] at hset hhead
    apply (countRound_returns env h kind hlive hset hentry hhead hst.2 (hrange set hlive)).mono
    intro st' hst'
    exact ⟨by rw [hst'.1, hst.1], hst'.2⟩

/-- A counting probe reads past the end of a group when one of the groups it primes has too few pages. -/
theorem countSets_eq_error (h : RingInv g before s) (kind : Probe) (world : σ)
    (hrange : ¬∀ set ∈ s.live, g.CountsInRange set) : countSets env kind s world = .error .assertion := by
  obtain ⟨set, hlive, hshort⟩ : ∃ set ∈ s.live, ¬g.CountsInRange set := by simpa using hrange
  obtain ⟨k, hk, rfl⟩ := List.getElem_of_mem hlive
  have hcount := h.monitored.length_live
  have hloop : forUpto (countRound env kind s) s.nmonitored ([], s.mem, world) = .error .assertion := by
    apply forUpto_eq_error (fun _ (st : List (BitVec 16) × Mem × σ) => SameLinks g s.mem st.2.1)
      (SameLinks.refl g s.mem) _ (hcount ▸ hk)
    · intro st hst
      obtain ⟨set, -, hlast, hset, hentry, hhead⟩ := h.monitored.entry (hcount ▸ hk)
      rw [List.getElem?_eq_getElem hk, Option.some.injEq] at hlast
      subst hlast
      rw [h.geo_eq] at hset hhead
      exact countRound_eq_error env h kind hlive hset hentry hhead hst hshort
    · intro i hi st hst
      obtain ⟨set, hlive, -, hset, hentry, hhead⟩ := h.monitored.entry hi
      rw [h.geo_eq] at hset hhead
      by_cases hrange : g.CountsInRange set
      · exact .inl ((countRound_returns env h kind hlive hset hentry hhead hst hrange).mono fun _ h => h.2)
      · exact .inr (countRound_eq_error env h kind hlive hset hentry hhead hst hrange)
  rw [countSets, hloop]
  rfl

end CountingRules

/-! ### Runs with counting probes -/

/-- A call that changes the monitored sets, or a counting probe of all of them. -/
inductive CountOp where
  | monitoring (op : MonitorOp)
  | probecount
  | bprobecount

def CountOp.run {σ : Type} (env : World σ) :
    CountOp → L3pp × σ → Run (List (BitVec 16) × L3pp × σ)
  | monitoring op, st => do
      let r ← op.run env.random st
      return ([], r.2)
  | probecount, st => l3Probecount env st.1 st.2
  | bprobecount, st => l3Bprobecount env st.1 st.2

theorem countSets_ensures {σ : Type} (env : World σ) {g : Geometry} {before : List RingOp} {s : L3pp}
    (h : RingInv g before s) (kind : Probe) (world : σ) :
    Ensures (countSets env kind s world) fun r => RingInv g before r.2.1 := by
  by_cases hrange : ∀ set ∈ s.live, g.CountsInRange set
  · exact ((countSets_returns env h kind world hrange).mono fun _ hr => hr.2.1).ensures
  · rw [countSets_eq_error env h kind world hrange]
    exact ensures_error

/-- Every call that does not fault keeps the rings. -/
theorem CountOp.run_ensures {σ : Type} (env : World σ) {g : Geometry} (op : CountOp) (st : L3pp × σ)
    (h : ∃ before, RingInv g before st.1) :
    Ensures (op.run env st) fun r => ∃ before, RingInv g before r.2.1 := by
  obtain ⟨before, h⟩ := h
  cases op with
  | monitoring op =>
      apply (RingOp.run_ringInv env (.monitoring op) h trivial st.2).ensures.bind
      intro r hr
      exact ensures_pure ⟨_, hr⟩
  | probecount => exact (countSets_ensures env h .probecount st.2).mono fun _ hr => ⟨_, hr⟩
  | bprobecount => exact (countSets_ensures env h .bprobecount st.2).mono fun _ hr => ⟨_, hr⟩

/-! ### The groups of a platform -/

/-- The buffer of a platform reaches the last page that `prime` touches in the group of a set. -/
def Platform.CountsInRange (P : Platform) (set : ℕ) : Prop :=
  (set / P.l3SetsPerPage + (P.l3Associativity - 1) * P.l3ProbeGroups) * 4096 < P.l3Size

/-- On HIKEY the groups are long enough only with the eight colours of the mitigation. -/
theorem hikey_countsInRange_iff (mitigation : Bool) {set : ℕ}
    (hset : set < (hikey mitigation).l3ProbeGroups * (hikey mitigation).l3SetsPerPage) :
    (hikey mitigation).CountsInRange set ↔ mitigation = true := by
  cases mitigation with
  | false =>
      simp only [Platform.CountsInRange, hikey, Bool.false_eq_true, if_false, iff_false]
      omega
  | true =>
      simp only [Platform.CountsInRange, hikey, if_true, iff_true] at hset ⊢
      omega

theorem sabre_countsInRange (mitigation : Bool) {set : ℕ}
    (hset : set < (sabre mitigation).l3ProbeGroups * (sabre mitigation).l3SetsPerPage) :
    (sabre mitigation).CountsInRange set := by
  cases mitigation with
  | false =>
      simp only [Platform.CountsInRange, sabre, Bool.false_eq_true, if_false] at hset ⊢
      omega
  | true =>
      simp only [Platform.CountsInRange, sabre, if_true] at hset ⊢
      omega

theorem tx1_countsInRange {groups : ℕ} {hpos : 0 < groups} {hfit : groups ≤ 512} (hgroups : groups ≤ 32)
    {set : ℕ} (hset : set < (tx1 groups hpos hfit).l3ProbeGroups * (tx1 groups hpos hfit).l3SetsPerPage) :
    (tx1 groups hpos hfit).CountsInRange set := by
  simp only [Platform.CountsInRange, tx1] at hset ⊢
  omega

/-- The set of a prepared prober that `prime` reads the group of is in range when the buffer of the platform
reaches far enough. -/
theorem countsInRange_iff {P : Platform} {buffer : ℕ} {g : Geometry}
    (hassoc : g.associativity = P.l3Associativity) (hgroupsize : g.groupsize = P.l3SetsPerPage)
    (hdealt : DealtGroups P.l3Size P.l3ProbeGroups buffer g.groups) {set : ℕ} (hset : set < g.nsets) :
    g.CountsInRange set ↔ P.CountsInRange set := by
  have hgroup := hdealt.dealt _ (g.group_lt hset)
  have hpos := P.assoc_pos
  have hlast : P.l3Associativity ≤ (g.pagesOf set).length ↔ P.l3Associativity - 1 < (g.pagesOf set).length := by
    omega
  rw [Geometry.CountsInRange, hassoc, hlast, g.pagesOf_eq hset, hgroup.lt_length_iff, Platform.CountsInRange,
    hgroupsize]

/-- **Counting probes.** After `l3_prepare` and any calls that monitor sets or count, a counting probe reads
every page inside its group and records a result for every monitored set when the probe buffer has
`associativity` pages of the colour of each of them, and otherwise it reads past the end of a group. -/
theorem l3_counting_iff {σ : Type} (P : Platform) (block : Malloc P.sizeofPtr (P.l3Size + 4096))
    (leftovers : (n : ℕ) → (Fin n → ℕ) × (Fin n → ℕ)) (mem : Mem) (env : World σ) (world : σ)
    (ops : List CountOp) :
    Returns (l3Prepare P block leftovers mem) fun s =>
      Ensures (runAll (CountOp.run env) ops (s, world)) fun r =>
        (l3Probecount env r.2.1 r.2.2 ≠ .error .assertion ↔ ∀ set ∈ r.2.1.live, P.CountsInRange set) ∧
          (l3Bprobecount env r.2.1 r.2.2 ≠ .error .assertion ↔ ∀ set ∈ r.2.1.live, P.CountsInRange set) ∧
            ((∀ set ∈ r.2.1.live, P.CountsInRange set) →
              Returns (l3Probecount env r.2.1 r.2.2) (fun r' => r'.1.length = r.2.1.nmonitored) ∧
                Returns (l3Bprobecount env r.2.1 r.2.2) fun r' => r'.1.length = r.2.1.nmonitored) := by
  apply ((l3Prepare_returns P block leftovers mem).and (l3Prepare_groups P block leftovers mem)).mono
  intro s hs
  obtain ⟨⟨sets, heads, hs, -, hgroupsize⟩, hassoc, hdealt⟩ := hs
  have hstart : RingInv s.geo [] s := by
    rw [hs]
    exact RingInv.fresh _ _ _ _
  apply (runAll_ensures (fun st : L3pp × σ => ∃ before, RingInv s.geo before st.1)
    (fun op st _ => CountOp.run_ensures env op st) ops (s, world) (fun _ _ => trivial) ⟨[], hstart⟩).mono
  intro r hr
  obtain ⟨before, hinv⟩ := hr
  have hrange : (∀ set ∈ r.2.1.live, P.CountsInRange set) ↔ ∀ set ∈ r.2.1.live, s.geo.CountsInRange set := by
    apply forall₂_congr
    intro set hset
    have hlt := hinv.monitored.live_lt set hset
    rw [hinv.geo_eq] at hlt
    exact (countsInRange_iff hassoc hgroupsize hdealt hlt).symm
  have hreturns : ∀ kind, (∀ set ∈ r.2.1.live, P.CountsInRange set) →
      Returns (countSets env kind r.2.1 r.2.2) fun r' => r'.1.length = r.2.1.nmonitored :=
    fun kind hall => (countSets_returns env hinv kind r.2.2 (hrange.mp hall)).mono fun _ hr => hr.1
  have hiff : ∀ kind, countSets env kind r.2.1 r.2.2 ≠ .error .assertion ↔
      ∀ set ∈ r.2.1.live, P.CountsInRange set := by
    intro kind
    constructor
    · intro hne
      by_contra hshort
      exact hne (countSets_eq_error env hinv kind r.2.2 (mt hrange.mpr hshort))
    · intro hall herr
      have h := hreturns kind hall
      rw [herr] at h
      exact returns_error.mp h
  exact ⟨hiff .probecount, hiff .bprobecount, fun hall => ⟨hreturns .probecount hall, hreturns .bprobecount hall⟩⟩

/-- Monitoring a set of a fresh prober. -/
theorem monitor_fresh {g : Geometry} (sets heads : Fin g.nsets → ℕ) (mem : Mem) {set : ℕ} (hset : set < g.nsets) :
    Returns (l3Monitor (L3pp.fresh g sets heads mem) set) fun r =>
      RingInv g [.monitoring (.monitor set)] r.2 ∧ r.2.live = [set] := by
  have hfresh := RingInv.fresh g sets heads mem
  apply ((monitor_ringInv hfresh set).and (l3Monitor_returns hfresh.monitored set)).mono
  intro r hr
  obtain ⟨hinv, hmonitors⟩ := hr
  refine ⟨hinv, ?_⟩
  cases hmonitors with
  | rejected h =>
      have hnsets : ¬((L3pp.fresh g sets heads mem).geo.nsets : ℤ) ≤ set := by
        show ¬(g.nsets : ℤ) ≤ set
        omega
      rcases h with h | h | h
      · omega
      · exact absurd h hnsets
      · exact absurd h List.not_mem_nil
  | added _ _ _ _ _ hlive =>
      rw [hlive]
      rfl

/-- A counting probe of the first set alone reads past the end of its group on a platform whose buffer is too
small. -/
theorem l3Probecount_eq_error {σ : Type} (P : Platform) (block : Malloc P.sizeofPtr (P.l3Size + 4096))
    (leftovers : (n : ℕ) → (Fin n → ℕ) × (Fin n → ℕ)) (mem : Mem) (env : World σ) (world : σ)
    (hpos : 0 < P.l3ProbeGroups * P.l3SetsPerPage) (hshort : ¬P.CountsInRange 0) :
    (do
      let s ← l3Prepare P block leftovers mem
      let r ← l3Monitor s 0
      l3Probecount env r.2 world) = .error .assertion := by
  obtain ⟨s, hs, sets, heads, hfresh, hngroups, hgroupsize⟩ := l3Prepare_returns P block leftovers mem
  obtain ⟨hassoc, hdealt⟩ := (l3Prepare_groups P block leftovers mem).of_eq_ok hs
  have hset : 0 < s.geo.nsets := by
    rw [Geometry.nsets, hngroups, hgroupsize]
    exact hpos
  obtain ⟨r, hr, hinv, hlive⟩ := monitor_fresh sets heads mem hset
  rw [← hfresh] at hr
  rw [hs, ok_bind, show l3Monitor s 0 = .ok r from hr, ok_bind]
  apply countSets_eq_error env hinv .probecount world
  intro hall
  exact hshort ((countsInRange_iff hassoc hgroupsize hdealt hset).mp (hall 0 (hlive ▸ List.mem_cons_self)))

/-- On HIKEY without the mitigation every group has eight pages, and `prime` goes on to the ninth. -/
theorem l3_counting_hikey :
    (do
      let s ← l3Prepare (hikey false) ⟨4096, by decide, by decide⟩ (fun _ => (fun _ => 0, fun _ => 0))
        (fun _ => 0#8)
      let r ← l3Monitor s 0
      l3Probecount quiet r.2 ()) = .error .assertion := by
  apply l3Probecount_eq_error (hikey false) _ _ _ quiet () (by decide)
  rw [hikey_countsInRange_iff false (by decide)]
  decide

end ChannelBench
