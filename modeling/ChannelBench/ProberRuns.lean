import ChannelBench.ProberBookkeeping
import ChannelBench.ProberRings

/-! Runs of the whole L3 prober: monitoring calls, `l3_set_probe_head` and probes in any order. A probe
is admissible when the links it follows have been made: by `l3_monitor`, or by `l3_set_probe_head`
when it goes forward. The backward links of a set that was never monitored are what `malloc` left,
and a probe of them need not come back. -/

namespace ChannelBench

open CSem

/-- The probes. -/
inductive Probe where
  | probetime
  | bprobetime
  | probecount
  | bprobecount
  deriving DecidableEq

/-- A probe that follows the backward links. -/
def Probe.backward : Probe → Bool
  | probetime | probecount => false
  | bprobetime | bprobecount => true

/-- A probe from a head pointer. -/
def Probe.run {σ : Type} (clock : σ → BitVec 32 × σ) (threshold : BitVec 32) (sizeofPtr : ℕ) :
    Probe → (pp : ℕ) → Mem → σ → Run (ℤ × Mem × σ)
  | probetime => ChannelBench.probetime clock sizeofPtr
  | bprobetime => ChannelBench.bprobetime clock sizeofPtr
  | probecount => ChannelBench.probecount clock threshold sizeofPtr
  | bprobecount => ChannelBench.bprobecount clock threshold sizeofPtr

/-- A call to the prober; a probe is given the head of a set, or `NULL` for a set out of range. -/
inductive RingOp where
  | monitoring (op : MonitorOp)
  | setProbeHead (line : ℤ)
  | probe (kind : Probe) (line : ℤ)

/-- What the environment supplies: the results of `random()` and the cycle counter. -/
structure World (σ : Type) where
  random : σ → ℕ × σ
  clock : σ → BitVec 32 × σ
  threshold : BitVec 32

namespace RingOp

/-- The pointer to the head of a set, as `l3_set_probe_head` and `l3_monitor` hand it out. -/
def headFor (g : Geometry) (line : ℤ) : ℕ :=
  if line < 0 ∨ g.nsets ≤ line then 0 else g.headOf line.toNat

def run {σ : Type} (env : World σ) : RingOp → L3pp × σ → Run (Option ℤ × L3pp × σ)
  | monitoring op, st => op.run env.random st
  | setProbeHead line, (s, world) => do
      let (head, s) ← l3SetProbeHead s line
      return (some head, s, world)
  | probe kind line, (s, world) => do
      let (result, mem, world) ←
        kind.run env.clock env.threshold s.geo.sizeofPtr (headFor s.geo line) s.mem world
      return (some result, { s with mem }, world)

/-- A set has been linked in both directions. -/
def BackwardIn (before : List RingOp) (set : ℕ) : Prop := monitoring (.monitor set) ∈ before

/-- A set has been linked forward. -/
def ForwardIn (before : List RingOp) (set : ℕ) : Prop :=
  BackwardIn before set ∨ setProbeHead set ∈ before

/-- The links that a probe follows have been made by the calls before it. -/
def Admissible (g : Geometry) (before : List RingOp) : RingOp → Prop
  | monitoring _ | setProbeHead _ => True
  | probe kind line => ∀ set : ℕ, line = set → set < g.nsets →
      if kind.backward then BackwardIn before set else ForwardIn before set

end RingOp

open RingOp

/-- What holds of the prober after any calls: the bookkeeping is consistent, and every set that has
been linked still is. -/
structure RingInv (g : Geometry) (before : List RingOp) (s : L3pp) : Prop where
  geo_eq : s.geo = g
  monitored : Monitored s
  forward : ∀ set, set < g.nsets → ForwardIn before set → LinkedForward g s.mem set
  backward : ∀ set, set < g.nsets → BackwardIn before set → LinkedBackward g s.mem set
  live : ∀ set ∈ s.live, BackwardIn before set

namespace RingInv

variable {g : Geometry} {before : List RingOp} {s s' : L3pp}

theorem fresh (g : Geometry) (sets heads : Fin g.nsets → ℕ) (mem : Mem) :
    RingInv g [] (L3pp.fresh g sets heads mem) where
  geo_eq := rfl
  monitored := Monitored.fresh g sets heads mem
  forward := by
    intro set _ h
    rcases h with h | h
    · exact absurd h List.not_mem_nil
    · exact absurd h List.not_mem_nil
  backward := fun set _ h => absurd h List.not_mem_nil
  live := fun set h => absurd h List.not_mem_nil

/-- A call that links nothing and keeps all links. -/
theorem keep {op : RingOp} (h : RingInv g before s) (hgeo : s'.geo = s.geo)
    (hmonitored : Monitored s') (hlive : ∀ set ∈ s'.live, set ∈ s.live)
    (hlinks : SameLinks g s.mem s'.mem)
    (hforward : ∀ set, set < g.nsets → ForwardIn (op :: before) set → ForwardIn before set)
    (hbackward : ∀ set, set < g.nsets → BackwardIn (op :: before) set → BackwardIn before set) :
    RingInv g (op :: before) s' where
  geo_eq := hgeo.trans h.geo_eq
  monitored := hmonitored
  forward := fun set hset hin =>
    hlinks.linkedAt hset (Nat.zero_le _) (h.forward set hset (hforward set hset hin))
  backward := fun set hset hin =>
    hlinks.linkedAt hset (le_refl _) (h.backward set hset (hbackward set hset hin))
  live := fun set hset => List.mem_cons_of_mem _ (h.live set (hlive set hset))

end RingInv

theorem SameLinks.refl (g : Geometry) (mem : Mem) : SameLinks g mem mem := fun _ _ _ _ _ _ => rfl

/-! ### One probe -/

/-- A probe that counts slow accesses. -/
def Probe.counting : Probe → Bool
  | probetime | bprobetime => false
  | probecount | bprobecount => true

/-- What a probe of a linked set does: it counts in the lines of the set in the first pages of its
group, in each once, it overwrites no link, and a count is at most the number of lines. -/
structure ProbesOnce (g : Geometry) (mem : Mem) (kind : Probe) (set : ℕ) (result : ℤ) (mem' : Mem) :
    Prop where
  visits : ∃ lines : List ℕ, mem' = lines.foldl (bump g.sizeofPtr) mem ∧
    lines.Perm ((g.linesOf set).map (· + if kind.backward then g.sizeofPtr else 0))
  number : (g.linesOf set).length = min g.associativity (g.pagesOf set).length
  links : SameLinks g mem mem'
  range : kind.counting = true →
    0 ≤ result ∧ result ≤ min g.associativity (g.pagesOf set).length

section OneProbe

variable {g : Geometry} {mem : Mem} {set : ℕ} {σ : Type} (clock : σ → BitVec 32 × σ)
  (threshold : BitVec 32)

theorem headOf_ne_zero (hset : set < g.nsets) : g.headOf set ≠ 0 := by
  have hfits := Geometry.line_fits hset (Geometry.pagesOf_length_pos hset)
  rw [← g.line_zero]
  omega

theorem number_linesOf (g : Geometry) (set : ℕ) :
    (g.linesOf set).length = min g.associativity (g.pagesOf set).length := by
  rw [Geometry.length_linesOf, Geometry.ways_eq_min]

theorem probesOnce_forward {kind : Probe} (hkind : kind.backward = false) (hset : set < g.nsets)
    {result : ℤ} {mem' : Mem} (hmem : mem' = (g.linesOf set).foldl (bump g.sizeofPtr) mem)
    (hrange : kind.counting = true → 0 ≤ result ∧ result ≤ (g.linesOf set).length) :
    ProbesOnce g mem kind set result mem' where
  visits := ⟨_, hmem, by simp [hkind]⟩
  number := number_linesOf g set
  links := hmem ▸ sameLinks_foldl_bump hset (Nat.zero_le _) (fun _ => mem_linesOf) mem
  range := by
    intro hcounting
    have h := hrange hcounting
    rw [number_linesOf] at h
    exact h

theorem probesOnce_backward {kind : Probe} (hkind : kind.backward = true) (hset : set < g.nsets)
    {result : ℤ} {mem' : Mem} (hmem : mem' = (g.linesBack set).foldl (bump g.sizeofPtr) mem)
    (hrange : kind.counting = true → 0 ≤ result ∧ result ≤ (g.linesBack set).length) :
    ProbesOnce g mem kind set result mem' where
  visits := ⟨_, hmem, by simpa [hkind] using Geometry.linesBack_perm hset⟩
  number := number_linesOf g set
  links := hmem ▸ sameLinks_foldl_bump hset (le_refl _) (fun _ => mem_linesBack hset) mem
  range := by
    intro hcounting
    have h := hrange hcounting
    rw [Geometry.length_linesBack, Geometry.ways_eq_min] at h
    exact h

/-- A probe goes round the ring it follows once. -/
theorem Probe.run_returns (kind : Probe) (hset : set < g.nsets)
    (hforward : kind.backward = false → LinkedForward g mem set)
    (hbackward : kind.backward = true → LinkedBackward g mem set) (world : σ) :
    Returns (kind.run clock threshold g.sizeofPtr (g.headOf set) mem world) fun r =>
      ProbesOnce g mem kind set r.1 r.2.1 := by
  have hhead := headOf_ne_zero hset
  cases kind with
  | probetime =>
      have h := ((hforward rfl).probeable hset).probetime_returns clock world
      rw [linesOf_head hset] at h
      exact h.mono fun r hr => probesOnce_forward rfl hset hr fun h => absurd h (by decide)
  | bprobetime =>
      have h := ((hbackward rfl).probeable hset).probetime_returns clock world
      rw [linesBack_head hset] at h
      rw [Probe.run, ChannelBench.bprobetime, if_neg hhead]
      exact h.mono fun r hr => probesOnce_backward rfl hset hr fun h => absurd h (by decide)
  | probecount =>
      have h := ((hforward rfl).probeable hset).probecount_returns clock threshold world
      rw [linesOf_head hset] at h
      exact h.mono fun r hr => probesOnce_forward rfl hset hr.1 fun _ => hr.2
  | bprobecount =>
      have h := ((hbackward rfl).probeable hset).probecount_returns clock threshold world
      rw [linesBack_head hset] at h
      rw [Probe.run, ChannelBench.bprobecount, if_neg hhead]
      exact h.mono fun r hr => probesOnce_backward rfl hset hr.1 fun _ => hr.2

/-- A probe of no set does nothing. -/
theorem Probe.run_null (kind : Probe) (sizeofPtr : ℕ) (mem : Mem) (world : σ) :
    kind.run clock threshold sizeofPtr 0 mem world = .ok (0, mem, world) := by
  cases kind <;> rfl

end OneProbe

/-! ### Runs -/

section Steps

variable {g : Geometry} {before : List RingOp} {s s' : L3pp} {op : RingOp} {set : ℕ}

theorem RingOp.BackwardIn.of_cons (h : BackwardIn (op :: before) set) :
    op = monitoring (.monitor set) ∨ BackwardIn before set :=
  (List.mem_cons.mp h).imp_left Eq.symm

theorem RingOp.ForwardIn.of_cons (h : ForwardIn (op :: before) set) :
    op = monitoring (.monitor set) ∨ op = setProbeHead set ∨ ForwardIn before set := by
  rcases h with h | h
  · exact h.of_cons.imp_right fun h => .inr (.inl h)
  · exact .inr ((List.mem_cons.mp h).imp Eq.symm .inr)

/-- The bookkeeping does not depend on the memory of the probe buffer. -/
theorem Monitored.with_mem {s : L3pp} (h : Monitored s) (mem : Mem) : Monitored { s with mem } :=
  ⟨h.bitmap_length, h.set_length, h.head_length, h.nmonitored_le, h.nodup, h.live_lt, h.bit_iff,
    h.head_eq⟩

/-- A call that is neither `l3_monitor` nor `l3_set_probe_head`. -/
theorem RingInv.keep_other (h : RingInv g before s) (hmonitor : ∀ line, op ≠ monitoring (.monitor line))
    (hset : ∀ line, op ≠ setProbeHead line) (hgeo : s'.geo = s.geo) (hmonitored : Monitored s')
    (hlive : ∀ set ∈ s'.live, set ∈ s.live) (hlinks : SameLinks g s.mem s'.mem) :
    RingInv g (op :: before) s' := by
  apply h.keep hgeo hmonitored hlive hlinks
  · intro set _ hin
    rcases hin.of_cons with heq | heq | hin
    · exact absurd heq (hmonitor _)
    · exact absurd heq (hset _)
    · exact hin
  · intro set _ hin
    rcases hin.of_cons with heq | hin
    · exact absurd heq (hmonitor _)
    · exact hin

/-- `l3_monitor` links a set in both directions and leaves the links of the others. -/
theorem monitor_ringInv (h : RingInv g before s) (line : ℤ) :
    Returns (l3Monitor s line) fun r =>
      RingInv g (monitoring (.monitor line) :: before) r.2 := by
  apply (l3Monitor_returns h.monitored line).mono
  intro r hr
  have hgeo := h.geo_eq
  subst hgeo
  cases hr with
  | rejected hreject =>
      have hold : ∀ set : ℕ, set < s.geo.nsets → line = set → BackwardIn before set := by
        intro set hset heq
        rcases hreject with hlow | hhigh | hlive
        · omega
        · omega
        · rw [heq, Int.toNat_natCast] at hlive
          exact h.live set hlive
      apply h.keep rfl h.monitored (fun _ ht => ht) (SameLinks.refl _ _)
      · intro set hset hin
        rcases hin.of_cons with heq | heq | hin
        · cases heq
          exact .inl (hold set hset rfl)
        · cases heq
        · exact hin
      · intro set hset hin
        rcases hin.of_cons with heq | hin
        · cases heq
          exact hold set hset rfl
        · exact hin
  | added hlow hhigh hnew hmonitored hgeo hlive hforward hbackward hframe =>
      have htarget : line.toNat < s.geo.nsets := by omega
      have hline : (line.toNat : ℤ) = line := Int.toNat_of_nonneg hlow
      refine ⟨hgeo, hmonitored, ?_, ?_, ?_⟩
      · intro set hset hin
        by_cases heq : line.toNat = set
        · rw [← heq]
          exact hforward
        · apply hframe.linkedAt (le_refl _) htarget hset (Nat.zero_le _) (.inl heq)
          apply h.forward set hset
          rcases hin.of_cons with hop | hop | hin
          · cases hop
            exact absurd (Int.toNat_natCast set) heq
          · cases hop
          · exact hin
      · intro set hset hin
        by_cases heq : line.toNat = set
        · rw [← heq]
          exact hbackward
        · apply hframe.linkedAt (le_refl _) htarget hset (le_refl _) (.inl heq)
          apply h.backward set hset
          rcases hin.of_cons with hop | hin
          · cases hop
            exact absurd (Int.toNat_natCast set) heq
          · exact hin
      · intro set hset
        rw [hlive, List.mem_append, List.mem_singleton] at hset
        rcases hset with hset | rfl
        · exact List.mem_cons_of_mem _ (h.live set hset)
        · rw [BackwardIn, hline]
          exact List.mem_cons_self

/-- `l3_set_probe_head` links a set forward and leaves all backward links. -/
theorem setProbeHead_ringInv (h : RingInv g before s) (line : ℤ) :
    Returns (l3SetProbeHead s line) fun r => RingInv g (setProbeHead line :: before) r.2 := by
  have hgeo := h.geo_eq
  subst hgeo
  unfold l3SetProbeHead
  by_cases hrange : line < 0 ∨ s.geo.nsets ≤ line
  · rw [if_pos hrange, returns_pure]
    apply h.keep rfl h.monitored (fun _ ht => ht) (SameLinks.refl _ _)
    · intro set hset hin
      rcases hin.of_cons with heq | heq | hin
      · cases heq
      · cases heq
        omega
      · exact hin
    · intro set hset hin
      rcases hin.of_cons with heq | hin
      · cases heq
      · exact hin
  · have htarget : line.toNat < s.geo.nsets := by omega
    rw [if_neg hrange]
    apply (setheadSingle_returns s.mem htarget).bind
    intro r hr
    obtain ⟨-, hforward, hways⟩ := hr
    have hframe := hways.writesLinks
    rw [returns_pure]
    have hspan : s.geo.sizeofPtr ≤ 2 * s.geo.sizeofPtr := by omega
    refine ⟨rfl, h.monitored.with_mem _, ?_, ?_, ?_⟩
    · intro set hset hin
      by_cases heq : line.toNat = set
      · rw [← heq]
        exact hforward
      · apply hframe.linkedAt hspan htarget hset (Nat.zero_le _) (.inl heq)
        apply h.forward set hset
        rcases hin.of_cons with hop | hop | hin
        · cases hop
        · cases hop
          exact absurd (Int.toNat_natCast set) heq
        · exact hin
    · intro set hset hin
      apply hframe.linkedAt hspan htarget hset (le_refl _) (.inr (le_refl _))
      apply h.backward set hset
      rcases hin.of_cons with hop | hin
      · cases hop
      · exact hin
    · intro set hset
      exact List.mem_cons_of_mem _ (h.live set hset)

variable {σ : Type} (env : World σ)

/-- An admissible probe goes round its set once and keeps all links. -/
theorem probe_returns (h : RingInv g before s) {kind : Probe} {line : ℤ}
    (hadmissible : Admissible g before (probe kind line)) (world : σ) :
    Returns ((probe kind line).run env (s, world)) fun r =>
      ∃ result, r.1 = some result ∧ r.2.1 = { s with mem := r.2.1.mem } ∧
        if 0 ≤ line ∧ line < g.nsets then ProbesOnce g s.mem kind line.toNat result r.2.1.mem
        else result = 0 ∧ r.2.1.mem = s.mem := by
  have hgeo := h.geo_eq
  subst hgeo
  rw [RingOp.run]
  by_cases hrange : 0 ≤ line ∧ line < s.geo.nsets
  · obtain ⟨hlow, hhigh⟩ := hrange
    have hset : line.toNat < s.geo.nsets := by omega
    have hlinked := hadmissible line.toNat (Int.toNat_of_nonneg hlow).symm hset
    have hhead : headFor s.geo line = s.geo.headOf line.toNat := if_neg (by omega)
    rw [hhead]
    apply (kind.run_returns env.clock env.threshold hset _ _ world).bind
    · intro r hr
      rw [returns_pure]
      exact ⟨r.1, rfl, rfl, by rw [if_pos ⟨hlow, hhigh⟩]; exact hr⟩
    · intro hkind
      rw [hkind] at hlinked
      exact h.forward _ hset hlinked
    · intro hkind
      rw [hkind] at hlinked
      exact h.backward _ hset hlinked
  · have hhead : headFor s.geo line = 0 := if_pos (by omega)
    rw [hhead, Probe.run_null, ok_bind, returns_pure]
    exact ⟨0, rfl, rfl, by rw [if_neg hrange]; exact ⟨rfl, rfl⟩⟩

/-- Every admissible call keeps the rings. -/
theorem RingOp.run_ringInv (op : RingOp) (h : RingInv g before s) (hop : Admissible g before op)
    (world : σ) :
    Returns (op.run env (s, world)) fun r => RingInv g (op :: before) r.2.1 := by
  cases op with
  | monitoring op =>
      cases op with
      | monitor line => exact (monitor_ringInv h line).bind fun r hr => returns_pure.mpr hr
      | unmonitor line =>
          apply (l3Unmonitor_returns h.monitored line).bind
          intro r hr
          rw [returns_pure]
          cases hr with
          | rejected _ =>
              exact h.keep_other (by simp) (by simp) rfl h.monitored (fun _ ht => ht) (.refl _ _)
          | removed _ _ hmonitored hgeo hlive hmem =>
              apply h.keep_other (by simp) (by simp) hgeo hmonitored
              · exact fun t ht => hlive.subset (List.mem_cons_of_mem _ ht)
              · rw [hmem]
                exact .refl _ _
      | unmonitorall =>
          apply (l3Unmonitorall_returns h.monitored).bind
          intro s' hs'
          obtain ⟨hmonitored, hgeo, hlive, hmem⟩ := hs'
          rw [returns_pure]
          apply h.keep_other (by simp) (by simp) hgeo hmonitored
          · rw [hlive]
            exact fun t ht => absurd ht List.not_mem_nil
          · rw [hmem]
            exact .refl _ _
      | randomise =>
          apply (l3Randomise_returns env.random h.monitored world).bind
          intro r hr
          obtain ⟨hmonitored, hgeo, hlive, hmem⟩ := hr
          rw [returns_pure]
          apply h.keep_other (by simp) (by simp) hgeo hmonitored
          · exact fun t ht => hlive.subset ht
          · rw [hmem]
            exact .refl _ _
  | setProbeHead line => exact (setProbeHead_ringInv h line).bind fun r hr => returns_pure.mpr hr
  | probe kind line =>
      apply (probe_returns env h hop world).mono
      intro r hr
      obtain ⟨result, -, hs', heffect⟩ := hr
      have hlinks : SameLinks g s.mem r.2.1.mem := by
        split_ifs at heffect with hrange
        · exact heffect.links
        · rw [heffect.2]
          exact .refl _ _
      rw [hs']
      exact h.keep_other (by simp) (by simp) rfl (h.monitored.with_mem _) (fun _ ht => ht) hlinks

end Steps

/-- Both chains of every monitored set are cycles through its lines. -/
def RingsIntact (s : L3pp) : Prop :=
  ∀ i, i < s.nmonitored → ∃ set head, s.monitoredset[i]? = some set ∧
    s.monitoredhead[i]? = some head ∧
      Cycle s.geo.sizeofPtr s.mem head (s.geo.linesOf set) ∧
        Cycle s.geo.sizeofPtr s.mem (head + s.geo.sizeofPtr)
          ((s.geo.linesOf set).map (· + s.geo.sizeofPtr))

theorem RingInv.ringsIntact {g : Geometry} {before : List RingOp} {s : L3pp}
    (h : RingInv g before s) : RingsIntact s := by
  have hgeo := h.geo_eq
  subst hgeo
  intro i hi
  obtain ⟨set, hmem, -, hset, hentry, hhead⟩ := h.monitored.entry hi
  have hbefore := h.live _ hmem
  have hforward := (h.forward _ hset (.inl hbefore)).probeable hset
  have hbackward := (h.backward _ hset hbefore).probeable hset
  have hcycle := hforward.ring.cycle hforward.nonempty hforward.nodup
  have hcycle' := hbackward.ring.cycle hbackward.nonempty hbackward.nodup
  rw [linesOf_head hset] at hcycle
  rw [linesBack_head hset] at hcycle'
  exact ⟨set, s.geo.headOf set, hentry, hhead, hcycle, hcycle'.perm (Geometry.linesBack_perm hset)⟩

/-- **Rings.** In a fresh prober over any groups of pages, after any calls whose probes follow links
made by earlier calls, both chains of every monitored set are cycles through exactly its lines, and
every admissible probe goes round its set once, overwrites no link and counts at most its lines. -/
theorem l3_rings {σ : Type} (g : Geometry) (sets heads : Fin g.nsets → ℕ) (mem : Mem)
    (env : World σ) (world : σ) (ops : List RingOp) (hops : Legal (Admissible g) [] ops) :
    Returns (runAll (RingOp.run env) ops (L3pp.fresh g sets heads mem, world)) fun r =>
      r.2.1.geo = g ∧ RingsIntact r.2.1 ∧
        ∀ kind line, Admissible g ops.reverse (probe kind line) →
          Returns ((probe kind line).run env r.2) fun r' => ∃ result, r'.1 = some result ∧
            if 0 ≤ line ∧ line < g.nsets then
              ProbesOnce g r.2.1.mem kind line.toNat result r'.2.1.mem
            else result = 0 ∧ r'.2.1.mem = r.2.1.mem := by
  apply (runAll_inv (fun before st => RingInv g before st.1)
    (fun before op st h hop => RingOp.run_ringInv env op h hop st.2) ops [] _ hops
    (RingInv.fresh g sets heads mem)).mono
  intro r hr
  rw [List.append_nil] at hr
  refine ⟨hr.geo_eq, hr.ringsIntact, ?_⟩
  intro kind line hadmissible
  apply (probe_returns env hr hadmissible r.2.2).mono
  intro r' hr'
  obtain ⟨result, hresult, -, heffect⟩ := hr'
  exact ⟨result, hresult, heffect⟩

theorem pageGroups_two : PageGroups 4 [VList.ofList [4096, 8192]] := by
  constructor <;> simp

theorem sixteen_ways : 0 < 16 := by decide

theorem word_pointers : 4 ≤ 4 := le_refl 4

/-- One group of two pages. -/
def twoPages : Geometry where
  sizeofPtr := 4
  cacheline := 16
  associativity := 16
  ngroups := 1
  groupsize := 256
  groups := [VList.ofList [4096, 8192]]
  assoc_pos := sixteen_ways
  ptr_room := word_pointers
  line_room := by decide
  page_lines := rfl
  bitmap_room := by decide
  groups_length := rfl
  pages := pageGroups_two

/-- Counters that stand still and draws that are all zero. -/
def quiet : World Unit where
  random := fun world => (0, world)
  clock := fun world => (0#32, world)
  threshold := 110#32

theorem l3_rings_two_pages :
    Returns (runAll (RingOp.run quiet)
      [monitoring (.monitor 0), setProbeHead 1, probe .probecount 1, monitoring (.unmonitor 0),
        probe .bprobecount 0, monitoring (.monitor 7)]
      (L3pp.fresh twoPages (fun _ => 0) (fun _ => 0) (fun _ => 0#8), ())) fun r =>
        RingsIntact r.2.1 := by
  apply (l3_rings twoPages (fun _ => 0) (fun _ => 0) (fun _ => 0#8) quiet () _ _).mono
  · intro r hr
    exact hr.2.1
  · refine ⟨trivial, trivial, ?_, trivial, ?_, trivial, trivial⟩
    · intro set heq _
      have hset : set = 1 := by omega
      subst hset
      exact .inr List.mem_cons_self
    · intro set heq _
      have hset : set = 0 := by omega
      subst hset
      exact List.mem_cons_of_mem _ (List.mem_cons_of_mem _ (List.mem_cons_of_mem _ List.mem_cons_self))

/-- A walk that comes to `NULL` after the first line. -/
theorem probeWalk_null {τ : Type} {sizeofPtr : ℕ} {mem : Mem} {pp : ℕ} (round : τ → τ) (acc : τ)
    (hpp : pp ≠ 0) (hlink : load mem sizeofPtr pp = 0) (hptr : 4 ≤ sizeofPtr) :
    probeWalk sizeofPtr round pp mem acc = .error .bounds := by
  have hlink' : load (bump sizeofPtr mem pp) sizeofPtr pp = 0 := by
    rw [load_bump mem (.inl (by omega)), hlink]
  obtain ⟨n, hn⟩ : ∃ n, 256 ^ sizeofPtr + 1 = n + 2 :=
    ⟨256 ^ sizeofPtr - 1, by have := Nat.pow_pos (n := sizeofPtr) (show 0 < 256 by decide); omega⟩
  rw [probeWalk, hn, loop]
  simp only [require_pos hpp, hlink', pure_bind, if_pos (Ne.symm hpp)]
  rfl

theorem load_cleared (width address : ℕ) : load (fun _ => 0#8) width address = 0 := by
  induction width generalizing address with
  | zero => rfl
  | succ width ih =>
      rw [load, ih]
      rfl

/-- The backward link of a set that only `l3_set_probe_head` linked is what was in the buffer before,
which can be `NULL`. -/
theorem bprobecount_unlinked {g : Geometry} (hset : 0 < g.nsets) (sets heads : Fin g.nsets → ℕ) :
    runAll (RingOp.run quiet) [setProbeHead 0, probe .bprobecount 0]
      (L3pp.fresh g sets heads (fun _ => 0#8), ()) = .error .bounds := by
  have hroom := g.line_room
  have hptr := g.ptr_room
  have hrange : ¬((0 : ℤ) < 0 ∨ (g.nsets : ℤ) ≤ 0) := by omega
  obtain ⟨⟨head, mem⟩, hhead, -, -, hframe⟩ := setheadSingle_returns (fun _ => 0#8) hset
  have hlink : load mem g.sizeofPtr (g.headOf 0 + g.sizeofPtr) = 0 := by
    rw [← g.line_zero, hframe.writesLinks.load_eq (by omega) hset hset
      (Geometry.pagesOf_length_pos hset) (by omega) (.inr (le_refl _)), load_cleared]
  have hlinked : (setProbeHead 0).run quiet (L3pp.fresh g sets heads (fun _ => 0#8), ()) =
      .ok (some head, { L3pp.fresh g sets heads (fun _ => 0#8) with mem }, ()) := by
    have hrange' : ¬((0 : ℤ) < 0 ∨ (L3pp.fresh g sets heads (fun _ => 0#8)).geo.nsets ≤ (0 : ℤ)) := hrange
    rw [RingOp.run, l3SetProbeHead, if_neg hrange']
    show ((setheadSingle g (fun _ => 0#8) 0 >>= _) >>= _) = _
    rw [hhead]
    rfl
  have hprobe : (probe .bprobecount 0).run quiet
      ({ L3pp.fresh g sets heads (fun _ => 0#8) with mem }, ()) = .error .bounds := by
    have hne : g.headOf 0 + g.sizeofPtr ≠ 0 := by omega
    have hpp : headFor g 0 = g.headOf 0 := if_neg hrange
    show bprobecount quiet.clock quiet.threshold g.sizeofPtr (headFor g 0) mem () >>= _ = _
    rw [hpp, bprobecount, if_neg (headOf_ne_zero hset), probecount, if_neg hne,
      probeWalk_null _ _ hne hlink hptr]
    rfl
  rw [runAll, hlinked]
  show ((probe .bprobecount 0).run quiet _ >>= _) >>= _ = _
  rw [hprobe]
  rfl

theorem l3_rings_unlinked :
    ¬Returns (do
        let s ← l3Prepare (sabre false) ⟨4096, by decide, by decide⟩ (fun _ => (fun _ => 0, fun _ => 0))
          (fun _ => 0#8)
        runAll (RingOp.run quiet) [setProbeHead 0, probe .bprobecount 0] (s, ())) fun _ => True := by
  intro h
  obtain ⟨s, hs, sets, heads, hfresh, hngroups, hgroupsize⟩ := l3Prepare_returns (sabre false)
    ⟨4096, by decide, by decide⟩ (fun _ => (fun _ => 0, fun _ => 0)) (fun _ => 0#8)
  have hset : 0 < s.geo.nsets := by
    rw [Geometry.nsets, hngroups, hgroupsize]
    decide
  rw [hs, ok_bind, hfresh, bprobecount_unlinked hset] at h
  exact returns_error.mp h

end ChannelBench
