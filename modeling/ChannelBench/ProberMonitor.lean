import ChannelBench.CBitmap
import ChannelBench.CShuffle
import ChannelBench.ProberPrepare
import ChannelBench.ProberLinks
import Mathlib.Data.List.Perm.Subperm

/-! The monitored sets of the L3 prober. The bitmap, the index array and the head array are three
records of one finite set; `Monitored` says that they agree. Each operation keeps the agreement and
inserts, removes or clears the set as its name says, so that a run of the prober is a run of the
abstract set. -/

namespace ChannelBench

open CSem

/-- The monitored sets, in the order of the index array. -/
def L3pp.live (s : L3pp) : List ℕ := s.monitoredset.take s.nmonitored

/-- The three records of the monitored sets agree. -/
structure Monitored (s : L3pp) : Prop where
  bitmap_length : s.monitoredbitmap.length = s.geo.nsets / 4
  set_length : s.monitoredset.length = s.geo.nsets
  head_length : s.monitoredhead.length = s.geo.nsets
  nmonitored_le : s.nmonitored ≤ s.geo.nsets
  nodup : s.live.Nodup
  live_lt : ∀ set ∈ s.live, set < s.geo.nsets
  bit_iff : ∀ set, set < s.geo.nsets → (bitAt s.monitoredbitmap set = true ↔ set ∈ s.live)
  head_eq : ∀ i, i < s.nmonitored →
    s.monitoredhead[i]? = s.monitoredset[i]?.map s.geo.headOf

section Bits

variable {g : Geometry} {bitmap : List (BitVec 32)} {set : ℕ}

/-- The word of a set is inside the bitmap. -/
theorem word_lt (hset : set < g.nsets) (hbitmap : bitmap.length = g.nsets / 4) :
    set / 32 < bitmap.length := by
  have hroom : 4 ≤ g.nsets := g.bitmap_room
  omega

theorem setnoMask_eq (set : ℕ) : setnoMask set = 1#32 <<< (set % 32) := by
  rw [setnoMask, show 0x1f = 2 ^ 5 - 1 from rfl, Nat.and_two_pow_sub_one_eq_mod]

theorem isMonitored_eq (hset : set < g.nsets) (hbitmap : bitmap.length = g.nsets / 4) :
    isMonitored bitmap set = .ok (bitAt bitmap set) := by
  have hword := word_lt hset hbitmap
  rw [isMonitored, Nat.shiftRight_eq_div_pow, readAt_eq hword, ok_bind, setnoMask_eq, bitAt,
    List.getElem?_eq_getElem hword, and_mask_ne_zero _ (Nat.mod_lt _ (by decide))]
  rfl

theorem setMonitored_returns (hset : set < g.nsets) (hbitmap : bitmap.length = g.nsets / 4) :
    Returns (setMonitored bitmap set) fun bitmap' => bitmap'.length = bitmap.length ∧
      ∀ t, bitAt bitmap' t = if t = set then true else bitAt bitmap t := by
  have hword := word_lt hset hbitmap
  rw [setMonitored, Nat.shiftRight_eq_div_pow, readAt_eq hword, ok_bind, writeAt_eq _ hword,
    setnoMask_eq, returns_ok]
  exact ⟨List.length_set, bitAt_or_mask (by decide) hword⟩

theorem unsetMonitored_returns (hset : set < g.nsets) (hbitmap : bitmap.length = g.nsets / 4) :
    Returns (unsetMonitored bitmap set) fun bitmap' => bitmap'.length = bitmap.length ∧
      ∀ t, bitAt bitmap' t = if t = set then false else bitAt bitmap t := by
  have hword := word_lt hset hbitmap
  rw [unsetMonitored, Nat.shiftRight_eq_div_pow, readAt_eq hword, ok_bind, writeAt_eq _ hword,
    setnoMask_eq, returns_ok]
  exact ⟨List.length_set, bitAt_and_not_mask (by decide) hword⟩

end Bits

namespace Monitored

variable {s : L3pp}

theorem length_live (h : Monitored s) : s.live.length = s.nmonitored := by
  rw [L3pp.live, List.length_take, h.set_length]
  exact Nat.min_eq_left h.nmonitored_le

/-- An entry of the index array and the head that is kept for it. -/
theorem entry (h : Monitored s) {i : ℕ} (hi : i < s.nmonitored) :
    ∃ set ∈ s.live, s.live[i]? = some set ∧ set < s.geo.nsets ∧ s.monitoredset[i]? = some set ∧
      s.monitoredhead[i]? = some (s.geo.headOf set) := by
  have hle := h.nmonitored_le
  have hlt : i < s.monitoredset.length := by
    rw [h.set_length]
    omega
  have hset := List.getElem?_eq_getElem hlt
  have hentry : s.live[i]? = some s.monitoredset[i] := by
    rw [L3pp.live, List.getElem?_take_of_lt hi, hset]
  have hmem := List.mem_of_getElem? hentry
  refine ⟨_, hmem, hentry, h.live_lt _ hmem, hset, ?_⟩
  rw [h.head_eq i hi, hset]
  rfl

/-- As long as a set is not monitored there is room for one more. -/
theorem nmonitored_lt (h : Monitored s) {set : ℕ} (hset : set < s.geo.nsets)
    (hnew : set ∉ s.live) : s.nmonitored < s.geo.nsets := by
  have hnodup : (set :: s.live).Nodup := List.nodup_cons.mpr ⟨hnew, h.nodup⟩
  have hsub : set :: s.live ⊆ List.range s.geo.nsets := by
    intro t ht
    rcases List.mem_cons.mp ht with rfl | ht
    · exact List.mem_range.mpr hset
    · exact List.mem_range.mpr (h.live_lt t ht)
  have hle := (hnodup.subperm hsub).length_le
  rw [List.length_cons, h.length_live, List.length_range] at hle
  exact hle

/-- A freshly prepared prober monitors nothing. -/
theorem fresh (g : Geometry) (sets heads : Fin g.nsets → ℕ) (mem : Mem) :
    Monitored (L3pp.fresh g sets heads mem) where
  bitmap_length := List.length_replicate
  set_length := List.length_ofFn
  head_length := List.length_ofFn
  nmonitored_le := Nat.zero_le _
  nodup := List.nodup_nil
  live_lt := fun set hset => absurd hset (List.not_mem_nil)
  bit_iff := fun set _ => by
    show bitAt (List.replicate _ _) set = true ↔ set ∈ []
    rw [bitAt_replicate_zero]
    simp
  head_eq := fun i hi => absurd hi (Nat.not_lt_zero i)

end Monitored

/-! ### What the operations do -/

/-- What `l3_monitor` does. -/
inductive MonitorsTo (s : L3pp) (line : ℤ) : ℤ × L3pp → Prop
  | rejected (h : line < 0 ∨ s.geo.nsets ≤ line ∨ line.toNat ∈ s.live) : MonitorsTo s line (0, s)
  | added {s' : L3pp} (hlow : 0 ≤ line) (hhigh : line < s.geo.nsets) (hnew : line.toNat ∉ s.live)
      (hmonitored : Monitored s') (hgeo : s'.geo = s.geo)
      (hlive : s'.live = s.live ++ [line.toNat])
      (hforward : LinkedForward s.geo s'.mem line.toNat)
      (hbackward : LinkedBackward s.geo s'.mem line.toNat)
      (hframe : WritesLinks s.geo line.toNat (2 * s.geo.sizeofPtr) s.mem s'.mem) :
      MonitorsTo s line (1, s')

/-- The records after a set has been entered in all three. -/
theorem Monitored.add {s : L3pp} (h : Monitored s) {set : ℕ} (hset : set < s.geo.nsets)
    (hnew : set ∉ s.live) {bitmap : List (BitVec 32)} (hlength : bitmap.length = s.geo.nsets / 4)
    (hbits : ∀ t, bitAt bitmap t = if t = set then true else bitAt s.monitoredbitmap t)
    (mem : Mem) {s' : L3pp}
    (hs' : s' = ⟨s.geo, bitmap, s.monitoredset.set s.nmonitored set, s.nmonitored + 1,
      s.monitoredhead.set s.nmonitored (s.geo.headOf set), mem⟩) :
    Monitored s' ∧ s'.live = s.live ++ [set] := by
  have hroom := h.nmonitored_lt hset hnew
  have hlive : s'.live = s.live ++ [set] := by
    rw [hs', L3pp.live, L3pp.live]
    exact take_set_succ (by rwa [h.set_length]) set
  have hgeo : s'.geo = s.geo := by rw [hs']
  refine ⟨?_, hlive⟩
  constructor
  · rw [hs']
    exact hlength
  · rw [hs']
    exact List.length_set.trans h.set_length
  · rw [hs']
    exact List.length_set.trans h.head_length
  · rw [hs']
    exact hroom
  · rw [hlive, List.nodup_append]
    refine ⟨h.nodup, List.nodup_singleton set, ?_⟩
    intro t ht u hu heq
    rw [List.mem_singleton] at hu
    exact hnew (hu ▸ heq ▸ ht)
  · intro t ht
    rw [hlive, List.mem_append, List.mem_singleton] at ht
    rw [hgeo]
    rcases ht with ht | rfl
    · exact h.live_lt t ht
    · exact hset
  · intro t ht
    rw [hgeo] at ht
    rw [hlive, List.mem_append, List.mem_singleton, hs', hbits t, ← h.bit_iff t ht]
    by_cases hts : t = set
    · simp [hts]
    · simp [hts]
  · intro i hi
    rw [hs'] at hi ⊢
    show (s.monitoredhead.set _ _)[i]? = Option.map s.geo.headOf (s.monitoredset.set _ _)[i]?
    rcases Nat.lt_succ_iff_lt_or_eq.mp hi with hlt | heq
    · rw [List.getElem?_set_ne (by omega), List.getElem?_set_ne (by omega), h.head_eq i hlt]
    · rw [heq, List.getElem?_set_self (by rwa [h.head_length]),
        List.getElem?_set_self (by rwa [h.set_length])]
      rfl

theorem l3Monitor_returns {s : L3pp} (h : Monitored s) (line : ℤ) :
    Returns (l3Monitor s line) (MonitorsTo s line) := by
  unfold l3Monitor
  by_cases hrange : line < 0 ∨ s.geo.nsets ≤ line
  · rw [if_pos hrange, returns_pure]
    exact .rejected (by tauto)
  have hset : line.toNat < s.geo.nsets := by omega
  simp only [if_neg hrange, isMonitored_eq hset h.bitmap_length, ok_bind]
  by_cases hbit : bitAt s.monitoredbitmap line.toNat = true
  · rw [if_pos hbit, returns_pure]
    exact .rejected (.inr (.inr ((h.bit_iff _ hset).mp hbit)))
  have hnew : line.toNat ∉ s.live := fun hmem => hbit ((h.bit_iff _ hset).mpr hmem)
  have hroom := h.nmonitored_lt hset hnew
  rw [if_neg hbit]
  apply (setMonitored_returns hset h.bitmap_length).bind
  intro bitmap hbitmap
  obtain ⟨hlength, hbits⟩ := hbitmap
  rw [writeAt_eq _ (by rwa [h.set_length]), ok_bind]
  apply (sethead_returns s.mem hset).bind
  intro r hr
  obtain ⟨hhead, hforward, hbackward, hframe⟩ := hr
  obtain ⟨head, mem⟩ := r
  dsimp only at hhead
  rw [writeAt_eq _ (by rwa [h.head_length]), ok_bind, returns_pure, hhead]
  obtain ⟨hmonitored, hlive⟩ :=
    h.add hset hnew (hlength.trans h.bitmap_length) hbits mem rfl
  exact .added (by omega) (by omega) hnew hmonitored rfl hlive hforward hbackward
    hframe.writesLinks

/-- What `l3_unmonitor` does. -/
inductive UnmonitorsTo (s : L3pp) (line : ℤ) : ℤ × L3pp → Prop
  | rejected (h : line < 0 ∨ s.geo.nsets ≤ line ∨ line.toNat ∉ s.live) : UnmonitorsTo s line (0, s)
  | removed {s' : L3pp} (hlow : 0 ≤ line) (hhigh : line < s.geo.nsets) (hmonitored : Monitored s')
      (hgeo : s'.geo = s.geo) (hlive : (line.toNat :: s'.live).Perm s.live)
      (hmem : s'.mem = s.mem) : UnmonitorsTo s line (1, s')

/-- The prober after the last entries of the two arrays have been moved into slot `i`. -/
def L3pp.removeAt (s : L3pp) (i lastSet lastHead : ℕ) : L3pp :=
  { s with
    monitoredset := s.monitoredset.set i lastSet
    monitoredhead := s.monitoredhead.set i lastHead
    nmonitored := s.nmonitored - 1 }

/-- The loop of `l3_unmonitor` finds the entry of a monitored set. -/
theorem unmonitorLoop_returns {s : L3pp} {set : ℕ} (hmem : set ∈ s.live)
    (hset : s.nmonitored ≤ s.monitoredset.length) (hhead : s.nmonitored ≤ s.monitoredhead.length) :
    Returns (loop (unmonitorRound set) (s.nmonitored + 1) (0, s)) fun s' =>
      ∃ i lastSet lastHead, i < s.nmonitored ∧ s.monitoredset[i]? = some set ∧
        s.monitoredset[s.nmonitored - 1]? = some lastSet ∧
          s.monitoredhead[s.nmonitored - 1]? = some lastHead ∧
            s' = s.removeAt i lastSet lastHead := by
  obtain ⟨k, hk, hentry⟩ := List.getElem_of_mem hmem
  rw [L3pp.live, List.length_take] at hk
  simp only [L3pp.live, List.getElem_take] at hentry
  -- the entry is not in front of the scan
  apply loop_returns (fun t : ℕ × L3pp => t.2 = s ∧ t.1 ≤ k) _ (fun t => s.nmonitored - t.1)
  · intro t ht
    obtain ⟨i, t⟩ := t
    obtain ⟨hts, hi⟩ := ht
    dsimp only at hts hi ⊢
    subst hts
    have hlt : i < t.nmonitored := by omega
    simp only [unmonitorRound, if_pos hlt, readAt_eq (show i < t.monitoredset.length by omega), ok_bind]
    by_cases hfound : t.monitoredset[i] = set
    · simp only [if_pos hfound,
        readAt_eq (show t.nmonitored - 1 < t.monitoredset.length by omega),
        readAt_eq (show t.nmonitored - 1 < t.monitoredhead.length by omega),
        writeAt_eq _ (show i < t.monitoredset.length by omega),
        writeAt_eq _ (show i < t.monitoredhead.length by omega), ok_bind, returns_pure]
      exact ⟨i, _, _, hlt, List.getElem?_eq_some_iff.mpr ⟨by omega, hfound⟩,
        List.getElem?_eq_getElem _, List.getElem?_eq_getElem _, rfl⟩
    · rw [if_neg hfound, returns_pure]
      have hne : i ≠ k := by
        intro hik
        subst hik
        exact hfound hentry
      exact ⟨⟨rfl, by omega⟩, by dsimp only; omega⟩
  · exact ⟨rfl, Nat.zero_le k⟩
  · dsimp only
    omega

/-- The records after a set has been taken out of all three. -/
theorem Monitored.remove {s : L3pp} (h : Monitored s) {set : ℕ}
    {bitmap : List (BitVec 32)} (hlength : bitmap.length = s.geo.nsets / 4)
    (hbits : ∀ t, bitAt bitmap t = if t = set then false else bitAt s.monitoredbitmap t)
    {i lastSet lastHead : ℕ} (hi : i < s.nmonitored) (hentry : s.monitoredset[i]? = some set)
    (hlastSet : s.monitoredset[s.nmonitored - 1]? = some lastSet)
    (hlastHead : s.monitoredhead[s.nmonitored - 1]? = some lastHead) {s' : L3pp}
    (hs' : s' = L3pp.removeAt { s with monitoredbitmap := bitmap } i lastSet lastHead) :
    Monitored s' ∧ (set :: s'.live).Perm s.live := by
  have hle : s.nmonitored ≤ s.monitoredset.length := by
    rw [h.set_length]
    exact h.nmonitored_le
  have hlive : s'.live = swapRemove s.live i := by
    obtain ⟨hlt, rfl⟩ := List.getElem?_eq_some_iff.mp hlastSet
    rw [hs', L3pp.live, L3pp.live]
    exact take_set_last hi hle
  have hlt : i < s.live.length := by rwa [h.length_live]
  have hget : s.live[i] = set := by
    obtain ⟨_, hslot⟩ := List.getElem?_eq_some_iff.mp hentry
    simp only [L3pp.live, List.getElem_take]
    exact hslot
  have hperm : (set :: s'.live).Perm s.live := by
    rw [hlive, ← hget]
    exact perm_swapRemove hlt
  have hnodup : (set :: s'.live).Nodup := hperm.nodup_iff.mpr h.nodup
  have hgeo : s'.geo = s.geo := by rw [hs']; rfl
  refine ⟨?_, hperm⟩
  constructor
  · rw [hs']
    exact hlength
  · rw [hs']
    exact List.length_set.trans h.set_length
  · rw [hs']
    exact List.length_set.trans h.head_length
  · rw [hs']
    exact Nat.le_trans (Nat.sub_le _ _) h.nmonitored_le
  · exact (List.nodup_cons.mp hnodup).2
  · intro t ht
    rw [hgeo]
    exact h.live_lt t (hperm.subset (List.mem_cons_of_mem _ ht))
  · intro t ht
    rw [hgeo] at ht
    have hmem := hperm.mem_iff (a := t)
    rw [List.mem_cons, ← h.bit_iff t ht] at hmem
    rw [hs']
    show bitAt bitmap t = true ↔ _
    rw [hbits t]
    by_cases hts : t = set
    · subst hts
      simpa [hs'] using (List.nodup_cons.mp hnodup).1
    · rw [if_neg hts, ← hmem, hs']
      simp [hts]
  · intro k hk
    have hlast := h.head_eq (s.nmonitored - 1) (by omega)
    rw [hs'] at hk ⊢
    have hk' : k < s.nmonitored - 1 := hk
    show (s.monitoredhead.set i lastHead)[k]? = Option.map s.geo.headOf (s.monitoredset.set i lastSet)[k]?
    by_cases hik : i = k
    · subst hik
      rw [List.getElem?_set_self (by rw [h.head_length]; exact Nat.lt_of_lt_of_le hi h.nmonitored_le),
        List.getElem?_set_self (by omega), ← hlastHead, ← hlastSet, hlast]
    · rw [List.getElem?_set_ne hik, List.getElem?_set_ne hik, h.head_eq k (by omega)]

theorem l3Unmonitor_returns {s : L3pp} (h : Monitored s) (line : ℤ) :
    Returns (l3Unmonitor s line) (UnmonitorsTo s line) := by
  unfold l3Unmonitor
  by_cases hrange : line < 0 ∨ s.geo.nsets ≤ line
  · rw [if_pos hrange, returns_pure]
    exact .rejected (by tauto)
  have hset : line.toNat < s.geo.nsets := by omega
  simp only [if_neg hrange, isMonitored_eq hset h.bitmap_length, ok_bind]
  by_cases hbit : bitAt s.monitoredbitmap line.toNat = true
  · have hmem := (h.bit_iff _ hset).mp hbit
    have hle := h.nmonitored_le
    rw [if_pos hbit]
    apply (unsetMonitored_returns hset h.bitmap_length).bind
    intro bitmap hbitmap
    obtain ⟨hlength, hbits⟩ := hbitmap
    apply (unmonitorLoop_returns (s := { s with monitoredbitmap := bitmap }) hmem
      (by rwa [h.set_length]) (by rwa [h.head_length])).bind
    intro s' hs'
    obtain ⟨i, lastSet, lastHead, hi, hentry, hlastSet, hlastHead, hs'⟩ := hs'
    obtain ⟨hmonitored, hperm⟩ :=
      h.remove (hlength.trans h.bitmap_length) hbits hi hentry hlastSet hlastHead hs'
    rw [returns_pure]
    exact .removed (by omega) (by omega) hmonitored (by rw [hs']; rfl) hperm (by rw [hs']; rfl)
  · rw [if_neg hbit, returns_pure]
    exact .rejected (.inr (.inr fun hmem => hbit ((h.bit_iff _ hset).mpr hmem)))

theorem l3Unmonitorall_returns {s : L3pp} (h : Monitored s) :
    Returns (l3Unmonitorall s) fun s' =>
      Monitored s' ∧ s'.geo = s.geo ∧ s'.live = [] ∧ s'.mem = s.mem := by
  unfold l3Unmonitorall
  apply (fill_returns (fun _ => 0#32) h.bitmap_length.ge).bind
  intro bitmap hbitmap
  rw [← h.bitmap_length, List.drop_length, List.append_nil, h.bitmap_length] at hbitmap
  have hlength : bitmap.length = s.geo.nsets / 4 := by
    rw [hbitmap, List.length_map, List.length_range]
  rw [returns_pure]
  refine ⟨?_, rfl, rfl, rfl⟩
  constructor
  · exact hlength
  · exact h.set_length
  · exact h.head_length
  · exact Nat.zero_le _
  · exact List.nodup_nil
  · exact fun t ht => absurd ht List.not_mem_nil
  · intro t ht
    show bitAt bitmap t = true ↔ t ∈ []
    have hword : t / 32 < s.geo.nsets / 4 := hlength ▸ word_lt ht hlength
    rw [bitAt, hbitmap, List.getElem?_map, List.getElem?_range hword]
    simp
  · exact fun i hi => absurd hi (Nat.not_lt_zero i)

/-- The shuffle of the two arrays, whatever they hold: both go through the permutation that the draws add
up to, and nothing else changes. -/
theorem l3Randomise_permutes {σ : Type} (random : σ → ℕ × σ) {s : L3pp}
    (hset : s.nmonitored ≤ s.monitoredset.length) (hhead : s.nmonitored ≤ s.monitoredhead.length) (world : σ) :
    Returns (l3Randomise random s world) fun r =>
      Permuted (drawsOf random s.nmonitored world).perm s.monitoredset r.1.monitoredset ∧
      Permuted (drawsOf random s.nmonitored world).perm s.monitoredhead r.1.monitoredhead ∧
      r.1 = { s with monitoredset := r.1.monitoredset, monitoredhead := r.1.monitoredhead } := by
  let draws := drawsOf random s.nmonitored world
  have hloop : Returns (l3Randomise random s world) fun r =>
      ∃ monitoredset monitoredhead, Permuted (draws.permUpto s.nmonitored) s.monitoredset monitoredset ∧
        Permuted (draws.permUpto s.nmonitored) s.monitoredhead monitoredhead ∧
        r = ({ s with monitoredset, monitoredhead }, worldAt random world s.nmonitored) := by
    apply forUpto_returns (fun i (st : L3pp × σ) =>
      ∃ monitoredset monitoredhead, Permuted (draws.permUpto i) s.monitoredset monitoredset ∧
        Permuted (draws.permUpto i) s.monitoredhead monitoredhead ∧
        st = ({ s with monitoredset, monitoredhead }, worldAt random world i))
      ⟨s.monitoredset, s.monitoredhead, .refl _, .refl _, rfl⟩
    rintro i hi _ ⟨monitoredset, monitoredhead, hset', hhead', rfl⟩
    apply (shuffleRound_returns random hi hset hset').bind
    intro monitoredset' hset''
    apply (shuffleRound_returns random hi hhead hhead').bind
    intro monitoredhead' hhead''
    rw [returns_pure, worldAt_succ]
    exact ⟨monitoredset', monitoredhead', hset'', hhead'', rfl⟩
  apply hloop.mono
  rintro _ ⟨monitoredset, monitoredhead, hset', hhead', rfl⟩
  rw [Draws.permUpto_all] at hset' hhead'
  exact ⟨hset', hhead', rfl⟩

/-- The records after the same permutation of both arrays. -/
theorem Monitored.permuted {s : L3pp} (h : Monitored s) {e : Equiv.Perm (Fin s.nmonitored)}
    {monitoredset monitoredhead : List ℕ} (hset : Permuted e s.monitoredset monitoredset)
    (hhead : Permuted e s.monitoredhead monitoredhead) {s' : L3pp}
    (hs' : s' = { s with monitoredset, monitoredhead }) :
    Monitored s' ∧ s'.live.Perm s.live := by
  have hle := h.nmonitored_le
  have hperm : s'.live.Perm s.live := by
    rw [hs']
    exact hset.take_perm (by rwa [h.set_length])
  refine ⟨?_, hperm⟩
  subst hs'
  constructor
  · exact h.bitmap_length
  · exact hset.length_eq.trans h.set_length
  · exact hhead.length_eq.trans h.head_length
  · exact hle
  · exact hperm.nodup_iff.mpr h.nodup
  · exact fun t ht => h.live_lt t (hperm.subset ht)
  · exact fun t ht => (h.bit_iff t ht).trans hperm.mem_iff.symm
  · intro i hi
    show monitoredhead[i]? = monitoredset[i]?.map s.geo.headOf
    rw [hset.getElem?_eq, hhead.getElem?_eq]
    exact h.head_eq _ (onIndex_lt hi)

theorem l3Randomise_returns {σ : Type} (random : σ → ℕ × σ) {s : L3pp} (h : Monitored s)
    (world : σ) :
    Returns (l3Randomise random s world) fun r =>
      Monitored r.1 ∧ r.1.geo = s.geo ∧ r.1.live.Perm s.live ∧ r.1.mem = s.mem := by
  have hle := h.nmonitored_le
  apply (l3Randomise_permutes random (by rwa [h.set_length]) (by rwa [h.head_length]) world).mono
  intro r hr
  obtain ⟨hset, hhead, heq⟩ := hr
  obtain ⟨hmonitored, hlive⟩ := h.permuted hset hhead heq
  exact ⟨hmonitored, by rw [heq], hlive, by rw [heq]⟩

end ChannelBench
