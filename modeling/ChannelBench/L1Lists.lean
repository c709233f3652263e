import ChannelBench.CGather
import ChannelBench.CShuffle
import ChannelBench.L1Links
import Mathlib.Data.List.Perm.Subperm

/-! The lists through the monitored sets of the L1 prober. The links between the ways of a set are made
once and never changed; the links between sets are made anew for every order of the monitored sets,
and only the pointers of monitored sets are written, so that a walk cannot leave them. -/

namespace ChannelBench

open CSem L1Layout

/-- The monitored sets in the order of the lists. -/
def L1info.live (s : L1info) : List ℕ := s.monitored.take s.nsets

/-- The sets of a mask. -/
def maskSets (C : L1Config) (masks : List (BitVec 64)) : List ℕ :=
  (List.range C.l1Sets).filter (bitAt masks)

/-- The ways of every set are linked in order, and backward in the opposite order. -/
def WaysLinked (l1 : L1Layout) (mem : Mem) : Prop :=
  ∀ set way, set < l1.l1Sets → way + 1 < l1.l1Associativity →
    l1.follow mem ⟨set, way, 0⟩ = l1.slotPtr ⟨set, way + 1, 0⟩ ∧
      l1.follow mem ⟨set, way + 1, 1⟩ = l1.slotPtr ⟨set, way, 1⟩

/-- Both lists go from one set to another. -/
def Hop (l1 : L1Layout) (mem : Mem) (a b : ℕ) : Prop :=
  l1.follow mem ⟨a, l1.l1Associativity - 1, 0⟩ = l1.slotPtr ⟨b, 0, 0⟩ ∧
    l1.follow mem ⟨a, 0, 1⟩ = l1.slotPtr ⟨b, l1.l1Associativity - 1, 1⟩

/-- Both lists go through the given sets in order and back to the first. -/
structure SetsLinked (l1 : L1Layout) (mem : Mem) (live : List ℕ) (fwdlist bkwlist : ℕ) : Prop where
  hops : live.IsChain (Hop l1 mem)
  closes : ∀ first ∈ live.head?, ∀ last ∈ live.getLast?, Hop l1 mem last first
  fwd : ∀ first ∈ live.head?, fwdlist = l1.slotPtr ⟨first, 0, 0⟩
  bkw : ∀ first ∈ live.head?, bkwlist = l1.slotPtr ⟨first, l1.l1Associativity - 1, 1⟩

section Linking

variable {l1 : L1Layout} {mem : Mem} {a b c : ℕ}

theorem L1Layout.last_lt (l1 : L1Layout) : l1.l1Associativity - 1 < l1.l1Associativity :=
  Nat.sub_lt l1.assoc_pos Nat.one_pos

/-- The two stores that link one set to another. -/
def hopLink (l1 : L1Layout) (mem : Mem) (a b : ℕ) : Mem :=
  l1.link (l1.link mem (l1.ptr a (l1.l1Associativity - 1) 0) (l1.ptr b 0 0)) (l1.ptr a 0 1)
    (l1.ptr b (l1.l1Associativity - 1) 1)

theorem follow_hopLink (ha : a < l1.l1Sets) (hb : b < l1.l1Sets) {slot : L1Slot}
    (hslot : l1.Valid slot) : l1.follow (hopLink l1 mem a b) slot =
      if slot = ⟨a, 0, 1⟩ then l1.slotPtr ⟨b, l1.l1Associativity - 1, 1⟩
      else if slot = ⟨a, l1.l1Associativity - 1, 0⟩ then l1.slotPtr ⟨b, 0, 0⟩
      else l1.follow mem slot := by
  have hpos := l1.assoc_pos
  have hlast := l1.last_lt
  have hback : l1.Valid ⟨a, 0, 1⟩ := valid_backward ha hpos
  have hforward : l1.Valid ⟨a, l1.l1Associativity - 1, 0⟩ := valid_forward ha hlast
  have hback' : l1.Valid ⟨b, l1.l1Associativity - 1, 1⟩ := valid_backward hb hlast
  have hforward' : l1.Valid ⟨b, 0, 0⟩ := valid_forward hb hpos
  rw [← follow_link mem hforward hslot hforward']
  exact follow_link _ hback hslot hback'

theorem hop_hopLink (ha : a < l1.l1Sets) (hb : b < l1.l1Sets) : Hop l1 (hopLink l1 mem a b) a b := by
  have hpos := l1.assoc_pos
  have hlast := l1.last_lt
  constructor
  · rw [follow_hopLink ha hb (valid_forward ha hlast)]
    simp
  · rw [follow_hopLink ha hb (valid_backward ha hpos)]
    simp

/-- Linking a set leaves the hops from other sets. -/
theorem Hop.hopLink {c d : ℕ} (h : Hop l1 mem c d) (ha : a < l1.l1Sets) (hb : b < l1.l1Sets)
    (hc : c < l1.l1Sets) (hne : c ≠ a) : Hop l1 (hopLink l1 mem a b) c d := by
  have hpos := l1.assoc_pos
  have hlast := l1.last_lt
  constructor
  · rw [follow_hopLink ha hb (valid_forward hc hlast)]
    simp only [L1Slot.mk.injEq, hne, false_and, if_false]
    exact h.1
  · rw [follow_hopLink ha hb (valid_backward hc hpos)]
    simp only [L1Slot.mk.injEq, hne, false_and, if_false]
    exact h.2

/-- Linking sets leaves the links between ways. -/
theorem WaysLinked.hopLink (h : WaysLinked l1 mem) (ha : a < l1.l1Sets) (hb : b < l1.l1Sets) :
    WaysLinked l1 (hopLink l1 mem a b) := by
  intro set way hset hway
  obtain ⟨hforward, hback⟩ := h set way hset hway
  constructor
  · rw [follow_hopLink ha hb (valid_forward hset (by omega)), if_neg (by simp), if_neg (by simp; omega)]
    exact hforward
  · rw [follow_hopLink ha hb (valid_backward hset hway), if_neg (by simp), if_neg (by simp)]
    exact hback

/-- The pairs of neighbouring ways that come before a way of a set in the order of the loops. -/
def WaysLinkedTo (l1 : L1Layout) (n m : ℕ) (mem : Mem) : Prop :=
  ∀ set way, set < l1.l1Sets → way + 1 < l1.l1Associativity → set < n ∨ set = n ∧ way < m →
    l1.follow mem ⟨set, way, 0⟩ = l1.slotPtr ⟨set, way + 1, 0⟩ ∧
      l1.follow mem ⟨set, way + 1, 1⟩ = l1.slotPtr ⟨set, way, 1⟩

theorem WaysLinkedTo.step {n m : ℕ} (h : WaysLinkedTo l1 n m mem) (hn : n < l1.l1Sets)
    (hm : m + 1 < l1.l1Associativity) :
    WaysLinkedTo l1 n (m + 1)
      (l1.link (l1.link mem (l1.ptr n m 0) (l1.ptr n (m + 1) 0)) (l1.ptr n (m + 1) 1) (l1.ptr n m 1)) := by
  have hf : l1.Valid ⟨n, m, 0⟩ := valid_forward hn (by omega)
  have hf' : l1.Valid ⟨n, m + 1, 0⟩ := valid_forward hn hm
  have hb : l1.Valid ⟨n, m, 1⟩ := valid_backward hn (by omega)
  have hb' : l1.Valid ⟨n, m + 1, 1⟩ := valid_backward hn hm
  have hfollow : ∀ slot, l1.Valid slot → l1.follow (l1.link (l1.link mem (l1.ptr n m 0)
      (l1.ptr n (m + 1) 0)) (l1.ptr n (m + 1) 1) (l1.ptr n m 1)) slot =
        if slot = ⟨n, m + 1, 1⟩ then l1.slotPtr ⟨n, m, 1⟩
        else if slot = ⟨n, m, 0⟩ then l1.slotPtr ⟨n, m + 1, 0⟩ else l1.follow mem slot := by
    intro slot hslot
    rw [← follow_link mem hf hslot hf']
    exact follow_link _ hb' hslot hb
  intro set way hset hway hdone
  rw [hfollow _ (valid_forward hset (by omega)), hfollow _ (valid_backward hset hway)]
  by_cases hhere : set = n ∧ way = m
  · obtain ⟨rfl, rfl⟩ := hhere
    simp
  · have hold := h set way hset hway (by omega)
    have hne : ¬(set = n ∧ way = m) := hhere
    simp only [L1Slot.mk.injEq, Nat.add_right_cancel_iff, and_true, hne, if_false, Nat.zero_ne_one,
      Nat.one_ne_zero, and_false]
    exact hold

theorem l1LinkWays_returns (l1 : L1Layout) (mem : Mem) :
    Returns (l1LinkWays l1 mem) (WaysLinked l1) := by
  unfold l1LinkWays
  apply Returns.mono (forUpto_returns (fun n => WaysLinkedTo l1 n 0) _ _)
  · intro mem h set way hset hway
    exact h set way hset hway (.inl hset)
  · intro set way _ _ hdone
    omega
  · intro n hn mem h
    apply Returns.mono (forUpto_returns (fun m => WaysLinkedTo l1 n m) h _)
    · intro mem h set way hset hway hdone
      exact h set way hset hway (by omega)
    · intro m hm mem h
      exact returns_pure.mpr (h.step hn (by omega))

end Linking

/-! ### Shuffling and linking the monitored sets -/

theorem l1Shuffle_returns {σ : Type} (random : σ → ℕ × σ) {nsets : ℕ} {monitored : List ℕ}
    (hle : nsets ≤ monitored.length) (world : σ) :
    Returns (l1Shuffle random nsets monitored world) fun r =>
      r.1.length = monitored.length ∧ (r.1.take nsets).Perm (monitored.take nsets) := by
  apply (shuffle_returns random hle world).mono
  intro r h
  exact ⟨h.1.length_eq, h.1.take_perm hle⟩

/-- What the entry points of the lists keep: the ways are linked, the lists go through the monitored
sets, and these are the given ones. -/
structure L1Inv (l1 : L1Layout) (sets : List ℕ) (s : L1info) : Prop where
  layout_eq : s.layout = l1
  masks_length : s.monitoredSets.length = l1.monitorMask
  monitored_length : s.monitored.length = l1.l1Sets
  nsets_eq : s.nsets = sets.length
  live_perm : s.live.Perm sets
  ways : WaysLinked l1 s.mem
  linked : SetsLinked l1 s.mem s.live s.fwdlist s.bkwlist

/-- What holds before the monitored sets are put in order. -/
structure L1Ready (l1 : L1Layout) (sets : List ℕ) (s : L1info) : Prop where
  layout_eq : s.layout = l1
  masks_length : s.monitoredSets.length = l1.monitorMask
  monitored_length : s.monitored.length = l1.l1Sets
  nsets_eq : s.nsets = sets.length
  live_perm : s.live.Perm sets
  ways : WaysLinked l1 s.mem

/-- The monitored sets of a prober are the given ones, whatever its memory holds. -/
structure L1Listed (l1 : L1Layout) (sets : List ℕ) (s : L1info) : Prop where
  layout_eq : s.layout = l1
  masks_length : s.monitoredSets.length = l1.monitorMask
  monitored_length : s.monitored.length = l1.l1Sets
  nsets_eq : s.nsets = sets.length
  live_perm : s.live.Perm sets

theorem L1Ready.listed {l1 : L1Layout} {sets : List ℕ} {s : L1info} (h : L1Ready l1 sets s) :
    L1Listed l1 sets s :=
  ⟨h.layout_eq, h.masks_length, h.monitored_length, h.nsets_eq, h.live_perm⟩

theorem L1Listed.inv {l1 : L1Layout} {sets : List ℕ} {s : L1info} (h : L1Listed l1 sets s)
    (hways : WaysLinked l1 s.mem) (hlinked : SetsLinked l1 s.mem s.live s.fwdlist s.bkwlist) :
    L1Inv l1 sets s :=
  ⟨h.layout_eq, h.masks_length, h.monitored_length, h.nsets_eq, h.live_perm, hways, hlinked⟩

theorem L1Inv.ready {l1 : L1Layout} {sets : List ℕ} {s : L1info} (h : L1Inv l1 sets s) :
    L1Ready l1 sets s :=
  ⟨h.layout_eq, h.masks_length, h.monitored_length, h.nsets_eq, h.live_perm, h.ways⟩

/-- The sets a prober may monitor: some, each once, all in the cache. -/
structure SetList (l1 : L1Layout) (sets : List ℕ) : Prop where
  nonempty : 0 < sets.length
  nodup : sets.Nodup
  bounded : ∀ set ∈ sets, set < l1.l1Sets

theorem SetList.length_le {l1 : L1Layout} {sets : List ℕ} (h : SetList l1 sets) :
    sets.length ≤ l1.l1Sets := by
  have hsub : sets ⊆ List.range l1.l1Sets := fun set hset => List.mem_range.mpr (h.bounded set hset)
  simpa using (h.nodup.subperm hsub).length_le

theorem SetList.perm {l1 : L1Layout} {sets sets' : List ℕ} (h : SetList l1 sets)
    (hperm : sets'.Perm sets) : SetList l1 sets' where
  nonempty := by rw [hperm.length_eq]; exact h.nonempty
  nodup := hperm.nodup_iff.mpr h.nodup
  bounded := fun set hset => h.bounded set (hperm.subset hset)

section Randomise

variable {l1 : L1Layout} {mem : Mem} {sets : List ℕ}

/-- The hops among the first sets of a list. -/
def HopsTo (l1 : L1Layout) (live : List ℕ) (n : ℕ) (mem : Mem) : Prop :=
  ∀ i (hi : i + 1 < live.length), i < n → Hop l1 mem live[i] live[i + 1]

theorem HopsTo.step {n : ℕ} (h : HopsTo l1 sets n mem) (hsets : SetList l1 sets)
    (hn : n + 1 < sets.length) : HopsTo l1 sets (n + 1) (hopLink l1 mem sets[n] sets[n + 1]) := by
  have hbound : ∀ i (hi : i < sets.length), sets[i] < l1.l1Sets := fun i hi =>
    hsets.bounded _ (List.getElem_mem hi)
  intro i hi hdone
  by_cases hin : i = n
  · subst hin
    exact hop_hopLink (hbound _ _) (hbound _ _)
  · apply (h i hi (by omega)).hopLink (hbound _ _) (hbound _ _) (hbound _ _)
    rw [Ne, hsets.nodup.getElem_inj_iff]
    exact hin

/-- Closing the lists after the last hop. -/
theorem HopsTo.setsLinked (h : HopsTo l1 sets (sets.length - 1) mem) (hsets : SetList l1 sets) :
    SetsLinked l1 (hopLink l1 mem (getElem sets (sets.length - 1) (Nat.sub_lt hsets.nonempty Nat.one_pos))
      (getElem sets 0 hsets.nonempty)) sets (l1.slotPtr ⟨(getElem sets 0 hsets.nonempty), 0, 0⟩)
      (l1.slotPtr ⟨(getElem sets 0 hsets.nonempty), l1.l1Associativity - 1, 1⟩) := by
  have hpos := hsets.nonempty
  have hbound : ∀ i (hi : i < sets.length), sets[i] < l1.l1Sets := fun i hi =>
    hsets.bounded _ (List.getElem_mem hi)
  have hhead : ∀ first ∈ sets.head?, sets[0] = first := by
    intro first hfirst
    rw [List.head?_eq_getElem?, List.getElem?_eq_getElem hpos] at hfirst
    exact Option.some.inj hfirst
  constructor
  · rw [List.isChain_iff_getElem]
    intro i hi
    apply (h i hi (by omega)).hopLink (hbound _ _) (hbound _ _) (hbound _ _)
    rw [Ne, hsets.nodup.getElem_inj_iff]
    omega
  · intro first hfirst last hlast
    rw [List.getLast?_eq_getElem?, List.getElem?_eq_getElem (by omega)] at hlast
    rw [← hhead first hfirst, ← Option.some.inj hlast]
    exact hop_hopLink (hbound _ _) (hbound _ _)
  · intro first hfirst
    rw [hhead first hfirst]
  · intro first hfirst
    rw [hhead first hfirst]

/-- `l1_randomise` puts the monitored sets in some order and links them in that order. What linking one set
to another keeps of the memory, it keeps. -/
theorem l1Randomise_keeps {σ : Type} {P : Mem → Prop} (random : σ → ℕ × σ) {s : L1info}
    (h : L1Listed l1 sets s) (hsets : SetList l1 sets) (hmem : P s.mem)
    (hkeep : ∀ mem a b, a < l1.l1Sets → b < l1.l1Sets → P mem → P (hopLink l1 mem a b)) (world : σ) :
    Returns (l1Randomise random s world) fun r =>
      L1Listed l1 sets r.1 ∧ P r.1.mem ∧ SetsLinked l1 r.1.mem r.1.live r.1.fwdlist r.1.bkwlist := by
  obtain ⟨rfl, hmasks, hlength, hnsets, hperm⟩ := h
  have hle := hsets.length_le
  rw [l1Randomise]
  apply (l1Shuffle_returns random (by omega) world).bind
  intro r hr
  obtain ⟨monitored, world'⟩ := r
  obtain ⟨hlength', hshuffled⟩ := hr
  dsimp only at hlength' hshuffled ⊢
  have hlive := hshuffled.trans hperm
  have horder := hsets.perm hlive
  have hcount : (monitored.take s.nsets).length = s.nsets := by
    rw [List.length_take]
    omega
  have hread : ∀ i (hi : i < (monitored.take s.nsets).length),
      readAt monitored i = .ok (monitored.take s.nsets)[i] := by
    intro i hi
    rw [readAt_eq (by omega), List.getElem_take]
  have hbound : ∀ i (hi : i < (monitored.take s.nsets).length),
      (monitored.take s.nsets)[i] < s.layout.l1Sets := fun i hi =>
    horder.bounded _ (List.getElem_mem hi)
  apply Returns.bind (forUpto_returns (fun i mem =>
    P mem ∧ HopsTo s.layout (monitored.take s.nsets) i mem)
    ⟨hmem, fun i _ hi => absurd hi (Nat.not_lt_zero i)⟩ _)
  · intro mem hlinks
    obtain ⟨hmem', hhops⟩ := hlinks
    have hpos := horder.nonempty
    rw [require_pos (by omega), pure_bind, hread _ (show s.nsets - 1 < _ by omega), ok_bind,
      hread 0 hpos, ok_bind, returns_pure]
    refine ⟨⟨rfl, hmasks, hlength'.trans hlength, hnsets, hlive⟩, ?_, ?_⟩
    · exact hkeep _ _ _ (hbound _ _) (hbound _ _) hmem'
    · have hall : HopsTo s.layout (monitored.take s.nsets) ((monitored.take s.nsets).length - 1) mem := by
        rw [hcount]
        exact hhops
      have hlinked := hall.setsLinked horder
      simp only [hcount] at hlinked
      exact hlinked
  · intro i hi mem hlinks
    obtain ⟨hmem', hhops⟩ := hlinks
    have hstep := hhops.step horder (show i + 1 < _ by omega)
    rw [hread i (by omega), ok_bind, hread (i + 1) (by omega), ok_bind, returns_pure]
    exact ⟨hkeep _ _ _ (hbound _ _) (hbound _ _) hmem', hstep⟩

/-- `l1_randomise` leaves the ways linked. -/
theorem l1Randomise_returns {σ : Type} (random : σ → ℕ × σ) {s : L1info} (h : L1Ready l1 sets s)
    (hsets : SetList l1 sets) (world : σ) :
    Returns (l1Randomise random s world) fun r => L1Inv l1 sets r.1 := by
  have hkeep : ∀ mem a b, a < l1.l1Sets → b < l1.l1Sets → WaysLinked l1 mem →
      WaysLinked l1 (hopLink l1 mem a b) := fun mem a b ha hb hways => hways.hopLink ha hb
  apply (l1Randomise_keeps random h.listed hsets h.ways hkeep world).mono
  intro r hr
  obtain ⟨hlisted, hways, hlinked⟩ := hr
  exact hlisted.inv hways hlinked

/-- Without a monitored set `l1_randomise` reads `monitored[-1]`. -/
theorem l1Randomise_eq_error {σ : Type} (random : σ → ℕ × σ) {s : L1info} (h : s.nsets = 0) (world : σ) :
    l1Randomise random s world = .error .bounds := by
  rw [l1Randomise, h]
  rfl

end Randomise

/-! ### Reading a mask -/

section Masks

variable {C : L1Config} {masks : List (BitVec 64)}

/-- The sets of the first bits of a mask. -/
def firstSets (masks : List (BitVec 64)) (m : ℕ) : List ℕ := (List.range m).filter (bitAt masks)

/-- The sets of the first bits have been entered in the array of monitored sets. -/
structure Collected (C : L1Config) (masks : List (BitVec 64)) (m : ℕ) (st : ℕ × List ℕ) : Prop where
  count_eq : st.1 = (firstSets masks m).length
  entries_eq : st.2.take st.1 = firstSets masks m
  length_eq : st.2.length = C.l1Sets

/-- A mask for every set, with at least one bit set. -/
structure MaskOk (C : L1Config) (masks : List (BitVec 64)) : Prop where
  length_eq : masks.length = C.monitorMask
  some_bit : ∃ set, set < C.l1Sets ∧ bitAt masks set = true

theorem collected_iff {m : ℕ} {st : ℕ × List ℕ} (hm : m ≤ 2 ^ 16) :
    Collected C masks m st ↔ Gathered (fun n => n % 2 ^ 16) masks C.l1Sets m st := by
  have hfit : (members masks m).map (fun n => n % 2 ^ 16) = firstSets masks m :=
    map_members fun n hn => Nat.mod_eq_of_lt (hn.trans_le hm)
  constructor
  · intro h
    exact ⟨h.count_eq, h.entries_eq.trans hfit.symm, h.length_eq⟩
  · intro h
    exact ⟨h.count_eq, h.entries_eq.trans hfit, h.length_eq⟩

theorem l1MonitorWord_returns {i : ℕ} (hmasks : masks.length = C.monitorMask)
    (hi : i < masks.length) {st : ℕ × List ℕ} (h : Collected C masks (i * 64) st) :
    Returns (l1MonitorWord i masks[i] st) (Collected C masks ((i + 1) * 64)) := by
  have hwords := C.mask_words
  have hfit := C.sets_fit
  have hbits : (i + 1) * 64 ≤ C.l1Sets := by
    unfold L1Config.monitorMask at hmasks
    omega
  have hstart := (collected_iff (show i * 64 ≤ 2 ^ 16 by omega)).mp h
  apply (gatherWord_returns hi hbits hstart).mono
  intro st' h'
  exact (collected_iff (by omega)).mpr h'

theorem MaskOk.setList {l1 : L1Layout} (h : MaskOk l1.toL1Config masks) :
    SetList l1 (maskSets l1.toL1Config masks) where
  nonempty := by
    obtain ⟨set, hset, hbit⟩ := h.some_bit
    apply List.length_pos_of_mem
    exact List.mem_filter.mpr ⟨List.mem_range.mpr hset, hbit⟩
  nodup := List.nodup_range.filter _
  bounded := fun set hset => List.mem_range.mp (List.mem_filter.mp hset).1

/-- The loop of `l1_set_monitored_set` enters the sets of the mask, which may be none. -/
theorem l1MonitorWords_returns {sets : List (BitVec 64)} {monitored : List ℕ}
    (hmasks : masks.length = C.monitorMask) (hsets : sets.length = C.monitorMask)
    (hlength : monitored.length = C.l1Sets) :
    Returns (forUpto (fun i st => do
        let mask ← readAt masks i
        let sets ← writeAt st.1 i mask
        let st ← l1MonitorWord i mask st.2
        return (sets, st))
      C.monitorMask (sets, 0, monitored)) fun st =>
        st.1.length = C.monitorMask ∧ st.2.2.length = C.l1Sets ∧
          st.2.1 = (maskSets C masks).length ∧ st.2.2.take st.2.1 = maskSets C masks := by
  have hstart : Collected C masks (0 * 64) (0, monitored) := by
    constructor
    · simp [firstSets]
    · simp [firstSets]
    · exact hlength
  apply Returns.mono (forUpto_returns (fun i (st : List (BitVec 64) × ℕ × List ℕ) =>
    st.1.length = C.monitorMask ∧ Collected C masks (i * 64) st.2) ⟨hsets, hstart⟩ _)
  · intro st hst
    obtain ⟨hsets', hcollected⟩ := hst
    have hall : firstSets masks (C.monitorMask * 64) = maskSets C masks := by
      unfold firstSets maskSets L1Config.monitorMask
      rw [Nat.div_mul_cancel C.mask_words]
    rw [← hall]
    exact ⟨hsets', hcollected.length_eq, hcollected.count_eq, hcollected.entries_eq⟩
  · intro i hi st hst
    obtain ⟨hsets', hcollected⟩ := hst
    rw [readAt_eq (show i < masks.length by omega), ok_bind, writeAt_eq _ (by omega), ok_bind]
    apply (l1MonitorWord_returns hmasks (by omega) hcollected).bind
    intro st' hst'
    rw [returns_pure]
    exact ⟨List.length_set.trans hsets', hst'⟩

/-- `l1_set_monitored_set` monitors the sets of its mask, and keeps what linking one set to another keeps
of the memory. -/
theorem l1SetMonitoredSet_keeps {σ : Type} {P : Mem → Prop} (random : σ → ℕ × σ) (l1 : L1Layout) {s : L1info}
    (hlayout : s.layout = l1) (hsets : s.monitoredSets.length = l1.monitorMask)
    (hlength : s.monitored.length = l1.l1Sets) (hmem : P s.mem)
    (hkeep : ∀ mem a b, a < l1.l1Sets → b < l1.l1Sets → P mem → P (hopLink l1 mem a b))
    (hmask : MaskOk l1.toL1Config masks) (world : σ) :
    Returns (l1SetMonitoredSet random s (some masks) world) fun r =>
      L1Listed l1 (maskSets l1.toL1Config masks) r.1 ∧ P r.1.mem ∧
        SetsLinked l1 r.1.mem r.1.live r.1.fwdlist r.1.bkwlist := by
  subst hlayout
  rw [l1SetMonitoredSet]
  apply (l1MonitorWords_returns hmask.length_eq hsets hlength).bind
  intro st hst
  obtain ⟨sets, nsets, monitored⟩ := st
  obtain ⟨hsets', hlength', hcount, hentries⟩ := hst
  dsimp only at hsets' hlength' hcount hentries ⊢
  have hlisted : L1Listed s.layout (maskSets s.layout.toL1Config masks)
      { s with monitoredSets := sets, monitored, nsets } :=
    ⟨rfl, hsets', hlength', hcount, by rw [L1info.live, hentries]⟩
  exact l1Randomise_keeps random hlisted hmask.setList hmem hkeep world

/-- `l1_set_monitored_set` monitors the sets of its mask, whatever was monitored before. -/
theorem l1SetMonitoredSet_returns {σ : Type} (random : σ → ℕ × σ) (l1 : L1Layout) {s : L1info}
    (hlayout : s.layout = l1) (hsets : s.monitoredSets.length = l1.monitorMask)
    (hlength : s.monitored.length = l1.l1Sets) (hways : WaysLinked l1 s.mem)
    (hmask : MaskOk l1.toL1Config masks) (world : σ) :
    Returns (l1SetMonitoredSet random s (some masks) world) fun r =>
      L1Inv l1 (maskSets l1.toL1Config masks) r.1 := by
  have hkeep : ∀ mem a b, a < l1.l1Sets → b < l1.l1Sets → WaysLinked l1 mem →
      WaysLinked l1 (hopLink l1 mem a b) := fun mem a b ha hb hways => hways.hopLink ha hb
  apply (l1SetMonitoredSet_keeps random l1 hlayout hsets hlength hways hkeep hmask world).mono
  intro r hr
  obtain ⟨hlisted, hways', hlinked⟩ := hr
  exact hlisted.inv hways' hlinked

/-- `l1_prepare` succeeds with the lists of its mask. -/
theorem l1Prepare_returns {σ : Type} (C : L1Config) (block : Malloc C.sizeofPtr C.l1ProbeBuffer)
    (leftovers : (Fin C.monitorMask → BitVec 64) × (Fin C.l1Sets → ℕ)) (mem : Mem)
    (random : σ → ℕ × σ) (hmask : MaskOk C masks) (world : σ) :
    Returns (l1Prepare C block leftovers mem random (some masks) world) fun r =>
      L1Inv (C.layout block) (maskSets C masks) r.1 := by
  have haligned : (C.layout block).memory % 0x1000 = 0 := Nat.mul_mod_left _ _
  rw [l1Prepare, require_pos haligned]
  apply (l1LinkWays_returns (C.layout block) mem).bind
  intro mem' hways
  exact l1SetMonitoredSet_returns random (C.layout block) rfl List.length_ofFn List.length_ofFn
    hways hmask world

end Masks

end ChannelBench
