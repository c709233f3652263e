import ChannelBench.CMachine
import ChannelBench.CSequence
import ChannelBench.L1Lists

/-! Walks of the L1 lists. A walk goes through the monitored sets in order and comes back, whether or
not it writes into the lines it passes, so `l1_probe` measures each monitored set once and reports that
it has come back, and every later walk finds the same lists. -/

namespace ChannelBench

open CSem L1Layout

/-- The forward pointers of the ways of a set. -/
def L1Layout.fwdBlock (l1 : L1Layout) (set : ℕ) : List ℕ :=
  (List.range l1.l1Associativity).map fun way => l1.ptr set way 0

/-- The backward pointers of the ways of a set, in descending order. -/
def L1Layout.bkwBlock (l1 : L1Layout) (set : ℕ) : List ℕ :=
  (List.range l1.l1Associativity).map fun i => l1.ptr set (l1.l1Associativity - 1 - i) 1

section Blocks

variable {l1 : L1Layout} {mem mem' : Mem} {set : ℕ}

theorem length_fwdBlock (l1 : L1Layout) (set : ℕ) :
    (l1.fwdBlock set).length = l1.l1Associativity := by
  rw [fwdBlock, List.length_map, List.length_range]

theorem length_bkwBlock (l1 : L1Layout) (set : ℕ) :
    (l1.bkwBlock set).length = l1.l1Associativity := by
  rw [bkwBlock, List.length_map, List.length_range]

theorem assoc_eq (l1 : L1Layout) : l1.l1Associativity - 1 + 1 = l1.l1Associativity :=
  Nat.sub_add_cancel l1.assoc_pos

theorem path_fwdBlock (h : WaysLinked l1 mem) (hset : set < l1.l1Sets) :
    Path (load mem l1.sizeofPtr) (l1.slotPtr ⟨set, 0, 0⟩) (l1.fwdBlock set)
      (l1.follow mem ⟨set, l1.l1Associativity - 1, 0⟩) := by
  unfold fwdBlock
  rw [← assoc_eq l1]
  apply path_range _ (fun way => l1.ptr set way 0)
  intro i hi
  exact (h set i hset (by omega)).1

theorem path_bkwBlock (h : WaysLinked l1 mem) (hset : set < l1.l1Sets) :
    Path (load mem l1.sizeofPtr) (l1.slotPtr ⟨set, l1.l1Associativity - 1, 1⟩) (l1.bkwBlock set)
      (l1.follow mem ⟨set, 0, 1⟩) := by
  have hpath := path_range (load mem l1.sizeofPtr)
    (fun i => l1.ptr set (l1.l1Associativity - 1 - i) 1) (l1.l1Associativity - 1) (by
      intro i hi
      have hback := (h set (l1.l1Associativity - 1 - (i + 1)) hset (by omega)).2
      rw [show l1.l1Associativity - 1 - (i + 1) + 1 = l1.l1Associativity - 1 - i by omega] at hback
      exact hback)
  rw [assoc_eq] at hpath
  simp only [Nat.sub_zero, Nat.sub_self] at hpath
  exact hpath

/-- The names of the pointers in a block. -/
theorem slot_of_mem_fwdBlock (hset : set < l1.l1Sets) {node : ℕ} (hnode : node ∈ l1.fwdBlock set) :
    ∃ slot, l1.Valid slot ∧ slot.set = set ∧ node = l1.slotPtr slot := by
  obtain ⟨way, hway, rfl⟩ := List.mem_map.mp hnode
  exact ⟨⟨set, way, 0⟩, valid_forward hset (List.mem_range.mp hway), rfl, rfl⟩

theorem slot_of_mem_bkwBlock (hset : set < l1.l1Sets) {node : ℕ} (hnode : node ∈ l1.bkwBlock set) :
    ∃ slot, l1.Valid slot ∧ slot.set = set ∧ node = l1.slotPtr slot := by
  obtain ⟨i, hi, rfl⟩ := List.mem_map.mp hnode
  have hpos := l1.assoc_pos
  exact ⟨⟨set, l1.l1Associativity - 1 - i, 1⟩, valid_backward hset (by omega), rfl, rfl⟩

theorem nodup_fwdBlock (hset : set < l1.l1Sets) : (l1.fwdBlock set).Nodup := by
  apply List.Nodup.map_on _ List.nodup_range
  intro way hway way' hway' heq
  rw [List.mem_range] at hway hway'
  have hslot := slotPtr_inj (valid_forward hset hway) (valid_forward hset hway') heq
  exact (L1Slot.mk.inj hslot).2.1

theorem nodup_bkwBlock (hset : set < l1.l1Sets) : (l1.bkwBlock set).Nodup := by
  apply List.Nodup.map_on _ List.nodup_range
  intro i hi j hj heq
  rw [List.mem_range] at hi hj
  have hslot := slotPtr_inj (valid_backward hset (by omega)) (valid_backward hset (by omega)) heq
  have hway := (L1Slot.mk.inj hslot).2.1
  omega

/-- Pointers of different sets are different. -/
theorem nodup_blocks {block : ℕ → List ℕ} {sets : List ℕ} (hsets : SetList l1 sets)
    (hnodup : ∀ set, set < l1.l1Sets → (block set).Nodup)
    (hslot : ∀ set node, set < l1.l1Sets → node ∈ block set →
      ∃ slot, l1.Valid slot ∧ slot.set = set ∧ node = l1.slotPtr slot) :
    (sets.flatMap block).Nodup := by
  rw [List.nodup_flatMap]
  refine ⟨fun set hset => hnodup set (hsets.bounded set hset), ?_⟩
  apply hsets.nodup.imp_of_mem
  intro set set' hset hset' hne node hnode hnode'
  obtain ⟨slot, hvalid, rfl, hptr⟩ := hslot set node (hsets.bounded set hset) hnode
  obtain ⟨slot', hvalid', rfl, hptr'⟩ := hslot set' node (hsets.bounded set' hset') hnode'
  apply hne
  rw [slotPtr_inj hvalid hvalid' (hptr.symm.trans hptr')]

end Blocks

/-! ### The whole lists -/

/-- Following the links from the start visits the blocks of the given sets in order, every pointer
once, and comes back. -/
structure Covers (sizeofPtr : ℕ) (mem : Mem) (start steps : ℕ) (live : List ℕ)
    (block : ℕ → List ℕ) : Prop where
  visits : List.iterate (load mem sizeofPtr) start steps = live.flatMap block
  closes : (load mem sizeofPtr)^[steps] start = start
  once : (live.flatMap block).Nodup

section Lists

variable {l1 : L1Layout} {sets : List ℕ} {s : L1info}

theorem L1Inv.setList (h : L1Inv l1 sets s) (hsets : SetList l1 sets) : SetList l1 s.live :=
  hsets.perm h.live_perm

theorem SetsLinked.path_forward {mem : Mem} {live : List ℕ} {fwdlist bkwlist : ℕ}
    (h : SetsLinked l1 mem live fwdlist bkwlist) (hways : WaysLinked l1 mem)
    (hlive : SetList l1 live) :
    Path (load mem l1.sizeofPtr) fwdlist (live.flatMap l1.fwdBlock) fwdlist := by
  cases live with
  | nil => exact absurd hlive.nonempty (Nat.lt_irrefl 0)
  | cons first rest =>
      have hpath := path_flatMap (load mem l1.sizeofPtr) (fun set => l1.slotPtr ⟨set, 0, 0⟩)
        (fun set => l1.follow mem ⟨set, l1.l1Associativity - 1, 0⟩) l1.fwdBlock first rest
        (fun set hset => path_fwdBlock hways (hlive.bounded set hset))
        (h.hops.imp fun _ _ hop => hop.1)
      have hclose := h.closes first rfl _ (List.getLast?_eq_getLast_of_ne_nil (List.cons_ne_nil _ _))
      rw [hclose.1] at hpath
      rw [h.fwd first rfl]
      exact hpath

theorem SetsLinked.path_backward {mem : Mem} {live : List ℕ} {fwdlist bkwlist : ℕ}
    (h : SetsLinked l1 mem live fwdlist bkwlist) (hways : WaysLinked l1 mem)
    (hlive : SetList l1 live) :
    Path (load mem l1.sizeofPtr) bkwlist (live.flatMap l1.bkwBlock) bkwlist := by
  cases live with
  | nil => exact absurd hlive.nonempty (Nat.lt_irrefl 0)
  | cons first rest =>
      have hpath := path_flatMap (load mem l1.sizeofPtr)
        (fun set => l1.slotPtr ⟨set, l1.l1Associativity - 1, 1⟩)
        (fun set => l1.follow mem ⟨set, 0, 1⟩) l1.bkwBlock first rest
        (fun set hset => path_bkwBlock hways (hlive.bounded set hset))
        (h.hops.imp fun _ _ hop => hop.2)
      have hclose := h.closes first rfl _ (List.getLast?_eq_getLast_of_ne_nil (List.cons_ne_nil _ _))
      rw [hclose.2] at hpath
      rw [h.bkw first rfl]
      exact hpath

end Lists

/-! ### Probing -/

/-- No pointer of the probe buffer differs. -/
def SameSlots (l1 : L1Layout) (mem mem' : Mem) : Prop :=
  ∀ slot, l1.Valid slot → l1.follow mem' slot = l1.follow mem slot

section Probing

variable {l1 : L1Layout} {mem mem' : Mem}

theorem SameSlots.refl (mem : Mem) : SameSlots l1 mem mem := fun _ _ => rfl

theorem SameSlots.trans {mem'' : Mem} (h : SameSlots l1 mem mem') (h' : SameSlots l1 mem' mem'') :
    SameSlots l1 mem mem'' := fun slot hslot => (h' slot hslot).trans (h slot hslot)

/-- Cells that are pointers of the probe buffer. -/
def Slots (l1 : L1Layout) (nodes : List ℕ) : Prop :=
  ∀ node ∈ nodes, ∃ slot, l1.Valid slot ∧ node = l1.slotPtr slot

theorem SameSlots.path {nodes : List ℕ} {a b : ℕ} (h : SameSlots l1 mem mem')
    (hnodes : Slots l1 nodes) (hpath : Path (load mem l1.sizeofPtr) a nodes b) :
    Path (load mem' l1.sizeofPtr) a nodes b := by
  apply hpath.congr
  intro node hnode
  obtain ⟨slot, hslot, rfl⟩ := hnodes node hnode
  exact h slot hslot

/-- The write of `CONFIG_BENCH_COVERT_L1D_WRITE` overwrites no pointer. -/
theorem sameSlots_write {slot : L1Slot} (hslot : l1.Valid slot) (write : Bool) (mem : Mem) :
    SameSlots l1 mem (if write then store mem 4 (l1.slotPtr slot + 16) 0xff else mem) := by
  intro other hother
  cases write with
  | false => rfl
  | true => exact load_store_of_disjoint _ _ (write_apart hslot hother)

/-- A segment follows a path of pointers to its end. -/
theorem probeSegment_path (write : Bool) :
    ∀ {nodes : List ℕ} {a b : ℕ} {mem : Mem}, Slots l1 nodes →
      Path (load mem l1.sizeofPtr) a nodes b →
        (probeSegment l1.sizeofPtr write nodes.length (a, mem)).1 = b ∧
          SameSlots l1 mem (probeSegment l1.sizeofPtr write nodes.length (a, mem)).2
  | [], a, b, mem, _, hpath => by
      cases hpath
      exact ⟨rfl, .refl mem⟩
  | node :: nodes, a, b, mem, hnodes, hpath => by
      cases hpath with
      | cons rest =>
          obtain ⟨slot, hslot, rfl⟩ := hnodes _ List.mem_cons_self
          have hrest : Slots l1 nodes := fun node hnode => hnodes node (List.mem_cons_of_mem _ hnode)
          have hwrite := sameSlots_write hslot write mem
          have hlink := hwrite slot hslot
          have ih := probeSegment_path write hrest (hwrite.path hrest rest)
          rw [List.length_cons, probeSegment, if_neg (slotPtr_ne_zero l1 slot)]
          show (probeSegment l1.sizeofPtr write nodes.length (l1.follow _ slot, _)).1 = b ∧
            SameSlots l1 mem (probeSegment l1.sizeofPtr write nodes.length (l1.follow _ slot, _)).2
          rw [hlink]
          exact ⟨ih.1, hwrite.trans ih.2⟩

/-- A segment of `primelist` follows a path as well. -/
theorem primeSegment_path :
    ∀ {nodes : List ℕ} {a b : ℕ}, Slots l1 nodes → Path (load mem l1.sizeofPtr) a nodes b →
      primeSegment l1.sizeofPtr mem nodes.length a = b
  | [], a, b, _, hpath => by
      cases hpath
      rfl
  | node :: nodes, a, b, hnodes, hpath => by
      cases hpath with
      | cons rest =>
          obtain ⟨slot, -, rfl⟩ := hnodes _ List.mem_cons_self
          rw [List.length_cons, primeSegment, if_neg (slotPtr_ne_zero l1 slot)]
          exact primeSegment_path (fun node hnode => hnodes node (List.mem_cons_of_mem _ hnode)) rest

variable {σ : Type} (clock : σ → BitVec 32 × σ)

/-- The times of the first segments of a probe, as they are written to `results`. -/
def segmentTimes (world : σ) (n : ℕ) : List (BitVec 16) :=
  (List.range n).map fun k => clampTime (reading clock world (2 * k + 1) - reading clock world (2 * k))

/-- `probelist` on a list of blocks: it comes to the end, measures every block once and changes no
pointer. -/
theorem probelist_returns (write : Bool) {live : List ℕ} {block : ℕ → List ℕ} {seglen start : ℕ}
    (hblock : ∀ set, (block set).length = seglen) (hslots : Slots l1 (live.flatMap block))
    (hpath : Path (load mem l1.sizeofPtr) start (live.flatMap block) start) (world : σ) :
    Returns (probelist clock l1.sizeofPtr write start live.length seglen mem world) fun r =>
      r.1 = 1 ∧ r.2.1 = segmentTimes clock world live.length ∧ SameSlots l1 mem r.2.2.1 := by
  rw [probelist]
  apply Returns.bind (forUpto_returns (fun k (st : ℕ × List (BitVec 16) × Mem × σ) =>
    Path (load st.2.2.1 l1.sizeofPtr) st.1 ((live.drop k).flatMap block) start ∧
      SameSlots l1 mem st.2.2.1 ∧ st.2.1 = segmentTimes clock world k ∧
        st.2.2.2 = worldAt clock world (2 * k))
    ⟨hpath, .refl mem, rfl, rfl⟩ _)
  · intro st hst
    obtain ⟨p, results, mem', world'⟩ := st
    obtain ⟨hend, hsame, hresults, -⟩ := hst
    dsimp only at hend hsame hresults ⊢
    rw [List.drop_length, List.flatMap_nil] at hend
    cases hend
    rw [returns_pure]
    exact ⟨if_pos rfl, hresults, hsame⟩
  · intro k hk st hst
    obtain ⟨p, results, mem', world'⟩ := st
    obtain ⟨hrest, hsame, hresults, hworld⟩ := hst
    dsimp only at hrest hsame hresults hworld ⊢
    rw [List.drop_eq_getElem_cons hk, List.flatMap_cons] at hrest
    obtain ⟨q, hsegment, hrest⟩ := hrest.split
    have hsub : ∀ node ∈ block live[k], ∃ slot, l1.Valid slot ∧ node = l1.slotPtr slot := fun node hnode =>
      hslots node (List.mem_flatMap.mpr ⟨live[k], List.getElem_mem hk, hnode⟩)
    have hsub' : Slots l1 ((live.drop (k + 1)).flatMap block) := by
      intro node hnode
      obtain ⟨set, hset, hnode⟩ := List.mem_flatMap.mp hnode
      exact hslots node (List.mem_flatMap.mpr ⟨set, List.mem_of_mem_drop hset, hnode⟩)
    obtain ⟨hend, hkeep⟩ := probeSegment_path write hsub hsegment
    rw [hblock] at hend hkeep
    rw [returns_pure, hworld, source_worldAt clock, source_worldAt clock]
    refine ⟨?_, hsame.trans hkeep, ?_, rfl⟩
    · rw [hend]
      exact hkeep.path hsub' hrest
    · rw [segmentTimes, List.range_succ, List.map_append, List.map_singleton, hresults]
      rfl

theorem primelist_returns {live : List ℕ} {block : ℕ → List ℕ} {seglen start : ℕ}
    (hblock : ∀ set, (block set).length = seglen) (hslots : Slots l1 (live.flatMap block))
    (hpath : Path (load mem l1.sizeofPtr) start (live.flatMap block) start) :
    Returns (primelist l1.sizeofPtr mem start live.length seglen) fun p => p = start := by
  rw [primelist]
  apply Returns.mono (forUpto_returns (fun k p =>
    Path (load mem l1.sizeofPtr) p ((live.drop k).flatMap block) start) hpath _)
  · intro p hend
    rw [List.drop_length, List.flatMap_nil] at hend
    cases hend
    rfl
  · intro k hk p hrest
    rw [List.drop_eq_getElem_cons hk, List.flatMap_cons] at hrest
    obtain ⟨q, hsegment, hrest⟩ := hrest.split
    have hend := primeSegment_path (fun node hnode =>
      hslots node (List.mem_flatMap.mpr ⟨live[k], List.getElem_mem hk, hnode⟩)) hsegment
    rw [hblock] at hend
    rw [returns_pure, hend]
    exact hrest

end Probing

end ChannelBench
