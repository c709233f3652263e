import ChannelBench.CBitmap
import ChannelBench.DcacheState
import Mathlib.Data.List.Perm.Subperm
import Mathlib.Data.List.Nodup

/-! What `buffer_init` builds, whenever the draws let it return: for every set a doubly linked list of
the lines of the set, with the last line leading to the first one of the next set and the first line to
the last one. -/

namespace ChannelBench

open CSem

section Addresses

variable {pBuf s s' w w' : ℕ}

theorem lineAddress_inj (hs : s < nL1dSets) (hs' : s' < nL1dSets)
    (h : lineAddress pBuf s w = lineAddress pBuf s' w') : s = s' ∧ w = w' := by
  simp only [lineAddress, clSize, l1dSetSize, nL1dSets] at *
  omega

theorem lineAddress_ne_zero (hpBuf : 0 < pBuf) (s w : ℕ) : lineAddress pBuf s w ≠ 0 := by
  unfold lineAddress
  omega

/-- The lines of a set. -/
def setLines (pBuf s : ℕ) : List ℕ := (List.range nL1dWays).map (lineAddress pBuf s)

theorem mem_setLines {a : ℕ} : a ∈ setLines pBuf s ↔ ∃ w, w < nL1dWays ∧ a = lineAddress pBuf s w := by
  rw [setLines, List.mem_map]
  constructor
  · intro h
    obtain ⟨w, hw, rfl⟩ := h
    exact ⟨w, List.mem_range.mp hw, rfl⟩
  · intro h
    obtain ⟨w, hw, rfl⟩ := h
    exact ⟨w, List.mem_range.mpr hw, rfl⟩

theorem setLines_disjoint (hs : s < nL1dSets) (hs' : s' < nL1dSets) (hne : s ≠ s') {a : ℕ}
    (ha : a ∈ setLines pBuf s) : a ∉ setLines pBuf s' := by
  intro ha'
  obtain ⟨w, -, rfl⟩ := mem_setLines.mp ha
  obtain ⟨w', -, heq⟩ := mem_setLines.mp ha'
  exact hne (lineAddress_inj hs hs' heq).1

theorem nodup_setLines (hs : s < nL1dSets) : (setLines pBuf s).Nodup := by
  apply List.Nodup.map_on _ List.nodup_range
  intro w _ w' _ heq
  exact (lineAddress_inj hs hs heq).2

end Addresses

/-! ### One set -/

/-- The state of the loop over the ways of a set when the given ways have been linked. -/
structure WaysDrawn {σ : Type} (d : Dcache) (s : ℕ) (ways : List ℕ) (st : SetState σ) : Prop where
  nodup : ways.Nodup
  bounded : ∀ w ∈ ways, w < nL1dWays
  mask : ∀ k, k < 32 → st.bitMask.getLsbD k = decide (k ∈ ways)
  list : Doubly st.buf.next st.buf.prev (ways.map (lineAddress d.pBuf s))
  pL_eq : st.pL = lastOf (ways.map (lineAddress d.pBuf s))
  setH_eq : st.setH = firstOf (ways.map (lineAddress d.pBuf s))
  setT_eq : st.bitMask = nL1dWayBitmask → st.setT = st.pL
  buf_eq : ∃ next prev, st.buf = { d with next, prev }
  frame : ∀ a, a ∉ setLines d.pBuf s → st.buf.next a = d.next a ∧ st.buf.prev a = d.prev a
  unlinked : ∀ w, w < nL1dWays → w ∉ ways → st.buf.next (lineAddress d.pBuf s w) = 0

section OneSet

variable {σ : Type} {d : Dcache} {s : ℕ} {ways : List ℕ} {st : SetState σ}

theorem WaysDrawn.start (hunlinked : ∀ a ∈ setLines d.pBuf s, d.next a = 0) (world : σ) :
    WaysDrawn d s []
      { buf := d, pL := 0, setH := 0, setT := 0, bitMask := 0#32, world : SetState σ } where
  nodup := List.nodup_nil
  bounded := fun _ h => absurd h List.not_mem_nil
  mask := fun k _ => by simp
  list := .nil
  pL_eq := rfl
  setH_eq := rfl
  setT_eq := fun _ => rfl
  buf_eq := ⟨_, _, rfl⟩
  frame := fun _ _ => ⟨rfl, rfl⟩
  unlinked := fun w hw _ => hunlinked _ (mem_setLines.mpr ⟨w, hw, rfl⟩)

theorem WaysDrawn.mask_eq_zero_iff (h : WaysDrawn d s ways st) : st.bitMask = 0#32 ↔ ways = [] := by
  constructor
  · intro hzero
    apply List.eq_nil_iff_forall_not_mem.mpr
    intro w hw
    have hbound := h.bounded w hw
    have hbit := h.mask w (Nat.lt_trans hbound (by decide))
    rw [hzero] at hbit
    simp [hw] at hbit
  · intro hnil
    apply BitVec.eq_of_getLsbD_eq
    intro k hk
    rw [h.mask k hk, hnil]
    simp

theorem WaysDrawn.pBuf_eq (h : WaysDrawn d s ways st) : st.buf.pBuf = d.pBuf := by
  obtain ⟨next, prev, hbuf⟩ := h.buf_eq
  rw [hbuf]

/-- The line linked last is a line of one of the ways. -/
theorem WaysDrawn.pL_line (h : WaysDrawn d s ways st) (hpL : st.pL ≠ 0) :
    ∃ w ∈ ways, st.pL = lineAddress d.pBuf s w := by
  rw [h.pL_eq] at hpL ⊢
  by_cases hnil : ways.map (lineAddress d.pBuf s) = []
  · rw [hnil] at hpL
    exact absurd rfl hpL
  · obtain ⟨w, hw, heq⟩ := List.mem_map.mp (lastOf_mem hnil)
    exact ⟨w, hw, heq.symm⟩

/-- Linking a new line to the one linked last changes `next` in the lines linked so far only. -/
theorem WaysDrawn.next_link (h : WaysDrawn d s ways st) {a : ℕ}
    (ha : ∀ w ∈ ways, a ≠ lineAddress d.pBuf s w) (l : ℕ) :
    (if st.pL = 0 then st.buf.next else Function.update st.buf.next st.pL l) a = st.buf.next a := by
  split_ifs with hzero
  · rfl
  · obtain ⟨w, hw, heq⟩ := h.pL_line hzero
    rw [Function.update_of_ne (heq ▸ ha w hw)]

/-- A round that links a new way. -/
theorem WaysDrawn.link (h : WaysDrawn d s ways st) (hs : s < nL1dSets) {w : ℕ} (hw : w < nL1dWays)
    (hnew : w ∉ ways) (world : σ) :
    WaysDrawn d s (ways ++ [w]) {
      buf := { st.buf with
        prev := Function.update st.buf.prev (lineAddress st.buf.pBuf s w) st.pL
        next := if st.pL = 0 then st.buf.next
          else Function.update st.buf.next st.pL (lineAddress st.buf.pBuf s w) }
      pL := lineAddress st.buf.pBuf s w
      setH := if st.bitMask = 0#32 then lineAddress st.buf.pBuf s w else st.setH
      bitMask := st.bitMask ||| 1#32 <<< w
      setT := if st.bitMask ||| 1#32 <<< w = nL1dWayBitmask then lineAddress st.buf.pBuf s w else st.setT
      world } := by
  have hpBuf := h.pBuf_eq
  simp only [hpBuf]
  have hline : lineAddress d.pBuf s w ∈ setLines d.pBuf s := mem_setLines.mpr ⟨w, hw, rfl⟩
  have hfresh : lineAddress d.pBuf s w ∉ ways.map (lineAddress d.pBuf s) := by
    intro hmem
    obtain ⟨w', hw', heq⟩ := List.mem_map.mp hmem
    exact hnew ((lineAddress_inj hs hs heq).2 ▸ hw')
  constructor
  · rw [List.nodup_append]
    refine ⟨h.nodup, List.nodup_singleton w, ?_⟩
    intro a ha b hb heq
    rw [List.mem_singleton] at hb
    exact hnew (hb ▸ heq ▸ ha)
  · intro a ha
    rw [List.mem_append, List.mem_singleton] at ha
    rcases ha with ha | rfl
    · exact h.bounded a ha
    · exact hw
  · intro k hk
    rw [BitVec.getLsbD_or, h.mask k hk, getLsbD_mask hk]
    simp [Bool.decide_or]
  · rw [List.map_append, List.map_singleton]
    exact h.list.append h.pL_eq hfresh (lineAddress_ne_zero d.pBuf_pos s w) (h.unlinked w hw hnew)
  · rw [List.map_append, List.map_singleton, lastOf_append]
  · rw [List.map_append, List.map_singleton]
    by_cases hnil : ways = []
    · rw [if_pos (h.mask_eq_zero_iff.mpr hnil), hnil]
      rfl
    · rw [if_neg fun hzero => hnil (h.mask_eq_zero_iff.mp hzero), h.setH_eq, firstOf_append]
      simpa using hnil
  · intro hfull
    exact if_pos hfull
  · obtain ⟨next, prev, hbuf⟩ := h.buf_eq
    simp only [hbuf]
    exact ⟨_, _, rfl⟩
  · intro a ha
    have hne : a ≠ lineAddress d.pBuf s w := fun heq => ha (heq ▸ hline)
    have hways : ∀ w ∈ ways, a ≠ lineAddress d.pBuf s w := fun w hw heq =>
      ha (mem_setLines.mpr ⟨w, h.bounded w hw, heq⟩)
    constructor
    · exact (h.next_link hways _).trans (h.frame a ha).1
    · exact (Function.update_of_ne hne _ _).trans (h.frame a ha).2
  · intro w' hw' hnot
    rw [List.mem_append, List.mem_singleton, not_or] at hnot
    have hways : ∀ v ∈ ways, lineAddress d.pBuf s w' ≠ lineAddress d.pBuf s v := fun v hv heq =>
      hnot.1 ((lineAddress_inj hs hs heq).2 ▸ hv)
    exact (h.next_link hways _).trans (h.unlinked w' hw' hnot.1)

/-- A round keeps the list that has been linked so far. -/
theorem bufferInitRound_ensures (rand : σ → ℕ × σ) (hs : s < nL1dSets) (st : SetState σ)
    (h : ∃ ways, WaysDrawn d s ways st) :
    Ensures (bufferInitRound rand s st) (Sum.elim (fun st' => ∃ ways, WaysDrawn d s ways st') fun st' =>
      st'.bitMask = nL1dWayBitmask ∧ ∃ ways, WaysDrawn d s ways st') := by
  obtain ⟨ways, hdrawn⟩ := h
  have hw : (rand st.world).1 % nL1dWays < nL1dWays := Nat.mod_lt _ (by decide)
  have hw32 : (rand st.world).1 % nL1dWays < 32 := Nat.lt_trans hw (by decide)
  unfold bufferInitRound
  by_cases hfull : st.bitMask = nL1dWayBitmask
  · rw [if_neg (not_not.mpr hfull)]
    exact ensures_pure ⟨hfull, ways, hdrawn⟩
  · rw [if_pos hfull]
    simp only [and_mask_ne_zero _ hw32]
    by_cases hbit : st.bitMask.getLsbD ((rand st.world).1 % nL1dWays) = true
    · rw [if_pos hbit]
      exact ensures_pure ⟨ways, hdrawn.nodup, hdrawn.bounded, hdrawn.mask, hdrawn.list, hdrawn.pL_eq,
        hdrawn.setH_eq, hdrawn.setT_eq, hdrawn.buf_eq, hdrawn.frame, hdrawn.unlinked⟩
    · have hnew : (rand st.world).1 % nL1dWays ∉ ways := by
        rw [hdrawn.mask _ hw32, decide_eq_true_eq] at hbit
        exact hbit
      rw [if_neg hbit]
      exact ensures_pure ⟨_, hdrawn.link hs hw hnew (rand st.world).2⟩

/-- A full mask: every way has been drawn. -/
theorem WaysDrawn.perm (h : WaysDrawn d s ways st) (hfull : st.bitMask = nL1dWayBitmask) :
    ways.Perm (List.range nL1dWays) := by
  rw [List.perm_ext_iff_of_nodup h.nodup List.nodup_range]
  intro w
  rw [List.mem_range]
  constructor
  · exact h.bounded w
  · intro hw
    have hbit := h.mask w (Nat.lt_trans hw (by decide))
    have hall : ∀ k, k < nL1dWays → nL1dWayBitmask.getLsbD k = true := by decide
    rw [hfull, hall w hw] at hbit
    exact of_decide_eq_true hbit.symm

end OneSet

/-! ### All sets -/

/-- The lists of the first sets: `order s` are the lines of set `s` from first to last. -/
structure Built (n : ℕ) (order : ℕ → List ℕ) (d : Dcache) : Prop where
  perm : ∀ s, s < n → (order s).Perm (setLines d.pBuf s)
  list : ∀ s, s < n → Doubly d.next d.prev (order s)
  hop_next : ∀ s, s + 1 < n → d.nextSet (lastOf (order s)) = firstOf (order (s + 1))
  hop_prev : ∀ s, s + 1 < n → d.nextSet (firstOf (order s)) = lastOf (order (s + 1))
  end_next : ∀ s, s + 1 = n → d.nextSet (lastOf (order s)) = 0
  end_prev : ∀ s, s + 1 = n → d.nextSet (firstOf (order s)) = 0
  head_eq : 0 < n → d.set0Head = firstOf (order 0)
  tail_eq : 0 < n → d.set0Tail = lastOf (order 0)
  unlinked : ∀ s, n ≤ s → s < nL1dSets → ∀ a ∈ setLines d.pBuf s, d.next a = 0 ∧ d.nextSet a = 0

section AllSets

variable {n : ℕ} {order : ℕ → List ℕ} {d : Dcache}

theorem Built.length (h : Built n order d) {s : ℕ} (hs : s < n) : (order s).length = nL1dWays := by
  rw [(h.perm s hs).length_eq, setLines, List.length_map, List.length_range]

theorem Built.ne_nil (h : Built n order d) {s : ℕ} (hs : s < n) : order s ≠ [] := by
  intro hnil
  have hlength := h.length hs
  rw [hnil] at hlength
  exact absurd hlength (by decide)

theorem Built.first_mem (h : Built n order d) {s : ℕ} (hs : s < n) :
    firstOf (order s) ∈ setLines d.pBuf s := (h.perm s hs).subset (firstOf_mem (h.ne_nil hs))

theorem Built.last_mem (h : Built n order d) {s : ℕ} (hs : s < n) :
    lastOf (order s) ∈ setLines d.pBuf s := (h.perm s hs).subset (lastOf_mem (h.ne_nil hs))

theorem Built.first_ne_last (h : Built n order d) (hn : n ≤ nL1dSets) {s : ℕ} (hs : s < n) :
    firstOf (order s) ≠ lastOf (order s) := by
  apply firstOf_ne_lastOf
  · exact (h.perm s hs).nodup_iff.mpr (nodup_setLines (by omega))
  · rw [h.length hs]
    decide

/-- The cleared buffer. -/
theorem Built.zero (h : ∀ a, d.next a = 0 ∧ d.nextSet a = 0) : Built 0 order d where
  perm := fun _ hs => absurd hs (Nat.not_lt_zero _)
  list := fun _ hs => absurd hs (Nat.not_lt_zero _)
  hop_next := fun _ hs => absurd hs (Nat.not_lt_zero _)
  hop_prev := fun _ hs => absurd hs (Nat.not_lt_zero _)
  end_next := fun _ hs => absurd hs (Nat.succ_ne_zero _)
  end_prev := fun _ hs => absurd hs (Nat.succ_ne_zero _)
  head_eq := fun h => absurd h (Nat.lt_irrefl 0)
  tail_eq := fun h => absurd h (Nat.lt_irrefl 0)
  unlinked := fun _ _ _ a _ => h a

/-- A set that has been linked, before it is connected to the set before it. -/
structure Linked (d : Dcache) (n : ℕ) (cells : List ℕ) (buf : Dcache) : Prop where
  perm : cells.Perm (setLines d.pBuf n)
  list : Doubly buf.next buf.prev cells
  buf_eq : ∃ next prev, buf = { d with next, prev }
  frame : ∀ a, a ∉ setLines d.pBuf n → buf.next a = d.next a ∧ buf.prev a = d.prev a

theorem Linked.ne_nil {cells : List ℕ} {buf : Dcache} (h : Linked d n cells buf) : cells ≠ [] := by
  intro hnil
  have hlength := h.perm.length_eq
  rw [hnil, setLines, List.length_map, List.length_range] at hlength
  exact absurd hlength (by decide)

/-- The loop over the ways links all lines of a set. -/
theorem ways_ensures {σ : Type} (rand : σ → ℕ × σ) (fuel : ℕ) (h : Built n order d)
    (hn : n < nL1dSets) (world : σ) :
    Ensures (loop (bufferInitRound rand n) fuel
        { buf := d, pL := 0, setH := 0, setT := 0, bitMask := 0#32, world }) fun st =>
      ∃ cells, Linked d n cells st.buf ∧ st.setH = firstOf cells ∧ st.setT = lastOf cells := by
  have hstart : ∀ a ∈ setLines d.pBuf n, d.next a = 0 := fun a ha => (h.unlinked n (le_refl n) hn a ha).1
  apply (loop_ensures (fun st => ∃ ways, WaysDrawn d n ways st) _
    (bufferInitRound_ensures rand hn) ⟨[], .start hstart world⟩).mono
  intro st hst
  obtain ⟨hfull, ways, hdrawn⟩ := hst
  refine ⟨ways.map (lineAddress d.pBuf n), ⟨?_, hdrawn.list, hdrawn.buf_eq, hdrawn.frame⟩,
    hdrawn.setH_eq, ?_⟩
  · exact (hdrawn.perm hfull).map _
  · rw [hdrawn.setT_eq hfull, hdrawn.pL_eq]

/-- The lists of the first sets survive the linking of the next set. -/
theorem Built.list_linked {cells : List ℕ} {buf : Dcache} (h : Built n order d) (hn : n < nL1dSets)
    (hlinked : Linked d n cells buf) {s : ℕ} (hs : s < n) : Doubly buf.next buf.prev (order s) := by
  have haway : ∀ a ∈ order s, a ∉ setLines d.pBuf n := fun a ha =>
    setLines_disjoint (by omega) hn (by omega) ((h.perm s hs).subset ha)
  exact (h.list s hs).congr (fun a ha => (hlinked.frame a (haway a ha)).1)
    fun a ha => (hlinked.frame a (haway a ha)).2

/-- A set that has been connected to the set before it. -/
structure Connected (d : Dcache) (n : ℕ) (order : ℕ → List ℕ) (cells : List ℕ) (d' : Dcache) :
    Prop where
  keep : ∀ s, s < nL1dSets → s + 1 ≠ n → ∀ a ∈ setLines d.pBuf s, d'.nextSet a = d.nextSet a
  hop_next : ∀ m, m + 1 = n → d'.nextSet (lastOf (order m)) = firstOf cells
  hop_prev : ∀ m, m + 1 = n → d'.nextSet (firstOf (order m)) = lastOf cells
  head_eq : d'.set0Head = if n = 0 then firstOf cells else d.set0Head
  tail_eq : d'.set0Tail = if n = 0 then lastOf cells else d.set0Tail

/-- `set0_head = set_h; set0_tail = set_t;`. -/
theorem Linked.connect_first {cells : List ℕ} {buf : Dcache} (h : Linked d 0 cells buf) :
    Connected d 0 order cells { buf with set0Head := firstOf cells, set0Tail := lastOf cells } := by
  obtain ⟨next, prev, rfl⟩ := h.buf_eq
  exact ⟨fun _ _ _ _ _ => rfl, fun _ h => absurd h (Nat.succ_ne_zero _),
    fun _ h => absurd h (Nat.succ_ne_zero _), rfl, rfl⟩

/-- `p_set_h->next_set = set_t; p_set_t->next_set = set_h;`. -/
theorem Linked.connect_next {cells : List ℕ} {buf : Dcache} (hbuilt : Built (n + 1) order d)
    (hn : n + 1 < nL1dSets) (h : Linked d (n + 1) cells buf) :
    Connected d (n + 1) order cells { buf with
      nextSet := Function.update (Function.update buf.nextSet (firstOf (order n)) (lastOf cells))
        (lastOf (order n)) (firstOf cells) } := by
  obtain ⟨next, prev, rfl⟩ := h.buf_eq
  have hfirst := hbuilt.first_mem (Nat.lt_succ_self n)
  have hlast := hbuilt.last_mem (Nat.lt_succ_self n)
  constructor
  · intro s hs hne a ha
    have haway := setLines_disjoint hs (by omega) (by omega : s ≠ n) ha
    show Function.update (Function.update d.nextSet _ _) _ _ a = d.nextSet a
    rw [Function.update_of_ne, Function.update_of_ne]
    · exact fun heq => haway (heq ▸ hfirst)
    · exact fun heq => haway (heq ▸ hlast)
  · intro m hm
    obtain rfl : m = n := Nat.succ_injective hm
    exact Function.update_self _ _ _
  · intro m hm
    obtain rfl : m = n := Nat.succ_injective hm
    show Function.update (Function.update d.nextSet _ _) _ _ _ = _
    rw [Function.update_of_ne (hbuilt.first_ne_last (by omega) (Nat.lt_succ_self m)),
      Function.update_self]
  · exact (if_neg (Nat.succ_ne_zero n)).symm
  · exact (if_neg (Nat.succ_ne_zero n)).symm

/-- The next set has been linked and connected. -/
theorem Built.step {cells : List ℕ} {buf d' : Dcache} (h : Built n order d) (hn : n < nL1dSets)
    (hlinked : Linked d n cells buf) (hconnected : Connected d n order cells d')
    (hpBuf : d'.pBuf = d.pBuf) (hnext : d'.next = buf.next) (hprev : d'.prev = buf.prev) :
    Built (n + 1) (Function.update order n cells) d' := by
  have hold : ∀ s, s < n → Function.update order n cells s = order s := fun s hs =>
    Function.update_of_ne (Nat.ne_of_lt hs) _ _
  have hself : Function.update order n cells n = cells := Function.update_self _ _ _
  have hfresh : ∀ a ∈ cells, d'.nextSet a = 0 := by
    intro a ha
    have hline := hlinked.perm.subset ha
    rw [hconnected.keep n hn (Nat.succ_ne_self n) a hline]
    exact (h.unlinked n (le_refl n) hn a hline).2
  constructor
  · intro s hs
    rw [hpBuf]
    rcases Nat.lt_succ_iff_lt_or_eq.mp hs with hs | rfl
    · rw [hold s hs]
      exact h.perm s hs
    · rw [hself]
      exact hlinked.perm
  · intro s hs
    rw [hnext, hprev]
    rcases Nat.lt_succ_iff_lt_or_eq.mp hs with hs | rfl
    · rw [hold s hs]
      exact h.list_linked hn hlinked hs
    · rw [hself]
      exact hlinked.list
  · intro s hs
    have hs' : s < n := Nat.succ_lt_succ_iff.mp hs
    rw [hold s hs']
    by_cases heq : s + 1 = n
    · rw [heq, hself, hconnected.hop_next s heq]
    · rw [hold (s + 1) (by omega), hconnected.keep s (by omega) heq _ (h.last_mem hs')]
      exact h.hop_next s (by omega)
  · intro s hs
    have hs' : s < n := Nat.succ_lt_succ_iff.mp hs
    rw [hold s hs']
    by_cases heq : s + 1 = n
    · rw [heq, hself, hconnected.hop_prev s heq]
    · rw [hold (s + 1) (by omega), hconnected.keep s (by omega) heq _ (h.first_mem hs')]
      exact h.hop_prev s (by omega)
  · intro s hs
    obtain rfl : s = n := Nat.succ_injective hs
    rw [hself]
    exact hfresh _ (lastOf_mem hlinked.ne_nil)
  · intro s hs
    obtain rfl : s = n := Nat.succ_injective hs
    rw [hself]
    exact hfresh _ (firstOf_mem hlinked.ne_nil)
  · intro _
    rw [hconnected.head_eq]
    split_ifs with hzero
    · rw [← hzero, hself]
    · rw [hold 0 (Nat.pos_of_ne_zero hzero)]
      exact h.head_eq (Nat.pos_of_ne_zero hzero)
  · intro _
    rw [hconnected.tail_eq]
    split_ifs with hzero
    · rw [← hzero, hself]
    · rw [hold 0 (Nat.pos_of_ne_zero hzero)]
      exact h.tail_eq (Nat.pos_of_ne_zero hzero)
  · intro s hs hbound a ha
    rw [hpBuf] at ha
    have hkept := h.unlinked s (by omega) hbound a ha
    rw [hnext, (hlinked.frame a (setLines_disjoint hbound hn (by omega) ha)).1,
      hconnected.keep s hbound (by omega) a ha]
    exact hkept

/-- The variables of `buffer_init` between two sets. -/
structure Between (d : Dcache) (n : ℕ) (order : ℕ → List ℕ) (buf : Dcache) (pSetH pSetT : ℕ) :
    Prop where
  built : Built n order buf
  ends : ∀ m, m + 1 = n → pSetH = firstOf (order m) ∧ pSetT = lastOf (order m)
  pBuf_eq : buf.pBuf = d.pBuf
  msgTime_eq : buf.msgTime = d.msgTime

/-- A round of `buffer_init` links its set and connects it. -/
theorem bufferInitSet_ensures {σ : Type} (rand : σ → ℕ × σ) (fuel : ℕ) (hn : n < nL1dSets)
    (st : Dcache × ℕ × ℕ × σ) (h : ∃ order, Between d n order st.1 st.2.1 st.2.2.1) :
    Ensures (bufferInitSet rand fuel n st) fun st' =>
      ∃ order, Between d (n + 1) order st'.1 st'.2.1 st'.2.2.1 := by
  obtain ⟨buf, pSetH, pSetT, world⟩ := st
  obtain ⟨order, hbetween⟩ := h
  dsimp only at hbetween
  apply (ways_ensures rand fuel hbetween.built hn world).bind
  intro set hset
  obtain ⟨cells, hlinked, hH, hT⟩ := hset
  have hpBuf : set.buf.pBuf = buf.pBuf := by
    obtain ⟨next, prev, hbuf⟩ := hlinked.buf_eq
    rw [hbuf]
  have hmsgTime : set.buf.msgTime = buf.msgTime := by
    obtain ⟨next, prev, hbuf⟩ := hlinked.buf_eq
    rw [hbuf]
  have hends : ∀ m, m + 1 = n + 1 → set.setH = firstOf (Function.update order n cells m) ∧
      set.setT = lastOf (Function.update order n cells m) := by
    intro m hm
    obtain rfl : m = n := Nat.succ_injective hm
    rw [Function.update_self]
    exact ⟨hH, hT⟩
  cases n with
  | zero =>
      rw [if_pos rfl]
      apply ensures_pure
      refine ⟨_, hbetween.built.step hn hlinked ?_ hpBuf rfl rfl, hends,
        hpBuf.trans hbetween.pBuf_eq, hmsgTime.trans hbetween.msgTime_eq⟩
      simp only [hH, hT]
      exact hlinked.connect_first
  | succ n =>
      rw [if_neg (Nat.succ_ne_zero n)]
      obtain ⟨hpH, hpT⟩ := hbetween.ends n rfl
      have hfirst : pSetH ≠ 0 := by
        rw [hpH]
        exact (hbetween.built.list n (Nat.lt_succ_self n)).nonnull _
          (firstOf_mem (hbetween.built.ne_nil (Nat.lt_succ_self n)))
      have hlast : pSetT ≠ 0 := by
        rw [hpT]
        exact (hbetween.built.list n (Nat.lt_succ_self n)).nonnull _
          (lastOf_mem (hbetween.built.ne_nil (Nat.lt_succ_self n)))
      rw [require_pos hfirst, require_pos hlast, pure_bind, pure_bind]
      apply ensures_pure
      refine ⟨_, hbetween.built.step hn hlinked ?_ hpBuf rfl rfl, hends,
        hpBuf.trans hbetween.pBuf_eq, hmsgTime.trans hbetween.msgTime_eq⟩
      simp only [hH, hT, hpH, hpT]
      exact hlinked.connect_next hbetween.built hn

/-- If the draws let `buffer_init` return, it has built the lists of all sets. -/
theorem bufferInit_ensures {σ : Type} (rand : σ → ℕ × σ) (fuel : ℕ) (d : Dcache) (world : σ) :
    Ensures (bufferInit rand fuel d world) fun r =>
      (∃ order, Built nL1dSets order r.1) ∧ r.1.pBuf = d.pBuf ∧ r.1.msgTime = d.msgTime := by
  unfold bufferInit
  apply (forUpto_ensures (fun n st => ∃ order, Between d n order st.1 st.2.1 st.2.2.1) _
    fun n hn st => bufferInitSet_ensures rand fuel hn st).bind
  · intro st h
    obtain ⟨order, hbetween⟩ := h
    exact ensures_pure ⟨⟨order, hbetween.built⟩, hbetween.pBuf_eq, hbetween.msgTime_eq⟩
  · exact ⟨fun _ => [], .zero (fun _ => ⟨rfl, rfl⟩), fun _ h => absurd h (Nat.succ_ne_zero _), rfl, rfl⟩

end AllSets

end ChannelBench
