import ChannelBench.CMachine
import ChannelBench.CSequence
import ChannelBench.DcacheBuffer
import Mathlib.Data.BitVec
import Mathlib.Data.List.GetD

/-! The measurements of `dcache_attack`. Over the lists that `buffer_init` built, `prime`, `probe` and
`record` end, the line in which `probe` leaves the time of a set is the one at which `record` looks for
it, and every time goes to the cell of the plaintext byte and of the set it was measured for. The
plaintexts are what `rand()` draws, and the times what elapses between two readings of the clock. -/

namespace ChannelBench

open CSem

/-- The lines are those of set 0, then those of set 1, and so on, each once. -/
structure VisitsSets (pBuf : ℕ) (lines : List ℕ) : Prop where
  in_order : ∃ order : ℕ → List ℕ, (∀ s, s < nL1dSets → (order s).Perm (setLines pBuf s)) ∧
    lines = (List.range nL1dSets).flatMap order

/-! ### The walks over all sets -/

section Walks

variable {n : ℕ} {order : ℕ → List ℕ} {d : Dcache}

/-- The lines of the first sets. -/
def linesUpto (order : ℕ → List ℕ) (k : ℕ) : List ℕ := (List.range k).flatMap order

theorem linesUpto_succ (order : ℕ → List ℕ) (k : ℕ) :
    linesUpto order (k + 1) = linesUpto order k ++ order k := by
  simp [linesUpto, List.range_succ]

theorem Built.length_lines (h : Built nL1dSets order d) {k : ℕ} (hk : k ≤ nL1dSets) :
    (linesUpto order k).length = k * nL1dWays := by
  have hpieces := length_pieces (List.range k) fun s hs =>
    h.length (Nat.lt_of_lt_of_le (List.mem_range.mp hs) hk)
  rwa [List.length_range] at hpieces

theorem Built.visits (h : Built nL1dSets order d) : VisitsSets d.pBuf (linesUpto order nL1dSets) :=
  ⟨order, h.perm, rfl⟩

/-- The same sets, read from the last line to the first. -/
def backward (order : ℕ → List ℕ) (s : ℕ) : List ℕ := (order s).reverse

theorem Built.visits_backward (h : Built nL1dSets order d) :
    VisitsSets d.pBuf (linesUpto (backward order) nL1dSets) :=
  ⟨backward order, fun s hs => (List.reverse_perm _).trans (h.perm s hs), rfl⟩

theorem Built.chase_forward (h : Built nL1dSets order d) {s : ℕ} (hs : s < nL1dSets) :
    Returns (chase d.next walkFuel (firstOf (order s))) (· = (order s, lastOf (order s))) := by
  apply (h.list s hs).chase_returns (h.ne_nil hs)
  rw [h.length hs]
  decide

theorem Built.chase_backward (h : Built nL1dSets order d) {s : ℕ} (hs : s < nL1dSets) :
    Returns (chase d.prev walkFuel (lastOf (order s))) (· = (backward order s, firstOf (order s))) := by
  have hne : (order s).reverse ≠ [] := fun hnil => h.ne_nil hs (List.reverse_eq_nil_iff.mp hnil)
  have hlength : (order s).reverse.length ≤ walkFuel := by
    rw [List.length_reverse, h.length hs]
    decide
  have hchase := (h.list s hs).reverse.chase_returns hne hlength
  rw [firstOf_reverse, lastOf_reverse] at hchase
  exact hchase

/-- Where `prime` stands before set `k`. -/
def headAt (order : ℕ → List ℕ) (k : ℕ) : ℕ := if k < nL1dSets then firstOf (order k) else 0

/-- Where `probe` and `record` stand before set `k`. -/
def tailAt (order : ℕ → List ℕ) (k : ℕ) : ℕ := if k < nL1dSets then lastOf (order k) else 0

theorem Built.headAt_ne_zero_iff (h : Built nL1dSets order d) (k : ℕ) :
    headAt order k ≠ 0 ↔ k < nL1dSets := by
  rw [headAt, ne_eq, ite_eq_right_iff, Classical.not_imp]
  constructor
  · exact fun h => h.1
  · exact fun hk => ⟨hk, (h.list k hk).nonnull _ (firstOf_mem (h.ne_nil hk))⟩

theorem Built.tailAt_ne_zero_iff (h : Built nL1dSets order d) (k : ℕ) :
    tailAt order k ≠ 0 ↔ k < nL1dSets := by
  rw [tailAt, ne_eq, ite_eq_right_iff, Classical.not_imp]
  constructor
  · exact fun h => h.1
  · exact fun hk => ⟨hk, (h.list k hk).nonnull _ (lastOf_mem (h.ne_nil hk))⟩

/-- The last line of a set leads to the first line of the next. -/
theorem Built.nextSet_last (h : Built nL1dSets order d) {s : ℕ} (hs : s < nL1dSets) :
    d.nextSet (lastOf (order s)) = headAt order (s + 1) := by
  rw [headAt]
  split_ifs with hnext
  · exact h.hop_next s hnext
  · exact h.end_next s (by omega)

/-- The first line of a set leads to the last line of the next. -/
theorem Built.nextSet_first (h : Built nL1dSets order d) {s : ℕ} (hs : s < nL1dSets) :
    d.nextSet (firstOf (order s)) = tailAt order (s + 1) := by
  rw [tailAt]
  split_ifs with hnext
  · exact h.hop_prev s hnext
  · exact h.end_prev s (by omega)

theorem Built.first_inj (h : Built nL1dSets order d) {s s' : ℕ} (hs : s < nL1dSets)
    (hs' : s' < nL1dSets) (heq : firstOf (order s) = firstOf (order s')) : s = s' := by
  by_contra hne
  exact setLines_disjoint hs hs' hne (h.first_mem hs) (heq ▸ h.first_mem hs')

end Walks

/-! ### Draws and readings -/

/-- Byte `i` of the plaintext that is drawn next. -/
def drawnText {σ : Type} (rand : σ → ℕ × σ) (world : σ) (i : ℕ) : BitVec 8 :=
  BitVec.ofNat 8 (reading rand world i % nPtB)

/-- What elapses between the two readings of the clock around set `s`. -/
def elapsedAt {σ : Type} (clock : σ → BitVec 64 × σ) (world : σ) (s : ℕ) : BitVec 64 :=
  reading clock world (2 * s + 1) - reading clock world (2 * s)

/-! ### `prime`, `encry`, `probe` and `record` -/

section Rounds

variable {σ : Type} {order : ℕ → List ℕ} {d : Dcache}

/-- `prime` reads the lines of all sets. -/
theorem Dcache.prime_returns (h : Built nL1dSets order d) :
    Returns d.prime (· = linesUpto order nL1dSets) := by
  have hstart : d.set0Head = headAt order 0 := h.head_eq (by decide)
  apply loop_returns (fun st : List ℕ × ℕ => ∃ k, k ≤ nL1dSets ∧ st.1 = linesUpto order k ∧
      st.2 = headAt order k) _ fun st => nL1dSets * nL1dWays - st.1.length
  · intro st hst
    obtain ⟨lines, l⟩ := st
    obtain ⟨k, hk, rfl, rfl⟩ := hst
    by_cases hlt : k < nL1dSets
    · rw [if_pos ((h.headAt_ne_zero_iff k).mpr hlt), headAt, if_pos hlt]
      apply (h.chase_forward hlt).bind
      intro r hr
      subst hr
      apply returns_pure.mpr
      refine ⟨⟨k + 1, hlt, (linesUpto_succ order k).symm, h.nextSet_last hlt⟩, ?_⟩
      show nL1dSets * nL1dWays - (linesUpto order k ++ order k).length <
        nL1dSets * nL1dWays - (linesUpto order k).length
      rw [← linesUpto_succ, h.length_lines hlt, h.length_lines hk]
      simp only [nL1dSets, nL1dWays] at *
      omega
    · rw [if_neg fun hne => hlt ((h.headAt_ne_zero_iff k).mp hne)]
      obtain rfl : k = nL1dSets := by omega
      exact returns_pure.mpr rfl
  · exact ⟨0, Nat.zero_le _, rfl, hstart⟩
  · show nL1dSets * nL1dWays - 0 < walkFuel
    decide

/-- `encry` draws the plaintext and changes nothing else. -/
theorem Dcache.encry_returns (rand : σ → ℕ × σ) (d : Dcache) (world : σ) :
    Returns (d.encry rand world) fun r =>
      (∃ pText, r.1 = { d with pText }) ∧ (∀ i, i < aesMsgSize → r.1.pText i = drawnText rand world i) ∧
        r.2 = worldAt rand world aesMsgSize := by
  apply forUpto_returns (fun k (st : Dcache × σ) => (∃ pText, st.1 = { d with pText }) ∧
    (∀ i, i < k → st.1.pText i = drawnText rand world i) ∧ st.2 = worldAt rand world k)
    ⟨⟨d.pText, rfl⟩, fun i hi => absurd hi (Nat.not_lt_zero i), rfl⟩
  intro k _ st hst
  obtain ⟨⟨pText, hd⟩, htext, hworld⟩ := hst
  rw [returns_pure, hworld, source_worldAt rand]
  refine ⟨⟨_, by rw [hd]⟩, ?_, rfl⟩
  intro i hi
  dsimp only
  rcases Nat.lt_succ_iff_lt_or_eq.mp hi with hlt | rfl
  · rw [Function.update_of_ne (Nat.ne_of_lt hlt), htext i hlt]
  · rw [Function.update_self]
    rfl

/-- What `probe` has done before set `k`. -/
structure ProbedUpto (clock : σ → BitVec 64 × σ) (d : Dcache) (order : ℕ → List ℕ) (world : σ) (k : ℕ)
    (probing : Probing σ) : Prop where
  lines_eq : probing.lines = linesUpto (backward order) k
  times_eq : probing.times = (List.range k).map (elapsedAt clock world)
  time_first : ∀ s, s < k → probing.time (firstOf (order s)) = elapsedAt clock world s
  world_eq : probing.world = worldAt clock world (2 * k)

/-- The time of a set goes to the line at which the walk over the set ends. -/
theorem ProbedUpto.step {clock : σ → BitVec 64 × σ} (h : Built nL1dSets order d) {world : σ} {k : ℕ}
    (hk : k < nL1dSets) {probing : Probing σ} (hprobed : ProbedUpto clock d order world k probing) :
    ProbedUpto clock d order world (k + 1) {
      lines := probing.lines ++ backward order k
      times := probing.times ++ [elapsedAt clock world k]
      time := Function.update probing.time (firstOf (order k)) (elapsedAt clock world k)
      world := worldAt clock world (2 * k + 1 + 1) } where
  lines_eq := by rw [hprobed.lines_eq, linesUpto_succ]
  times_eq := by
    rw [hprobed.times_eq, List.range_succ, List.map_append]
    rfl
  time_first := by
    intro s hs
    dsimp only
    rcases Nat.lt_succ_iff_lt_or_eq.mp hs with hlt | rfl
    · have hne : firstOf (order s) ≠ firstOf (order k) := fun heq =>
        Nat.ne_of_lt hlt (h.first_inj (Nat.lt_trans hlt hk) hk heq)
      rw [Function.update_of_ne hne, hprobed.time_first s hlt]
    · rw [Function.update_self]
  world_eq := rfl

/-- `probe` reads the lines of all sets and leaves in the first line of each what elapsed while it was read. -/
theorem Dcache.probe_returns (clock : σ → BitVec 64 × σ) (h : Built nL1dSets order d) (world : σ) :
    Returns (d.probe clock world) (ProbedUpto clock d order world nL1dSets) := by
  have hstart : d.set0Tail = tailAt order 0 := h.tail_eq (by decide)
  apply loop_returns (fun st : Probing σ × ℕ => ∃ k, k ≤ nL1dSets ∧ ProbedUpto clock d order world k st.1 ∧
      st.2 = tailAt order k) _ fun st => nL1dSets - st.1.times.length
  · intro st hst
    obtain ⟨probing, l⟩ := st
    obtain ⟨k, hk, hprobed, rfl⟩ := hst
    dsimp only at hprobed
    unfold Dcache.probeRound
    by_cases hlt : k < nL1dSets
    · rw [if_pos ((h.tailAt_ne_zero_iff k).mpr hlt), tailAt, if_pos hlt]
      dsimp only
      rw [hprobed.world_eq, source_worldAt clock]
      apply (h.chase_backward hlt).bind
      intro r hr
      subst hr
      dsimp only
      rw [source_worldAt clock, returns_pure]
      refine ⟨⟨k + 1, hlt, hprobed.step h hlt, h.nextSet_first hlt⟩, ?_⟩
      show nL1dSets - (probing.times ++ [_]).length < nL1dSets - probing.times.length
      rw [List.length_append, hprobed.times_eq, List.length_map, List.length_range, List.length_singleton]
      omega
    · rw [if_neg fun hne => hlt ((h.tailAt_ne_zero_iff k).mp hne)]
      obtain rfl : k = nL1dSets := by omega
      exact returns_pure.mpr hprobed
  · exact ⟨0, Nat.zero_le _, ⟨rfl, rfl, fun _ hs => absurd hs (Nat.not_lt_zero _), rfl⟩, hstart⟩
  · show nL1dSets - 0 < walkFuel
    decide

/-- The cells of `record` after the first sets of byte `i`. -/
def addTimes (msgTime : ℕ → ℕ → ℕ → BitVec 64) (i p k : ℕ) (time : ℕ → BitVec 64) :
    ℕ → ℕ → ℕ → BitVec 64 :=
  fun i' p' s => if i' = i ∧ p' = p ∧ s < k then msgTime i' p' s + time s else msgTime i' p' s

theorem addTimes_zero (msgTime : ℕ → ℕ → ℕ → BitVec 64) (i p : ℕ) (time : ℕ → BitVec 64) :
    addTimes msgTime i p 0 time = msgTime := by
  funext i' p' s
  simp [addTimes]

theorem addTimes_succ (msgTime : ℕ → ℕ → ℕ → BitVec 64) (i p k : ℕ) (time : ℕ → BitVec 64) :
    addTime (addTimes msgTime i p k time) i p k (time k) = addTimes msgTime i p (k + 1) time := by
  funext i' p' s
  unfold addTime addTimes
  by_cases hcell : i' = i ∧ p' = p
  · by_cases heq : s = k
    · simp [hcell, heq]
    · have hlt : s < k + 1 ↔ s < k := by omega
      simp [hcell, heq, hlt]
  · have hnot : ∀ q : Prop, ¬(i' = i ∧ p' = p ∧ q) := fun q h => hcell ⟨h.1, h.2.1⟩
    simp only [hnot, if_false]

/-- The cells after `record` has been through the first bytes of the plaintext. -/
def recordUpto (d : Dcache) (time : ℕ → BitVec 64) (k : ℕ) : ℕ → ℕ → ℕ → BitVec 64 :=
  fun i p s => if i < k ∧ p = (d.pText i).toNat ∧ s < nL1dSets then d.msgTime i p s + time s
    else d.msgTime i p s

theorem recordUpto_succ (d : Dcache) (time : ℕ → BitVec 64) (k : ℕ) :
    addTimes (recordUpto d time k) k (d.pText k).toNat nL1dSets time = recordUpto d time (k + 1) := by
  funext i p s
  unfold addTimes recordUpto
  by_cases heq : i = k
  · subst heq
    simp
  · have hlt : i < k + 1 ↔ i < k := by omega
    simp [heq, hlt]

/-- A byte of the plaintext: the time in the first line of a set goes to the cell of the set. -/
theorem Dcache.recordByte_returns (h : Built nL1dSets order d) (i : ℕ)
    (msgTime : ℕ → ℕ → ℕ → BitVec 64) :
    Returns (d.recordByte i msgTime) (· = addTimes msgTime i (d.pText i).toNat nL1dSets
      fun s => d.time (firstOf (order s))) := by
  have hstart : d.set0Tail = tailAt order 0 := h.tail_eq (by decide)
  unfold Dcache.recordByte
  apply (forUpto_returns (fun k (st : (ℕ → ℕ → ℕ → BitVec 64) × ℕ) =>
    st.1 = addTimes msgTime i (d.pText i).toNat k (fun s => d.time (firstOf (order s))) ∧
      st.2 = tailAt order k) _ _).bind
  · intro st hst
    exact returns_pure.mpr hst.1
  · exact ⟨(addTimes_zero msgTime i _ _).symm, hstart⟩
  · intro k hk st hst
    obtain ⟨cells, l⟩ := st
    obtain ⟨rfl, rfl⟩ := hst
    rw [tailAt, if_pos hk]
    apply (h.chase_backward hk).bind
    intro r hr
    subst hr
    apply returns_pure.mpr
    exact ⟨addTimes_succ msgTime i _ k fun s => d.time (firstOf (order s)), h.nextSet_first hk⟩

/-- `record` adds the time in the first line of a set to the cells of the set. -/
theorem Dcache.record_returns (h : Built nL1dSets order d) :
    Returns d.record (· = { d with
      msgTime := recordUpto d (fun s => d.time (firstOf (order s))) aesMsgSize }) := by
  unfold Dcache.record
  apply (forUpto_returns (fun k msgTime =>
    msgTime = recordUpto d (fun s => d.time (firstOf (order s))) k) _ _).bind
  · intro msgTime hmsgTime
    subst hmsgTime
    exact returns_pure.mpr rfl
  · funext i p s
    simp [recordUpto]
  · intro k _ msgTime hmsgTime
    subst hmsgTime
    apply (Dcache.recordByte_returns h k _).mono
    intro cells hcells
    rw [hcells, recordUpto_succ]

end Rounds

/-! ### The attack -/

section Attack

variable {σ : Type} (rand : σ → ℕ × σ) (clock : σ → BitVec 64 × σ)

/-- The state of the environment before iteration `n`. In an iteration `encry` draws the plaintext, and `probe`
reads the clock twice for every set. -/
def attackWorld (world : σ) : ℕ → σ
  | 0 => world
  | n + 1 => worldAt clock (worldAt rand (attackWorld world n) aesMsgSize) (2 * nL1dSets)

/-- The time measured for set `s` in iteration `n`. -/
def measured (world : σ) (n s : ℕ) : BitVec 64 :=
  elapsedAt clock (worldAt rand (attackWorld rand clock world n) aesMsgSize) s

/-- The times measured for a set in those of the first `count` iterations in which byte `i` of the plaintext is
`p`. -/
def accounted (world : σ) (count i : ℕ) (p : BitVec 8) (s : ℕ) : BitVec 64 :=
  (((List.range count).filter fun n => drawnText rand (attackWorld rand clock world n) i = p).map fun n =>
    measured rand clock world n s).sum

theorem accounted_succ (world : σ) (count i : ℕ) (p : BitVec 8) (s : ℕ) :
    accounted rand clock world (count + 1) i p s = accounted rand clock world count i p s +
      if drawnText rand (attackWorld rand clock world count) i = p then measured rand clock world count s
      else 0 := by
  rw [accounted, accounted, List.range_succ, List.filter_append, List.map_append, List.sum_append]
  congr 1
  by_cases heq : drawnText rand (attackWorld rand clock world count) i = p
  · simp [heq]
  · simp [heq]

/-- What an iteration reads, draws and measures, when it finds the environment in the state `world`. -/
structure Sample.Complete (pBuf : ℕ) (world : σ) (sample : Sample) : Prop where
  primed : VisitsSets pBuf sample.primed
  probed : VisitsSets pBuf sample.probed
  text_eq : ∀ i, i < aesMsgSize → sample.text i = drawnText rand world i
  times_eq : sample.times = (List.range nL1dSets).map (elapsedAt clock (worldAt rand world aesMsgSize))

variable {order : ℕ → List ℕ} {d : Dcache}

/-- The lists do not depend on the rest of the static data. -/
theorem Built.keep (h : Built nL1dSets order d) (time : ℕ → BitVec 64) (pText : ℕ → BitVec 8)
    (msgTime : ℕ → ℕ → ℕ → BitVec 64) :
    Built nL1dSets order { d with time, pText, msgTime } :=
  ⟨h.perm, h.list, h.hop_next, h.hop_prev, h.end_next, h.end_prev, h.head_eq, h.tail_eq, h.unlinked⟩

/-- The data after an iteration: the lists are those of before, and what elapsed is added to the cells of the
plaintext. -/
structure Accounts (world : σ) (d d' : Dcache) : Prop where
  buf_eq : ∃ time pText msgTime, d' = { d with time, pText, msgTime }
  cell : ∀ i p s, d'.msgTime i p s =
    if i < aesMsgSize ∧ p = (drawnText rand world i).toNat ∧ s < nL1dSets
    then d.msgTime i p s + elapsedAt clock (worldAt rand world aesMsgSize) s else d.msgTime i p s

/-- An iteration of `dcache_attack`. -/
theorem Dcache.attackRound_returns (h : Built nL1dSets order d) (world : σ) :
    Returns (d.attackRound rand clock world) fun r =>
      r.1.Complete rand clock d.pBuf world ∧ Accounts rand clock world d r.2.1 ∧
        r.2.2 = worldAt clock (worldAt rand world aesMsgSize) (2 * nL1dSets) := by
  unfold Dcache.attackRound
  apply (Dcache.prime_returns h).bind
  intro primed hprimed
  subst hprimed
  apply (Dcache.encry_returns rand d world).bind
  intro enc henc
  obtain ⟨⟨pText, hd⟩, htext, hworld⟩ := henc
  obtain ⟨d₁, world₁⟩ := enc
  dsimp only at hd htext hworld
  subst hd hworld
  have h₁ := h.keep d.time pText d.msgTime
  apply (Dcache.probe_returns clock h₁ _).bind
  intro probing hprobed
  have h₂ := h.keep probing.time pText d.msgTime
  apply (Dcache.record_returns h₂).bind
  intro d₂ hd₂
  subst hd₂
  rw [returns_pure]
  refine ⟨⟨h.visits, ?_, htext, hprobed.times_eq⟩, ⟨⟨_, _, _, rfl⟩, ?_⟩, hprobed.world_eq⟩
  · show VisitsSets d.pBuf probing.lines
    rw [hprobed.lines_eq]
    exact h.visits_backward
  · intro i p s
    dsimp only
    have hcell : (i < aesMsgSize ∧ p = (pText i).toNat ∧ s < nL1dSets) ↔
        i < aesMsgSize ∧ p = (drawnText rand world i).toNat ∧ s < nL1dSets := by
      apply and_congr_right
      intro hi
      rw [← htext i hi]
    simp only [recordUpto, hcell]
    by_cases hin : i < aesMsgSize ∧ p = (drawnText rand world i).toNat ∧ s < nL1dSets
    · rw [if_pos hin, if_pos hin, hprobed.time_first s hin.2.2]
    · rw [if_neg hin, if_neg hin]

/-- The iterations so far. -/
structure Accounted (world : σ) (d : Dcache) (count : ℕ) (st : List Sample × Dcache × σ) : Prop where
  length_eq : st.1.length = count
  complete : ∀ n (sample : Sample), st.1[n]? = some sample →
    sample.Complete rand clock d.pBuf (attackWorld rand clock world n)
  buf_eq : ∃ time pText msgTime, st.2.1 = { d with time, pText, msgTime }
  cell : ∀ i (p : BitVec 8) s, i < aesMsgSize → s < nL1dSets →
    st.2.1.msgTime i p.toNat s = d.msgTime i p.toNat s + accounted rand clock world count i p s
  other : ∀ i p s, ¬(i < aesMsgSize ∧ p < nPtB ∧ s < nL1dSets) → st.2.1.msgTime i p s = d.msgTime i p s
  world_eq : st.2.2 = attackWorld rand clock world count

theorem Accounted.start (world : σ) (d : Dcache) : Accounted rand clock world d 0 ([], d, world) where
  length_eq := rfl
  complete := fun _ _ h => nomatch h
  buf_eq := ⟨d.time, d.pText, d.msgTime, rfl⟩
  cell := fun _ _ _ _ _ => (BitVec.add_zero _).symm
  other := fun _ _ _ _ => rfl
  world_eq := rfl

variable {rand clock}

theorem Accounted.step {world : σ} {count : ℕ} {samples : List Sample} {d' d'' : Dcache} {sample : Sample}
    (h : Accounted rand clock world d count (samples, d', attackWorld rand clock world count))
    (hcomplete : sample.Complete rand clock d.pBuf (attackWorld rand clock world count))
    (haccounts : Accounts rand clock (attackWorld rand clock world count) d' d'') :
    Accounted rand clock world d (count + 1)
      (samples ++ [sample], d'', attackWorld rand clock world (count + 1)) where
  length_eq := by
    rw [List.length_append, h.length_eq]
    rfl
  complete := by
    intro n x hx
    have hlength := h.length_eq
    dsimp only at hx hlength
    rw [List.getElem?_append] at hx
    split_ifs at hx with hn
    · exact h.complete n x hx
    · obtain ⟨hlast, rfl⟩ := List.getElem?_eq_some_iff.mp hx
      rw [List.length_singleton] at hlast
      obtain rfl : n = count := by omega
      simpa using hcomplete
  buf_eq := by
    obtain ⟨_, _, _, rfl⟩ := h.buf_eq
    exact haccounts.buf_eq
  cell := by
    intro i p s hi hs
    let text := drawnText rand (attackWorld rand clock world count) i
    have htext : p.toNat = text.toNat ↔ text = p := by
      rw [BitVec.toNat_inj]
      exact eq_comm
    have hadded : d''.msgTime i p.toNat s =
        d'.msgTime i p.toNat s + if text = p then measured rand clock world count s else 0 := by
      rw [haccounts.cell]
      by_cases heq : text = p
      · rw [if_pos ⟨hi, htext.mpr heq, hs⟩, if_pos heq]
        rfl
      · rw [if_neg fun hcell => heq (htext.mp hcell.2.1), if_neg heq, add_zero]
    calc d''.msgTime i p.toNat s
        = d.msgTime i p.toNat s + accounted rand clock world count i p s +
            if text = p then measured rand clock world count s else 0 := by rw [hadded, ← h.cell i p s hi hs]
      _ = d.msgTime i p.toNat s + accounted rand clock world (count + 1) i p s := by
          rw [add_assoc, accounted_succ]
  other := by
    intro i p s hcell
    rw [← h.other i p s hcell, haccounts.cell, if_neg]
    intro hcell'
    apply hcell
    exact ⟨hcell'.1, hcell'.2.1 ▸ BitVec.isLt _, hcell'.2.2⟩
  world_eq := rfl

variable (rand clock)

/-- All iterations of `dcache_attack`. -/
theorem Dcache.attackRounds_returns (h : Built nL1dSets order d) (nDTests : ℕ) (world : σ) :
    Returns (d.attackRounds rand clock nDTests world) (Accounted rand clock world d nDTests) := by
  apply forUpto_returns (Accounted rand clock world d) (.start rand clock world d)
  intro n _ st hst
  obtain ⟨samples, d', world'⟩ := st
  obtain ⟨time, pText, msgTime, hd⟩ := hst.buf_eq
  dsimp only at hd
  obtain rfl : world' = attackWorld rand clock world n := hst.world_eq
  have hbuilt : Built nL1dSets order d' := hd ▸ h.keep time pText msgTime
  have hpBuf : d'.pBuf = d.pBuf := by rw [hd]
  apply (Dcache.attackRound_returns rand clock hbuilt _).bind
  intro r hr
  obtain ⟨hcomplete, haccounts, hworld⟩ := hr
  rw [returns_pure, hworld]
  exact hst.step (hpBuf ▸ hcomplete) haccounts

/-- **Every measured time is added to the cell of its plaintext byte and of its set.** Whenever the draws
let `buffer_init` return, every `prime` and every `probe` of the attack reads all lines set by set. A cell holds
what elapsed between the two readings of the clock around its set, summed over the iterations in which its value
was drawn for its byte. -/
theorem dcacheAttack_accounts (fuel nDTests : ℕ) (d : Dcache) (world : σ) (built : Dcache × σ)
    (hbuilt : bufferInit rand fuel d.recordClear world = .ok built) :
    Returns (dcacheAttack rand clock fuel nDTests d world) fun r =>
      r.1.length = nDTests ∧
        (∀ n (sample : Sample), r.1[n]? = some sample →
          sample.Complete rand clock d.pBuf (attackWorld rand clock built.2 n)) ∧
        (∀ i (p : BitVec 8) s, i < aesMsgSize → s < nL1dSets →
          r.2.1.msgTime i p.toNat s = accounted rand clock built.2 nDTests i p s) ∧
        ∀ i p s, ¬(i < aesMsgSize ∧ p < nPtB ∧ s < nL1dSets) →
          r.2.1.msgTime i p s = d.recordClear.msgTime i p s := by
  obtain ⟨⟨order, hlists⟩, hpBuf, hmsgTime⟩ :=
    (bufferInit_ensures rand fuel d.recordClear world).of_ok built hbuilt
  unfold dcacheAttack
  rw [hbuilt]
  apply (Dcache.attackRounds_returns rand clock hlists nDTests built.2).mono
  intro r hr
  refine ⟨hr.length_eq, ?_, ?_, ?_⟩
  · intro n sample hsample
    have hcomplete := hr.complete n sample hsample
    rw [hpBuf] at hcomplete
    exact hcomplete
  · intro i p s hi hs
    have hclear : built.1.msgTime i p.toNat s = 0 := by
      rw [hmsgTime]
      exact if_pos hi
    rw [hr.cell i p s hi hs, hclear, zero_add]
  · intro i p s hcell
    rw [hr.other i p s hcell, hmsgTime]

end Attack

/-- The data at the start of the program. -/
def loadedDcache : Dcache where
  pBuf := l1dSetSize
  pBuf_pos := by decide
  time := fun _ => 0
  prev := fun _ => 0
  next := fun _ => 0
  nextSet := fun _ => 0
  set0Head := 0
  set0Tail := 0
  pText := fun _ => 0
  msgTime := fun _ _ _ => 0

/-- Draws that go up by 3 and a clock that goes up by 1 with every use of either of them. -/
def steadyRand (world : ℕ) : ℕ × ℕ := (3 * world, world + 1)

def steadyClock (world : ℕ) : BitVec 64 × ℕ := (BitVec.ofNat 64 world, world + 1)

/-- The first of three iterations draws 0 for byte 0 of the plaintext, and no iteration draws 7. -/
theorem dcacheAttack_accounts_three :
    Returns (dcacheAttack steadyRand steadyClock 9 3 loadedDcache 0) fun r =>
      r.1.length = 3 ∧ ∀ s, s < nL1dSets → r.2.1.msgTime 0 0 s = 1#64 ∧ r.2.1.msgTime 0 7 s = 0#64 := by
  have hok : ((bufferInit steadyRand 9 loadedDcache.recordClear 0).toOption.map Prod.snd) = some 512 := by
    decide +kernel
  match hbuilt : bufferInit steadyRand 9 loadedDcache.recordClear 0 with
  | .error fault =>
      rw [hbuilt] at hok
      cases hok
  | .ok (built, world) =>
      rw [hbuilt] at hok
      obtain rfl : world = 512 := Option.some.inj hok
      apply (dcacheAttack_accounts steadyRand steadyClock 9 3 loadedDcache 0 (built, 512) hbuilt).mono
      intro r hr
      obtain ⟨hlength, -, hcell, -⟩ := hr
      have hsums : ∀ s, s < nL1dSets → accounted steadyRand steadyClock 512 3 0 0#8 s = 1#64 ∧
          accounted steadyRand steadyClock 512 3 0 7#8 s = 0#64 := by decide +kernel
      refine ⟨hlength, ?_⟩
      intro s hs
      rw [← (hsums s hs).1, ← (hsums s hs).2]
      exact ⟨hcell 0 0#8 s (by decide) hs, hcell 0 7#8 s (by decide) hs⟩

end ChannelBench
