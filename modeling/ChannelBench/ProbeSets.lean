import ChannelBench.VList
import Mathlib.Data.Finset.Card

/-! The probe sets of the three kernel APIs. `l3_spy` searches the probe sets of each API on its own
and then takes the ones that several APIs share out of all lists but one, with `remove_same_probesets`.
A deletion moves the last element of the list into a slot that the loop steps over. Nothing is missed,
because a list without duplicates holds no second copy of the deleted element. -/

namespace ChannelBench

open CSem

variable {α : Type} [DecidableEq α]

/-- One round of the inner loop of `remove_same_probesets`. -/
def removeSameRound (pA : VList α) (a : ℕ) : ℕ × VList α → Run ((ℕ × VList α) ⊕ VList α)
  | (b, pB) => do
      if b < vlLen pB then
        let x ← vlGet pA a
        let y ← vlGet pB b
        if x = y then
          let (_, pB) ← vlDel pB b
          return .inl (b + 1, pB)
        return .inl (b + 1, pB)
      else
        return .inr pB

/-- `remove_same_probesets`, with the second list as it is left. The two lists are different objects, so
the first one keeps its length. -/
def removeSameProbesets (pA pB : VList α) : Run (VList α) :=
  forUpto (fun a pB => loop (removeSameRound pA a) (vlLen pB + 1) (0, pB)) (vlLen pA) pB

/-- `enum timing_api`. -/
inductive TimingApi where
  | signal
  | tcb
  | poll
  deriving DecidableEq

/-- The lists `probed` after the three calls of `remove_same_probesets` in `l3_spy`, and the counts
`probe_sets` that it records. -/
def l3SpyProbeSets (probed : TimingApi → VList α) : Run ((TimingApi → VList α) × (TimingApi → ℕ)) := do
  let tcb ← removeSameProbesets (probed .signal) (probed .tcb)
  let probed := Function.update probed .tcb tcb
  let poll ← removeSameProbesets (probed .tcb) (probed .poll)
  let probed := Function.update probed .poll poll
  let poll ← removeSameProbesets (probed .signal) (probed .poll)
  let probed := Function.update probed .poll poll
  return (probed, fun api => vlLen (probed api))

/-- The elements of a list. -/
def VList.elements (vl : VList α) : Finset α := vl.toList.toFinset

/-- What is left of a list without duplicates after elements have been taken out of it. -/
structure Removed (removed : Finset α) (vl vl' : VList α) : Prop where
  nodup : vl'.toList.Nodup
  elements_eq : vl'.elements = vl.elements \ removed

/-- Deletion from a list without duplicates takes one element out. -/
theorem vlDel_removes {vl : VList α} (hnodup : vl.toList.Nodup) {b : ℕ} (hb : b < vl.toList.length) :
    Returns (vlDel vl b) fun r => Removed {vl.toList[b]} vl r.2 := by
  apply (vlDel_returns hb).mono
  intro r hr
  have hperm : (vl.toList[b] :: r.2.toList).Perm vl.toList := by
    rw [hr.2]
    exact perm_swapRemove hb
  obtain ⟨hnot, hrest⟩ := List.nodup_cons.mp (hperm.nodup_iff.mpr hnodup)
  refine ⟨hrest, ?_⟩
  rw [VList.elements, VList.elements, ← List.toFinset_eq_of_perm _ _ hperm, List.toFinset_cons,
    Finset.sdiff_singleton_eq_erase, Finset.erase_insert]
  rwa [List.mem_toFinset]

/-- The inner loop takes the element of the first list out of the second. -/
theorem removeSameLoop_returns {pA pB : VList α} {a : ℕ} (ha : a < pA.toList.length)
    (hnodup : pB.toList.Nodup) :
    Returns (loop (removeSameRound pA a) (vlLen pB + 1) (0, pB)) (Removed {pA.toList[a]} pB) := by
  -- the element is gone, or it is still ahead
  apply loop_returns (fun s => Removed {pA.toList[a]} pB s.2 ∨
      s.2 = pB ∧ pA.toList[a] ∉ pB.toList.take s.1) _ (fun s => vlLen s.2 - s.1)
  · intro s hs
    obtain ⟨b, vl⟩ := s
    dsimp only at hs
    have hvl : vl.toList.Nodup := by
      rcases hs with hs | hs
      · exact hs.nodup
      · rw [hs.1]
        exact hnodup
    rw [removeSameRound, vlLen_eq]
    by_cases hb : b < vl.toList.length
    · rw [if_pos hb, vlGet_eq ha, ok_bind, vlGet_eq hb, ok_bind]
      by_cases heq : pA.toList[a] = vl.toList[b]
      · rw [if_pos heq]
        apply (vlDel_removes hvl hb).bind
        intro r hr
        rw [returns_pure]
        have hshort : vlLen r.2 ≤ vlLen vl := by
          have hcard := Finset.card_le_card (hr.elements_eq.trans_subset Finset.sdiff_subset)
          rw [VList.elements, VList.elements, List.toFinset_card_of_nodup hr.nodup,
            List.toFinset_card_of_nodup hvl] at hcard
          rwa [vlLen_eq, vlLen_eq]
        refine ⟨.inl ?_, ?_⟩
        · rcases hs with hs | hs
          · have hgone : vl.toList[b] ∈ vl.elements := List.mem_toFinset.mpr (List.getElem_mem hb)
            rw [hs.elements_eq, Finset.mem_sdiff, Finset.mem_singleton] at hgone
            exact absurd heq.symm hgone.2
          · rw [heq, ← hs.1]
            exact hr
        · rw [vlLen_eq] at hshort
          simp only [vlLen_eq] at hshort ⊢
          omega
      · rw [if_neg heq, returns_pure]
        refine ⟨?_, ?_⟩
        · rcases hs with hs | hs
          · exact .inl hs
          · refine .inr ⟨hs.1, ?_⟩
            obtain ⟨rfl, hahead⟩ := hs
            rw [List.take_succ_eq_append_getElem hb, List.mem_append, List.mem_singleton]
            exact not_or.mpr ⟨hahead, heq⟩
        · simp only [vlLen_eq]
          omega
    · rw [if_neg hb, returns_pure]
      rcases hs with hs | hs
      · exact hs
      · obtain ⟨rfl, hahead⟩ := hs
        rw [List.take_of_length_le (Nat.not_lt.mp hb)] at hahead
        refine ⟨hvl, ?_⟩
        rw [Finset.sdiff_singleton_eq_erase, Finset.erase_eq_self.mpr]
        rwa [VList.elements, List.mem_toFinset]
  · exact .inr ⟨rfl, by simp⟩
  · simp

/-- `remove_same_probesets` takes the elements of the first list out of the second. -/
theorem removeSameProbesets_returns (pA : VList α) {pB : VList α} (hnodup : pB.toList.Nodup) :
    Returns (removeSameProbesets pA pB) (Removed pA.elements pB) := by
  have hrun : Returns (removeSameProbesets pA pB)
      (Removed (pA.toList.take pA.toList.length).toFinset pB) := by
    rw [removeSameProbesets, vlLen_eq]
    apply forUpto_returns (fun a vl => Removed (pA.toList.take a).toFinset pB vl)
    · exact ⟨hnodup, by simp⟩
    · intro a ha vl hvl
      apply (removeSameLoop_returns ha hvl.nodup).mono
      intro vl' hvl'
      refine ⟨hvl'.nodup, ?_⟩
      rw [hvl'.elements_eq, hvl.elements_eq, List.take_succ_eq_append_getElem ha, List.toFinset_append,
        sdiff_sdiff_left]
      rfl
  rwa [List.take_length] at hrun

/-- What the three calls leave of the lists of the APIs, and the counts recorded of them. -/
structure ProbeSetsSplit (probed probed' : TimingApi → VList α) (probeSets : TimingApi → ℕ) : Prop where
  signal_eq : probed' .signal = probed .signal
  tcb_eq : (probed' .tcb).elements = (probed .tcb).elements \ (probed .signal).elements
  poll_eq : (probed' .poll).elements =
    (probed .poll).elements \ ((probed .signal).elements ∪ (probed .tcb).elements)
  nodup : ∀ api, (probed' api).toList.Nodup
  disjoint : ∀ api api', api ≠ api' → Disjoint (probed' api).elements (probed' api').elements
  union_eq : (probed' .signal).elements ∪ (probed' .tcb).elements ∪ (probed' .poll).elements =
    (probed .signal).elements ∪ (probed .tcb).elements ∪ (probed .poll).elements
  probeSets_eq : ∀ api, probeSets api = vlLen (probed' api)
  sum_eq : probeSets .signal + probeSets .tcb + probeSets .poll =
    ((probed .signal).elements ∪ (probed .tcb).elements ∪ (probed .poll).elements).card

theorem vlLen_eq_card {vl : VList α} (h : vl.toList.Nodup) : vlLen vl = vl.elements.card := by
  rw [vlLen_eq, VList.elements, List.toFinset_card_of_nodup h]

/-- Everything else follows from what is left of each list. -/
theorem ProbeSetsSplit.of_elements {probed probed' : TimingApi → VList α}
    (hsignal : probed' .signal = probed .signal)
    (htcb : (probed' .tcb).elements = (probed .tcb).elements \ (probed .signal).elements)
    (hpoll : (probed' .poll).elements =
      (probed .poll).elements \ ((probed .signal).elements ∪ (probed .tcb).elements))
    (hnodup : ∀ api, (probed' api).toList.Nodup) :
    ProbeSetsSplit probed probed' fun api => vlLen (probed' api) := by
  have hsignalTcb : Disjoint (probed' .signal).elements (probed' .tcb).elements := by
    rw [hsignal, htcb]
    exact Finset.disjoint_sdiff
  have hsignalPoll : Disjoint (probed' .signal).elements (probed' .poll).elements := by
    rw [hsignal, hpoll]
    exact Finset.disjoint_sdiff.mono_left Finset.subset_union_left
  have htcbPoll : Disjoint (probed' .tcb).elements (probed' .poll).elements := by
    rw [htcb, hpoll]
    exact Finset.disjoint_sdiff.mono_left (Finset.sdiff_subset.trans Finset.subset_union_right)
  have hunion : (probed' .signal).elements ∪ (probed' .tcb).elements ∪ (probed' .poll).elements =
      (probed .signal).elements ∪ (probed .tcb).elements ∪ (probed .poll).elements := by
    rw [hsignal, htcb, hpoll, Finset.union_sdiff_self_eq_union, Finset.union_sdiff_self_eq_union]
  refine ⟨hsignal, htcb, hpoll, hnodup, ?_, hunion, fun _ => rfl, ?_⟩
  · intro api api' hne
    cases api with
    | signal =>
        cases api' with
        | signal => exact absurd rfl hne
        | tcb => exact hsignalTcb
        | poll => exact hsignalPoll
    | tcb =>
        cases api' with
        | signal => exact hsignalTcb.symm
        | tcb => exact absurd rfl hne
        | poll => exact htcbPoll
    | poll =>
        cases api' with
        | signal => exact hsignalPoll.symm
        | tcb => exact htcbPoll.symm
        | poll => exact absurd rfl hne
  · rw [vlLen_eq_card (hnodup _), vlLen_eq_card (hnodup _), vlLen_eq_card (hnodup _), ← hunion,
      Finset.card_union_of_disjoint (Finset.disjoint_union_left.mpr ⟨hsignalPoll, htcbPoll⟩),
      Finset.card_union_of_disjoint hsignalTcb]

/-- **Disjoint probe sets.** On lists without duplicates the three calls leave `signal` alone, `tcb` with
its elements outside `signal`, and `poll` with its elements outside both. The lists left are disjoint and
without duplicates, and the recorded counts add up to the size of the union of the lists. -/
theorem l3Spy_probeSets (probed : TimingApi → VList α) (hnodup : ∀ api, (probed api).toList.Nodup) :
    Returns (l3SpyProbeSets probed) fun r => ProbeSetsSplit probed r.1 r.2 := by
  rw [l3SpyProbeSets]
  apply (removeSameProbesets_returns (probed .signal) (hnodup .tcb)).bind
  intro tcb htcb
  have hpolls : Function.update probed .tcb tcb .poll = probed .poll := Function.update_of_ne (by decide) _ _
  apply (removeSameProbesets_returns _ (hpolls ▸ hnodup .poll)).bind
  intro poll hpoll
  rw [Function.update_self, hpolls] at hpoll
  apply (removeSameProbesets_returns _ (by rw [Function.update_self]; exact hpoll.nodup)).bind
  intro poll' hpoll'
  rw [Function.update_self, Function.update_of_ne (by decide), Function.update_of_ne (by decide)] at hpoll'
  rw [returns_pure]
  apply ProbeSetsSplit.of_elements
  · rfl
  · exact htcb.elements_eq
  · -- the second call took out what the first one had left of `tcb`
    show poll'.elements = _
    rw [hpoll'.elements_eq, hpoll.elements_eq, htcb.elements_eq, sdiff_sdiff_left, Finset.sup_eq_union,
      Finset.sdiff_union_self_eq_union, Finset.union_comm]
  · intro api
    cases api with
    | signal => exact hnodup .signal
    | tcb => exact htcb.nodup
    | poll => exact hpoll'.nodup

/-- Three lists that overlap in every way. -/
def overlappingProbeSets : TimingApi → VList ℕ
  | .signal => VList.ofList [1, 2, 3]
  | .tcb => VList.ofList [3, 4, 5]
  | .poll => VList.ofList [5, 1, 6]

theorem l3Spy_probeSets_overlapping :
    Returns (l3SpyProbeSets overlappingProbeSets) fun r =>
      ProbeSetsSplit overlappingProbeSets r.1 r.2 :=
  l3Spy_probeSets overlappingProbeSets fun api => by cases api <;> decide

end ChannelBench
