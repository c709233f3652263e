import ChannelBench.EvictionPassRules
import Mathlib.Data.Set.Basic

/-! What one pass of `contract` leaves when the eviction test decides a monotone predicate on sets of
pages. A page is kept because the pages that were there at that moment do not evict without it, and
the pages left at the end are fewer, so they do not evict without it either. This is why one pass is
enough: a second one finds no page to give up. -/

namespace ChannelBench

open CSem

variable {σ Page : Type} {M : Machine σ Page} {E : Set Page → Page → Prop} {c : Page}

/-- The pages of a list as a set. -/
def VList.pageSet (vl : VList Page) : Set Page := {p | p ∈ vl.toList}

/-- The eviction tests decide `E`, which looks at the pages of a list as a set. -/
def Decides (M : Machine σ Page) (E : Set Page → Page → Prop) : Prop :=
  Answers M fun es candidate evicted => evicted = true ↔ E {p | p ∈ es} candidate

/-- No page of the set can be spared. -/
def Needed (E : Set Page → Page → Prop) (c : Page) (pages : Set Page) : Prop :=
  ∀ p ∈ pages, ¬E (pages \ {p}) c

/-- The pages decided on are needed, and all pages together evict `c`. -/
structure Contracting (E : Set Page → Page → Prop) (c : Page) (kept rest : List Page) : Prop where
  evicts : E {p | p ∈ kept ++ rest} c
  needed : ∀ p ∈ kept, ¬E ({q | q ∈ kept ++ rest} \ {p}) c

theorem Contracting.drop (hmono : ∀ s t, s ⊆ t → E s c → E t c) {kept rest rest' : List Page} {page : Page}
    (h : Contracting E c kept (page :: rest)) (hperm : rest'.Perm rest)
    (hevicts : E {p | p ∈ kept ++ rest'} c) : Contracting E c kept rest' := by
  refine ⟨hevicts, ?_⟩
  intro p hp hspare
  apply h.needed p hp
  refine hmono _ _ ?_ hspare
  apply Set.sdiff_subset_sdiff_left
  intro q hq
  rcases List.mem_append.mp hq with hq | hq
  · exact List.mem_append_left _ hq
  · exact List.mem_append_right _ (List.mem_cons_of_mem _ (hperm.mem_iff.mp hq))

theorem Contracting.keep (hmono : ∀ s t, s ⊆ t → E s c → E t c) {kept rest rest' : List Page} {page : Page}
    (h : Contracting E c kept (page :: rest)) (hperm : rest'.Perm rest)
    (hfails : ¬E {p | p ∈ kept ++ rest'} c) : Contracting E c (kept ++ [page]) rest := by
  have hall : kept ++ [page] ++ rest = kept ++ page :: rest := by simp
  refine ⟨?_, ?_⟩
  · rw [hall]
    exact h.evicts
  · rw [hall]
    intro p hp hspare
    rcases List.mem_append.mp hp with hp | hp
    · exact h.needed p hp hspare
    · -- without `page` there are no pages but those of the failed test
      rw [List.mem_singleton.mp hp] at hspare
      refine hfails (hmono _ _ ?_ hspare)
      rintro q ⟨hq, hne⟩
      rcases List.mem_append.mp hq with hq | hq
      · exact List.mem_append_left _ hq
      · rcases List.mem_cons.mp hq with rfl | hq
        · exact absurd rfl hne
        · exact List.mem_append_right _ (hperm.mem_iff.mpr hq)

/-- A pass over a list of which no page can be spared leaves it as it is. -/
theorem contract_needed (hE : Decides M E) {es : VList Page} (hnodup : es.toList.Nodup)
    (hneeded : Needed E c es.pageSet) (hmono : ∀ s t, s ⊆ t → E s c → E t c) (candidates : VList Page)
    (world : σ) :
    Returns (contract M es candidates c world) fun r =>
      r.1.toList = es.toList ∧ r.2.1.toList = candidates.toList := by
  refine (contract_returns hE (K := fun kept rest => kept ++ rest = es.toList) ?_ ?_ world rfl).mono ?_
  · intro kept page rest rest' hperm hall htest
    have hnodup' : (page :: (kept ++ rest)).Nodup := by
      rw [← hall] at hnodup
      exact List.perm_middle.nodup_iff.mp hnodup
    have hspare : {p | p ∈ kept ++ rest'} ⊆ es.pageSet \ {page} := by
      intro q hq
      have hq' : q ∈ kept ++ rest := (hperm.append_left kept).mem_iff.mp hq
      refine ⟨?_, ?_⟩
      · show q ∈ es.toList
        rw [← hall]
        exact List.perm_middle.mem_iff.mpr (List.mem_cons_of_mem page hq')
      · rintro rfl
        exact (List.nodup_cons.mp hnodup').1 hq'
    have hpage : page ∈ es.pageSet := by
      show page ∈ es.toList
      rw [← hall]
      exact List.mem_append_right _ List.mem_cons_self
    exact absurd (hmono _ _ hspare (htest.mp rfl)) (hneeded page hpage)
  · intro kept page rest rest' _ hall _
    rw [← hall]
    simp
  · rintro r ⟨hall, removed, hcandidates, hperm⟩
    rw [List.append_nil] at hall
    have hlength := hperm.length_eq
    rw [hall, List.length_append] at hlength
    have hremoved : removed = [] := List.eq_nil_of_length_eq_zero (by omega)
    rw [hremoved, List.append_nil] at hcandidates
    exact ⟨hall, hcandidates⟩

/-- **One pass is enough.** The pages left evict the candidate and none of them can be spared; the
others are behind the candidates, and another pass over what is left changes nothing. -/
theorem contract_minimal (hE : Decides M E) (hmono : ∀ s t, s ⊆ t → E s c → E t c) (hempty : ¬E ∅ c)
    {es : VList Page} (hnodup : es.toList.Nodup) (hes : E es.pageSet c) (candidates : VList Page)
    (world : σ) :
    Returns (contract M es candidates c world) fun r =>
      E r.1.pageSet c ∧ (∀ p ∈ r.1.toList, ¬E (r.1.pageSet \ {p}) c) ∧ r.1.toList ≠ [] ∧
        (∃ removed, r.2.1.toList = candidates.toList ++ removed ∧
          (r.1.toList ++ removed).Perm es.toList ∧ (r.1.toList ++ removed).Nodup) ∧
        ∀ world', Returns (contract M r.1 r.2.1 c world') fun again =>
          again.1.toList = r.1.toList ∧ again.2.1.toList = r.2.1.toList := by
  refine (contract_returns hE (K := Contracting E c) ?_ ?_ world ⟨hes, by simp⟩).mono ?_
  · intro kept page rest rest' hperm h htest
    exact h.drop hmono hperm (htest.mp rfl)
  · intro kept page rest rest' hperm h htest
    exact h.keep hmono hperm fun hevicts => Bool.false_ne_true (htest.mpr hevicts)
  · rintro r ⟨⟨hevicts, hneeded⟩, removed, hcandidates, hperm⟩
    rw [List.append_nil] at hevicts hneeded
    have hleft : (r.1.toList ++ removed).Nodup := hperm.nodup_iff.mpr hnodup
    refine ⟨hevicts, hneeded, ?_, ⟨removed, hcandidates, hperm, hleft⟩, ?_⟩
    · intro hnil
      rw [hnil] at hevicts
      exact hempty (by simpa using hevicts)
    · intro world'
      exact contract_needed hE (List.nodup_append.mp hleft).1 hneeded hmono r.2.1 world'

open Classical in
/-- A machine that decides a given predicate. -/
noncomputable def decidingMachine (E : Set Page → Page → Prop) : Machine Unit Page where
  random := fun world => (0, world)
  timedwalk := fun links _ candidate world => (if E {p | p ∈ links.map Prod.fst} candidate then 200 else 50, world)
  l3Threshold := 140

/-- Every predicate that is false of the empty set is the answer of some machine. -/
theorem decidingMachine_decides (hempty : ∀ c, ¬E ∅ c) : Decides (decidingMachine E) E := by
  intro es candidate world
  by_cases hes : es.toList = []
  · rw [checkevict_nil _ _ _ hes, hes, returns_ok]
    simpa using hempty candidate
  · refine (checkevict_returns (decidingMachine E) candidate world hes).mono ?_
    rintro r ⟨links, head, hlinks, hr⟩
    rw [hr, decide_eq_true_eq, ← hlinks]
    simp only [decidingMachine]
    split_ifs with hevicts
    · simpa using hevicts
    · simpa using hevicts

/-- Pages 1 and 2 evict together, and page 3 is given up. -/
theorem contract_minimal_pair :
    Returns (contract (decidingMachine fun s _ => 1 ∈ s ∧ 2 ∈ s) (VList.ofList [1, 3, 2])
        (VList.ofList [4]) 7 ()) fun r =>
      (1 ∈ r.1.pageSet ∧ 2 ∈ r.1.pageSet) ∧
        (∀ p ∈ r.1.toList, ¬(1 ∈ r.1.pageSet \ {p} ∧ 2 ∈ r.1.pageSet \ {p})) ∧ r.1.toList ≠ [] ∧
        (∃ removed, r.2.1.toList = (VList.ofList [4]).toList ++ removed ∧
          (r.1.toList ++ removed).Perm (VList.ofList [1, 3, 2]).toList ∧ (r.1.toList ++ removed).Nodup) ∧
        ∀ world', Returns (contract (decidingMachine fun s _ => 1 ∈ s ∧ 2 ∈ s) r.1 r.2.1 7 world') fun again =>
          again.1.toList = r.1.toList ∧ again.2.1.toList = r.2.1.toList :=
  contract_minimal (decidingMachine_decides (by simp)) (fun _ _ hst h => ⟨hst h.1, hst h.2⟩) (by simp)
    (by simp) ⟨by simp [VList.pageSet], by simp [VList.pageSet]⟩ (VList.ofList [4]) ()

end ChannelBench
