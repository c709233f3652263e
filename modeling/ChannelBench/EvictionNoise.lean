import ChannelBench.EvictionRounds
import Mathlib.Tactic.Linarith

/-! Whole searches under arbitrary noise. A search ends, its assertion and its index checks hold, and
every set it returns has at least two pages less than the associativity. The ARM search keeps every
page. The x86 search gives up the conflicting page of every set it rejects, so it keeps the pages of
its input exactly when it never rejects a set. -/

namespace ChannelBench

open CSem

variable {σ Page : Type} {M : Machine σ Page}

/-- The pages in the sets found so far and in the lines. -/
def SearchState.total (s : SearchState σ Page) : Multiset Page :=
  (s.sets.toList.map VList.pages).sum + s.lines.pages

@[simp] theorem SearchState.total_init (lines : VList Page) (world : σ) :
    (SearchState.init lines world).total = lines.pages := by
  simp [SearchState.total, SearchState.init]

/-- What holds at every loop head of a search: the eviction set is empty, no set is too small and no
page is there twice. -/
structure SearchInv (associativity : ℤ) (start s : SearchState σ Page) : Prop where
  es_nil : s.es.toList = []
  size : ∀ set ∈ s.sets.toList, associativity - 2 ≤ (set.toList.length : ℤ)
  total_le : s.total ≤ start.total

theorem searchInv_init (associativity : ℤ) (lines : VList Page) (world : σ) :
    SearchInv associativity (SearchState.init lines world) (SearchState.init lines world) where
  es_nil := rfl
  size := by simp [SearchState.init]
  total_le := le_rfl

namespace RoundResult

variable {limit : ℕ} {associativity : ℤ} {lossy : Prop} {start s t : SearchState σ Page}

/-- A round keeps the pages except one that a lossy round gives up. -/
theorem exists_lost (h : RoundResult limit associativity lossy s (.inl t)) :
    ∃ lost : Multiset Page, lost + t.total = s.total ∧
      ((¬lossy ∧ lost = 0) ∨ (lossy ∧ lost.card = 1)) := by
  cases h with
  | failed lost _ _ _ hsets hpages hlost =>
      refine ⟨lost, ?_, hlost⟩
      rw [SearchState.total, SearchState.total, hsets, ← hpages]
      abel
  | @found _ set _ hsets _ _ hpages hlossy =>
      refine ⟨0, ?_, Or.inl ⟨hlossy, rfl⟩⟩
      rw [zero_add, SearchState.total, SearchState.total, hsets, ← hpages, List.map_append,
        List.sum_append, List.map_singleton, List.sum_singleton, add_assoc]

theorem inv (h : RoundResult limit associativity lossy s (.inl t))
    (hs : SearchInv associativity start s) : SearchInv associativity start t := by
  have htotal : t.total ≤ start.total := by
    obtain ⟨lost, hlost, -⟩ := h.exists_lost
    exact (hlost ▸ Multiset.le_add_left _ _).trans hs.total_le
  cases h with
  | failed _ _ _ hes hsets _ _ => exact ⟨hes, hsets ▸ hs.size, htotal⟩
  | @found _ set hes hsets _ hsize _ _ =>
      refine ⟨hes, ?_, htotal⟩
      intro set' hset'
      rw [hsets] at hset'
      rcases List.mem_append.mp hset' with hmem | hmem
      · exact hs.size set' hmem
      · rw [List.mem_singleton.mp hmem]
        exact hsize

/-- Lexicographic: the lines left, then the failures left. A failure never adds a line, and only
finding a set resets the failures. -/
def measure (limit : ℕ) (s : SearchState σ Page) : ℕ :=
  s.lines.toList.length * (limit + 2) + (limit + 1 - s.fail)

theorem measure_lt (h : RoundResult limit associativity lossy s (.inl t)) :
    measure limit t < measure limit s := by
  unfold measure
  cases h with
  | failed lost hlimit hfail _ _ hpages _ =>
      have hcard := congrArg Multiset.card hpages
      simp only [Multiset.card_add, VList.card_pages] at hcard
      have hmul : t.lines.toList.length * (limit + 2) ≤ s.lines.toList.length * (limit + 2) :=
        Nat.mul_le_mul_right _ (by omega)
      omega
  | @found _ set _ _ hset _ hpages _ =>
      have hcard := congrArg Multiset.card hpages
      simp only [Multiset.card_add, VList.card_pages] at hcard
      have hpos := List.length_pos_of_ne_nil hset
      have hmul : (t.lines.toList.length + 1) * (limit + 2) ≤
          s.lines.toList.length * (limit + 2) := Nat.mul_le_mul_right _ (by omega)
      rw [Nat.add_mul, Nat.one_mul] at hmul
      omega

end RoundResult

section Run

variable {round : SearchState σ Page → Run (SearchState σ Page ⊕ SearchState σ Page)}
  {limit : ℕ} {associativity : ℤ} {lossy : SearchState σ Page → Prop} {start : SearchState σ Page}
  (hround : ∀ s : SearchState σ Page, Visits round start s → s.es.toList = [] →
    Returns (round s) (RoundResult limit associativity (lossy s) s))
  (hstart : SearchInv associativity start start)

include hround hstart

/-- The invariant of one run. Only the rounds of this run matter. -/
theorem searchInv_of_run {s : SearchState σ Page} (h : Visits round start s) :
    SearchInv associativity start s := by
  induction h with
  | start => exact hstart
  | round ht hu ih => exact ((hround _ ht ih.es_nil).of_eq_ok hu).inv ih

/-- A run ends. -/
theorem search_run_returns {fuel : ℕ} (hfuel : RoundResult.measure limit start < fuel) :
    Returns (loop round fuel start) (SearchInv associativity start) := by
  apply loop_returns (fun s => Visits round start s ∧ SearchInv associativity start s) _
    (RoundResult.measure limit) _ ⟨.start, hstart⟩ hfuel
  intro s hs
  obtain ⟨hvisit, hinv⟩ := hs
  obtain ⟨r, hrun, hr⟩ := hround s hvisit hinv.es_nil
  refine ⟨r, hrun, ?_⟩
  cases r with
  | inl t => exact ⟨⟨hvisit.round hrun, hr.inv hinv⟩, hr.measure_lt⟩
  | inr t =>
      cases hr
      exact hinv

end Run

section Search

variable {round : SearchState σ Page → Run (SearchState σ Page ⊕ SearchState σ Page)}
  {limit : ℕ} {associativity : ℤ} {lossy : SearchState σ Page → Prop}
  (hround : ∀ s : SearchState σ Page, s.es.toList = [] →
    Returns (round s) (RoundResult limit associativity (lossy s) s))

include hround

theorem SearchInv.of_visits {start s : SearchState σ Page}
    (hstart : SearchInv associativity start start) (h : Visits round start s) :
    SearchInv associativity start s := searchInv_of_run (fun s _ => hround s) hstart h

/-- A search ends. -/
theorem search_returns {start : SearchState σ Page} {fuel : ℕ}
    (hstart : SearchInv associativity start start)
    (hfuel : RoundResult.measure limit start < fuel) :
    Returns (loop round fuel start) (SearchInv associativity start) :=
  search_run_returns (fun s _ => hround s) hstart hfuel

/-- A search loses no page exactly when none of its rounds is lossy. -/
theorem search_total_iff {start final : SearchState σ Page} {fuel : ℕ}
    (hstart : SearchInv associativity start start) (hrun : loop round fuel start = .ok final) :
    final.total = start.total ↔ ∀ s, Visits round start s → ¬lossy s := by
  constructor
  · intro htotal s hs hlossy
    -- the round from `s` loses a page that no later round can bring back
    have hinv := SearchInv.of_visits hround hstart hs
    obtain ⟨fuel', hrest⟩ := hs.loop_eq hrun
    cases fuel' with
    | zero => cases hrest
    | succ fuel' =>
        obtain ⟨r, hr, hloop⟩ := bind_eq_ok.mp hrest
        have hstep := (hround s hinv.es_nil).of_eq_ok hr
        cases r with
        | inr t =>
            cases hstep with
            | finished _ h => exact h hlossy
        | inl t =>
            obtain ⟨lost, hlost, hcases⟩ := hstep.exists_lost
            have hcard : lost.card = 1 := by
              rcases hcases with ⟨h, -⟩ | ⟨-, h⟩
              · exact absurd hlossy h
              · exact h
            have htinv : SearchInv associativity t t :=
              ⟨(hstep.inv hinv).es_nil, (hstep.inv hinv).size, le_rfl⟩
            obtain ⟨u, hu, hlast⟩ := exists_visit_of_loop hloop
            have huinv := SearchInv.of_visits hround htinv hu
            have hfinal : final = u := by
              have hend := (hround u huinv.es_nil).of_eq_ok hlast
              cases hend
              rfl
            have h1 := Multiset.card_le_card huinv.total_le
            have h2 := Multiset.card_le_card hinv.total_le
            have h3 := congrArg Multiset.card hlost
            rw [Multiset.card_add, hcard] at h3
            rw [← hfinal, htotal] at h1
            omega
  · intro hclean
    obtain ⟨t, ht, hlast⟩ := exists_visit_of_loop hrun
    have hkeep : ∀ s, Visits round start s → s.total = start.total := by
      intro s hs
      induction hs with
      | start => rfl
      | @round t u ht hu ih =>
          have htinv := SearchInv.of_visits hround hstart ht
          obtain ⟨lost, hlost, hcases⟩ := ((hround t htinv.es_nil).of_eq_ok hu).exists_lost
          rcases hcases with ⟨-, h⟩ | ⟨h, -⟩
          · rw [← ih, ← hlost, h, zero_add]
          · exact absurd h (hclean t ht)
    have htinv := SearchInv.of_visits hround hstart ht
    have hend := (hround t htinv.es_nil).of_eq_ok hlast
    cases hend
    exact hkeep _ ht

end Search

/-- The sizes of the sets bound their number. -/
theorem SearchInv.length_sets_mul_le {associativity : ℤ} {lines : VList Page} {world : σ}
    {s : SearchState σ Page} (h : SearchInv associativity (SearchState.init lines world) s) :
    (s.sets.toList.length : ℤ) * (associativity - 2) ≤ lines.toList.length := by
  have hcard := Multiset.card_le_card h.total_le
  rw [SearchState.total_init, SearchState.total, Multiset.card_add, VList.card_pages,
    VList.card_pages] at hcard
  have hsum : ∀ sets : List (VList Page),
      (∀ set ∈ sets, associativity - 2 ≤ (set.toList.length : ℤ)) →
      (sets.length : ℤ) * (associativity - 2) ≤ ((sets.map VList.pages).sum.card : ℤ) := by
    intro sets
    induction sets with
    | nil => simp
    | cons set sets ih =>
        intro hsets
        have hhead := hsets set List.mem_cons_self
        have htail := ih fun set' h => hsets set' (List.mem_cons_of_mem _ h)
        rw [List.map_cons, List.sum_cons, Multiset.card_add, VList.card_pages, List.length_cons]
        push_cast
        linarith
  have := hsum _ h.size
  omega

/-- `cm_linelist` copies the sets it found into the cache map. -/
theorem copySets_returns (sets : VList (VList Page)) :
    Returns (forUpto (fun i cmSets => do
      let set ← vlGet sets i
      return cmSets ++ [set]) (vlLen sets) []) (· = sets.toList) := by
  have hrun : Returns (forUpto (fun i cmSets => do
      let set ← vlGet sets i
      return cmSets ++ [set]) (vlLen sets) []) (· = sets.toList.take sets.toList.length) := by
    rw [vlLen_eq]
    refine forUpto_returns (fun i cmSets => cmSets = sets.toList.take i) rfl ?_
    rintro i hi _ rfl
    rw [vlGet_eq hi, ok_bind, returns_pure, List.take_add_one, List.getElem?_eq_getElem hi]
    rfl
  rwa [List.take_length] at hrun

/-- What the search loop ends with is what `cm_linelist` returns. -/
theorem cmLinelist_returns {l3Associativity : ℤ} {fuel : ℕ} {lines : VList Page} {world : σ}
    {P : SearchState σ Page → Prop} {Q : Cachemap Page × VList Page → Prop}
    (hloop : Returns (loop (linelistRound M l3Associativity) fuel (SearchState.init lines world)) P)
    (hQ : ∀ s, P s → Q ({ nsets := s.sets.toList.length, sets := s.sets.toList }, s.lines)) :
    Returns (cmLinelist M l3Associativity fuel lines world) Q := by
  apply hloop.bind
  intro s hs
  apply (copySets_returns s.sets).bind
  intro cmSets hsets
  rw [returns_pure, hsets, vlLen_eq]
  exact hQ s hs

/-- **Safety and termination of the discovery under arbitrary noise.** Given enough rounds, both
searches end without a failed assertion and without an access out of range; the assertion that the
eviction set is empty holds at every loop head; and every set has at least two pages less than the
associativity, which bounds the number of sets. -/
theorem evictionSearch_safe (M : Machine σ Page) (associativity : ℤ) (lines : VList Page)
    (world : σ) :
    (∃ rounds, ∀ fuel, rounds ≤ fuel →
      Returns (cmLinelist M associativity fuel lines world) fun r =>
        (∀ set ∈ r.1.sets, associativity - 2 ≤ (set.toList.length : ℤ)) ∧
          (r.1.nsets : ℤ) * (associativity - 2) ≤ lines.toList.length) ∧
    (∃ rounds, ∀ fuel, rounds ≤ fuel →
      Returns (l3Map M associativity fuel lines world) fun r =>
        (∀ set ∈ r.1.toList, associativity - 2 ≤ (set.toList.length : ℤ)) ∧
          (r.1.toList.length : ℤ) * (associativity - 2) ≤ lines.toList.length) ∧
    (∀ s, Visits (linelistRound M associativity) (SearchState.init lines world) s →
      vlLen s.es = 0) ∧
    ∀ s, Visits (mapRound M associativity) (SearchState.init lines world) s → vlLen s.es = 0 := by
  have hstart := searchInv_init associativity lines world
  refine ⟨⟨RoundResult.measure 5 (SearchState.init lines world) + 1, fun fuel hfuel => ?_⟩,
    ⟨RoundResult.measure 8 (SearchState.init lines world) + 1, fun fuel hfuel => ?_⟩,
    fun s hs => ?_, fun s hs => ?_⟩
  · apply cmLinelist_returns (search_returns (fun _ => linelistRound_returns associativity) hstart hfuel)
    intro s hs
    exact ⟨hs.size, hs.length_sets_mul_le⟩
  · refine (search_returns (fun _ => mapRound_returns associativity) hstart hfuel).bind
      fun s hs => returns_pure.mpr ?_
    exact ⟨hs.size, hs.length_sets_mul_le⟩
  · rw [vlLen_eq, (SearchInv.of_visits (fun _ => linelistRound_returns associativity)
      hstart hs).es_nil]
    rfl
  · rw [vlLen_eq, (SearchInv.of_visits (fun _ => mapRound_returns associativity) hstart hs).es_nil]
    rfl

/-- **When the x86 discovery keeps its pages.** The pages in the returned sets and in `lines` are the
pages passed in exactly when no round finds an eviction set and rejects it for its size. -/
theorem cmLinelist_keeps_pages_iff (M : Machine σ Page) (l3Associativity : ℤ) (lines : VList Page)
    (world : σ) :
    ∃ rounds, ∀ fuel, rounds ≤ fuel →
      Returns (cmLinelist M l3Associativity fuel lines world) fun r =>
        ((r.1.sets.map VList.pages).sum + r.2.pages = lines.pages ↔
          ∀ s, Visits (linelistRound M l3Associativity) (SearchState.init lines world) s →
            linelistRejects M l3Associativity s = false) := by
  have hstart := searchInv_init l3Associativity lines world
  refine ⟨RoundResult.measure 5 (SearchState.init lines world) + 1, fun fuel hfuel => ?_⟩
  obtain ⟨s, hs, -⟩ :=
    search_returns (fun _ => linelistRound_returns (M := M) l3Associativity) hstart hfuel
  have hkeep := search_total_iff (fun _ => linelistRound_returns l3Associativity) hstart hs
  rw [SearchState.total_init] at hkeep
  simp only [Bool.not_eq_true] at hkeep
  apply cmLinelist_returns ⟨s, hs, rfl⟩
  rintro _ rfl
  exact hkeep

/-- A machine on which every walk is slow. -/
def slowMachine : Machine Unit ℕ where
  random := fun world => (0, world)
  timedwalk := fun _ _ _ world => (200, world)
  l3Threshold := 140

/-- The second page is in conflict with the first, and the set of one page is too small: the
discovery ends without sets and with one of its two pages. -/
theorem cmLinelist_loses_a_page :
    (VList.ofList [1, 2]).toList.Nodup ∧
      ∃ r, cmLinelist slowMachine 16 8 (VList.ofList [1, 2]) () = .ok r ∧
        (r.1.sets.map VList.pages).sum + r.2.pages ≠ (VList.ofList [1, 2]).pages := by
  refine ⟨by decide, _, rfl, by decide⟩

/-! ### The ARM discovery keeps its pages -/

theorem sum_pages_eq (sets : List (VList Page)) :
    (sets.map VList.pages).sum = (sets.flatMap VList.toList : Multiset Page) := by
  induction sets with
  | nil => rfl
  | cons set sets ih =>
      rw [List.map_cons, List.sum_cons, List.flatMap_cons, ← Multiset.coe_add, ih]
      rfl

/-- Conserved pages that were pairwise distinct are in one place each. -/
theorem nodup_of_pages {sets : List (VList Page)} {rest lines : VList Page}
    (hpages : (sets.map VList.pages).sum + rest.pages = lines.pages) (hlines : lines.toList.Nodup) :
    (sets.flatMap VList.toList ++ rest.toList).Nodup := by
  rw [sum_pages_eq, VList.pages, VList.pages, Multiset.coe_add, Multiset.coe_eq_coe] at hpages
  exact hpages.nodup_iff.mpr hlines

/-- **The ARM discovery loses no page.** Under arbitrary noise `map` ends, the pages of its groups and
those left in `lines` are together the pages passed in, and no page is in two groups, twice in a group,
or in a group and left over. -/
theorem l3Map_keeps_pages (M : Machine σ Page) (associativity : ℤ) (lines : VList Page) (world : σ)
    (hlines : lines.toList.Nodup) :
    ∃ rounds, ∀ fuel, rounds ≤ fuel →
      Returns (l3Map M associativity fuel lines world) fun r =>
        (r.1.toList.map VList.pages).sum + r.2.pages = lines.pages ∧
          (r.1.toList.flatMap VList.toList ++ r.2.toList).Nodup ∧
            r.1.toList.Pairwise fun group group' => group.toList.Disjoint group'.toList := by
  have hstart := searchInv_init associativity lines world
  refine ⟨RoundResult.measure 8 (SearchState.init lines world) + 1, fun fuel hfuel => ?_⟩
  obtain ⟨s, hs, -⟩ :=
    search_returns (fun _ => mapRound_returns (M := M) associativity) hstart hfuel
  have hkeep := (search_total_iff (fun _ => mapRound_returns associativity) hstart hs).mpr
    fun _ _ hlossy => hlossy
  rw [SearchState.total_init, SearchState.total] at hkeep
  have hnodup := nodup_of_pages hkeep hlines
  rw [l3Map, hs, ok_bind, returns_pure]
  exact ⟨hkeep, hnodup, (List.nodup_flatMap.mp hnodup.of_append_left).2⟩

theorem l3Map_keeps_two_pages :
    ∃ rounds, ∀ fuel, rounds ≤ fuel →
      Returns (l3Map slowMachine 16 fuel (VList.ofList [1, 2]) ()) fun r =>
        (r.1.toList.map VList.pages).sum + r.2.pages = (VList.ofList [1, 2]).pages ∧
          (r.1.toList.flatMap VList.toList ++ r.2.toList).Nodup ∧
            r.1.toList.Pairwise fun group group' => group.toList.Disjoint group'.toList :=
  l3Map_keeps_pages slowMachine 16 (VList.ofList [1, 2]) () (by decide)

end ChannelBench
