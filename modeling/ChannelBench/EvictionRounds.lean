import ChannelBench.EvictionSearch

/-! What one round of a search can do, whatever the machine answers. Every later fact about whole
searches under noise comes from this case analysis: the loop rule with the pages, the sizes of the
sets and the lexicographic measure of the remaining lines and the failures left. -/

namespace ChannelBench

open CSem

variable {σ Page : Type} {M : Machine σ Page}

/-- The ways a round ends, from a state with an empty eviction set. A round that is `lossy` gives up
the conflicting page of the set it rejects. -/
inductive RoundResult (limit : ℕ) (associativity : ℤ) (lossy : Prop) (s : SearchState σ Page) :
    SearchState σ Page ⊕ SearchState σ Page → Prop
  | finished (hend : s.lines.toList = [] ∨ limit < s.fail) (hlossy : ¬lossy) :
      RoundResult limit associativity lossy s (.inr s)
  | failed {t : SearchState σ Page} (lost : Multiset Page) (hlimit : s.fail ≤ limit)
      (hfail : t.fail = s.fail + 1) (hes : t.es.toList = []) (hsets : t.sets = s.sets)
      (hpages : lost + t.lines.pages = s.lines.pages)
      (hlost : (¬lossy ∧ lost = 0) ∨ (lossy ∧ lost.card = 1)) :
      RoundResult limit associativity lossy s (.inl t)
  | found {t : SearchState σ Page} {set : VList Page} (hes : t.es.toList = [])
      (hsets : t.sets.toList = s.sets.toList ++ [set]) (hset : set.toList ≠ [])
      (hsize : associativity - 2 ≤ set.toList.length)
      (hpages : set.pages + t.lines.pages = s.lines.pages) (hlossy : ¬lossy) :
      RoundResult limit associativity lossy s (.inl t)

/-- What one `contract` call keeps of the eviction set is kept by several. -/
theorem contractTimes_keeps {K : List Page → Prop} {c : Page}
    (hcontract : ∀ es lines world, K es.toList → Returns (contract M es lines c world) fun r =>
      K r.1.toList ∧ r.1.pages + r.2.1.pages = es.pages + lines.pages)
    (count : ℕ) {es : VList Page} (lines : VList Page) (world : σ) (hK : K es.toList) :
    Returns (contractTimes M count es lines c world) fun r =>
      K r.1.toList ∧ r.1.pages + r.2.1.pages = es.pages + lines.pages := by
  refine forUpto_returns (fun _ (s : VList Page × VList Page × σ) =>
    K s.1.toList ∧ s.1.pages + s.2.1.pages = es.pages + lines.pages) ⟨hK, rfl⟩ ?_
  intro i _ s hs
  apply (hcontract s.1 s.2.1 s.2.2 hs.1).mono
  intro r hr
  exact ⟨hr.1, hr.2.trans hs.2⟩

theorem contractTimes_returns (M : Machine σ Page) (count : ℕ) (es lines : VList Page) (c : Page)
    (world : σ) :
    Returns (contractTimes M count es lines c world) fun r =>
      r.1.pages + r.2.1.pages = es.pages + lines.pages := by
  refine (contractTimes_keeps (K := fun _ => True) ?_ count lines world trivial).mono fun _ hr => hr.2
  intro es lines world _
  apply (contract_returns (answers_any M) (K := fun _ _ => True) (fun _ _ _ _ _ _ _ => trivial)
    (fun _ _ _ _ _ _ _ => trivial) world trivial).mono
  intro r hr
  exact ⟨trivial, pages_of_removed hr.2⟩

/-- Refilling moves pages from the end of `set` to `es`. -/
theorem refill_returns (associativity : ℤ) (es set : VList Page) :
    Returns (refill associativity es set) fun r =>
      ∃ moved, set.toList = r.2.toList ++ moved ∧ r.1.toList = es.toList ++ moved.reverse := by
  refine loop_returns
    (fun s => ∃ moved, set.toList = s.2.toList ++ moved ∧ s.1.toList = es.toList ++ moved.reverse)
    _ (fun s => s.2.toList.length) ?_ ⟨[], by simp, by simp⟩
    (by rw [vlLen_eq]; exact Nat.lt_succ_self _)
  rintro ⟨es', set'⟩ ⟨moved, hset, hes⟩
  dsimp only at hset hes
  rw [refillRound]
  by_cases hmore : vlLen es' < associativity ∧ 0 < vlLen set'
  · rw [if_pos hmore]
    have hne : set'.toList ≠ [] := List.ne_nil_of_length_pos (by rw [← vlLen_eq]; exact hmore.2)
    refine (vlPop_returns_some hne).bind ?_
    rintro ⟨popped, set''⟩ ⟨rfl, hset''⟩
    dsimp only at hset''
    refine (vlPush_returns es' _).bind fun es'' hpush => returns_pure.mpr
      ⟨⟨set'.toList.getLast hne :: moved, ?_, ?_⟩, ?_⟩
    · rw [hset, hset'', List.append_cons, List.dropLast_append_getLast hne]
    · simp only [hpush, hes, List.reverse_cons, List.append_assoc]
    · have hpos := List.length_pos_of_ne_nil hne
      simp only [hset'', List.length_dropLast]
      omega
  · rw [if_neg hmore]
    exact returns_pure.mpr ⟨moved, hset, hes⟩

/-- A set that passed the filter has room for its eviction set and the conflicting page. -/
theorem size_of_not_rejected {associativity : ℤ} {es : VList Page}
    (h : ¬sizeRejected associativity es) : associativity - 2 ≤ (es.toList.length : ℤ) + 1 := by
  have hsize := (not_or.mp h).2
  rw [vlLen_eq] at hsize
  omega

theorem pages_singleton {vl : VList Page} {page : Page} (h : vl.toList = [] ++ [page]) :
    vl.pages = {page} ∧ vl.toList.length = 1 := by
  rw [VList.pages, h]
  exact ⟨rfl, rfl⟩

/-! ### A round of the x86 search -/

/-- The ways a round of `cm_linelist` ends, with what the answers of the tests mean: `J` holds of the lists
that `expand` grows, and `K` of an eviction set for a page after the `contract` calls. -/
inductive LinelistShape (M : Machine σ Page) (ans : List Page → Page → Bool → Prop) (J : List Page → Prop)
    (K : Page → List Page → Prop) (l3Associativity : ℤ) (s : SearchState σ Page) :
    SearchState σ Page ⊕ SearchState σ Page → Prop
  | finished (hend : s.lines.toList = [] ∨ 5 < s.fail) (hrejects : linelistRejects M l3Associativity s = false) :
      LinelistShape M ans J K l3Associativity s (.inr s)
  | exhausted {t : SearchState σ Page} {es : VList Page} (hlimit : s.fail ≤ 5) (hfail : t.fail = s.fail + 1)
      (hes : t.es.toList = []) (hsets : t.sets = s.sets) (hJ : J es.toList) (hall : es.pages = s.lines.pages)
      (hpages : t.lines.pages = s.lines.pages) (hrejects : linelistRejects M l3Associativity s = false) :
      LinelistShape M ans J K l3Associativity s (.inl t)
  | rejected {t : SearchState σ Page} {es : VList Page} {c : Page} (hlimit : s.fail ≤ 5)
      (hfail : t.fail = s.fail + 1) (hes : t.es.toList = []) (hsets : t.sets = s.sets) (hK : K c es.toList)
      (hsize : sizeRejected l3Associativity es) (hpages : {c} + t.lines.pages = s.lines.pages)
      (hrejects : linelistRejects M l3Associativity s = true) :
      LinelistShape M ans J K l3Associativity s (.inl t)
  | found {t : SearchState σ Page} {es set : VList Page} {c : Page} {hits : List Page} (hfail : t.fail = 0)
      (hes : t.es.toList = []) (hsets : t.sets.toList = s.sets.toList ++ [set]) (hK : K c es.toList)
      (hsize : ¬sizeRejected l3Associativity es) (hset : set.pages = es.pages + (c ::ₘ (hits : Multiset Page)))
      (hhits : ∀ p ∈ hits, ans es.toList p true) (hrest : ∀ p ∈ t.lines.toList, ans es.toList p false)
      (hpages : set.pages + t.lines.pages = s.lines.pages)
      (hrejects : linelistRejects M l3Associativity s = false)
      (haccepts : linelistAccepts M l3Associativity s = some es) :
      LinelistShape M ans J K l3Associativity s (.inl t)

theorem linelistRound_shape {ans : List Page → Page → Bool → Prop} (hans : Answers M ans)
    {J : List Page → Prop} (hnil : J []) (hstep : ∀ es page, J es → ans es page false → J (es ++ [page]))
    {K : Page → List Page → Prop}
    (hcontract : ∀ es lines c world, J es.toList → ans es.toList c true →
      Returns (contractTimes M 3 es lines c world) fun r =>
        K c r.1.toList ∧ r.1.pages + r.2.1.pages = es.pages + lines.pages)
    (l3Associativity : ℤ) {s : SearchState σ Page} (hes : s.es.toList = []) :
    Returns (linelistRound M l3Associativity s) (LinelistShape M ans J K l3Associativity s) := by
  have hlen : vlLen s.es = 0 := by rw [vlLen_eq, hes]; rfl
  have hpages0 : s.es.pages = 0 := VList.pages_eq_zero.mpr hes
  have hrejects := linelistRejects.eq_def M l3Associativity s
  have haccepts := linelistAccepts.eq_def M l3Associativity s
  rw [linelistRound]
  by_cases hlines : vlLen s.lines = 0
  · rw [if_pos hlines]
    rw [if_pos (Or.inl hlines)] at hrejects
    rw [vlLen_eq] at hlines
    exact returns_pure.mpr (.finished (Or.inl (List.eq_nil_of_length_eq_zero hlines)) hrejects)
  rw [if_neg hlines, require_pos hlen, pure_bind]
  by_cases hfail : 5 < s.fail
  · rw [if_pos hfail]
    rw [if_pos (Or.inr hfail)] at hrejects
    exact returns_pure.mpr (.finished (Or.inr hfail) hrejects)
  have hlimit : s.fail ≤ 5 := Nat.not_lt.mp hfail
  rw [if_neg hfail]
  rw [if_neg (not_or.mpr ⟨hlines, hfail⟩)] at hrejects haccepts
  obtain ⟨r, hexpand, hfound⟩ := expand_returns hans hstep s.es s.lines s.world (by rwa [hes])
  rw [hpages0, zero_add] at hfound
  rw [hexpand, ok_bind]
  rw [hexpand] at hrejects haccepts
  cases hfound with
  | @exhausted es lines world hJ hcandidates hall =>
      dsimp only at hrejects
      apply (drain_returns es lines).bind
      intro r hdrained
      obtain ⟨hes', hmoved⟩ := hdrained
      have hpages : r.2.pages = s.lines.pages := by
        rw [hmoved, VList.pages_eq_zero.mpr hcandidates, add_zero, hall]
      exact returns_pure.mpr (.exhausted hlimit rfl hes' rfl hJ hall hpages hrejects)
  | @evicted c es lines world hJ htest hpages =>
      obtain ⟨⟨es', lines', world'⟩, hrun, hK, hkept⟩ := hcontract es lines c world hJ htest
      dsimp only at hK hkept hrejects haccepts ⊢
      rw [hrun, ok_bind]
      rw [hrun] at hrejects haccepts
      dsimp only at hrejects haccepts ⊢
      rw [← hkept] at hpages
      by_cases hsize : sizeRejected l3Associativity es'
      · rw [if_pos hsize]
        rw [decide_eq_true hsize] at hrejects
        apply (drain_returns es' lines').bind
        intro r hdrained
        obtain ⟨hes'', hmoved⟩ := hdrained
        refine returns_pure.mpr (.rejected hlimit rfl hes'' rfl hK hsize ?_ hrejects)
        rw [Multiset.singleton_add]
        simp only [hmoved, hpages]
      · rw [if_neg hsize]
        rw [decide_eq_false hsize] at hrejects
        rw [if_neg hsize] at haccepts
        apply (vlPush_returns vlNew c).bind
        intro set hpush
        obtain ⟨hsingle, -⟩ := pages_singleton hpush
        apply (collect_returns hans es' lines' set world').bind
        intro r hcollected
        obtain ⟨lines'', set', world''⟩ := r
        obtain ⟨hits, hset, hperm, hhits, hrest⟩ := hcollected
        apply (drain_returns es' set').bind
        intro r hdrained
        obtain ⟨es'', set''⟩ := r
        obtain ⟨hes'', hmoved⟩ := hdrained
        apply (vlPush_returns s.sets set'').bind
        intro sets hsets
        dsimp only at hset hperm hrest hes'' hmoved
        have hpages' : set'.pages = c ::ₘ (hits : Multiset Page) := by
          rw [VList.pages, hset, ← Multiset.coe_add]
          show set.pages + _ = _
          rw [hsingle, Multiset.singleton_add]
        have hlines' : (hits : Multiset Page) + lines''.pages = lines'.pages := Multiset.coe_eq_coe.mpr hperm
        refine returns_pure.mpr
          (.found rfl hes'' hsets hK hsize (by rw [hmoved, hpages']) hhits hrest ?_ hrejects haccepts)
        rw [hmoved, hpages', ← hpages, ← hlines', ← Multiset.singleton_add, ← Multiset.singleton_add]
        abel

/-- A set that is found has room for its eviction set, the conflicting page and the pages collected. -/
theorem length_of_found {es set : VList Page} {c : Page} {hits : List Page}
    (hset : set.pages = es.pages + (c ::ₘ (hits : Multiset Page))) :
    set.toList.length = es.toList.length + 1 + hits.length := by
  have hcard := congrArg Multiset.card hset
  rw [Multiset.card_add, Multiset.card_cons, VList.card_pages, VList.card_pages, Multiset.coe_card] at hcard
  omega

/-- The part of the shape that does not depend on the answers. `least` is a lower bound on the eviction set
that passes the filter. -/
theorem LinelistShape.result {ans : List Page → Page → Bool → Prop} {J : List Page → Prop}
    {K : Page → List Page → Prop} {l3Associativity least : ℤ} {s : SearchState σ Page}
    {r : SearchState σ Page ⊕ SearchState σ Page} (h : LinelistShape M ans J K l3Associativity s r)
    (hleast : ∀ es, linelistAccepts M l3Associativity s = some es → ¬sizeRejected l3Associativity es →
      least - 3 ≤ es.toList.length) :
    RoundResult 5 least (linelistRejects M l3Associativity s) s r := by
  cases h with
  | finished hend hrejects => exact .finished hend (by simp [hrejects])
  | exhausted hlimit hfail hes hsets _ _ hpages hrejects =>
      exact .failed 0 hlimit hfail hes hsets (by rw [zero_add, hpages]) (Or.inl ⟨by simp [hrejects], rfl⟩)
  | @rejected _ _ c hlimit hfail hes hsets _ _ hpages hrejects =>
      exact .failed {c} hlimit hfail hes hsets hpages (Or.inr ⟨hrejects, rfl⟩)
  | @found _ es _ c _ _ hes hsets _ hsize hset _ _ hpages hrejects haccepts =>
      have hlength := length_of_found hset
      have hroom := hleast es haccepts hsize
      exact .found hes hsets (List.ne_nil_of_length_pos (by omega)) (by omega) hpages (by simp [hrejects])

/-- A round on a machine of which nothing is known but how short the eviction set is that it accepts. -/
theorem linelistRound_result {l3Associativity least : ℤ} {s : SearchState σ Page} (hes : s.es.toList = [])
    (hleast : ∀ es, linelistAccepts M l3Associativity s = some es → ¬sizeRejected l3Associativity es →
      least - 3 ≤ es.toList.length) :
    Returns (linelistRound M l3Associativity s)
      (RoundResult 5 least (linelistRejects M l3Associativity s) s) := by
  apply (linelistRound_shape (answers_any M) (J := fun _ => True) (K := fun _ _ => True) trivial
    (fun _ _ _ _ => trivial) ?_ l3Associativity hes).mono
  · intro r hr
    exact hr.result hleast
  · intro es lines c world _ _
    exact (contractTimes_returns M 3 es lines c world).mono fun r hkept => ⟨trivial, hkept⟩

theorem linelistRound_returns (l3Associativity : ℤ) {s : SearchState σ Page}
    (hes : s.es.toList = []) :
    Returns (linelistRound M l3Associativity s)
      (RoundResult 5 l3Associativity (linelistRejects M l3Associativity s) s) := by
  apply linelistRound_result hes
  intro es _ hsize
  have hroom := size_of_not_rejected hsize
  omega

/-! ### A round of the ARM search -/

/-- The ways a round of `map` ends. A page that is found conflicting goes back to the lines when its eviction
set is rejected; else the eviction set takes `moved` from the first collection before the later ones. -/
inductive MapShape (ans : List Page → Page → Bool → Prop) (J : List Page → Prop)
    (K : Page → List Page → Prop) (associativity : ℤ) (s : SearchState σ Page) :
    SearchState σ Page ⊕ SearchState σ Page → Prop
  | finished (hend : s.lines.toList = [] ∨ 8 < s.fail) : MapShape ans J K associativity s (.inr s)
  | exhausted {t : SearchState σ Page} {es : VList Page} (hlimit : s.fail ≤ 8) (hfail : t.fail = s.fail + 1)
      (hes : t.es.toList = []) (hsets : t.sets = s.sets) (hJ : J es.toList) (hall : es.pages = s.lines.pages)
      (hpages : t.lines.pages = s.lines.pages) : MapShape ans J K associativity s (.inl t)
  | rejected {t : SearchState σ Page} {es : VList Page} {c : Page} (hlimit : s.fail ≤ 8)
      (hfail : t.fail = s.fail + 1) (hes : t.es.toList = []) (hsets : t.sets = s.sets) (hK : K c es.toList)
      (hsize : sizeRejected associativity es) (hpages : t.lines.pages = s.lines.pages) :
      MapShape ans J K associativity s (.inl t)
  | found {t : SearchState σ Page} {es set : VList Page} {c : Page} {hits moved hits' : List Page}
      (hfail : t.fail = 0) (hes : t.es.toList = []) (hsets : t.sets.toList = s.sets.toList ++ [set])
      (hK : K c es.toList) (hsize : ¬sizeRejected associativity es)
      (hset : set.pages = es.pages + (c ::ₘ ((hits ++ hits' : List Page) : Multiset Page)))
      (hmoved : ∀ p ∈ moved, p = c ∨ p ∈ hits) (hhits : ∀ p ∈ hits, ans es.toList p true)
      (hhits' : ∀ p ∈ hits', ans (es.toList ++ moved) p true)
      (hrest : ∀ p ∈ t.lines.toList, ans (es.toList ++ moved) p false)
      (hpages : set.pages + t.lines.pages = s.lines.pages) : MapShape ans J K associativity s (.inl t)

/-- Three collections with a refill in between. -/
theorem pages_of_collections {es set₁ set₂ es₂ set₃ set₄ set₅ : VList Page} {c : Page}
    {hits moved hits₃ hits₄ : List Page} (hset₁ : set₁.toList = [c] ++ hits)
    (hsplit : set₁.toList = set₂.toList ++ moved) (hes₂ : es₂.toList = es.toList ++ moved.reverse)
    (hset₃ : set₃.toList = set₂.toList ++ hits₃) (hset₄ : set₄.toList = set₃.toList ++ hits₄)
    (hset₅ : set₅.pages = es₂.pages + set₄.pages) :
    set₅.pages = es.pages + (c ::ₘ ((hits ++ (hits₃ ++ hits₄) : List Page) : Multiset Page)) := by
  have hmoved : set₂.pages + (moved : Multiset Page) = c ::ₘ (hits : Multiset Page) := by
    rw [VList.pages, Multiset.coe_add, ← hsplit, hset₁]
    rfl
  have hgrown : es₂.pages = es.pages + (moved : Multiset Page) := by
    rw [VList.pages, hes₂, ← Multiset.coe_add, Multiset.coe_reverse]
    rfl
  have hlater : set₄.pages = set₂.pages + ((hits₃ ++ hits₄ : List Page) : Multiset Page) := by
    rw [VList.pages, hset₄, hset₃, List.append_assoc, ← Multiset.coe_add]
    rfl
  have hhits : ((hits ++ (hits₃ ++ hits₄) : List Page) : Multiset Page) =
      (hits : Multiset Page) + ((hits₃ ++ hits₄ : List Page) : Multiset Page) := (Multiset.coe_add _ _).symm
  rw [hset₅, hgrown, hlater, hhits, ← Multiset.cons_add, ← hmoved]
  abel

theorem mapRound_shape {ans : List Page → Page → Bool → Prop} (hans : Answers M ans)
    {J : List Page → Prop} (hnil : J []) (hstep : ∀ es page, J es → ans es page false → J (es ++ [page]))
    {K : Page → List Page → Prop}
    (hcontract : ∀ es lines c world, J es.toList → ans es.toList c true →
      Returns (contractTimes M 5 es lines c world) fun r =>
        K c r.1.toList ∧ r.1.pages + r.2.1.pages = es.pages + lines.pages)
    (associativity : ℤ) {s : SearchState σ Page} (hes : s.es.toList = []) :
    Returns (mapRound M associativity s) (MapShape ans J K associativity s) := by
  have hlen : vlLen s.es = 0 := by rw [vlLen_eq, hes]; rfl
  have hpages0 : s.es.pages = 0 := VList.pages_eq_zero.mpr hes
  rw [mapRound]
  by_cases hlines : vlLen s.lines = 0
  · rw [if_pos hlines]
    rw [vlLen_eq] at hlines
    exact returns_pure.mpr (.finished (Or.inl (List.eq_nil_of_length_eq_zero hlines)))
  rw [if_neg hlines, require_pos hlen, pure_bind]
  by_cases hfail : 8 < s.fail
  · rw [if_pos hfail]
    exact returns_pure.mpr (.finished (Or.inr hfail))
  have hlimit : s.fail ≤ 8 := Nat.not_lt.mp hfail
  rw [if_neg hfail]
  apply (expand_returns hans hstep s.es s.lines s.world (by rwa [hes])).bind
  intro r hfound
  rw [hpages0, zero_add] at hfound
  cases hfound with
  | @exhausted es lines world hJ hcandidates hall =>
      apply (drain_returns es lines).bind
      intro r hdrained
      obtain ⟨hes', hmoved⟩ := hdrained
      have hpages : r.2.pages = s.lines.pages := by
        rw [hmoved, VList.pages_eq_zero.mpr hcandidates, add_zero, hall]
      exact returns_pure.mpr (.exhausted hlimit rfl hes' rfl hJ hall hpages)
  | @evicted c es lines world hJ htest hpages =>
      apply (hcontract es lines c world hJ htest).bind
      intro r hcontracted
      obtain ⟨es', lines', world'⟩ := r
      obtain ⟨hK, hkept⟩ := hcontracted
      dsimp only at hK hkept ⊢
      rw [← hkept] at hpages
      by_cases hsize : sizeRejected associativity es'
      · rw [if_pos hsize]
        apply (vlPush_returns lines' c).bind
        intro back hback
        apply (drain_returns es' back).bind
        intro r hdrained
        obtain ⟨hes'', hmoved⟩ := hdrained
        refine returns_pure.mpr (.rejected hlimit rfl hes'' rfl hK hsize ?_)
        simp only [hmoved, VList.pages_push hback, Multiset.add_cons, hpages]
      · rw [if_neg hsize]
        apply (vlPush_returns vlNew c).bind
        intro set hpush
        apply (collect_returns hans es' lines' set world').bind
        intro r hcollected
        obtain ⟨lines₁, set₁, world₁⟩ := r
        obtain ⟨hits, hset₁, hlines₁, hhits, -⟩ := hcollected
        apply (refill_returns associativity es' set₁).bind
        intro r hrefilled
        obtain ⟨es₂, set₂⟩ := r
        obtain ⟨moved, hsplit, hes₂⟩ := hrefilled
        apply (collect_returns hans es₂ lines₁ set₂ world₁).bind
        intro r hcollected
        obtain ⟨lines₃, set₃, world₃⟩ := r
        obtain ⟨hits₃, hset₃, hlines₃, hhits₃, -⟩ := hcollected
        apply (collect_returns hans es₂ lines₃ set₃ world₃).bind
        intro r hcollected
        obtain ⟨lines₄, set₄, world₄⟩ := r
        obtain ⟨hits₄, hset₄, hlines₄, hhits₄, hrest⟩ := hcollected
        apply (drain_returns es₂ set₄).bind
        intro r hdrained
        obtain ⟨es₅, set₅⟩ := r
        obtain ⟨hes₅, hset₅⟩ := hdrained
        apply (vlPush_returns s.sets set₅).bind
        intro sets hsets
        dsimp only at hset₁ hlines₁ hsplit hes₂ hset₃ hlines₃ hset₄ hlines₄ hrest hes₅ hset₅
        rw [hpush] at hset₁
        have hset := pages_of_collections hset₁ hsplit hes₂ hset₃ hset₄ hset₅
        rw [hes₂] at hhits₃ hhits₄ hrest
        refine returns_pure.mpr (.found rfl hes₅ hsets hK hsize hset ?_ hhits ?_ hrest ?_)
        · intro p hp
          have hmem : p ∈ set₁.toList := hsplit ▸ List.mem_append_right _ (List.mem_reverse.mp hp)
          rw [hset₁] at hmem
          exact List.mem_cons.mp hmem
        · intro p hp
          rcases List.mem_append.mp hp with h | h
          · exact hhits₃ p h
          · exact hhits₄ p h
        · have hline : ((hits ++ (hits₃ ++ hits₄) : List Page) : Multiset Page) + lines₄.pages = lines'.pages := by
            apply Multiset.coe_eq_coe.mpr
            calc (hits ++ (hits₃ ++ hits₄) ++ lines₄.toList).Perm (hits ++ (hits₃ ++ (hits₄ ++ lines₄.toList))) := by
                  rw [List.append_assoc, List.append_assoc]
              List.Perm _ (hits ++ (hits₃ ++ lines₃.toList)) := (hlines₄.append_left _).append_left _
              List.Perm _ (hits ++ lines₁.toList) := hlines₃.append_left _
              List.Perm _ lines'.toList := hlines₁
          rw [hset, ← hpages, add_assoc, Multiset.cons_add, hline, Multiset.add_cons]

theorem mapRound_returns (associativity : ℤ) {s : SearchState σ Page} (hes : s.es.toList = []) :
    Returns (mapRound M associativity s) (RoundResult 8 associativity False s) := by
  apply (mapRound_shape (answers_any M) (J := fun _ => True) (K := fun _ _ => True) trivial
    (fun _ _ _ _ => trivial) ?_ associativity hes).mono
  · intro r hr
    cases hr with
    | finished hend => exact .finished hend id
    | exhausted hlimit hfail hes hsets _ _ hpages =>
        exact .failed 0 hlimit hfail hes hsets (by rw [zero_add, hpages]) (Or.inl ⟨id, rfl⟩)
    | rejected hlimit hfail hes hsets _ _ hpages =>
        exact .failed 0 hlimit hfail hes hsets (by rw [zero_add, hpages]) (Or.inl ⟨id, rfl⟩)
    | found _ hes hsets _ hsize hset _ _ _ _ hpages =>
        have hlength := length_of_found hset
        have hroom := size_of_not_rejected hsize
        exact .found hes hsets (List.ne_nil_of_length_pos (by omega)) (by omega) hpages id
  · intro es lines c world _ _
    exact (contractTimes_returns M 5 es lines c world).mono fun r hkept => ⟨trivial, hkept⟩

end ChannelBench
