import ChannelBench.EvictionNoise
import Mathlib.Data.Multiset.Filter

/-! The discovery on a machine whose eviction tests mean something: a page is evicted by a list
exactly when at least `T` pages of the list have its colour. Then every search finds exactly the
colours that own more than `T` pages. The growing list never holds more than `T` pages of a colour,
so the list that evicts a page holds exactly `T` of its colour; one `contract` call leaves these and
nothing else, the filter passes them, and `collect` takes the rest of the colour. -/

namespace ChannelBench

open CSem

variable {σ Page κ : Type} [DecidableEq κ] (colour : Page → κ) (T : ℕ)

/-- The number of pages of a colour in a list. -/
def colourCount (k : κ) (pages : List Page) : ℕ := pages.countP fun p => colour p = k

/-- The answer of an eviction test: at least `T` pages of the list have the colour of the page. -/
def colourAnswer (es : List Page) (page : Page) (evicted : Bool) : Prop :=
  evicted = true ↔ T ≤ colourCount colour (colour page) es

section Count

variable {colour} {k : κ} {l l' : List Page}

theorem colourCount_perm (h : l.Perm l') : colourCount colour k l = colourCount colour k l' :=
  h.countP_eq _

@[simp] theorem colourCount_append :
    colourCount colour k (l ++ l') = colourCount colour k l + colourCount colour k l' :=
  List.countP_append

@[simp] theorem colourCount_cons (page : Page) :
    colourCount colour k (page :: l) = colourCount colour k l + if colour page = k then 1 else 0 := by
  simp [colourCount, List.countP_cons]

@[simp] theorem colourCount_nil : colourCount colour k [] = 0 := rfl

theorem colourCount_pages {vl vl' : VList Page} (h : vl.pages = vl'.pages) :
    colourCount colour k vl.toList = colourCount colour k vl'.toList :=
  colourCount_perm (Multiset.coe_eq_coe.mp h)

theorem colourCount_of_forall (h : ∀ p ∈ l, colour p = k) : colourCount colour k l = l.length :=
  List.countP_eq_length.mpr fun p hp => decide_eq_true (h p hp)

theorem colourCount_of_forall_ne {k' : κ} (h : ∀ p ∈ l, colour p = k) (hk : k ≠ k') :
    colourCount colour k' l = 0 :=
  List.countP_eq_zero.mpr fun p hp => by simpa [h p hp] using hk

end Count

variable {colour T} {M : Machine σ Page}

/-- A list with at most `T` pages of every colour stays one when it grows by a page it did not evict. -/
theorem colours_grow {l : List Page} {page : Page} (hl : ∀ k, colourCount colour k l ≤ T)
    (hanswer : colourAnswer colour T l page false) (k : κ) : colourCount colour k (l ++ [page]) ≤ T := by
  have hfew : ¬T ≤ colourCount colour (colour page) l := fun h => by simpa using hanswer.mpr h
  have hk := hl k
  simp only [colourCount_append, colourCount_cons, colourCount_nil]
  split_ifs with h
  · subst h
    omega
  · omega

/-- One `contract` call on a list with exactly `T` pages of the colour leaves only these. -/
theorem contract_colours (htest : Answers M (colourAnswer colour T)) {es candidates : VList Page}
    {c : Page} (world : σ) (hcount : colourCount colour (colour c) es.toList = T) :
    Returns (contract M es candidates c world) fun r =>
      (∀ p ∈ r.1.toList, colour p = colour c) ∧ colourCount colour (colour c) r.1.toList = T ∧
        r.1.pages + r.2.1.pages = es.pages + candidates.pages := by
  refine (contract_returns htest (K := fun kept rest => (∀ p ∈ kept, colour p = colour c) ∧
    colourCount colour (colour c) (kept ++ rest) = T) ?_ ?_ world ⟨by simp, hcount⟩).mono ?_
  · rintro kept page rest rest' hperm ⟨hkept, htotal⟩ hanswer
    have hmany := hanswer.mp rfl
    refine ⟨hkept, ?_⟩
    simp only [colourCount_append, colourCount_cons, colourCount_perm hperm] at htotal hmany ⊢
    split_ifs at htotal <;> omega
  · rintro kept page rest rest' hperm ⟨hkept, htotal⟩ hanswer
    have hfew : ¬T ≤ colourCount colour (colour c) (kept ++ rest') := fun h => by
      simpa using hanswer.mpr h
    refine ⟨?_, by simpa using htotal⟩
    intro p hp
    rcases List.mem_append.mp hp with hp | hp
    · exact hkept p hp
    · rw [List.mem_singleton.mp hp]
      by_contra hne
      simp only [colourCount_append, colourCount_cons, colourCount_perm hperm, if_neg hne] at *
      omega
  · rintro r ⟨⟨hall, hcount'⟩, hremoved⟩
    rw [List.append_nil] at hcount'
    exact ⟨hall, hcount', pages_of_removed hremoved⟩

theorem contractTimes_colours (htest : Answers M (colourAnswer colour T)) (count : ℕ)
    {es lines : VList Page} {c : Page} (world : σ)
    (hcount : colourCount colour (colour c) es.toList = T) :
    Returns (contractTimes M (count + 1) es lines c world) fun r =>
      (∀ p ∈ r.1.toList, colour p = colour c) ∧ r.1.toList.length = T ∧
        r.1.pages + r.2.1.pages = es.pages + lines.pages := by
  have hrun : Returns (contractTimes M (count + 1) es lines c world) fun r =>
      (0 < count + 1 → ∀ p ∈ r.1.toList, colour p = colour c) ∧
        colourCount colour (colour c) r.1.toList = T ∧
          r.1.pages + r.2.1.pages = es.pages + lines.pages := by
    refine forUpto_returns (fun i (s : VList Page × VList Page × σ) =>
      (0 < i → ∀ p ∈ s.1.toList, colour p = colour c) ∧
        colourCount colour (colour c) s.1.toList = T ∧
          s.1.pages + s.2.1.pages = es.pages + lines.pages) ⟨by simp, hcount, rfl⟩ ?_
    rintro i - ⟨es', lines', world'⟩ ⟨-, hcount', hpages⟩
    refine (contract_colours htest world' hcount').mono ?_
    rintro r ⟨hall, hcount'', hpages'⟩
    exact ⟨fun _ => hall, hcount'', hpages'.trans hpages⟩
  refine hrun.mono ?_
  rintro r ⟨hall, hcount', hpages⟩
  have hall' := hall (Nat.succ_pos _)
  exact ⟨hall', by rw [← hcount', colourCount_of_forall hall'], hpages⟩

/-- A list of one colour evicts only pages of this colour. -/
theorem colour_of_evicted {es : List Page} {k : κ} {p : Page} (hT : 1 ≤ T) (hes : ∀ p ∈ es, colour p = k)
    (hanswer : colourAnswer colour T es p true) : colour p = k := by
  by_contra hne
  have hmany := hanswer.mp rfl
  rw [colourCount_of_forall_ne hes (Ne.symm hne)] at hmany
  omega

/-- A long list of one colour evicts all pages of this colour. -/
theorem colour_of_not_evicted {es : List Page} {k : κ} {p : Page} (hes : ∀ p ∈ es, colour p = k)
    (hlen : T ≤ es.length) (hanswer : colourAnswer colour T es p false) : colour p ≠ k := by
  intro hk
  have hmany : T ≤ colourCount colour (colour p) es := by
    rw [hk, colourCount_of_forall hes]
    exact hlen
  simpa using hanswer.mpr hmany

/-- What a round does on such a machine: it never rejects a set. -/
inductive ColourResult (limit : ℕ) (colour : Page → κ) (T : ℕ) (s : SearchState σ Page) :
    SearchState σ Page ⊕ SearchState σ Page → Prop
  | finished (hend : s.lines.toList = [] ∨ limit < s.fail) :
      ColourResult limit colour T s (.inr s)
  | exhausted {t : SearchState σ Page} (hsets : t.sets = s.sets)
      (hpages : t.lines.pages = s.lines.pages)
      (hfew : ∀ k, colourCount colour k s.lines.toList ≤ T) :
      ColourResult limit colour T s (.inl t)
  | found {t : SearchState σ Page} {set : VList Page} {k : κ} (hfail : t.fail = 0)
      (hsets : t.sets.toList = s.sets.toList ++ [set]) (hset : ∀ p ∈ set.toList, colour p = k)
      (hlines : ∀ p ∈ t.lines.toList, colour p ≠ k) (hmany : T < set.toList.length)
      (hpages : set.pages + t.lines.pages = s.lines.pages) :
      ColourResult limit colour T s (.inl t)

/-- A list evicts a page with exactly `T` pages of its colour. -/
theorem colourCount_of_evicted {c : Page} {es : List Page}
    (hfew : ∀ k, colourCount colour k es ≤ T) (htest : colourAnswer colour T es c true) :
    colourCount colour (colour c) es = T :=
  le_antisymm (hfew _) (htest.mp rfl)

theorem not_sizeRejected {associativity : ℤ} (hlow : associativity - 3 ≤ T)
    (hhigh : (T : ℤ) ≤ associativity) {es : VList Page} (hlen : es.toList.length = T) :
    ¬sizeRejected associativity es := by
  rw [sizeRejected, vlLen_eq, hlen]
  omega

omit [DecidableEq κ] in
/-- A set made of an eviction set, the page it evicts and the pages collected, all of one colour. -/
theorem colour_of_found {es set : VList Page} {c : Page} {hits : List Page}
    (hset : set.pages = es.pages + (c ::ₘ (hits : Multiset Page))) (hes : ∀ p ∈ es.toList, colour p = colour c)
    (hhits : ∀ p ∈ hits, colour p = colour c) : ∀ p ∈ set.toList, colour p = colour c := by
  intro p hp
  have hmem : p ∈ es.pages + (c ::ₘ (hits : Multiset Page)) := hset ▸ Multiset.mem_coe.mpr hp
  rcases Multiset.mem_add.mp hmem with h | h
  · exact hes p (Multiset.mem_coe.mp h)
  rcases Multiset.mem_cons.mp h with rfl | h
  · rfl
  · exact hhits p (Multiset.mem_coe.mp h)

section Rounds

variable {associativity : ℤ} (htest : Answers M (colourAnswer colour T)) (hT : 1 ≤ T)
  (hlow : associativity - 3 ≤ T) (hhigh : (T : ℤ) ≤ associativity)

include htest hT hlow hhigh

theorem linelistRound_colours {s : SearchState σ Page} (hes : s.es.toList = []) :
    Returns (linelistRound M associativity s) (ColourResult 5 colour T s) := by
  apply (linelistRound_shape htest (J := fun l => ∀ k, colourCount colour k l ≤ T)
    (K := fun c l => (∀ p ∈ l, colour p = colour c) ∧ l.length = T) (by simp) (fun _ _ => colours_grow)
    ?_ associativity hes).mono
  · intro r hr
    cases hr with
    | finished hend _ => exact .finished hend
    | exhausted _ _ _ hsets hfew hall hpages _ =>
        refine .exhausted hsets hpages ?_
        intro k
        rw [← colourCount_pages hall]
        exact hfew k
    | rejected _ _ _ _ hK hsize _ _ => exact absurd hsize (not_sizeRejected hlow hhigh hK.2)
    | @found t es set c hits hfail hes' hsets hK _ hset hhits hrest hpages _ =>
        obtain ⟨hall, hlen⟩ := hK
        refine .found hfail hsets (k := colour c) ?_ ?_ ?_ hpages
        · exact colour_of_found hset hall fun p hp => colour_of_evicted hT hall (hhits p hp)
        · intro p hp
          exact colour_of_not_evicted hall hlen.ge (hrest p hp)
        · rw [length_of_found hset]
          omega
  · intro es lines c world hfew hanswer
    apply (contractTimes_colours htest 2 world (colourCount_of_evicted hfew hanswer)).mono
    intro r hr
    exact ⟨⟨hr.1, hr.2.1⟩, hr.2.2⟩

theorem mapRound_colours {s : SearchState σ Page} (hes : s.es.toList = []) :
    Returns (mapRound M associativity s) (ColourResult 8 colour T s) := by
  apply (mapRound_shape htest (J := fun l => ∀ k, colourCount colour k l ≤ T)
    (K := fun c l => (∀ p ∈ l, colour p = colour c) ∧ l.length = T) (by simp) (fun _ _ => colours_grow)
    ?_ associativity hes).mono
  · intro r hr
    cases hr with
    | finished hend => exact .finished hend
    | exhausted _ _ _ hsets hfew hall hpages =>
        refine .exhausted hsets hpages ?_
        intro k
        rw [← colourCount_pages hall]
        exact hfew k
    | rejected _ _ _ _ hK hsize _ => exact absurd hsize (not_sizeRejected hlow hhigh hK.2)
    | @found t es set c hits moved hits' hfail hes' hsets hK _ hset hmoved hhits hhits' hrest hpages =>
        obtain ⟨hall, hlen⟩ := hK
        have hhits_colour : ∀ p ∈ hits, colour p = colour c := fun p hp =>
          colour_of_evicted hT hall (hhits p hp)
        -- the refill takes pages of the colour, so the later collections ask for the same colour
        have hgrown : ∀ p ∈ es.toList ++ moved, colour p = colour c := by
          intro p hp
          rcases List.mem_append.mp hp with h | h
          · exact hall p h
          rcases hmoved p h with rfl | h
          · rfl
          · exact hhits_colour p h
        have hmany : T ≤ (es.toList ++ moved).length := by
          rw [List.length_append]
          omega
        refine .found hfail hsets (k := colour c) ?_ ?_ ?_ hpages
        · apply colour_of_found hset hall
          intro p hp
          rcases List.mem_append.mp hp with h | h
          · exact hhits_colour p h
          · exact colour_of_evicted hT hgrown (hhits' p h)
        · intro p hp
          exact colour_of_not_evicted hgrown hmany (hrest p hp)
        · rw [length_of_found hset]
          omega
  · intro es lines c world hfew hanswer
    apply (contractTimes_colours htest 4 world (colourCount_of_evicted hfew hanswer)).mono
    intro r hr
    exact ⟨⟨hr.1, hr.2.1⟩, hr.2.2⟩

end Rounds

theorem colourCount_eq_card (k : κ) (vl : VList Page) :
    colourCount colour k vl.toList = (vl.pages.filter fun p => colour p = k).card := by
  rw [colourCount, List.countP_eq_length_filter, VList.pages, Multiset.filter_coe,
    Multiset.coe_card]

omit [DecidableEq κ] in
/-- A multiset that is split by a predicate. -/
theorem filter_of_split {P : Page → Prop} [DecidablePred P] {inside outside whole : Multiset Page}
    (hsplit : inside + outside = whole) (hin : ∀ p ∈ inside, P p) (hout : ∀ p ∈ outside, ¬P p) :
    whole.filter P = inside ∧ (whole.filter fun p => ¬P p) = outside := by
  have hnone : ∀ p ∈ inside, ¬¬P p := fun p hp => not_not.mpr (hin p hp)
  rw [← hsplit, Multiset.filter_add, Multiset.filter_add, Multiset.filter_eq_self.mpr hin,
    Multiset.filter_eq_nil.mpr hout, Multiset.filter_eq_nil.mpr hnone,
    Multiset.filter_eq_self.mpr hout]
  exact ⟨add_zero _, zero_add _⟩

/-- What holds at every loop head: the sets are complete colour classes, the lines are the pages of
the other colours, and after a failure none of these owns more than `T` pages. -/
structure ColourInv (colour : Page → κ) (T : ℕ) (start s : SearchState σ Page) : Prop where
  classes : ∃ ks : List κ, ks.Nodup ∧ (∀ k ∈ ks, T < colourCount colour k start.lines.toList) ∧
    List.Forall₂ (fun set k => set.pages = start.lines.pages.filter fun p => colour p = k)
      s.sets.toList ks ∧
    s.lines.pages = start.lines.pages.filter fun p => colour p ∉ ks
  few : 0 < s.fail → ∀ k, colourCount colour k s.lines.toList ≤ T

theorem colourInv_init (colour : Page → κ) (T : ℕ) (lines : VList Page) (world : σ) :
    ColourInv colour T (SearchState.init lines world) (SearchState.init lines world) where
  classes := ⟨[], by simp [SearchState.init]⟩
  few := fun h => absurd h (lt_irrefl 0)

/-- The class of a colour found in the remaining lines is complete. -/
theorem ColourResult.inv {limit : ℕ} {start s t : SearchState σ Page}
    (h : ColourResult limit colour T s (.inl t)) (hs : ColourInv colour T start s) :
    ColourInv colour T start t := by
  obtain ⟨ks, hnodup, hmany, hsets, hlines⟩ := hs.classes
  cases h with
  | exhausted hsets' hpages hfew =>
      refine ⟨⟨ks, hnodup, hmany, hsets' ▸ hsets, hpages.trans hlines⟩, fun _ k => ?_⟩
      rw [colourCount_pages hpages]
      exact hfew k
  | @found _ set k hfail hsets' hset hlines' hlarge hpages =>
      have hsplit := filter_of_split (P := fun p => colour p = k) hpages
        (fun p hp => hset p (Multiset.mem_coe.mp hp)) fun p hp => hlines' p (Multiset.mem_coe.mp hp)
      have hnew : k ∉ ks := by
        obtain ⟨p, hp⟩ := List.exists_mem_of_length_pos (Nat.zero_lt_of_lt hlarge)
        have hmem : p ∈ s.lines.pages := hpages ▸ Multiset.mem_add.mpr (Or.inl hp)
        rw [hlines] at hmem
        exact hset p hp ▸ (Multiset.mem_filter.mp hmem).2
      have hclass : set.pages = start.lines.pages.filter fun p => colour p = k := by
        rw [← hsplit.1, hlines, Multiset.filter_filter]
        refine Multiset.filter_congr fun p _ => ⟨fun h => h.1, fun h => ⟨h, h ▸ hnew⟩⟩
      refine ⟨⟨ks ++ [k], ?_, ?_, ?_, ?_⟩, fun h => absurd h (by omega)⟩
      · rw [List.nodup_append_comm]
        exact List.nodup_cons.mpr ⟨hnew, hnodup⟩
      · intro k' hk'
        rcases List.mem_append.mp hk' with h | h
        · exact hmany k' h
        · rw [List.mem_singleton.mp h, colourCount_eq_card, ← hclass, VList.card_pages]
          exact hlarge
      · rw [hsets']
        exact List.rel_append hsets (.cons hclass .nil)
      · rw [← hsplit.2, hlines, Multiset.filter_filter]
        refine Multiset.filter_congr fun p _ => ?_
        rw [List.mem_append, List.mem_singleton, not_or, and_comm]

/-- What the discovery is for: the groups are the complete classes of the colours that own more than
`T` pages, one group for each, and the rest are the pages of the other colours. -/
structure FindsColours (colour : Page → κ) (T : ℕ) (pages : List Page) (groups : List (VList Page))
    (rest : List Page) : Prop where
  groups : ∃ ks : List κ, ks.Nodup ∧ (∀ k, k ∈ ks ↔ T < colourCount colour k pages) ∧
    List.Forall₂ (fun group k =>
      group.toList.Nodup ∧ ∀ p, p ∈ group.toList ↔ p ∈ pages ∧ colour p = k) groups ks
  rest_nodup : rest.Nodup
  mem_rest : ∀ p, p ∈ rest ↔ p ∈ pages ∧ colourCount colour (colour p) pages ≤ T

/-- A search that stops has found every colour that owns more than `T` pages. -/
theorem ColourInv.findsColours {limit : ℕ} {lines : VList Page} {world : σ}
    {s : SearchState σ Page} (hnodup : lines.toList.Nodup)
    (hs : ColourInv colour T (SearchState.init lines world) s)
    (hend : s.lines.toList = [] ∨ limit < s.fail) :
    FindsColours colour T lines.toList s.sets.toList s.lines.toList := by
  obtain ⟨ks, hks, hmany, hsets, hlines⟩ := hs.classes
  change ∀ k ∈ ks, T < colourCount colour k lines.toList at hmany
  change s.lines.pages = lines.pages.filter (fun p => colour p ∉ ks) at hlines
  have hfew : ∀ k, colourCount colour k s.lines.toList ≤ T := by
    rcases hend with h | h
    · simp [h]
    · exact hs.few (Nat.zero_lt_of_lt h)
  have hall : ∀ k, k ∈ ks ↔ T < colourCount colour k lines.toList := by
    refine fun k => ⟨hmany k, fun hk => ?_⟩
    by_contra hnot
    have hsame : colourCount colour k s.lines.toList = colourCount colour k lines.toList := by
      rw [colourCount_eq_card, colourCount_eq_card, hlines, Multiset.filter_filter]
      refine congrArg Multiset.card (Multiset.filter_congr fun p _ => ?_)
      exact ⟨fun h => h.1, fun h => ⟨h, h ▸ hnot⟩⟩
    exact absurd (hfew k) (by omega)
  have hpages : lines.pages.Nodup := Multiset.coe_nodup.mpr hnodup
  refine ⟨⟨ks, hks, hall, hsets.imp fun group k hgroup => ?_⟩, ?_, fun p => ?_⟩
  · change group.pages = lines.pages.filter (fun p => colour p = k) at hgroup
    refine ⟨Multiset.coe_nodup.mp (hgroup ▸ hpages.filter _ : group.pages.Nodup), fun p => ?_⟩
    rw [← Multiset.mem_coe, ← VList.pages, hgroup, Multiset.mem_filter, VList.pages,
      Multiset.mem_coe]
  · exact Multiset.coe_nodup.mp (hlines ▸ hpages.filter _ : s.lines.pages.Nodup)
  · rw [← Multiset.mem_coe, ← VList.pages, hlines, Multiset.mem_filter, VList.pages,
      Multiset.mem_coe, hall, Nat.not_lt]

/-- A search whose rounds behave as above ends with the colour classes. -/
theorem search_colours {round : SearchState σ Page → Run (SearchState σ Page ⊕ SearchState σ Page)}
    {limit : ℕ} {associativity : ℤ} {lossy : SearchState σ Page → Prop}
    (hround : ∀ s : SearchState σ Page, s.es.toList = [] →
      Returns (round s) (RoundResult limit associativity (lossy s) s))
    (hcolours : ∀ s : SearchState σ Page, s.es.toList = [] →
      Returns (round s) (ColourResult limit colour T s))
    {lines : VList Page} {world : σ} (hnodup : lines.toList.Nodup) {fuel : ℕ}
    (hfuel : RoundResult.measure limit (SearchState.init lines world) < fuel) :
    Returns (loop round fuel (SearchState.init lines world)) fun s =>
      FindsColours colour T lines.toList s.sets.toList s.lines.toList := by
  refine loop_returns (fun s => SearchInv associativity (SearchState.init lines world) s ∧
      ColourInv colour T (SearchState.init lines world) s) _ (RoundResult.measure limit) ?_
    ⟨searchInv_init _ _ _, colourInv_init _ _ _ _⟩ hfuel
  rintro s ⟨hsearch, hinv⟩
  refine ((hround s hsearch.es_nil).and (hcolours s hsearch.es_nil)).mono ?_
  rintro r ⟨hr, hr'⟩
  cases r with
  | inl t => exact ⟨⟨hr.inv hsearch, hr'.inv hinv⟩, hr.measure_lt⟩
  | inr t =>
      cases hr' with
      | finished hend => exact hinv.findsColours hnodup hend

/-- **The discovery finds exactly the cache colours.** When a page is evicted exactly by the lists
that hold at least `T` pages of its colour, with `T` within the sizes the filter lets through, both
searches return the classes of the colours that own more than `T` pages and leave the other pages
in the input list. -/
theorem evictionSearch_finds_colours (M : Machine σ Page) (colour : Page → κ) (T : ℕ)
    (associativity : ℤ) (hT : 1 ≤ T) (hlow : associativity - 3 ≤ T) (hhigh : (T : ℤ) ≤ associativity)
    (htest : ∀ es candidate world, Returns (checkevict M es candidate world) fun r =>
      (r.1 = true ↔ T ≤ colourCount colour (colour candidate) es.toList))
    (lines : VList Page) (hnodup : lines.toList.Nodup) (world : σ) :
    (∃ rounds, ∀ fuel, rounds ≤ fuel →
      Returns (cmLinelist M associativity fuel lines world) fun r =>
        r.1.nsets = r.1.sets.length ∧
          FindsColours colour T lines.toList r.1.sets r.2.toList) ∧
    ∃ rounds, ∀ fuel, rounds ≤ fuel →
      Returns (l3Map M associativity fuel lines world) fun r =>
        FindsColours colour T lines.toList r.1.toList r.2.toList := by
  refine ⟨⟨RoundResult.measure 5 (SearchState.init lines world) + 1, fun fuel hfuel => ?_⟩,
    ⟨RoundResult.measure 8 (SearchState.init lines world) + 1, fun fuel hfuel => ?_⟩⟩
  · apply cmLinelist_returns (search_colours (fun _ => linelistRound_returns associativity)
      (fun _ => linelistRound_colours htest hT hlow hhigh) hnodup hfuel)
    intro s hs
    exact ⟨rfl, hs⟩
  · exact (search_colours (fun _ => mapRound_returns associativity)
      (fun _ => mapRound_colours htest hT hlow hhigh) hnodup hfuel).bind
        fun s hs => returns_pure.mpr hs

/-- A machine that counts, among the pages of a walk, those of the candidate's parity. -/
def parityMachine : Machine ℕ ℕ where
  random := fun world => (world, world + 1)
  timedwalk := fun links _ candidate world =>
    (140 + ((links.map Prod.fst).countP fun p => p % 2 = candidate % 2 : ℕ), world)
  l3Threshold := 140

theorem parityMachine_answers (es : VList ℕ) (candidate world : ℕ) :
    Returns (checkevict parityMachine es candidate world) fun r =>
      (r.1 = true ↔ 1 ≤ colourCount (· % 2) (candidate % 2) es.toList) := by
  by_cases hes : es.toList = []
  · rw [checkevict_nil _ _ _ hes, hes]
    exact returns_ok.mpr (by simp)
  · refine (checkevict_returns parityMachine candidate world hes).mono ?_
    rintro r ⟨links, head, hlinks, hr⟩
    rw [hr, decide_eq_true_eq]
    simp only [parityMachine, hlinks, colourCount]
    omega

/-- Of the pages 1, 2 and 3 the odd ones form the only group, and page 2 is left. -/
theorem evictionSearch_finds_odd_pages :
    (∃ rounds, ∀ fuel, rounds ≤ fuel →
      Returns (cmLinelist parityMachine 4 fuel (VList.ofList [1, 2, 3]) 0) fun r =>
        r.1.nsets = r.1.sets.length ∧
          FindsColours (· % 2) 1 (VList.ofList [1, 2, 3]).toList r.1.sets r.2.toList) ∧
    ∃ rounds, ∀ fuel, rounds ≤ fuel →
      Returns (l3Map parityMachine 4 fuel (VList.ofList [1, 2, 3]) 0) fun r =>
        FindsColours (· % 2) 1 (VList.ofList [1, 2, 3]).toList r.1.toList r.2.toList :=
  evictionSearch_finds_colours parityMachine (· % 2) 1 4 le_rfl (by decide) (by decide)
    parityMachine_answers (VList.ofList [1, 2, 3]) (by simp) 0

end ChannelBench
