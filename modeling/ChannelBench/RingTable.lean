import ChannelBench.EvictionColours
import ChannelBench.PpState

/-! The ring table of `search.h` and `test.c`. Both map the pages of a buffer with `cm_linelist` and keep one
ring for each set it returns, in a table of 256 entries. How many sets the discovery can return depends on how
short the lists are that a noisy test takes for eviction sets. -/

namespace ChannelBench

open CSem

/-- `L3_ASSOCIATIVITY` on x86. -/
def x86L3Associativity : ℕ := 16

/-- `SIZE`. -/
def searchSize : ℕ := 16 * 1024 * 1024

/-- The length of `pps`. -/
def ringTableLength : ℕ := 256

/-- The list of the pages of `buf` that `map` of `search.h` builds, with `buf` aligned. -/
def searchCandidates (buf : ℕ) : Run (VList ℕ) :=
  forUpto (fun i candidates => vlPush candidates (buf + i * 4096)) (searchSize / 4096) vlNew

/-- `map` of `search.h`, and the same part of `mastik_test`. -/
def searchMap {σ : Type} (M : Machine σ ℕ) (fuel buf : ℕ) (world : σ) : Run (Cachemap ℕ × VList ℕ) := do
  let candidates ← searchCandidates buf
  cmLinelist M x86L3Associativity fuel candidates world

/-- The loop of `attack` and `mastik_test` that enters a ring for every set into `pps`. -/
def prepareRings (arch : X86) (cm : Cachemap ℕ) (offset : ℕ) (pps : List ℕ) (mem : Mem) :
    Run (List ℕ × Mem) :=
  forUpto (fun i st => do
      let set ← readAt cm.sets i
      let (pp, mem) ← ppPrepare arch st.2 set x86L3Associativity offset
      let pps ← writeAt st.1 i pp
      return (pps, mem))
    cm.nsets (pps, mem)

/-- The pages of the buffer. -/
def searchPages (buf : ℕ) : List ℕ := (List.range (searchSize / 4096)).map fun i => buf + i * 4096

theorem searchCandidates_returns (buf : ℕ) :
    Returns (searchCandidates buf) fun candidates => candidates.toList = searchPages buf := by
  apply forUpto_returns (fun i (candidates : VList ℕ) =>
    candidates.toList = (List.range i).map fun i => buf + i * 4096) rfl
  intro i _ candidates hcandidates
  apply (vlPush_returns candidates (buf + i * 4096)).mono
  intro candidates' hpush
  rw [hpush, hcandidates, List.range_succ, List.map_append]
  rfl

theorem searchPages_length (buf : ℕ) : (searchPages buf).length = searchSize / 4096 := by
  rw [searchPages, List.length_map, List.length_range]

/-- The discovery ends within seven rounds for every page and seven more. -/
theorem searchMeasure_lt {σ : Type} {buf fuel : ℕ} {candidates : VList ℕ}
    (hcandidates : candidates.toList = searchPages buf) (world : σ) (hfuel : searchSize / 4096 * 7 + 7 ≤ fuel) :
    RoundResult.measure 5 (SearchState.init candidates world) < fuel := by
  simp only [RoundResult.measure, SearchState.init, hcandidates, searchPages_length]
  omega

/-! ### The table -/

section Table

variable {arch : X86} {cm : Cachemap ℕ} {offset : ℕ} {pps : List ℕ} {mem : Mem}

theorem ppPrepare_ends (arch : X86) {list : VList ℕ} (hlist : list.toList ≠ []) (hoffset : offset &&& 0x3f = 0)
    (mem : Mem) (count : ℕ) :
    Returns (ppPrepare arch mem list count offset) fun _ => True := by
  have hpos : 0 < list.toList.length := List.length_pos_of_ne_nil hlist
  have hcount : ppCount list count ≤ list.toList.length := by
    unfold ppCount
    rw [vlLen_eq]
    split_ifs <;> omega
  rw [ppPrepare, require_pos hoffset, pure_bind]
  have hloop : Returns (forUpto (fun i mem => do
      let here ← vlGet list i
      let next ← vlGet list ((i + 1) % ppCount list count)
      return store mem arch.sizeofPtr (here + offset) (next + offset)) (ppCount list count) mem)
      fun _ => True := by
    apply forUpto_returns (fun _ _ => True) trivial
    intro i hi mem _
    have hnext := Nat.mod_lt (i + 1) (show 0 < ppCount list count by omega)
    rw [vlGet_eq (by omega), ok_bind, vlGet_eq (by omega)]
    exact returns_ok.mpr trivial
  apply hloop.bind
  intro mem _
  rw [vlGet_eq hpos]
  exact returns_ok.mpr trivial

/-- A round of the loop that fills the table writes one entry of it. -/
theorem prepareRings_round (arch : X86) {i : ℕ} (hi : i < cm.sets.length) (hsets : ∀ set ∈ cm.sets, set.toList ≠ [])
    (hoffset : offset &&& 0x3f = 0) (st : List ℕ × Mem) :
    ∃ pp mem, (do
      let set ← readAt cm.sets i
      let (pp, mem) ← ppPrepare arch st.2 set x86L3Associativity offset
      let pps ← writeAt st.1 i pp
      return (pps, mem)) = writeAt st.1 i pp >>= fun pps => pure (pps, mem) := by
  obtain ⟨⟨pp, mem⟩, hpp, -⟩ := ppPrepare_ends arch (hsets _ (List.getElem_mem hi)) hoffset st.2
    x86L3Associativity
  refine ⟨pp, mem, ?_⟩
  rw [readAt_eq hi, ok_bind, hpp]
  rfl

variable (hlength : cm.sets.length = cm.nsets) (hsets : ∀ set ∈ cm.sets, set.toList ≠ [])
  (hoffset : offset &&& 0x3f = 0)

include hlength hsets hoffset

/-- A table that is long enough is filled. -/
theorem prepareRings_returns (hroom : cm.nsets ≤ pps.length) :
    Returns (prepareRings arch cm offset pps mem) fun st => st.1.length = pps.length := by
  apply forUpto_returns (fun _ (st : List ℕ × Mem) => st.1.length = pps.length) rfl
  intro i hi st hst
  obtain ⟨pp, mem', hround⟩ := prepareRings_round arch (i := i) (by omega) hsets hoffset st
  rw [hround, writeAt_eq pp (by omega), ok_bind, returns_pure, List.length_set]
  exact hst

/-- Otherwise a ring is written behind its end. -/
theorem prepareRings_overflows (hroom : pps.length < cm.nsets) :
    prepareRings arch cm offset pps mem = .error .bounds := by
  apply forUpto_eq_error (fun _ (st : List ℕ × Mem) => st.1.length = pps.length) rfl _ hroom
  · intro st hst
    obtain ⟨pp, mem', hround⟩ := prepareRings_round arch (i := pps.length) (by omega) hsets hoffset st
    rw [hround, writeAt, if_neg (by omega)]
    rfl
  · intro i hi st hst
    obtain ⟨pp, mem', hround⟩ := prepareRings_round arch (i := i) (by omega) hsets hoffset st
    rw [hround]
    by_cases hlt : i < st.1.length
    · apply Returns.orFault
      rw [writeAt_eq pp hlt, ok_bind, returns_pure, List.length_set]
      exact hst
    · rw [writeAt, if_neg hlt]
      exact .inr rfl

end Table

/-! ### How many sets a noisy discovery returns -/

section Noise

variable {σ Page : Type} {M : Machine σ Page} {T : ℕ}

/-- No eviction test is positive for a list of fewer than `T` pages. -/
def PositiveFrom (M : Machine σ Page) (T : ℕ) : Prop :=
  Answers M fun es _ evicted => evicted = true → T ≤ es.length

/-- An eviction set that evicts a page keeps `T` pages. -/
theorem contractTimes_positive (htest : PositiveFrom M T) (count : ℕ) {es : VList Page} (lines : VList Page)
    (c : Page) (world : σ) (hes : T ≤ es.toList.length) :
    Returns (contractTimes M count es lines c world) fun r =>
      T ≤ r.1.toList.length ∧ r.1.pages + r.2.1.pages = es.pages + lines.pages := by
  refine contractTimes_keeps (K := fun l => T ≤ l.length) ?_ count lines world hes
  intro es lines world hes
  refine (contract_returns htest (K := fun kept rest => T ≤ (kept ++ rest).length) ?_ ?_ world hes).mono ?_
  · intro kept page rest rest' _ _ htest
    exact htest rfl
  · intro kept page rest rest' _ hK _
    rwa [List.append_assoc]
  · intro r hr
    rw [List.append_nil] at hr
    exact ⟨hr.1, pages_of_removed hr.2⟩

/-- An eviction set that a round accepts has `T` pages. -/
theorem linelistAccepts_positive (htest : PositiveFrom M T) {l3Associativity : ℤ} {s : SearchState σ Page}
    {es : VList Page} (h : linelistAccepts M l3Associativity s = some es) : T ≤ vlLen es := by
  rw [linelistAccepts] at h
  split_ifs at h
  obtain ⟨r, hexpand, hfound⟩ := expand_returns htest (J := fun _ => True) (fun _ _ _ _ => trivial) s.es s.lines
    s.world trivial
  rw [hexpand] at h
  cases hfound with
  | exhausted => cases h
  | @evicted c grown lines world _ hanswer _ =>
      obtain ⟨r, hrun, hlength, -⟩ := contractTimes_positive htest 3 lines c world (hanswer rfl)
      dsimp only at h
      rw [hrun] at h
      dsimp only at h
      split_ifs at h
      rw [vlLen_eq, ← Option.some.inj h]
      exact hlength

end Noise

/-! ### A machine that 14 pages are enough for -/

/-- The group of 15 pages of the buffer that a page is in. -/
def pageGroup (buf page : ℕ) : ℕ := (page - buf) / 4096 / 15

/-- A machine on which a list evicts a page as soon as 14 of its pages are in the group of the page. -/
def narrowMachine (buf : ℕ) : Machine ℕ ℕ where
  random := fun world => (world, world + 1)
  timedwalk := fun links _ candidate world =>
    (140 + (links.map Prod.fst).countP fun page => pageGroup buf page = pageGroup buf candidate, world)
  l3Threshold := 153

theorem narrowMachine_answers (buf : ℕ) : Answers (narrowMachine buf) (colourAnswer (pageGroup buf) 14) := by
  intro es candidate world
  by_cases hes : es.toList = []
  · rw [checkevict_nil _ _ _ hes, hes]
    exact returns_ok.mpr (by simp [colourAnswer])
  · apply (checkevict_returns (narrowMachine buf) candidate world hes).mono
    intro r hr
    obtain ⟨links, head, hlinks, hr⟩ := hr
    rw [hr, colourAnswer, decide_eq_true_eq]
    simp only [narrowMachine, hlinks, colourCount]
    omega

theorem searchPages_nodup (buf : ℕ) : (searchPages buf).Nodup := by
  apply List.nodup_range.map
  intro i j hij
  dsimp only at hij
  omega

/-- The buffer has 273 complete groups. -/
theorem colourCount_pageGroup (buf : ℕ) {k : ℕ} (hk : k < 273) :
    14 < colourCount (pageGroup buf) k (searchPages buf) := by
  have hsub : List.range' (15 * k) 15 ⊆ List.range (searchSize / 4096) := by
    intro i hi
    rw [List.mem_range'_1] at hi
    have hsize : searchSize / 4096 = 4096 := by norm_num [searchSize]
    rw [List.mem_range, hsize]
    omega
  have hall : (List.range' (15 * k) 15).countP (fun i => pageGroup buf (buf + i * 4096) = k) = 15 := by
    rw [List.countP_eq_length.mpr, List.length_range']
    intro i hi
    rw [List.mem_range'_1] at hi
    rw [decide_eq_true_eq, pageGroup, Nat.add_sub_cancel_left, Nat.mul_div_cancel _ (by decide)]
    omega
  have hdistinct : (List.range' (15 * k) 15).Nodup := List.nodup_range' 1
  have hle := (hdistinct.subperm hsub).countP_le (fun i => pageGroup buf (buf + i * 4096) = k)
  rw [hall] at hle
  rw [colourCount, searchPages, List.countP_map]
  exact hle

/-- On this machine the discovery returns more sets than the table has entries. -/
theorem searchMap_narrow (buf world : ℕ) :
    ∃ rounds, ∀ fuel, rounds ≤ fuel → Returns (searchMap (narrowMachine buf) fuel buf world) fun r =>
      ringTableLength < r.1.nsets ∧ r.1.sets.length = r.1.nsets ∧ ∀ set ∈ r.1.sets, set.toList ≠ [] := by
  refine ⟨searchSize / 4096 * 7 + 7, ?_⟩
  intro fuel hfuel
  apply (searchCandidates_returns buf).bind
  intro candidates hcandidates
  have hnodup : candidates.toList.Nodup := by
    rw [hcandidates]
    exact searchPages_nodup buf
  have hmeasure := searchMeasure_lt hcandidates world hfuel
  have hcolours := search_colours (fun _ => linelistRound_returns (M := narrowMachine buf) x86L3Associativity)
    (fun _ => linelistRound_colours (narrowMachine_answers buf) (by decide) (by decide) (by decide)) hnodup hmeasure
  have hsizes := search_returns (fun _ => linelistRound_returns (M := narrowMachine buf) x86L3Associativity)
    (searchInv_init x86L3Associativity candidates world) hmeasure
  apply cmLinelist_returns (hcolours.and hsizes)
  intro s hs
  obtain ⟨hcolours, hsizes⟩ := hs
  obtain ⟨ks, hks, hall, hgroups⟩ := hcolours.groups
  have hsub : List.range 273 ⊆ ks := by
    intro k hk
    rw [hall, hcandidates]
    exact colourCount_pageGroup buf (List.mem_range.mp hk)
  have hlength := (List.nodup_range.subperm hsub).length_le
  rw [List.length_range, ← hgroups.length_eq] at hlength
  refine ⟨lt_of_lt_of_le (by decide) hlength, rfl, ?_⟩
  intro set hset
  have hsize := hsizes.size set hset
  dsimp only [x86L3Associativity] at hsize
  exact List.ne_nil_of_length_pos (by omega)

/-! ### When the table is large enough -/

section Rounds

variable {σ : Type} (M : Machine σ ℕ) (buf : ℕ) (world : σ)

/-- The states before the rounds of the discovery. -/
def SearchVisits (s : SearchState σ ℕ) : Prop :=
  ∃ candidates, searchCandidates buf = .ok candidates ∧
    Visits (linelistRound M x86L3Associativity) (SearchState.init candidates world) s

/-- No round of the discovery accepts an eviction set of fewer than 15 pages. -/
def AcceptsLong : Prop :=
  ∀ s, SearchVisits M buf world s → ∀ es, linelistAccepts M x86L3Associativity s = some es →
    x86L3Associativity - 1 ≤ vlLen es

variable {M buf world}

/-- It is enough that no list of fewer than 15 pages passes an eviction test. -/
theorem acceptsLong_of_positive (htest : PositiveFrom M (x86L3Associativity - 1)) : AcceptsLong M buf world :=
  fun _ _ _ haccepts => linelistAccepts_positive htest haccepts

/-- A round of such a discovery finds no set of fewer than 16 pages. -/
theorem AcceptsLong.round (hlong : AcceptsLong M buf world) {s : SearchState σ ℕ} (hs : SearchVisits M buf world s)
    (hes : s.es.toList = []) :
    Returns (linelistRound M x86L3Associativity s)
      (RoundResult 5 18 (linelistRejects M x86L3Associativity s) s) := by
  apply linelistRound_result hes
  intro es haccepts _
  have hleast := hlong s hs es haccepts
  rw [vlLen_eq, x86L3Associativity] at hleast
  omega

/-- The pages of the buffer are enough for 256 sets of 16 pages. -/
theorem length_sets_le {candidates : VList ℕ} (hcandidates : candidates.toList = searchPages buf)
    {s : SearchState σ ℕ} (hs : SearchInv 18 (SearchState.init candidates world) s) :
    s.sets.toList.length ≤ ringTableLength := by
  have hpages := hs.length_sets_mul_le
  have hsize : searchSize / 4096 = 4096 := by norm_num [searchSize]
  rw [hcandidates, searchPages_length, hsize] at hpages
  rw [ringTableLength]
  omega

/-- **When the ring table is large enough.** In every run whose rounds accept no eviction set of fewer than 15
pages, there are never more than 256 sets, and the rings of those that are returned fit into the table. -/
theorem searchMap_fits (arch : X86) (hlong : AcceptsLong M buf world) :
    (∀ s, SearchVisits M buf world s → vlLen s.sets ≤ ringTableLength) ∧
      ∃ rounds, ∀ fuel, rounds ≤ fuel → Returns (searchMap M fuel buf world) fun r =>
        r.1.nsets ≤ ringTableLength ∧ ∀ offset pps mem, offset &&& 0x3f = 0 → pps.length = ringTableLength →
          Returns (prepareRings arch r.1 offset pps mem) fun _ => True := by
  obtain ⟨candidates, hrun, hcandidates⟩ := searchCandidates_returns buf
  have hround : ∀ s, Visits (linelistRound M x86L3Associativity) (SearchState.init candidates world) s →
      s.es.toList = [] → Returns (linelistRound M x86L3Associativity s)
        (RoundResult 5 18 (linelistRejects M x86L3Associativity s) s) :=
    fun s hs hes => hlong.round ⟨candidates, hrun, hs⟩ hes
  have hstart := searchInv_init 18 candidates world
  constructor
  · intro s hs
    obtain ⟨candidates', hrun', hvisit⟩ := hs
    obtain rfl : candidates = candidates' := Except.ok.inj (hrun.symm.trans hrun')
    rw [vlLen_eq]
    exact length_sets_le hcandidates (searchInv_of_run hround hstart hvisit)
  · refine ⟨searchSize / 4096 * 7 + 7, ?_⟩
    intro fuel hfuel
    rw [searchMap, hrun, ok_bind]
    apply cmLinelist_returns (search_run_returns hround hstart (searchMeasure_lt hcandidates world hfuel))
    intro s hs
    have hfew := length_sets_le hcandidates hs
    refine ⟨hfew, ?_⟩
    intro offset pps mem hoffset hpps
    refine (prepareRings_returns rfl ?_ hoffset (by rwa [hpps])).mono fun _ _ => trivial
    intro set hset
    have hsize := hs.size set hset
    exact List.ne_nil_of_length_pos (by omega)

end Rounds

/-- A machine on which 15 pages evict every other page. -/
def lengthMachine : Machine ℕ ℕ where
  random := fun world => (world, world + 1)
  timedwalk := fun links _ _ world => (139 + links.length, world)
  l3Threshold := 153

theorem lengthMachine_positive : PositiveFrom lengthMachine (x86L3Associativity - 1) := by
  intro es candidate world
  by_cases hes : es.toList = []
  · rw [checkevict_nil _ _ _ hes]
    exact returns_ok.mpr fun hpositive => absurd hpositive Bool.false_ne_true
  · apply (checkevict_returns lengthMachine candidate world hes).mono
    intro r hr hpositive
    obtain ⟨links, head, hlinks, hr⟩ := hr
    rw [hr, decide_eq_true_eq] at hpositive
    rw [← hlinks, List.length_map, x86L3Associativity]
    simp only [lengthMachine] at hpositive
    omega

theorem searchMap_fits_length :
    ∃ rounds, ∀ fuel, rounds ≤ fuel → Returns (searchMap lengthMachine fuel 4096 0) fun r =>
      r.1.nsets ≤ ringTableLength := by
  obtain ⟨rounds, hfits⟩ := (searchMap_fits .ia32 (acceptsLong_of_positive lengthMachine_positive :
    AcceptsLong lengthMachine 4096 0)).2
  exact ⟨rounds, fun fuel hfuel => (hfits fuel hfuel).mono fun _ hr => hr.1⟩

/-- A discovery that returns more sets than `pps` has entries: a ring is written behind its end. -/
theorem searchMap_overflows :
    ∃ rounds, ∀ fuel, rounds ≤ fuel → Returns (searchMap (narrowMachine 4096) fuel 4096 0) fun r =>
      ringTableLength < r.1.nsets ∧
        prepareRings .ia32 r.1 0 (List.replicate ringTableLength 0) (fun _ => 0) = .error .bounds := by
  obtain ⟨rounds, hmany⟩ := searchMap_narrow 4096 0
  refine ⟨rounds, ?_⟩
  intro fuel hfuel
  apply (hmany fuel hfuel).mono
  intro r hr
  obtain ⟨hmany, hlength, hsets⟩ := hr
  exact ⟨hmany, prepareRings_overflows hlength hsets rfl (by rwa [List.length_replicate])⟩

end ChannelBench
