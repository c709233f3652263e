import ChannelBench.ProberState
import ChannelBench.CRing
import Mathlib.Data.List.Nodup
import Mathlib.Tactic.Ring

/-! The lines of the probe buffer and their links. Lines of different sets, or in different pages, do
not overlap, because pages are page-aligned and a page is cut into `groupsize` lines. A line holds a
forward link, a backward link and two counters, so linking one set and counting in any set leave the
links of every other set alone. -/

namespace ChannelBench

open CSem

namespace Geometry

variable (g : Geometry)

/-- The address of the line of a set in the `j`-th page of its group. -/
def line (set j : ℕ) : ℕ := (g.pagesOf set).getD j 0 + g.offset set

/-- The number of lines of a set that are linked. -/
def ways (set : ℕ) : ℕ :=
  if g.associativity = 0 ∨ (g.pagesOf set).length < g.associativity then (g.pagesOf set).length
  else g.associativity

variable {g} {set set' j j' : ℕ}

theorem offset_le (g : Geometry) (set : ℕ) : g.offset set + g.cacheline ≤ 4096 := by
  have hmod : set % g.groupsize + 1 ≤ g.groupsize := Nat.mod_lt _ g.groupsize_pos
  have hmul := Nat.mul_le_mul_right g.cacheline hmod
  rw [g.page_lines, Nat.add_mul, Nat.one_mul] at hmul
  exact hmul

theorem mem_groups (hset : set < g.nsets) :
    (getElem g.groups (set / g.groupsize) (g.group_lt hset)) ∈ g.groups := List.getElem_mem _

theorem pagesOf_length_pos (hset : set < g.nsets) : 0 < (g.pagesOf set).length := by
  rw [g.pagesOf_eq hset]
  exact List.length_pos_of_ne_nil (g.pages.nonempty _ (mem_groups hset))

theorem ways_pos (hset : set < g.nsets) : 0 < g.ways set := by
  have hpos := pagesOf_length_pos hset
  unfold ways
  split_ifs with h
  · exact hpos
  · omega

theorem ways_le (g : Geometry) (set : ℕ) : g.ways set ≤ (g.pagesOf set).length := by
  unfold ways
  split_ifs with h <;> omega

theorem ways_eq_min (g : Geometry) (set : ℕ) :
    g.ways set = min g.associativity (g.pagesOf set).length := by
  have hassoc := g.assoc_pos
  unfold ways
  split_ifs with h <;> omega

theorem line_eq (hj : j < (g.pagesOf set).length) :
    g.line set j = (g.pagesOf set)[j] + g.offset set := by
  rw [line, List.getD_eq_getElem?_getD, List.getElem?_eq_getElem hj, Option.getD_some]

theorem line_zero (g : Geometry) (set : ℕ) : g.line set 0 = g.headOf set := by
  rw [line, headOf]
  cases g.pagesOf set <;> rfl

/-- A page of the group of a set. -/
theorem page_spec (hset : set < g.nsets) (hj : j < (g.pagesOf set).length) :
    4096 ∣ (g.pagesOf set)[j] ∧ 0 < (g.pagesOf set)[j] ∧
      (g.pagesOf set)[j] + 4096 ≤ 256 ^ g.sizeofPtr := by
  have hmem : (g.pagesOf set)[j] ∈ (getElem g.groups (set / g.groupsize) (g.group_lt hset)).toList := by
    simp only [g.pagesOf_eq hset]
    exact List.getElem_mem _
  exact ⟨g.pages.aligned _ (mem_groups hset) _ hmem, g.pages.pos _ (mem_groups hset) _ hmem,
    g.pages.fits _ (mem_groups hset) _ hmem⟩

/-- Every line is inside the address space. -/
theorem line_fits (hset : set < g.nsets) (hj : j < (g.pagesOf set).length) :
    0 < g.line set j ∧ g.line set j + g.cacheline ≤ 256 ^ g.sizeofPtr := by
  obtain ⟨-, hpos, hfits⟩ := page_spec hset hj
  have hoff := g.offset_le set
  rw [line_eq hj]
  omega

/-- A page belongs to one group and has one place in it. -/
theorem page_inj (hset : set < g.nsets) (hset' : set' < g.nsets)
    (hj : j < (g.pagesOf set).length) (hj' : j' < (g.pagesOf set').length)
    (h : (g.pagesOf set)[j] = (g.pagesOf set')[j']) :
    set / g.groupsize = set' / g.groupsize ∧ j = j' := by
  have hnodup := List.nodup_flatMap.mp g.pages.nodup
  have hpair := List.pairwise_iff_getElem.mp hnodup.2
  have hmem : (g.pagesOf set)[j] ∈ (getElem g.groups (set / g.groupsize) (g.group_lt hset)).toList := by
    simp only [g.pagesOf_eq hset]
    exact List.getElem_mem _
  have hmem' : (g.pagesOf set)[j] ∈ (getElem g.groups (set' / g.groupsize) (g.group_lt hset')).toList := by
    rw [h]
    simp only [g.pagesOf_eq hset']
    exact List.getElem_mem _
  have hgroup : set / g.groupsize = set' / g.groupsize := by
    rcases Nat.lt_trichotomy (set / g.groupsize) (set' / g.groupsize) with hlt | heq | hlt
    · exact absurd hmem' (hpair _ _ (g.group_lt hset) (g.group_lt hset') hlt hmem)
    · exact heq
    · exact absurd hmem (hpair _ _ (g.group_lt hset') (g.group_lt hset) hlt hmem')
  have hpages : g.pagesOf set' = g.pagesOf set := by
    rw [pagesOf, pagesOf, hgroup]
  have hgroupNodup : (g.pagesOf set).Nodup := by
    rw [g.pagesOf_eq hset]
    exact hnodup.1 _ (mem_groups hset)
  refine ⟨hgroup, ?_⟩
  simp only [hpages] at h
  exact (hgroupNodup.getElem_inj_iff).mp h

/-- Different lines do not overlap. -/
theorem line_separated (hset : set < g.nsets) (hset' : set' < g.nsets)
    (hj : j < (g.pagesOf set).length) (hj' : j' < (g.pagesOf set').length)
    (hne : set ≠ set' ∨ j ≠ j') :
    g.line set j + g.cacheline ≤ g.line set' j' ∨ g.line set' j' + g.cacheline ≤ g.line set j := by
  obtain ⟨⟨m, hm⟩, -, -⟩ := page_spec hset hj
  obtain ⟨⟨m', hm'⟩, -, -⟩ := page_spec hset' hj'
  have hoff := g.offset_le set
  have hoff' := g.offset_le set'
  rw [line_eq hj, line_eq hj']
  by_cases hpage : (g.pagesOf set)[j] = (g.pagesOf set')[j']
  · obtain ⟨hgroup, hplace⟩ := page_inj hset hset' hj hj' hpage
    have hrem : set % g.groupsize ≠ set' % g.groupsize := by
      intro hmod
      rcases hne with h | h
      · apply h
        rw [← Nat.div_add_mod set g.groupsize, hgroup, hmod, Nat.div_add_mod]
      · exact h hplace
    rw [hpage]
    unfold offset
    rcases Nat.lt_or_gt_of_ne hrem with hlt | hlt
    · have hmul := Nat.mul_le_mul_right g.cacheline (Nat.succ_le_of_lt hlt)
      rw [Nat.succ_mul] at hmul
      omega
    · have hmul := Nat.mul_le_mul_right g.cacheline (Nat.succ_le_of_lt hlt)
      rw [Nat.succ_mul] at hmul
      omega
  · omega

end Geometry

/-- The pointers at a place in the first `count` lines of a set lead to the same place in other lines
of the set. -/
def LinkedAt (g : Geometry) (mem : Mem) (set place : ℕ) (next : ℕ → ℕ) (count : ℕ) : Prop :=
  ∀ j, j < count → load mem g.sizeofPtr (g.line set j + place) = g.line set (next j) + place

/-- The forward links of a set. -/
def LinkedForward (g : Geometry) (mem : Mem) (set : ℕ) : Prop :=
  LinkedAt g mem set 0 (fun j => (j + 1) % g.ways set) (g.ways set)

/-- The backward links of a set. -/
def LinkedBackward (g : Geometry) (mem : Mem) (set : ℕ) : Prop :=
  LinkedAt g mem set g.sizeofPtr (fun j => (j + g.ways set - 1) % g.ways set) (g.ways set)

/-- Only bytes in the first `span` bytes of the lines of a set differ. -/
def WritesLinks (g : Geometry) (set span : ℕ) (mem mem' : Mem) : Prop :=
  ∀ a, (∀ j, j < (g.pagesOf set).length → a < g.line set j ∨ g.line set j + span ≤ a) →
    mem' a = mem a

/-- Only bytes in the first `span` bytes of the lines of a set that are linked differ. -/
def WritesWays (g : Geometry) (set span : ℕ) (mem mem' : Mem) : Prop :=
  ∀ a, (∀ j, j < g.ways set → a < g.line set j ∨ g.line set j + span ≤ a) → mem' a = mem a

section Frame

variable {g : Geometry} {mem mem' : Mem} {set set' j j' : ℕ}

/-- What is outside the written part of the lines of a set is read back unchanged. -/
theorem WritesLinks.load_eq {span : ℕ} (h : WritesLinks g set span mem mem')
    (hspan : span ≤ g.cacheline) (hset : set < g.nsets) (hset' : set' < g.nsets)
    (hj' : j' < (g.pagesOf set').length) {place width : ℕ} (hplace : place + width ≤ g.cacheline)
    (hne : set ≠ set' ∨ span ≤ place) :
    load mem' width (g.line set' j' + place) = load mem width (g.line set' j' + place) := by
  apply load_congr
  intro a hlow hhigh
  apply h
  intro j hj
  by_cases hline : set ≠ set' ∨ j ≠ j'
  · have := Geometry.line_separated hset hset' hj hj' hline
    omega
  · obtain ⟨rfl, rfl⟩ : set = set' ∧ j = j' := by
      simpa only [not_or, ne_eq, not_not] using hline
    rcases hne with hne | hne
    · exact absurd rfl hne
    · omega

/-- A store into a line changes no other part of the lines. -/
theorem load_store_line {place place' width width' : ℕ} (value : ℕ) (hset : set < g.nsets)
    (hset' : set' < g.nsets) (hj : j < (g.pagesOf set).length)
    (hj' : j' < (g.pagesOf set').length) (hplace : place + width ≤ g.cacheline)
    (hplace' : place' + width' ≤ g.cacheline)
    (hne : (set ≠ set' ∨ j ≠ j') ∨ place + width ≤ place' ∨ place' + width' ≤ place) :
    load (store mem width (g.line set j + place) value) width' (g.line set' j' + place') =
      load mem width' (g.line set' j' + place') := by
  apply load_store_of_disjoint
  rcases hne with hne | hne
  · have := Geometry.line_separated hset hset' hj hj' hne
    omega
  · by_cases hline : set ≠ set' ∨ j ≠ j'
    · have := Geometry.line_separated hset hset' hj hj' hline
      omega
    · obtain ⟨rfl, rfl⟩ : set = set' ∧ j = j' := by
        simpa only [not_or, ne_eq, not_not] using hline
      omega

end Frame

/-! ### Linking a set -/

section Linking

variable {g : Geometry} {mem mem' : Mem} {set : ℕ}

theorem readAt_group (hset : set < g.nsets) :
    readAt g.groups (set / g.groupsize) = .ok (getElem g.groups (set / g.groupsize) (g.group_lt hset)) :=
  readAt_eq (g.group_lt hset)

theorem lineCount_group (hset : set < g.nsets) :
    lineCount g (getElem g.groups (set / g.groupsize) (g.group_lt hset)) = g.ways set := by
  unfold lineCount Geometry.ways
  rw [vlLen_eq, g.pagesOf_eq hset]

/-- The page of a line, as the linking routines read it from the group. -/
theorem vlGet_group (hset : set < g.nsets) {j : ℕ} (hj : j < g.ways set) :
    ∃ page, vlGet (getElem g.groups (set / g.groupsize) (g.group_lt hset)) j = .ok page ∧
      page + set % g.groupsize * g.cacheline = g.line set j := by
  have hlen := Nat.lt_of_lt_of_le hj (g.ways_le set)
  have hlen' : j < (getElem g.groups (set / g.groupsize) (g.group_lt hset)).toList.length := by
    rwa [← g.pagesOf_eq hset]
  exact ⟨_, vlGet_eq hlen', by simp only [Geometry.line_eq hlen, g.pagesOf_eq hset, Geometry.offset]⟩

theorem WritesWays.refl (span : ℕ) : WritesWays g set span mem mem := fun _ _ => rfl

/-- A store of a link keeps to the written part of its set. -/
theorem WritesWays.store {span : ℕ} (h : WritesWays g set span mem mem') {j : ℕ}
    (hj : j < g.ways set) (place : ℕ) (hplace : place + g.sizeofPtr ≤ span) (value : ℕ) :
    WritesWays g set span mem (store mem' g.sizeofPtr (g.line set j + place) value) := by
  intro a ha
  have hout := ha j hj
  rw [store_apply_of_outside _ _ _ _ (by omega), h a ha]

theorem WritesWays.writesLinks {span : ℕ} (h : WritesWays g set span mem mem') :
    WritesLinks g set span mem mem' := by
  intro a ha
  apply h
  intro j hj
  exact ha j (Nat.lt_of_lt_of_le hj (g.ways_le set))

variable {place count : ℕ} {next : ℕ → ℕ}

/-- Writing one more link. -/
theorem LinkedAt.store_next (h : LinkedAt g mem set place next count) (hset : set < g.nsets)
    (hcount : count < g.ways set) (hnext : next count < g.ways set)
    (hplace : place + g.sizeofPtr ≤ g.cacheline) :
    LinkedAt g (store mem g.sizeofPtr (g.line set count + place) (g.line set (next count) + place))
      set place next (count + 1) := by
  have hle := g.ways_le set
  intro j hj
  rcases Nat.lt_succ_iff_lt_or_eq.mp hj with hlt | heq
  · rw [load_store_line _ hset hset (by omega) (by omega) hplace hplace (by omega)]
    exact h j hlt
  · have hfits := Geometry.line_fits hset (Nat.lt_of_lt_of_le hnext hle)
    have hptr := g.ptr_room
    rw [heq]
    exact load_store_same _ _ _ _ (by omega)

/-- A store to another place in a line of the set. -/
theorem LinkedAt.store_other (h : LinkedAt g mem set place next count) (hset : set < g.nsets)
    (hcount : count ≤ g.ways set) {j : ℕ} (hj : j < g.ways set) (place' : ℕ)
    (hplace : place + g.sizeofPtr ≤ g.cacheline) (hplace' : place' + g.sizeofPtr ≤ g.cacheline)
    (hne : place' + g.sizeofPtr ≤ place ∨ place + g.sizeofPtr ≤ place') (value : ℕ) :
    LinkedAt g (store mem g.sizeofPtr (g.line set j + place') value) set place next count := by
  have hle := g.ways_le set
  intro k hk
  rw [load_store_line _ hset hset (by omega) (by omega) hplace' hplace (.inr hne)]
  exact h k hk

/-- `sethead_single` links the lines of its set forward and writes nothing else. -/
theorem setheadSingle_returns (mem : Mem) (hset : set < g.nsets) :
    Returns (setheadSingle g mem set) fun r =>
      r.1 = g.headOf set ∧ LinkedForward g r.2 set ∧ WritesWays g set g.sizeofPtr mem r.2 := by
  have hpos := Geometry.ways_pos hset
  have hroom := g.line_room
  obtain ⟨first, hfirst, hhead⟩ := vlGet_group hset hpos
  rw [setheadSingle, readAt_group hset, ok_bind]
  simp only [lineCount_group hset]
  apply Returns.bind (forUpto_returns (fun i mem' =>
    LinkedAt g mem' set 0 (fun j => (j + 1) % g.ways set) i ∧
      WritesWays g set g.sizeofPtr mem mem') ⟨fun j hj => absurd hj (Nat.not_lt_zero j), .refl _⟩ _)
  · intro mem' h
    obtain ⟨hforward, hframe⟩ := h
    rw [hfirst, ok_bind, returns_pure]
    exact ⟨hhead.trans (g.line_zero set), hforward, hframe⟩
  · intro i hi mem' h
    obtain ⟨hforward, hframe⟩ := h
    have hnext : (i + 1) % g.ways set < g.ways set := Nat.mod_lt _ hpos
    obtain ⟨here, hhere, hline⟩ := vlGet_group hset hi
    obtain ⟨next, hget, hline'⟩ := vlGet_group hset hnext
    rw [hhere, ok_bind, hget, ok_bind, hline, hline', returns_pure]
    exact ⟨hforward.store_next hset hi hnext (by omega), hframe.store hi 0 (by omega) _⟩

/-- `sethead` links the lines of its set in both directions and writes nothing else. -/
theorem sethead_returns (mem : Mem) (hset : set < g.nsets) :
    Returns (sethead g mem set) fun r => r.1 = g.headOf set ∧ LinkedForward g r.2 set ∧
      LinkedBackward g r.2 set ∧ WritesWays g set (2 * g.sizeofPtr) mem r.2 := by
  have hpos := Geometry.ways_pos hset
  have hroom := g.line_room
  obtain ⟨first, hfirst, hhead⟩ := vlGet_group hset hpos
  rw [sethead, readAt_group hset, ok_bind]
  simp only [lineCount_group hset]
  apply Returns.bind (forUpto_returns (fun i mem' =>
    LinkedAt g mem' set 0 (fun j => (j + 1) % g.ways set) i ∧
      LinkedAt g mem' set g.sizeofPtr (fun j => (j + g.ways set - 1) % g.ways set) i ∧
        WritesWays g set (2 * g.sizeofPtr) mem mem')
    ⟨fun j hj => absurd hj (Nat.not_lt_zero j), fun j hj => absurd hj (Nat.not_lt_zero j), .refl _⟩ _)
  · intro mem' h
    obtain ⟨hforward, hbackward, hframe⟩ := h
    rw [hfirst, ok_bind, returns_pure]
    exact ⟨hhead.trans (g.line_zero set), hforward, hbackward, hframe⟩
  · intro i hi mem' h
    obtain ⟨hforward, hbackward, hframe⟩ := h
    have hnext : (i + 1) % g.ways set < g.ways set := Nat.mod_lt _ hpos
    have hprev : (i + g.ways set - 1) % g.ways set < g.ways set := Nat.mod_lt _ hpos
    obtain ⟨here, hhere, hline⟩ := vlGet_group hset hi
    obtain ⟨next, hget, hline'⟩ := vlGet_group hset hnext
    obtain ⟨prev, hget', hline''⟩ := vlGet_group hset hprev
    rw [hhere, ok_bind, hget, ok_bind, hline, hline', hget', ok_bind, returns_pure,
      ← Nat.add_assoc here, ← Nat.add_assoc prev, hline, hline'']
    refine ⟨?_, ?_, ?_⟩
    · exact (hforward.store_next hset hi hnext (by omega)).store_other hset (by omega) hi
        g.sizeofPtr (by omega) (by omega) (by omega) _
    · apply LinkedAt.store_next _ hset hi hprev (by omega)
      exact hbackward.store_other hset (by omega) hi 0 (by omega) (by omega) (by omega) _
    · exact (hframe.store hi 0 (by omega) _).store hi g.sizeofPtr (by omega) _

end Linking

end ChannelBench
