import ChannelBench.ProberRings
import Mathlib.Data.Set.Function
import Mathlib.Tactic.Linarith

/-! The lines of the probe buffer. `ptemap` makes page `n` of the buffer page `n / ngroups` of group
`n % ngroups`, and a set number is a group and a line of its pages, so every line of the buffer belongs to one
set and one page. `sethead` links the lines of a set in the first pages only, as many as the associativity. The
loop of `ptemap` goes one stride beyond the buffer, which must not overflow its `int`. -/

namespace ChannelBench

open CSem

/-! ### Numbering lines -/

section Numbering

variable {ngroups groupsize total : ℕ}

/-- Two digits of a number. -/
theorem digits_inj {b a a' r r' : ℕ} (hr : r < b) (hr' : r' < b) (h : a * b + r = a' * b + r') :
    a = a' ∧ r = r' := by
  have hmod := congrArg (· % b) h
  simp only [Nat.mul_add_mod', Nat.mod_eq_of_lt hr, Nat.mod_eq_of_lt hr'] at hmod
  subst hmod
  exact ⟨Nat.eq_of_mul_eq_mul_right (by omega) (Nat.add_right_cancel h), rfl⟩

/-- The number in the buffer of the line of a set in a page of its group. -/
def lineNumber (ngroups groupsize : ℕ) (p : ℕ × ℕ) : ℕ :=
  (p.2 * ngroups + p.1 / groupsize) * groupsize + p.1 % groupsize

/-- A line has one set and one page. -/
theorem lineNumber_bijOn (hngroups : 0 < ngroups) (hgroupsize : 0 < groupsize) :
    Set.BijOn (lineNumber ngroups groupsize)
      { p | p.1 < ngroups * groupsize ∧ p.2 * ngroups + p.1 / groupsize < total }
      (Set.Iio (total * groupsize)) := by
  refine ⟨?_, ?_, ?_⟩
  · intro p hp
    have hpage : (p.2 * ngroups + p.1 / groupsize + 1) * groupsize ≤ total * groupsize :=
      Nat.mul_le_mul_right _ hp.2
    have hrest := Nat.mod_lt p.1 hgroupsize
    rw [Nat.succ_mul] at hpage
    rw [Set.mem_Iio, lineNumber]
    omega
  · intro p hp p' hp' heq
    obtain ⟨hpage, hrest⟩ := digits_inj (Nat.mod_lt p.1 hgroupsize) (Nat.mod_lt p'.1 hgroupsize) heq
    obtain ⟨hplace, hgroup⟩ := digits_inj (Nat.div_lt_of_lt_mul (Nat.mul_comm ngroups _ ▸ hp.1))
      (Nat.div_lt_of_lt_mul (Nat.mul_comm ngroups _ ▸ hp'.1)) hpage
    refine Prod.ext ?_ hplace
    rw [← Nat.div_add_mod p.1 groupsize, hgroup, hrest, Nat.div_add_mod]
  · intro m hm
    have hrest := Nat.mod_lt m hgroupsize
    have hgroup := Nat.mod_lt (m / groupsize) hngroups
    have hset : m / groupsize % ngroups * groupsize + m % groupsize < ngroups * groupsize := by
      have hmul := Nat.mul_le_mul_right groupsize (Nat.succ_le_of_lt hgroup)
      rw [Nat.succ_mul] at hmul
      omega
    have hdiv : (m / groupsize % ngroups * groupsize + m % groupsize) / groupsize = m / groupsize % ngroups := by
      rw [Nat.add_comm, Nat.add_mul_div_right _ _ hgroupsize, Nat.div_eq_of_lt hrest, Nat.zero_add]
    refine ⟨(m / groupsize % ngroups * groupsize + m % groupsize, m / groupsize / ngroups), ⟨hset, ?_⟩, ?_⟩
    · rw [hdiv, Nat.div_add_mod']
      exact Nat.div_lt_of_lt_mul (Nat.mul_comm total _ ▸ hm)
    · rw [lineNumber, hdiv, Nat.div_add_mod', Nat.mul_add_mod', Nat.mod_mod, Nat.div_add_mod']

end Numbering

/-! ### Pages and lines of the buffer -/

/-- The pages of the buffer. -/
def bufferPages (bufsize buffer : ℕ) : List ℕ :=
  (List.range (bufsize / 4096)).map fun n => buffer + n * 4096

/-- The lines of the buffer. -/
def bufferLines (bufsize buffer cacheline : ℕ) : Set ℕ :=
  (fun m => buffer + m * cacheline) '' Set.Iio (bufsize / cacheline)

/-- The pages of the group `groups[set / groupsize]`. -/
def setPages (groups : List (VList ℕ)) (groupsize set : ℕ) : List ℕ :=
  (groups[set / groupsize]?).elim [] VList.toList

/-- `OFFSET(vl_get(list, j), (set % groupsize) * L3_CACHELINE)`, the line of a set in the `j`-th page of its
group. -/
def setLine (groups : List (VList ℕ)) (groupsize cacheline : ℕ) (p : ℕ × ℕ) : ℕ :=
  (setPages groups groupsize p.1).getD p.2 0 + p.1 % groupsize * cacheline

namespace DealtGroups

variable {bufsize ngroups buffer groupsize cacheline : ℕ} {groups : List (VList ℕ)}

/-- Every page of the buffer is in one group, once. -/
theorem pages_perm (h : DealtGroups bufsize ngroups buffer groups) (hngroups : 0 < ngroups)
    (hsize : 4096 ∣ bufsize) : (groups.flatMap VList.toList).Perm (bufferPages bufsize buffer) := by
  obtain ⟨total, rfl⟩ := hsize
  have hpages : (bufferPages (4096 * total) buffer).Nodup := by
    apply List.nodup_range.map
    intro n n' heq
    dsimp only at heq
    omega
  rw [List.perm_ext_iff_of_nodup (h.nodup_pages hngroups) hpages]
  intro page
  rw [List.mem_flatMap, bufferPages, List.mem_map]
  constructor
  · intro hpage
    obtain ⟨group, hgroup, hpage⟩ := hpage
    obtain ⟨i, hi, rfl⟩ := List.getElem_of_mem hgroup
    obtain ⟨j, rfl, hlt⟩ := (h.dealt i hi).exists_of_mem hpage
    exact ⟨i + j * ngroups, List.mem_range.mpr (by omega), rfl⟩
  · intro hpage
    obtain ⟨n, hn, rfl⟩ := hpage
    rw [List.mem_range] at hn
    have hi : n % ngroups < groups.length := by
      rw [h.length_eq]
      exact Nat.mod_lt _ hngroups
    have hnumber : n % ngroups + n / ngroups * ngroups = n := Nat.mod_add_div' n ngroups
    have hdealt := h.dealt _ hi
    have hj : n / ngroups < groups[n % ngroups].toList.length := by
      rw [hdealt.lt_length_iff, hnumber]
      omega
    refine ⟨groups[n % ngroups], List.getElem_mem hi, ?_⟩
    obtain ⟨count, hgroup, -⟩ := hdealt
    rw [hgroup, List.length_map, List.length_range] at hj
    rw [hgroup, List.mem_map]
    refine ⟨n / ngroups, List.mem_range.mpr hj, ?_⟩
    rw [dealtPage, hnumber]

/-- No group has two pages more than another one. -/
theorem length_le (h : DealtGroups bufsize ngroups buffer groups) {i i' : ℕ} (hi : i < groups.length)
    (hi' : i' < groups.length) : groups[i].toList.length ≤ groups[i'].toList.length + 1 := by
  by_contra hmore
  have hlong : groups[i'].toList.length + 1 < groups[i].toList.length := by omega
  rw [(h.dealt i hi).lt_length_iff, Nat.succ_mul] at hlong
  have hshort := lt_irrefl groups[i'].toList.length
  rw [(h.dealt i' hi').lt_length_iff] at hshort
  rw [h.length_eq] at hi'
  omega

/-- The group of a set that is in range. -/
theorem setPages_eq (h : DealtGroups bufsize ngroups buffer groups) {set : ℕ} (hset : set < ngroups * groupsize) :
    ∃ group, DealtGroup bufsize ngroups buffer (set / groupsize) group ∧
      setPages groups groupsize set = group.toList := by
  have hi : set / groupsize < groups.length := by
    rw [h.length_eq]
    exact Nat.div_lt_of_lt_mul (by rwa [Nat.mul_comm])
  refine ⟨groups[set / groupsize], h.dealt _ hi, ?_⟩
  rw [setPages, List.getElem?_eq_getElem hi]
  rfl

/-- A set has a line in every page of the buffer that its group gets. -/
theorem lt_setPages_iff (h : DealtGroups bufsize ngroups buffer groups) {set : ℕ}
    (hset : set < ngroups * groupsize) (j : ℕ) :
    j < (setPages groups groupsize set).length ↔ (j * ngroups + set / groupsize) * 4096 < bufsize := by
  obtain ⟨group, hdealt, hpages⟩ := h.setPages_eq hset
  rw [hpages, hdealt.lt_length_iff, Nat.add_comm (set / groupsize)]

/-- The number of a line in the buffer. -/
theorem setLine_eq (h : DealtGroups bufsize ngroups buffer groups) (hlines : groupsize * cacheline = 4096)
    {p : ℕ × ℕ} (hset : p.1 < ngroups * groupsize) (hj : p.2 < (setPages groups groupsize p.1).length) :
    setLine groups groupsize cacheline p = buffer + lineNumber ngroups groupsize p * cacheline := by
  obtain ⟨group, ⟨count, hgroup, -⟩, hpages⟩ := h.setPages_eq hset
  rw [hpages, hgroup, List.length_map, List.length_range] at hj
  rw [setLine, hpages, hgroup, List.getD_eq_getElem?_getD, List.getElem?_map, List.getElem?_range hj]
  show dealtPage ngroups buffer (p.1 / groupsize) p.2 + _ = _
  rw [dealtPage, lineNumber, ← hlines]
  ring

/-- The set numbers and the pages of their groups give every line of the buffer once. -/
theorem setLine_bijOn (h : DealtGroups bufsize ngroups buffer groups) (hngroups : 0 < ngroups)
    (hsize : 4096 ∣ bufsize) (hlines : groupsize * cacheline = 4096) :
    Set.BijOn (setLine groups groupsize cacheline)
      { p | p.1 < ngroups * groupsize ∧ p.2 < (setPages groups groupsize p.1).length }
      (bufferLines bufsize buffer cacheline) := by
  obtain ⟨total, rfl⟩ := hsize
  have hgroupsize : 0 < groupsize := Nat.pos_of_ne_zero fun h0 => by simp [h0] at hlines
  have hcacheline : 0 < cacheline := Nat.pos_of_ne_zero fun h0 => by simp [h0] at hlines
  have hcount : 4096 * total / cacheline = total * groupsize := by
    rw [← hlines, show groupsize * cacheline * total = total * groupsize * cacheline by ring,
      Nat.mul_div_cancel _ hcacheline]
  have hdomain : { p : ℕ × ℕ | p.1 < ngroups * groupsize ∧ p.2 < (setPages groups groupsize p.1).length } =
      { p | p.1 < ngroups * groupsize ∧ p.2 * ngroups + p.1 / groupsize < total } := by
    ext p
    apply and_congr_right
    intro hset
    rw [h.lt_setPages_iff hset]
    omega
  have hinj : Function.Injective fun m => buffer + m * cacheline := fun m m' heq =>
    Nat.eq_of_mul_eq_mul_right hcacheline (Nat.add_left_cancel heq)
  have hnumbers : Set.BijOn (lineNumber ngroups groupsize)
      { p | p.1 < ngroups * groupsize ∧ p.2 * ngroups + p.1 / groupsize < total }
      (Set.Iio (total * groupsize)) := lineNumber_bijOn hngroups hgroupsize
  have hlineOf := hinj.injOn.bijOn_image.comp hnumbers
  rw [bufferLines, hcount]
  rw [← hdomain] at hlineOf
  apply hlineOf.congr
  intro p hp
  exact (h.setLine_eq hlines hp.1 hp.2).symm

end DealtGroups

/-! ### The loop variable -/

/-- The loop that fills a group ends at the first page of the group behind the buffer, in the range of `int`. -/
theorem ptemapGroup_ends (bufsize ngroups buffer i : ℕ) :
    Ensures (ptemapGroup bufsize ngroups buffer i) fun group =>
      bufsize ≤ (i + group.toList.length * ngroups) * 4096 ∧
        (i + group.toList.length * ngroups) * 4096 < 2 ^ 31 := by
  apply ensures_require_bind
  intro hstart
  apply loop_ensures (fun s : ℕ × VList ℕ => s.1 = (i + s.2.toList.length * ngroups) * 4096 ∧ s.1 < 2 ^ 31) _ _
    ⟨by simp, hstart⟩
  intro s hs
  obtain ⟨p, group⟩ := s
  obtain ⟨hp, hint⟩ := hs
  dsimp only at hp hint ⊢
  by_cases hmore : p < bufsize
  · rw [if_pos hmore]
    apply (vlPush_returns group (buffer + p)).ensures.bind
    intro group' hpush
    apply ensures_require_bind
    intro hnext
    refine ensures_pure ⟨?_, hnext⟩
    rw [hpush, List.length_append, List.length_singleton, hp]
    ring
  · rw [if_neg hmore]
    apply ensures_pure
    rw [Sum.elim_inr, ← hp]
    exact ⟨Nat.not_lt.mp hmore, hint⟩

/-- When `ptemap` returns, the loop of every group has ended. -/
theorem ptemap_groups (bufsize ngroups buffer : ℕ) :
    Ensures (ptemap bufsize ngroups buffer) fun _ =>
      ∀ i, i < ngroups → ∃ group, ptemapGroup bufsize ngroups buffer i = .ok group := by
  apply forUpto_ensures (fun n (_ : List (VList ℕ)) =>
    ∀ i, i < n → ∃ group, ptemapGroup bufsize ngroups buffer i = .ok group)
    fun i hi => absurd hi (Nat.not_lt_zero i)
  intro n _ groups hbefore
  constructor
  intro groups' hrun i hi
  rcases Nat.lt_succ_iff_lt_or_eq.mp hi with hlt | rfl
  · exact hbefore i hlt
  · obtain ⟨group, hgroup, -⟩ := bind_eq_ok.mp hrun
    exact ⟨group, hgroup⟩

/-- A page behind all `total` pages that is in the group of the last of them is a stride behind it. -/
theorem stride_behind {ngroups total count : ℕ} (htotal : 0 < total)
    (hbehind : total ≤ (total - 1) % ngroups + count * ngroups) :
    total - 1 + ngroups ≤ (total - 1) % ngroups + count * ngroups := by
  have hsplit := Nat.mod_add_div' (total - 1) ngroups
  have hmore : (total - 1) / ngroups < count := by
    by_contra hless
    have hmul := Nat.mul_le_mul_right ngroups (Nat.not_lt.mp hless)
    omega
  have hmul := Nat.mul_le_mul_right ngroups (Nat.succ_le_of_lt hmore)
  rw [Nat.succ_mul] at hmul
  omega

/-- **When `ptemap` deals out the buffer.** The group of the last page is the one whose loop goes furthest. -/
theorem ptemap_returns_iff {bufsize ngroups : ℕ} (hngroups : 1 ≤ ngroups) (hfit : 4096 * ngroups ≤ bufsize)
    (hsize : 4096 ∣ bufsize) (buffer : ℕ) :
    (∃ groups, ptemap bufsize ngroups buffer = .ok groups) ↔ bufsize + 4096 * ngroups ≤ 2 ^ 31 := by
  constructor
  · intro hreturns
    obtain ⟨groups, hgroups⟩ := hreturns
    obtain ⟨total, rfl⟩ := hsize
    have hlast := Nat.mod_lt (total - 1) hngroups
    obtain ⟨group, hgroup⟩ := (ptemap_groups _ _ _).of_ok groups hgroups _ hlast
    obtain ⟨hbehind, hint⟩ := (ptemapGroup_ends _ _ _ _).of_ok group hgroup
    have hpages : total ≤ (total - 1) % ngroups + group.toList.length * ngroups := by omega
    have hpage := stride_behind (by omega) hpages
    omega
  · intro hint
    obtain ⟨groups, hgroups, -⟩ := ptemap_returns hint buffer
    exact ⟨groups, hgroups⟩

/-! ### The lines that are linked -/

section Linked

variable {g : Geometry} {set : ℕ}

/-- The lines of a set in the first pages form a ring, and no byte outside their links has changed. -/
structure LinksLines (g : Geometry) (set : ℕ) (mem : Mem) (r : ℕ × Mem) : Prop where
  head : r.1 = g.line set 0
  ring : Ring g.sizeofPtr r.2 (g.linesOf set)
  frame : ∀ a, (∀ line ∈ g.linesOf set, a < line ∨ line + 2 * g.sizeofPtr ≤ a) → r.2 a = mem a

theorem sethead_links (hset : set < g.nsets) (mem : Mem) :
    Returns (sethead g mem set) (LinksLines g set mem) := by
  apply (sethead_returns mem hset).mono
  intro r hr
  obtain ⟨hhead, hforward, -, hframe⟩ := hr
  refine ⟨hhead.trans (g.line_zero set).symm, hforward.ring, ?_⟩
  intro a ha
  apply hframe a
  intro j hj
  apply ha
  rw [Geometry.linesOf_eq]
  exact List.mem_map_of_mem (List.mem_range.mpr hj)

/-- No set links a line behind the first pages of a group. -/
theorem sethead_leaves_line {set' j : ℕ} (hset : set < g.nsets) (hset' : set' < g.nsets)
    (hassoc : g.associativity ≤ j) (hj : j < (g.pagesOf set').length) (mem : Mem) :
    Returns (sethead g mem set) fun r => ∀ a, g.line set' j ≤ a → a < g.line set' j + g.cacheline →
      r.2 a = mem a := by
  have hroom := g.line_room
  apply (sethead_links hset mem).mono
  intro r hr a hlow hhigh
  apply hr.frame
  intro line hline
  rw [Geometry.linesOf_eq, List.mem_map] at hline
  obtain ⟨i, hi, rfl⟩ := hline
  rw [List.mem_range, Geometry.ways_eq_min] at hi
  have hsep := Geometry.line_separated hset hset' (show i < _ by omega) hj (.inr (by omega))
  omega

end Linked

/-- **The lines of the probe buffer.** Where no `int` overflows, `ptemap` deals every page to one group, and to
each group as many as to the others or one less. The set numbers and the pages of their groups give every line
of the buffer once, and `sethead` links the lines in the first `associativity` pages of the group. -/
theorem ptemap_partitions {bufsize ngroups : ℕ} (hngroups : 1 ≤ ngroups)
    (hint : bufsize + 4096 * ngroups ≤ 2 ^ 31) (hsize : 4096 ∣ bufsize) (buffer : ℕ) {groupsize cacheline : ℕ}
    (hlines : groupsize * cacheline = 4096) :
    Returns (ptemap bufsize ngroups buffer) fun groups =>
      groups.length = ngroups ∧ (groups.flatMap VList.toList).Perm (bufferPages bufsize buffer) ∧
      (∀ group ∈ groups, ∀ group' ∈ groups, group.toList.length ≤ group'.toList.length + 1) ∧
      Set.BijOn (setLine groups groupsize cacheline)
        { p | p.1 < ngroups * groupsize ∧ p.2 < (setPages groups groupsize p.1).length }
        (bufferLines bufsize buffer cacheline) ∧
      ∀ g : Geometry, g.groups = groups → g.groupsize = groupsize → g.cacheline = cacheline →
        g.nsets = ngroups * groupsize ∧ ∀ set < g.nsets,
          g.linesOf set = (List.range (min g.associativity (setPages groups groupsize set).length)).map
            (fun j => setLine groups groupsize cacheline (set, j)) ∧
          ∀ mem, Returns (sethead g mem set) (LinksLines g set mem) := by
  apply (ptemap_returns hint buffer).mono
  intro groups h
  refine ⟨h.length_eq, h.pages_perm hngroups hsize, ?_, h.setLine_bijOn hngroups hsize hlines, ?_⟩
  · intro group hgroup group' hgroup'
    obtain ⟨i, hi, rfl⟩ := List.getElem_of_mem hgroup
    obtain ⟨i', hi', rfl⟩ := List.getElem_of_mem hgroup'
    exact h.length_le hi hi'
  · intro g hgroups hgroupsize hcacheline
    subst hgroups hgroupsize hcacheline
    refine ⟨by rw [Geometry.nsets, ← g.groups_length, h.length_eq], ?_⟩
    intro set hset
    refine ⟨?_, sethead_links hset⟩
    rw [Geometry.linesOf_eq, Geometry.ways_eq_min]
    rfl

/-- The groups of SABRE with colouring, whose lines are half linked. -/
theorem ptemap_partitions_sabre :
    Returns (ptemap (1024 * 1024) 8 4096) fun groups =>
      (groups.flatMap VList.toList).Perm (bufferPages (1024 * 1024) 4096) ∧
        Set.BijOn (setLine groups 128 32)
          { p | p.1 < 8 * 128 ∧ p.2 < (setPages groups 128 p.1).length } (bufferLines (1024 * 1024) 4096 32) :=
  (ptemap_partitions (by decide) (by decide) (by decide) 4096 (show 128 * 32 = 4096 by decide)).mono
    fun _ h => ⟨h.2.1, h.2.2.2.1⟩

/-- There every group has 32 pages, and no set links the line in page 16 of the first one. In a buffer of
one page less than 2^31 bytes the loop for the group of the last page overflows. -/
theorem sethead_leaves_a_line :
    528384 ∈ bufferLines (1024 * 1024) 4096 32 ∧
      Returns (l3Prepare (sabre true) ⟨4096, by decide, by decide⟩ (fun _ => (fun _ => 0, fun _ => 0))
          (fun _ => 0)) (fun s =>
        ∀ set < s.geo.nsets, ∀ mem, Returns (sethead s.geo mem set) fun r =>
          ∀ a, 528384 ≤ a → a < 528384 + 32 → r.2 a = mem a) ∧
      ¬∃ groups, ptemap 0x7ffff000 2 4096 = .ok groups := by
  refine ⟨⟨16384, by decide, rfl⟩, ?_, ?_⟩
  · have hprepared := (l3Prepare_returns (sabre true) ⟨4096, by decide, by decide⟩
      (fun _ => (fun _ => 0, fun _ => 0)) (fun _ => 0)).and
        (l3Prepare_groups (sabre true) ⟨4096, by decide, by decide⟩ (fun _ => (fun _ => 0, fun _ => 0)) (fun _ => 0))
    apply hprepared.mono
    intro s hs set hset mem
    obtain ⟨⟨_, _, -, hngroups, hgroupsize⟩, hassoc, hdealt⟩ := hs
    have hsize : s.geo.groupsize = 128 := hgroupsize
    have hline : s.geo.cacheline = 32 := by
      have hlines := s.geo.page_lines
      rw [hsize] at hlines
      omega
    have hsets : 0 < 8 * s.geo.groupsize := by omega
    have hset' : 0 < s.geo.nsets := lt_of_le_of_lt (Nat.zero_le set) hset
    have hlength : 16 < (s.geo.pagesOf 0).length := by
      apply (hdealt.lt_setPages_iff hsets 16).mpr
      rw [hsize]
      decide
    have haddress : s.geo.line 0 16 = 528384 := calc
      s.geo.line 0 16 = 4096 + lineNumber 8 s.geo.groupsize (0, 16) * s.geo.cacheline :=
        hdealt.setLine_eq s.geo.page_lines (p := (0, 16)) hsets hlength
      _ = 4096 + lineNumber 8 128 (0, 16) * 32 := by rw [hsize, hline]
      _ = 528384 := by decide
    have hleaves := sethead_leaves_line hset hset' (show s.geo.associativity ≤ 16 by rw [hassoc]; rfl) hlength mem
    rwa [haddress, hline] at hleaves
  · rw [ptemap_returns_iff (by decide) (by decide) (by decide)]
    decide

end ChannelBench
