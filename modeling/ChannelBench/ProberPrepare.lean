import ChannelBench.ProberState
import Mathlib.Tactic.Ring
import Mathlib.Data.List.Nodup
import Mathlib.Data.Nat.ModEq

/-! Preparation of the L3 prober. `ptemap` deals the pages of the probe buffer out to the groups in
turn, so the groups are pairwise disjoint and not empty, and `l3_prepare` can hand out a `Geometry`. -/

namespace ChannelBench

open CSem

/-- The `j`-th page of a group. -/
def dealtPage (ngroups buffer i j : ℕ) : ℕ := buffer + (i + j * ngroups) * 4096

/-- A group holds the pages of the buffer whose number is its index modulo the number of groups. -/
def DealtGroup (bufsize ngroups buffer i : ℕ) (group : VList ℕ) : Prop :=
  ∃ count, group.toList = (List.range count).map (dealtPage ngroups buffer i) ∧
    (∀ j, j < count → (i + j * ngroups) * 4096 < bufsize) ∧
      bufsize ≤ (i + count * ngroups) * 4096

theorem ptemapGroup_returns {bufsize ngroups : ℕ} (hint : bufsize + 4096 * ngroups ≤ 2 ^ 31) (buffer : ℕ)
    {i : ℕ} (hi : i < ngroups) :
    Returns (ptemapGroup bufsize ngroups buffer i) (DealtGroup bufsize ngroups buffer i) := by
  rw [ptemapGroup, require_pos (by omega), pure_bind]
  refine loop_returns (fun s : ℕ × VList ℕ => ∃ count,
      s.2.toList = (List.range count).map (dealtPage ngroups buffer i) ∧
        (∀ j, j < count → (i + j * ngroups) * 4096 < bufsize) ∧
          s.1 = (i + count * ngroups) * 4096)
    _ (fun s => bufsize - s.1) ?_ ⟨0, by simp, by simp, by simp⟩ (by omega)
  rintro ⟨p, group⟩ ⟨count, hgroup, hin, hp⟩
  dsimp only at hgroup hp
  by_cases hmore : p < bufsize
  · simp only [if_pos hmore]
    apply (vlPush_returns group _).bind
    intro group' hpush
    rw [require_pos (by omega), pure_bind, returns_pure]
    refine ⟨⟨count + 1, ?_, ?_, ?_⟩, ?_⟩
    · rw [hpush, hgroup, List.range_succ, List.map_append, hp]
      rfl
    · intro j hj
      rcases Nat.lt_succ_iff_lt_or_eq.mp hj with h | h
      · exact hin j h
      · rw [h, ← hp]
        exact hmore
    · dsimp only
      rw [hp]
      ring
    · dsimp only
      omega
  · simp only [if_neg hmore]
    exact returns_pure.mpr ⟨count, hgroup, hin, by omega⟩

/-- The groups `ptemap` builds. -/
structure DealtGroups (bufsize ngroups buffer : ℕ) (groups : List (VList ℕ)) : Prop where
  length_eq : groups.length = ngroups
  dealt : ∀ i (hi : i < groups.length), DealtGroup bufsize ngroups buffer i groups[i]

theorem ptemap_returns {bufsize ngroups : ℕ} (hint : bufsize + 4096 * ngroups ≤ 2 ^ 31) (buffer : ℕ) :
    Returns (ptemap bufsize ngroups buffer) (DealtGroups bufsize ngroups buffer) := by
  refine (forUpto_returns (fun n (groups : List (VList ℕ)) => groups.length = n ∧
      ∀ i (hi : i < groups.length), DealtGroup bufsize ngroups buffer i groups[i])
    ⟨rfl, fun i hi => by simp at hi⟩ ?_).mono fun groups h => ⟨h.1, h.2⟩
  intro n hn groups hgroups
  obtain ⟨hlength, hdealt⟩ := hgroups
  refine (ptemapGroup_returns hint buffer hn).bind fun group hgroup => returns_pure.mpr ?_
  refine ⟨by rw [List.length_append, hlength]; rfl, fun i hi => ?_⟩
  by_cases hlast : i < groups.length
  · rw [List.getElem_append_left hlast]
    exact hdealt i hlast
  · have hi' : i = n := by
      rw [List.length_append, List.length_singleton] at hi
      omega
    subst hi'
    rw [List.getElem_append_right (by omega)]
    simpa using hgroup

namespace DealtGroup

variable {bufsize ngroups buffer i : ℕ} {group : VList ℕ}

theorem exists_of_mem (h : DealtGroup bufsize ngroups buffer i group) {page : ℕ}
    (hpage : page ∈ group.toList) :
    ∃ j, page = dealtPage ngroups buffer i j ∧ (i + j * ngroups) * 4096 < bufsize := by
  obtain ⟨count, hgroup, hin, -⟩ := h
  rw [hgroup, List.mem_map] at hpage
  obtain ⟨j, hj, hpage⟩ := hpage
  exact ⟨j, hpage.symm, hin j (List.mem_range.mp hj)⟩

theorem nodup (h : DealtGroup bufsize ngroups buffer i group) (hngroups : 0 < ngroups) :
    group.toList.Nodup := by
  obtain ⟨count, hgroup, -, -⟩ := h
  rw [hgroup]
  refine List.Nodup.map (fun j j' hjj' => ?_) List.nodup_range
  unfold dealtPage at hjj'
  exact Nat.eq_of_mul_eq_mul_right hngroups (by omega)

/-- A group that `ptemap` filled has a `j`-th page when the buffer reaches it. -/
theorem lt_length_iff (h : DealtGroup bufsize ngroups buffer i group) {j : ℕ} :
    j < group.toList.length ↔ (i + j * ngroups) * 4096 < bufsize := by
  obtain ⟨count, hgroup, hin, hend⟩ := h
  rw [hgroup, List.length_map, List.length_range]
  constructor
  · exact hin j
  · intro hlt
    by_contra hmore
    have hmul : count * ngroups ≤ j * ngroups := Nat.mul_le_mul_right _ (Nat.not_lt.mp hmore)
    omega

end DealtGroup

/-- Pages of different groups are different. -/
theorem dealtPage_ne {ngroups buffer i i' : ℕ} (hi : i < ngroups) (hi' : i' < ngroups)
    (hne : i ≠ i') (j j' : ℕ) : dealtPage ngroups buffer i j ≠ dealtPage ngroups buffer i' j' := by
  intro heq
  unfold dealtPage at heq
  have hnum : i + j * ngroups = i' + j' * ngroups := by omega
  have hmod := congrArg (· % ngroups) hnum
  simp only [Nat.add_mul_mod_self_right, Nat.mod_eq_of_lt hi, Nat.mod_eq_of_lt hi'] at hmod
  exact hne hmod

/-- No page is dealt out twice. -/
theorem DealtGroups.nodup_pages {bufsize ngroups buffer : ℕ} {groups : List (VList ℕ)}
    (h : DealtGroups bufsize ngroups buffer groups) (hngroups : 0 < ngroups) :
    (groups.flatMap VList.toList).Nodup := by
  rw [List.nodup_flatMap]
  constructor
  · intro group hgroup
    obtain ⟨i, hi, rfl⟩ := List.getElem_of_mem hgroup
    exact (h.dealt i hi).nodup hngroups
  · rw [List.pairwise_iff_getElem]
    intro i i' hi hi' hlt page hmem hmem'
    obtain ⟨j, hj, -⟩ := (h.dealt i hi).exists_of_mem hmem
    obtain ⟨j', hj', -⟩ := (h.dealt i' hi').exists_of_mem hmem'
    rw [h.length_eq] at hi hi'
    exact dealtPage_ne hi hi' hlt.ne j j' (hj.symm.trans hj')

theorem DealtGroups.pageGroups {sizeofPtr bufsize ngroups buffer : ℕ} {groups : List (VList ℕ)}
    (h : DealtGroups bufsize ngroups buffer groups) (hngroups : 0 < ngroups)
    (hfit : 4096 * ngroups ≤ bufsize) (hsize : 4096 ∣ bufsize) (halign : 4096 ∣ buffer)
    (hpos : 0 < buffer) (hroom : buffer + bufsize ≤ 256 ^ sizeofPtr) :
    PageGroups sizeofPtr groups := by
  have hdealt : ∀ group ∈ groups, ∃ i, i < ngroups ∧ DealtGroup bufsize ngroups buffer i group := by
    intro group hgroup
    obtain ⟨i, hi, rfl⟩ := List.getElem_of_mem hgroup
    exact ⟨i, h.length_eq ▸ hi, h.dealt i hi⟩
  have hpage : ∀ group ∈ groups, ∀ page ∈ group.toList,
      4096 ∣ page ∧ 0 < page ∧ page + 4096 ≤ 256 ^ sizeofPtr := by
    intro group hgroup page hmem
    obtain ⟨i, -, hgroup'⟩ := hdealt group hgroup
    obtain ⟨j, rfl, hlt⟩ := hgroup'.exists_of_mem hmem
    unfold dealtPage
    refine ⟨Nat.dvd_add halign (Dvd.intro_left _ rfl), by omega, ?_⟩
    obtain ⟨pages, hpages⟩ := hsize
    omega
  refine ⟨?_, ?_, fun group hgroup page hmem => (hpage group hgroup page hmem).1,
    fun group hgroup page hmem => (hpage group hgroup page hmem).2.1,
    fun group hgroup page hmem => (hpage group hgroup page hmem).2.2⟩
  · intro group hgroup hnil
    obtain ⟨i, hi, count, hlist, -, hend⟩ := hdealt group hgroup
    have hcount : count = 0 := by
      rw [hnil] at hlist
      simpa using hlist.symm
    rw [hcount] at hend
    omega
  · exact h.nodup_pages hngroups

theorem allocate_spec (p : ℕ) (hp : 0 < p) :
    4096 ∣ allocate p 4096 ∧ 0 < allocate p 4096 ∧ allocate p 4096 < p + 4096 := by
  unfold allocate
  refine ⟨Dvd.intro_left _ rfl, ?_, ?_⟩ <;> omega

/-- The probe buffer of a platform is dealt out to groups as the prober needs them. -/
theorem ptemap_pageGroups (P : Platform) (block : Malloc P.sizeofPtr (P.l3Size + 4096))
    {groups : List (VList ℕ)}
    (h : ptemap P.l3Size P.l3ProbeGroups (allocate block.address 4096) = .ok groups) :
    groups.length = P.l3ProbeGroups ∧ PageGroups P.sizeofPtr groups := by
  have hdealt := (ptemap_returns P.int_room _).of_eq_ok h
  obtain ⟨halign, hpos, hlt⟩ := allocate_spec block.address block.pos
  have hfits := block.fits
  exact ⟨hdealt.length_eq, hdealt.pageGroups P.groups_pos P.groups_fit P.size_pages halign hpos
    (by omega)⟩

theorem Platform.nsets_room (P : Platform) : 4 ≤ P.l3ProbeGroups * P.l3SetsPerPage :=
  Nat.le_trans P.bitmap_room (Nat.le_mul_of_pos_left _ P.groups_pos)

/-- The prober before any set is monitored: a cleared bitmap of `ngroups * groupsize / 4` words, and
two arrays with whatever `malloc` left in them. -/
def L3pp.fresh (geo : Geometry) (monitoredset monitoredhead : Fin geo.nsets → ℕ) (mem : Mem) :
    L3pp where
  geo := geo
  monitoredbitmap := List.replicate (geo.nsets / 4) 0#32
  monitoredset := List.ofFn monitoredset
  nmonitored := 0
  monitoredhead := List.ofFn monitoredhead
  mem := mem

/-- `l3_prepare`, when no allocation fails. `leftovers` gives the contents `malloc` leaves in the two
arrays, and `mem` those it leaves in the probe buffer. -/
def l3Prepare (P : Platform) (block : Malloc P.sizeofPtr (P.l3Size + 4096))
    (leftovers : (n : ℕ) → (Fin n → ℕ) × (Fin n → ℕ)) (mem : Mem) : Run L3pp :=
  match h : ptemap P.l3Size P.l3ProbeGroups (allocate block.address 4096) with
  | .error fault => .error fault
  | .ok groups =>
      let geo : Geometry := {
        sizeofPtr := P.sizeofPtr
        cacheline := P.l3Cacheline
        associativity := P.l3Associativity
        ngroups := P.l3ProbeGroups
        groupsize := P.l3SetsPerPage
        groups := groups
        assoc_pos := P.assoc_pos
        ptr_room := P.ptr_room
        line_room := P.line_room
        page_lines := P.page_lines
        bitmap_room := P.nsets_room
        groups_length := (ptemap_pageGroups P block h).1
        pages := (ptemap_pageGroups P block h).2 }
      .ok (L3pp.fresh geo (leftovers geo.nsets).1 (leftovers geo.nsets).2 mem)

/-- Preparation succeeds with a fresh prober. -/
theorem l3Prepare_returns (P : Platform) (block : Malloc P.sizeofPtr (P.l3Size + 4096))
    (leftovers : (n : ℕ) → (Fin n → ℕ) × (Fin n → ℕ)) (mem : Mem) :
    Returns (l3Prepare P block leftovers mem) fun s =>
      ∃ sets heads, s = L3pp.fresh s.geo sets heads mem ∧
        s.geo.ngroups = P.l3ProbeGroups ∧ s.geo.groupsize = P.l3SetsPerPage := by
  obtain ⟨groups, hgroups, -⟩ :=
    ptemap_returns P.int_room (allocate block.address 4096)
  unfold l3Prepare
  split
  · next fault h =>
      rw [hgroups] at h
      cases h
  · exact returns_ok.mpr ⟨_, _, rfl, rfl, rfl⟩

/-- The groups of a prepared prober are those that `ptemap` dealt out. -/
theorem l3Prepare_groups (P : Platform) (block : Malloc P.sizeofPtr (P.l3Size + 4096))
    (leftovers : (n : ℕ) → (Fin n → ℕ) × (Fin n → ℕ)) (mem : Mem) :
    Returns (l3Prepare P block leftovers mem) fun s => s.geo.associativity = P.l3Associativity ∧
      DealtGroups P.l3Size P.l3ProbeGroups (allocate block.address 4096) s.geo.groups := by
  obtain ⟨groups, hgroups, hdealt⟩ :=
    ptemap_returns P.int_room (allocate block.address 4096)
  unfold l3Prepare
  split
  · next fault h =>
      rw [hgroups] at h
      cases h
  · next groups' h =>
      rw [hgroups] at h
      cases h
      exact returns_ok.mpr ⟨rfl, hdealt⟩

end ChannelBench
