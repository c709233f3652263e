import ChannelBench.CMachine
import ChannelBench.ProberMonitor
import ChannelBench.ProberProbes

/-! The probe rings of the L3 prober over whole runs. A set that has been linked forward stays linked
forward, whatever is monitored, dropped, shuffled or probed afterwards, and the same holds for its
backward links; a monitored set is linked both ways. So every probe of a linked set goes round the
set's lines once. -/

namespace ChannelBench

open CSem

namespace Geometry

variable (g : Geometry)

/-- The lines of a set in the first `associativity` pages of its group. -/
def linesOf (set : ℕ) : List ℕ :=
  ((g.pagesOf set).take g.associativity).map (· + g.offset set)

/-- The places of the backward links of these lines, in the order in which the links visit them. -/
def linesBack (set : ℕ) : List ℕ :=
  (List.range (g.ways set)).map fun j => g.line set ((g.ways set - j) % g.ways set) + g.sizeofPtr

variable {g} {set j : ℕ}

@[simp] theorem length_linesOf (g : Geometry) (set : ℕ) : (g.linesOf set).length = g.ways set := by
  rw [linesOf, List.length_map, List.length_take, ways_eq_min]

@[simp] theorem length_linesBack (g : Geometry) (set : ℕ) :
    (g.linesBack set).length = g.ways set := by
  rw [linesBack, List.length_map, List.length_range]

theorem getElem_linesOf (hj : j < g.ways set) :
    (getElem (g.linesOf set) j (by simpa using hj)) = g.line set j := by
  rw [line_eq (Nat.lt_of_lt_of_le hj (g.ways_le set))]
  simp only [linesOf, List.getElem_map, List.getElem_take]

theorem getElem_linesBack (hj : j < g.ways set) :
    (getElem (g.linesBack set) j (by simpa using hj)) =
      g.line set ((g.ways set - j) % g.ways set) + g.sizeofPtr := by
  simp only [linesBack, List.getElem_map, List.getElem_range]

theorem linesOf_eq (g : Geometry) (set : ℕ) :
    g.linesOf set = (List.range (g.ways set)).map (g.line set) := by
  apply List.ext_getElem
  · simp
  intro j hj _
  rw [getElem_linesOf (by simpa using hj)]
  simp only [List.getElem_map, List.getElem_range]

/-- Lines of a set in different pages have different addresses. -/
theorem line_ne (hset : set < g.nsets) {i : ℕ} (hi : i < g.ways set) (hj : j < g.ways set)
    (hne : i ≠ j) : g.line set i ≠ g.line set j := by
  have hle := g.ways_le set
  have hroom := g.line_room
  have hptr := g.ptr_room
  have hsep := line_separated hset hset (show i < _ by omega) (show j < _ by omega) (.inr hne)
  omega

theorem nodup_linesOf (hset : set < g.nsets) : (g.linesOf set).Nodup := by
  rw [linesOf_eq]
  apply List.Nodup.map_on _ List.nodup_range
  intro i hi j hj heq
  rw [List.mem_range] at hi hj
  by_contra hne
  exact line_ne hset hi hj hne heq

/-- The order of the backward links is a turn of the index the other way. -/
theorem back_index {c i : ℕ} (hi : i < c) : (c - (c - i) % c) % c = i := by
  by_cases h0 : i = 0
  · subst h0
    rw [Nat.sub_zero, Nat.mod_self, Nat.sub_zero, Nat.mod_self]
  · rw [Nat.mod_eq_of_lt (show c - i < c by omega), Nat.sub_sub_self (Nat.le_of_lt hi),
      Nat.mod_eq_of_lt hi]

theorem back_step {c j : ℕ} (hj : j < c) :
    ((c - j) % c + c - 1) % c = (c - (j + 1) % c) % c := by
  by_cases h0 : j = 0
  · subst h0
    rw [Nat.sub_zero, Nat.mod_self, Nat.zero_add, Nat.zero_add]
    by_cases h1 : c = 1
    · subst h1
      rfl
    · rw [Nat.mod_eq_of_lt (show 1 < c by omega)]
  · rw [Nat.mod_eq_of_lt (show c - j < c by omega), show c - j + c - 1 = c - (j + 1) + c by omega,
      Nat.add_mod_right]
    by_cases hlast : j + 1 = c
    · rw [hlast, Nat.mod_self, Nat.sub_self, Nat.sub_zero, Nat.mod_self, Nat.zero_mod]
    · rw [Nat.mod_eq_of_lt (show j + 1 < c by omega)]

theorem nodup_linesBack (hset : set < g.nsets) : (g.linesBack set).Nodup := by
  have hpos := ways_pos hset
  apply List.Nodup.map_on _ List.nodup_range
  intro i hi j hj heq
  rw [List.mem_range] at hi hj
  have hindex : (g.ways set - i) % g.ways set = (g.ways set - j) % g.ways set := by
    by_contra hne
    exact line_ne hset (Nat.mod_lt _ hpos) (Nat.mod_lt _ hpos) hne (Nat.add_right_cancel heq)
  rw [← back_index hi, hindex, back_index hj]

/-- The backward links visit the lines of the set. -/
theorem linesBack_perm (hset : set < g.nsets) :
    (g.linesBack set).Perm ((g.linesOf set).map (· + g.sizeofPtr)) := by
  have hpos := ways_pos hset
  rw [List.perm_ext_iff_of_nodup (nodup_linesBack hset)
    ((nodup_linesOf hset).map (add_left_injective g.sizeofPtr))]
  intro p
  rw [linesBack, linesOf_eq, List.map_map, List.mem_map, List.mem_map]
  constructor
  · intro hp
    obtain ⟨j, hj, hp⟩ := hp
    exact ⟨_, List.mem_range.mpr (Nat.mod_lt (g.ways set - j) hpos), hp⟩
  · intro hp
    obtain ⟨i, hi, hp⟩ := hp
    rw [List.mem_range] at hi
    refine ⟨(g.ways set - i) % g.ways set, List.mem_range.mpr (Nat.mod_lt _ hpos), ?_⟩
    rw [back_index hi]
    exact hp

end Geometry

/-! ### Rings of linked sets -/

section Rings

variable {g : Geometry} {mem mem' : Mem} {set : ℕ}

theorem LinkedForward.ring (h : LinkedForward g mem set) : Ring g.sizeofPtr mem (g.linesOf set) := by
  intro j hj
  rw [Geometry.length_linesOf] at hj
  have hmod : (j + 1) % g.ways set < g.ways set := Nat.mod_lt _ (by omega)
  simp only [Geometry.length_linesOf]
  rw [Geometry.getElem_linesOf hj, Geometry.getElem_linesOf hmod]
  exact h j hj

theorem LinkedBackward.ring (h : LinkedBackward g mem set) :
    Ring g.sizeofPtr mem (g.linesBack set) := by
  intro j hj
  rw [Geometry.length_linesBack] at hj
  have hmod : (j + 1) % g.ways set < g.ways set := Nat.mod_lt _ (by omega)
  simp only [Geometry.length_linesBack]
  rw [Geometry.getElem_linesBack hj, Geometry.getElem_linesBack hmod, ← Geometry.back_step hj]
  exact h _ (Nat.mod_lt _ (by omega))

/-- The counters of a line are away from the links of all lines. -/
theorem counter_apart {set' i j place place' : ℕ} (hset : set < g.nsets) (hset' : set' < g.nsets)
    (hi : i < (g.pagesOf set).length) (hj : j < (g.pagesOf set').length)
    (hplace : place ≤ g.sizeofPtr) (hplace' : place' ≤ g.sizeofPtr) :
    g.line set' j + place' + g.sizeofPtr ≤ g.line set i + place + 2 * g.sizeofPtr ∨
      g.line set i + place + 2 * g.sizeofPtr + 4 ≤ g.line set' j + place' := by
  have hroom := g.line_room
  have hptr := g.ptr_room
  by_cases hline : set ≠ set' ∨ i ≠ j
  · have hsep := Geometry.line_separated hset hset' hi hj hline
    omega
  · obtain ⟨rfl, rfl⟩ : set = set' ∧ i = j := by
      simpa only [not_or, ne_eq, not_not] using hline
    omega

/-- Links at one place in the lines of a set can be probed. -/
theorem probeable_of_ring {nodes : List ℕ} {place : ℕ} (hset : set < g.nsets)
    (hplace : place ≤ g.sizeofPtr) (hring : Ring g.sizeofPtr mem nodes) (hpos : 0 < nodes.length)
    (hnodup : nodes.Nodup)
    (hnodes : ∀ node ∈ nodes, ∃ i, i < g.ways set ∧ node = g.line set i + place) :
    Probeable g.sizeofPtr mem nodes where
  ring := hring
  nonempty := hpos
  nodup := hnodup
  nonnull := by
    intro node hnode
    obtain ⟨i, hi, rfl⟩ := hnodes node hnode
    have hfits := Geometry.line_fits hset (Nat.lt_of_lt_of_le hi (g.ways_le set))
    omega
  bounded := by
    intro node hnode
    obtain ⟨i, hi, rfl⟩ := hnodes node hnode
    have hfits := Geometry.line_fits hset (Nat.lt_of_lt_of_le hi (g.ways_le set))
    have hroom := g.line_room
    have hptr := g.ptr_room
    omega
  apart := by
    intro node hnode other hother
    obtain ⟨i, hi, rfl⟩ := hnodes node hnode
    obtain ⟨j, hj, rfl⟩ := hnodes other hother
    have hle := g.ways_le set
    exact counter_apart hset hset (by omega) (by omega) hplace hplace

theorem mem_linesOf {p : ℕ} (hp : p ∈ g.linesOf set) : ∃ i, i < g.ways set ∧ p = g.line set i + 0 := by
  rw [Geometry.linesOf_eq, List.mem_map] at hp
  obtain ⟨i, hi, hp⟩ := hp
  exact ⟨i, List.mem_range.mp hi, hp.symm⟩

theorem mem_linesBack {p : ℕ} (hset : set < g.nsets) (hp : p ∈ g.linesBack set) :
    ∃ i, i < g.ways set ∧ p = g.line set i + g.sizeofPtr := by
  rw [Geometry.linesBack, List.mem_map] at hp
  obtain ⟨j, -, hp⟩ := hp
  exact ⟨_, Nat.mod_lt _ (Geometry.ways_pos hset), hp.symm⟩

theorem LinkedForward.probeable (h : LinkedForward g mem set) (hset : set < g.nsets) :
    Probeable g.sizeofPtr mem (g.linesOf set) :=
  probeable_of_ring hset (Nat.zero_le _) h.ring (by simpa using Geometry.ways_pos hset)
    (Geometry.nodup_linesOf hset) fun _ => mem_linesOf

theorem LinkedBackward.probeable (h : LinkedBackward g mem set) (hset : set < g.nsets) :
    Probeable g.sizeofPtr mem (g.linesBack set) :=
  probeable_of_ring hset (le_refl _) h.ring (by simpa using Geometry.ways_pos hset)
    (Geometry.nodup_linesBack hset) fun _ => mem_linesBack hset

/-- The first line of either ring is that of the head of the set. -/
theorem linesOf_head (hset : set < g.nsets) :
    (getElem (g.linesOf set) 0 (by simpa using Geometry.ways_pos hset)) = g.headOf set := by
  rw [Geometry.getElem_linesOf (Geometry.ways_pos hset), g.line_zero]

theorem linesBack_head (hset : set < g.nsets) :
    (getElem (g.linesBack set) 0 (by simpa using Geometry.ways_pos hset)) = g.headOf set + g.sizeofPtr := by
  rw [Geometry.getElem_linesBack (Geometry.ways_pos hset), Nat.sub_zero, Nat.mod_self, g.line_zero]

/-- No link of any line differs. -/
def SameLinks (g : Geometry) (mem mem' : Mem) : Prop :=
  ∀ set j, set < g.nsets → j < (g.pagesOf set).length → ∀ place, place ≤ g.sizeofPtr →
    load mem' g.sizeofPtr (g.line set j + place) = load mem g.sizeofPtr (g.line set j + place)

/-- Counting in the lines of a set overwrites no link of any set. -/
theorem sameLinks_foldl_bump {nodes : List ℕ} {place : ℕ} (hset : set < g.nsets)
    (hplace : place ≤ g.sizeofPtr)
    (hnodes : ∀ node ∈ nodes, ∃ i, i < g.ways set ∧ node = g.line set i + place) (mem : Mem) :
    SameLinks g mem (nodes.foldl (bump g.sizeofPtr) mem) := by
  intro set' j hset' hj place' hplace'
  apply load_foldl_bump
  intro node hnode
  obtain ⟨i, hi, rfl⟩ := hnodes node hnode
  exact counter_apart hset hset' (Nat.lt_of_lt_of_le hi (g.ways_le set)) hj hplace hplace'

theorem LinkedAt.congr {place count : ℕ} {next : ℕ → ℕ} (h : LinkedAt g mem set place next count)
    (heq : ∀ j, j < count →
      load mem' g.sizeofPtr (g.line set j + place) = load mem g.sizeofPtr (g.line set j + place)) :
    LinkedAt g mem' set place next count := by
  intro j hj
  rw [heq j hj, h j hj]

/-- Links survive a change that keeps all links. -/
theorem SameLinks.linkedAt {place : ℕ} {next : ℕ → ℕ} (h : SameLinks g mem mem')
    (hset : set < g.nsets) (hplace : place ≤ g.sizeofPtr)
    (hlinked : LinkedAt g mem set place next (g.ways set)) :
    LinkedAt g mem' set place next (g.ways set) :=
  hlinked.congr fun j hj => h set j hset (Nat.lt_of_lt_of_le hj (g.ways_le set)) place hplace

/-- Links of other sets, and links behind the written part, survive linking a set. -/
theorem WritesLinks.linkedAt {target span place : ℕ} {next : ℕ → ℕ}
    (h : WritesLinks g target span mem mem') (hspan : span ≤ 2 * g.sizeofPtr)
    (htarget : target < g.nsets) (hset : set < g.nsets) (hplace : place ≤ g.sizeofPtr)
    (hne : target ≠ set ∨ span ≤ place) (hlinked : LinkedAt g mem set place next (g.ways set)) :
    LinkedAt g mem' set place next (g.ways set) := by
  have hroom := g.line_room
  apply hlinked.congr
  intro j hj
  exact h.load_eq (by omega) htarget hset (Nat.lt_of_lt_of_le hj (g.ways_le set)) (by omega) hne

end Rings

end ChannelBench
