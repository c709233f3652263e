import ChannelBench.VList
import ChannelBench.CArray
import ChannelBench.CMemory

/-! The state of the L3 prober of `l3_arm.c`. What `l3_prepare` fixes for good, the groups of pages and
the sizes, is a `Geometry`, which carries what is true of it; what the other functions change, the
three records of the monitored sets and the memory of the probe buffer, is the rest of `L3pp`. -/

namespace ChannelBench

open CSem

/-- The macros of `low.h` for a platform that defines `L3_PROBE_GROUPS`, and `sizeof(void *)`. -/
structure Platform where
  sizeofPtr : ℕ
  l3Associativity : ℕ
  l3Size : ℕ
  l3Cacheline : ℕ
  l3SetsPerPage : ℕ
  l3ProbeGroups : ℕ
  assoc_pos : 0 < l3Associativity
  ptr_room : 4 ≤ sizeofPtr
  line_room : 4 * sizeofPtr ≤ l3Cacheline
  page_lines : l3SetsPerPage * l3Cacheline = 4096
  bitmap_room : 4 ≤ l3SetsPerPage
  size_pages : 4096 ∣ l3Size
  groups_pos : 0 < l3ProbeGroups
  groups_fit : 4096 * l3ProbeGroups ≤ l3Size
  -- the loop of `ptemap` goes one stride beyond the buffer
  int_room : l3Size + 4096 * l3ProbeGroups ≤ 2 ^ 31

/-- `CONFIG_PLAT_HIKEY`, with the group count of a kernel with or without colouring. -/
def hikey (mitigation : Bool) : Platform where
  sizeofPtr := 8
  l3Associativity := 16
  l3Size := 512 * 1024
  l3Cacheline := 64
  l3SetsPerPage := 64
  l3ProbeGroups := if mitigation then 8 else 16
  assoc_pos := by decide
  ptr_room := by decide
  line_room := by decide
  page_lines := rfl
  bitmap_room := by decide
  size_pages := by decide
  groups_pos := by cases mitigation <;> decide
  groups_fit := by cases mitigation <;> decide
  int_room := by cases mitigation <;> decide

/-- `CONFIG_PLAT_SABRE`. -/
def sabre (mitigation : Bool) : Platform where
  sizeofPtr := 4
  l3Associativity := 16
  l3Size := 1 * 1024 * 1024
  l3Cacheline := 32
  l3SetsPerPage := 128
  l3ProbeGroups := if mitigation then 8 else 16
  assoc_pos := by decide
  ptr_room := by decide
  line_room := by decide
  page_lines := rfl
  bitmap_room := by decide
  size_pages := by decide
  groups_pos := by cases mitigation <;> decide
  groups_fit := by cases mitigation <;> decide
  int_room := by cases mitigation <;> decide

/-- `CONFIG_PLAT_TX1`, for which `low.h` leaves the group count open. -/
def tx1 (groups : ℕ) (hpos : 0 < groups) (hfit : groups ≤ 512) : Platform where
  sizeofPtr := 8
  l3Associativity := 16
  l3Size := 2 * 1024 * 1024
  l3Cacheline := 64
  l3SetsPerPage := 64
  l3ProbeGroups := groups
  assoc_pos := by decide
  ptr_room := by decide
  line_room := by decide
  page_lines := rfl
  bitmap_room := by decide
  size_pages := by decide
  groups_pos := hpos
  groups_fit := by omega
  int_room := by omega

/-- Groups of pairwise different, page-aligned pages inside the address space. -/
structure PageGroups (sizeofPtr : ℕ) (groups : List (VList ℕ)) : Prop where
  nonempty : ∀ group ∈ groups, group.toList ≠ []
  nodup : (groups.flatMap VList.toList).Nodup
  aligned : ∀ group ∈ groups, ∀ page ∈ group.toList, 4096 ∣ page
  pos : ∀ group ∈ groups, ∀ page ∈ group.toList, 0 < page
  fits : ∀ group ∈ groups, ∀ page ∈ group.toList, page + 4096 ≤ 256 ^ sizeofPtr

/-- The part of `struct l3pp` that does not change after `l3_prepare`. -/
structure Geometry where
  sizeofPtr : ℕ
  cacheline : ℕ
  associativity : ℕ
  ngroups : ℕ
  groupsize : ℕ
  groups : List (VList ℕ)
  assoc_pos : 0 < associativity
  ptr_room : 4 ≤ sizeofPtr
  line_room : 4 * sizeofPtr ≤ cacheline
  page_lines : groupsize * cacheline = 4096
  bitmap_room : 4 ≤ ngroups * groupsize
  groups_length : groups.length = ngroups
  pages : PageGroups sizeofPtr groups

namespace Geometry

/-- `l3->ngroups * l3->groupsize`, the number of sets. -/
def nsets (g : Geometry) : ℕ := g.ngroups * g.groupsize

theorem groupsize_pos (g : Geometry) : 0 < g.groupsize := by
  have h := g.page_lines
  rcases Nat.eq_zero_or_pos g.groupsize with h0 | h0
  · rw [h0, Nat.zero_mul] at h
    omega
  · exact h0

theorem group_lt (g : Geometry) {set : ℕ} (hset : set < g.nsets) :
    set / g.groupsize < g.groups.length := by
  rw [g.groups_length]
  exact Nat.div_lt_of_lt_mul (by rwa [Nat.mul_comm])

/-- The pages of the group of a set. -/
def pagesOf (g : Geometry) (set : ℕ) : List ℕ :=
  (g.groups[set / g.groupsize]?).elim [] VList.toList

theorem pagesOf_eq (g : Geometry) {set : ℕ} (hset : set < g.nsets) :
    g.pagesOf set = (getElem g.groups (set / g.groupsize) (g.group_lt hset)).toList := by
  rw [pagesOf, List.getElem?_eq_getElem (g.group_lt hset)]
  rfl

/-- The place of a set's line in a page. -/
def offset (g : Geometry) (set : ℕ) : ℕ := set % g.groupsize * g.cacheline

/-- The address of the line of a set in the first page of its group. -/
def headOf (g : Geometry) (set : ℕ) : ℕ := (g.pagesOf set).headD 0 + g.offset set

end Geometry

/-- `struct l3pp` and the memory of the probe buffer. -/
structure L3pp where
  geo : Geometry
  monitoredbitmap : List (BitVec 32)
  monitoredset : List ℕ
  nmonitored : ℕ
  monitoredhead : List ℕ
  mem : Mem

/-! ### Preparation -/

/-- `allocate`: the first aligned address in a block of `size + align` bytes. -/
def allocate (p align : ℕ) : ℕ := (p + align - 1) / align * align

/-- The loop of `ptemap` that fills a group: `for (int p = i * 4096; p < bufsize; p += 4096*ngroups)`. -/
def ptemapGroup (bufsize ngroups buffer i : ℕ) : Run (VList ℕ) := do
  require (i * 4096 < 2 ^ 31) .overflow
  loop (fun s : ℕ × VList ℕ => do
      if s.1 < bufsize then
        let group ← vlPush s.2 (buffer + s.1)
        let p := s.1 + 4096 * ngroups
        require (p < 2 ^ 31) .overflow
        return .inl (p, group)
      else
        return .inr s.2)
    (bufsize + 1) (i * 4096, vlNew)

/-- `ptemap`. -/
def ptemap (bufsize ngroups buffer : ℕ) : Run (List (VList ℕ)) :=
  forUpto (fun i groups => do
      let group ← ptemapGroup bufsize ngroups buffer i
      return groups ++ [group])
    ngroups []

/-! ### Linking the lines of a set -/

/-- `count = associativity; if (count == 0 || vl_len(list) < count) count = vl_len(list)`. -/
def lineCount (g : Geometry) (list : VList ℕ) : ℕ :=
  if g.associativity = 0 ∨ vlLen list < g.associativity then vlLen list else g.associativity

/-- `sethead_single`: links the lines forward and returns the first one. -/
def setheadSingle (g : Geometry) (mem : Mem) (set : ℕ) : Run (ℕ × Mem) := do
  let list ← readAt g.groups (set / g.groupsize)
  let count := lineCount g list
  let offset := set % g.groupsize * g.cacheline
  let mem ← forUpto (fun i mem => do
      let here ← vlGet list i
      let next ← vlGet list ((i + 1) % count)
      return store mem g.sizeofPtr (here + offset) (next + offset))
    count mem
  let head ← vlGet list 0
  return (head + offset, mem)

/-- `sethead`: links the lines forward and backward and returns the first one. -/
def sethead (g : Geometry) (mem : Mem) (set : ℕ) : Run (ℕ × Mem) := do
  let list ← readAt g.groups (set / g.groupsize)
  let count := lineCount g list
  let offset := set % g.groupsize * g.cacheline
  let mem ← forUpto (fun i mem => do
      let here ← vlGet list i
      let next ← vlGet list ((i + 1) % count)
      let mem := store mem g.sizeofPtr (here + offset) (next + offset)
      let prev ← vlGet list ((i + count - 1) % count)
      return store mem g.sizeofPtr (here + (offset + g.sizeofPtr)) (prev + (offset + g.sizeofPtr)))
    count mem
  let head ← vlGet list 0
  return (head + offset, mem)

/-- `l3_set_probe_head`; address 0 is `NULL`. -/
def l3SetProbeHead (s : L3pp) (line : ℤ) : Run (ℕ × L3pp) := do
  if line < 0 ∨ s.geo.nsets ≤ line then
    return (0, s)
  let (head, mem) ← setheadSingle s.geo s.mem line.toNat
  return (head, { s with mem })

/-! ### The monitored sets -/

/-- `1 << (setno & 0x1f)`. -/
def setnoMask (setno : ℕ) : BitVec 32 := 1#32 <<< (setno &&& 0x1f)

/-- `IS_MONITORED`. -/
def isMonitored (monitored : List (BitVec 32)) (setno : ℕ) : Run Bool := do
  let word ← readAt monitored (setno >>> 5)
  return word &&& setnoMask setno != 0#32

/-- `SET_MONITORED`. -/
def setMonitored (monitored : List (BitVec 32)) (setno : ℕ) : Run (List (BitVec 32)) := do
  let word ← readAt monitored (setno >>> 5)
  writeAt monitored (setno >>> 5) (word ||| setnoMask setno)

/-- `UNSET_MONITORED`. -/
def unsetMonitored (monitored : List (BitVec 32)) (setno : ℕ) : Run (List (BitVec 32)) := do
  let word ← readAt monitored (setno >>> 5)
  writeAt monitored (setno >>> 5) (word &&& ~~~setnoMask setno)

/-- `l3_monitor`. -/
def l3Monitor (s : L3pp) (line : ℤ) : Run (ℤ × L3pp) := do
  if line < 0 ∨ s.geo.nsets ≤ line then
    return (0, s)
  let set := line.toNat
  if ← isMonitored s.monitoredbitmap set then
    return (0, s)
  let monitoredbitmap ← setMonitored s.monitoredbitmap set
  let monitoredset ← writeAt s.monitoredset s.nmonitored set
  let (head, mem) ← sethead s.geo s.mem set
  let monitoredhead ← writeAt s.monitoredhead s.nmonitored head
  return (1, { s with
    monitoredbitmap, monitoredset, monitoredhead, mem, nmonitored := s.nmonitored + 1 })

/-- One round of the loop of `l3_unmonitor`. -/
def unmonitorRound (line : ℕ) : ℕ × L3pp → Run ((ℕ × L3pp) ⊕ L3pp)
  | (i, s) => do
      if i < s.nmonitored then
        let entry ← readAt s.monitoredset i
        if entry = line then
          let nmonitored := s.nmonitored - 1
          let lastSet ← readAt s.monitoredset nmonitored
          let monitoredset ← writeAt s.monitoredset i lastSet
          let lastHead ← readAt s.monitoredhead nmonitored
          let monitoredhead ← writeAt s.monitoredhead i lastHead
          return .inr { s with monitoredset, monitoredhead, nmonitored }
        return .inl (i + 1, s)
      else
        return .inr s

/-- `l3_unmonitor`. -/
def l3Unmonitor (s : L3pp) (line : ℤ) : Run (ℤ × L3pp) := do
  if line < 0 ∨ s.geo.nsets ≤ line then
    return (0, s)
  let set := line.toNat
  if ← isMonitored s.monitoredbitmap set then
    let monitoredbitmap ← unsetMonitored s.monitoredbitmap set
    let s ← loop (unmonitorRound set) (s.nmonitored + 1) (0, { s with monitoredbitmap })
    return (1, s)
  else
    return (0, s)

/-- `l3_unmonitorall`. -/
def l3Unmonitorall (s : L3pp) : Run L3pp := do
  let monitoredbitmap ← forUpto (fun i bitmap => writeAt bitmap i 0#32) (s.geo.nsets / 4)
    s.monitoredbitmap
  return { s with monitoredbitmap, nmonitored := 0 }

/-- `l3_randomise`, drawing from a source of `random()` results. -/
def l3Randomise {σ : Type} (random : σ → ℕ × σ) (s : L3pp) (world : σ) : Run (L3pp × σ) :=
  forUpto (fun i st => do
      let draw := random st.2
      let p := draw.1 % (st.1.nmonitored - i) + i
      let monitoredset ← swapAt st.1.monitoredset i p
      let monitoredhead ← swapAt st.1.monitoredhead i p
      return ({ st.1 with monitoredset, monitoredhead }, draw.2))
    s.nmonitored (s, world)

end ChannelBench
