import ChannelBench.CArray

/-! The list of existing frames of a benchmark process. `init_vspace` of `bench_support.c` counts the
pages of the regions, allocates an array of that many pointers, cleared, and writes the address of every
page into it, region after region. Addresses and sizes are those of the 64-bit targets; the position in
the array goes through an `int` between two regions. -/

namespace ChannelBench

open CSem

/-- The part of `bench_args_t` that describes memory, and the flag that skips the set-up of the vspace. -/
structure BenchArgs where
  sharedVaddr : BitVec 64 := 0
  sharedPages : BitVec 64 := 0
  recordVaddr : BitVec 64 := 0
  recordPages : BitVec 64 := 0
  stackVaddr : BitVec 64 := 0
  stackPages : BitVec 64 := 0
  hugepageVaddr : BitVec 64 := 0
  hugepageSize : BitVec 64 := 0
  morecoreVaddr : BitVec 64 := 0
  morecoreSize : BitVec 64 := 0
  untypeNone : Bool := false
  deriving DecidableEq

/-- What a process knows when it starts: its arguments, where they are, and its IPC buffer, with the
number of pages that `BYTES_TO_SIZE_BITS_PAGES` gives for it. -/
structure BenchProcess where
  args : BenchArgs
  argsVaddr : BitVec 64
  ipcBuffer : BitVec 64
  ipcPages : BitVec 64
  argsVaddr_ne : argsVaddr ≠ 0
  ipcBuffer_ne : ipcBuffer ≠ 0

/-- `SIZE_BITS_TO_BYTES(seL4_PageBits)`. -/
def pageBytes : BitVec 64 := 4096

/-- The body of the loop of `add_frames`. -/
def addFrame (start : BitVec 64) (k : ℕ) (s : BitVec 64 × List (BitVec 64)) :
    Run (BitVec 64 × List (BitVec 64)) := do
  let frames ← writeAt s.2 (start.toNat + k) s.1
  return (s.1 + pageBytes, frames)

/-- The rounds of `for (i = start; i < num_frames + start; i++)`. -/
def frameRounds (start numFrames : BitVec 64) : ℕ := (numFrames + start).toNat - start.toNat

/-- `add_frames`. -/
def addFrames (frames : List (BitVec 64)) (start addr numFrames : BitVec 64) :
    Run (List (BitVec 64) × BitVec 64) := do
  if addr = 0 then
    return (frames, start)
  let s ← forUpto (addFrame start) (frameRounds start numFrames) (addr, frames)
  return (s.2, start + BitVec.ofNat 64 (frameRounds start numFrames))

/-- `int index = i`, and `index` passed on as a `size_t`. -/
def toIndex (i : BitVec 64) : BitVec 64 := (i.setWidth 32).signExtend 64

/-- `pages` in `init_vspace`. -/
def BenchProcess.pages (p : BenchProcess) : BitVec 64 :=
  let pages := 1 + p.ipcPages
  let pages := if p.args.sharedVaddr ≠ 0 then pages + p.args.sharedPages else pages
  let pages := if p.args.recordVaddr ≠ 0 then pages + p.args.recordPages else pages
  pages + p.args.stackPages

/-- `malloc(sizeof (void *) * pages)`, which succeeds, cleared. -/
def mallocFrames (pages : BitVec 64) : List (BitVec 64) := List.replicate ((8 * pages).toNat / 8) 0

/-- `init_vspace`, up to the call that takes the array. -/
def initVspace (p : BenchProcess) : Run (List (BitVec 64)) := do
  require (p.args.hugepageVaddr = 0) .assertion
  let existingFrames := mallocFrames p.pages
  let (existingFrames, index) ← addFrames existingFrames 0 p.args.sharedVaddr p.args.sharedPages
  let (existingFrames, index) ← addFrames existingFrames (toIndex index) p.args.recordVaddr p.args.recordPages
  let (existingFrames, index) ← addFrames existingFrames (toIndex index) p.args.stackVaddr p.args.stackPages
  let (existingFrames, index) ← addFrames existingFrames (toIndex index) p.ipcBuffer p.ipcPages
  let (existingFrames, _) ← addFrames existingFrames (toIndex index) p.argsVaddr 1
  return existingFrames

/-! ### Regions -/

/-- A region as `add_frames` is told about it; it is absent when its address is `NULL`. -/
structure Region where
  vaddr : BitVec 64
  pages : BitVec 64
  deriving DecidableEq

/-- The address of a page of a region. -/
def Region.page (r : Region) (k : ℕ) : BitVec 64 := r.vaddr + pageBytes * BitVec.ofNat 64 k

/-- The number of pages of a region that is present. -/
def Region.count (r : Region) : ℕ := if r.vaddr = 0 then 0 else r.pages.toNat

/-- The addresses of the pages of a region. -/
def Region.frames (r : Region) : List (BitVec 64) := (List.range r.count).map r.page

@[simp] theorem Region.length_frames (r : Region) : r.frames.length = r.count := by
  rw [Region.frames, List.length_map, List.length_range]

theorem Region.page_zero (r : Region) : r.page 0 = r.vaddr := by
  simp [Region.page]

theorem Region.page_succ (r : Region) (k : ℕ) : r.page (k + 1) = r.page k + pageBytes := by
  rw [Region.page, Region.page, BitVec.ofNat_add, BitVec.mul_add, BitVec.add_assoc]
  congr 2

/-- The regions that are declared before the page of the arguments. -/
def BenchProcess.regions (p : BenchProcess) : List Region :=
  [⟨p.args.sharedVaddr, p.args.sharedPages⟩, ⟨p.args.recordVaddr, p.args.recordPages⟩,
    ⟨p.args.stackVaddr, p.args.stackPages⟩, ⟨p.ipcBuffer, p.ipcPages⟩]

/-- The frames a process exists of, in the order in which they are declared. -/
def BenchProcess.existingFrames (p : BenchProcess) : List (BitVec 64) :=
  p.regions.flatMap Region.frames ++ [p.argsVaddr]

/-- The calls of `add_frames` for some regions in a row. -/
def addRegions : List Region → List (BitVec 64) → BitVec 64 → Run (List (BitVec 64) × BitVec 64)
  | [], frames, index => return (frames, index)
  | r :: rs, frames, index => do
      let (frames, i) ← addFrames frames index r.vaddr r.pages
      addRegions rs frames (toIndex i)

theorem initVspace_eq (p : BenchProcess) :
    initVspace p = (do
      require (p.args.hugepageVaddr = 0) .assertion
      let s ← addRegions p.regions (mallocFrames p.pages) 0
      let s ← addFrames s.1 s.2 p.argsVaddr 1
      return s.1) := by
  simp only [initVspace, BenchProcess.regions, addRegions, bind_assoc, pure_bind]

/-! ### What a run that ends has written -/

/-- The array after a call of `add_frames` that ended. -/
structure Added (r : Region) (rounds : ℕ) (start : BitVec 64) (frames frames' : List (BitVec 64)) : Prop where
  length_eq : frames'.length = frames.length
  bound : 0 < rounds → start.toNat + rounds ≤ frames.length
  getElem?_eq : ∀ p, frames'[p]? =
    if start.toNat ≤ p ∧ p < start.toNat + rounds then some (r.page (p - start.toNat)) else frames[p]?

theorem Added.refl (r : Region) (start : BitVec 64) (frames : List (BitVec 64)) : Added r 0 start frames frames := by
  refine ⟨rfl, fun h => absurd h (lt_irrefl 0), ?_⟩
  intro p
  rw [if_neg (by omega)]

theorem Added.succ {r : Region} {rounds : ℕ} {start : BitVec 64} {frames frames' : List (BitVec 64)}
    (h : Added r rounds start frames frames') (hroom : start.toNat + rounds < frames.length) :
    Added r (rounds + 1) start frames (frames'.set (start.toNat + rounds) (r.page rounds)) := by
  refine ⟨by rw [List.length_set, h.length_eq], fun _ => by omega, ?_⟩
  intro p
  by_cases hp : start.toNat + rounds = p
  · subst hp
    rw [List.getElem?_set_self (by rw [h.length_eq]; exact hroom), if_pos (by omega), Nat.add_sub_cancel_left]
  · rw [List.getElem?_set_ne hp, h.getElem?_eq]
    by_cases hin : start.toNat ≤ p ∧ p < start.toNat + rounds
    · rw [if_pos hin, if_pos (by omega)]
    · rw [if_neg hin, if_neg (by omega)]

/-- The rounds of a call for a region. -/
def Region.rounds (r : Region) (start : BitVec 64) : ℕ := if r.vaddr = 0 then 0 else frameRounds start r.pages

theorem Region.rounds_le (r : Region) (start : BitVec 64) : r.rounds start ≤ r.count := by
  unfold rounds count frameRounds
  split_ifs
  · exact le_refl 0
  · have hsum : (r.pages + start).toNat ≤ r.pages.toNat + start.toNat := by
      rw [BitVec.toNat_add]
      exact Nat.mod_le _ _
    omega

/-- Without a wrap of the sum every page gets its round. -/
theorem Region.rounds_eq (r : Region) {start : BitVec 64} (h : start.toNat + r.count < 2 ^ 64) :
    r.rounds start = r.count := by
  unfold rounds count frameRounds at *
  split_ifs at h ⊢
  · rfl
  · rw [BitVec.toNat_add, Nat.mod_eq_of_lt (by omega)]
    omega

theorem writeAt_ensures {α : Type} (array : List α) (i : ℕ) (x : α) :
    Ensures (writeAt array i x) fun array' => i < array.length ∧ array' = array.set i x := by
  constructor
  intro array' h
  unfold writeAt at h
  split_ifs at h with hi
  · cases h
    exact ⟨hi, rfl⟩

theorem addFrames_ensures (frames : List (BitVec 64)) (start : BitVec 64) (r : Region) :
    Ensures (addFrames frames start r.vaddr r.pages) fun s =>
      Added r (r.rounds start) start frames s.1 ∧ s.2 = start + BitVec.ofNat 64 (r.rounds start) := by
  rw [addFrames, Region.rounds]
  by_cases haddr : r.vaddr = 0
  · rw [if_pos haddr, if_pos haddr]
    exact ensures_pure ⟨.refl r start frames, by simp⟩
  · rw [if_neg haddr, if_neg haddr]
    refine (forUpto_ensures (fun k s => s.1 = r.page k ∧ Added r k start frames s.2)
      ⟨r.page_zero.symm, .refl r start frames⟩ ?_).bind fun s hs => ensures_pure ⟨hs.2, rfl⟩
    rintro k - ⟨addr, frames'⟩ ⟨hpage, hadded⟩
    dsimp only at hpage hadded
    refine (writeAt_ensures frames' _ addr).bind ?_
    rintro frames'' ⟨hroom, rfl⟩
    rw [hadded.length_eq] at hroom
    refine ensures_pure ⟨?_, ?_⟩
    · rw [hpage, r.page_succ]
    · rw [hpage]
      exact hadded.succ hroom

/-- What is left of a number that went through an `int`. -/
theorem toNat_toIndex (i : BitVec 64) : (toIndex i).toNat =
    if i.toNat % 2 ^ 32 < 2 ^ 31 then i.toNat % 2 ^ 32 else 2 ^ 64 - 2 ^ 32 + i.toNat % 2 ^ 32 := by
  rw [toIndex, BitVec.toNat_signExtend, BitVec.msb_eq_decide, BitVec.toNat_setWidth, BitVec.toNat_setWidth]
  simp only [decide_eq_true_eq]
  split_ifs <;> omega

/-- The position in the array is right or too small, or the `int` is negative. -/
def Placed (n : ℕ) (index : BitVec 64) : Prop :=
  (index.toNat < 2 ^ 31 ∧ index.toNat ≤ n) ∨ 2 ^ 64 - 2 ^ 31 ≤ index.toNat

theorem placed_toIndex {n : ℕ} {i : BitVec 64} (h : i.toNat ≤ n ∨ 2 ^ 64 - 2 ^ 31 ≤ i.toNat) :
    Placed n (toIndex i) := by
  have hmod := Nat.mod_le i.toNat (2 ^ 32)
  rw [Placed, toNat_toIndex]
  have hlt := i.isLt
  split_ifs <;> omega

/-- A call that ends leaves the position right or lost, and touches no later entry. -/
theorem Placed.added {n : ℕ} {r : Region} {index : BitVec 64} {frames frames' : List (BitVec 64)}
    (h : Placed n index) (hadded : Added r (r.rounds index) index frames frames')
    (hlength : frames.length < 2 ^ 61) :
    Placed (n + r.count) (toIndex (index + BitVec.ofNat 64 (r.rounds index))) ∧
      ∀ p, n + r.count ≤ p → frames'[p]? = frames[p]? := by
  have hle := r.rounds_le index
  have hbound := hadded.bound
  have hrounds : r.rounds index = 0 ∨ index.toNat + r.rounds index < 2 ^ 61 := by omega
  have hadd : (index + BitVec.ofNat 64 (r.rounds index)).toNat = index.toNat + r.rounds index := by
    have hlt := index.isLt
    rw [BitVec.toNat_add, BitVec.toNat_ofNat, Nat.mod_eq_of_lt (a := r.rounds index) (by omega),
      Nat.mod_eq_of_lt (by omega)]
  constructor
  · apply placed_toIndex
    rw [hadd]
    rcases h with h | h
    · left
      omega
    · right
      omega
  · intro p hp
    rw [hadded.getElem?_eq, if_neg]
    rcases h with h | h <;> omega

theorem addRegions_ensures {n : ℕ} (rs : List Region) {frames : List (BitVec 64)} {index : BitVec 64}
    (h : Placed n index) (hlength : frames.length < 2 ^ 61) :
    Ensures (addRegions rs frames index) fun s =>
      s.1.length = frames.length ∧ Placed (n + (rs.map Region.count).sum) s.2 ∧
        ∀ p, n + (rs.map Region.count).sum ≤ p → s.1[p]? = frames[p]? := by
  induction rs generalizing n frames index with
  | nil =>
      rw [List.map_nil, List.sum_nil, Nat.add_zero]
      exact ensures_pure ⟨rfl, h, fun _ _ => rfl⟩
  | cons r rs ih =>
      refine (addFrames_ensures frames index r).bind ?_
      rintro ⟨frames', i⟩ ⟨hadded, hi⟩
      dsimp only at hadded hi
      subst hi
      obtain ⟨hplaced, hsame⟩ := h.added hadded hlength
      refine (ih hplaced (by rwa [hadded.length_eq])).mono ?_
      rintro s ⟨hs, hplaced', hsame'⟩
      rw [List.map_cons, List.sum_cons, ← Nat.add_assoc]
      refine ⟨hs.trans hadded.length_eq, hplaced', ?_⟩
      intro p hp
      rw [hsame' p hp, hsame p (by omega)]

/-! ### What a run with enough room writes -/

theorem addFrames_returns (r : Region) {done : List (BitVec 64)} {room : ℕ} {index : BitVec 64}
    (hindex : index.toNat = done.length) (hroom : r.count ≤ room) (hfits : done.length + r.count < 2 ^ 64) :
    Returns (addFrames (done ++ List.replicate room 0) index r.vaddr r.pages) fun s =>
      s.1 = done ++ r.frames ++ List.replicate (room - r.count) 0 ∧ s.2.toNat = done.length + r.count := by
  have hrounds : r.rounds index = r.count := r.rounds_eq (by omega)
  unfold Region.rounds at hrounds
  rw [addFrames]
  by_cases haddr : r.vaddr = 0
  · have hcount : r.count = 0 := if_pos haddr
    rw [if_pos haddr, returns_pure, Region.frames, hcount]
    simp [hindex]
  · rw [if_neg haddr] at hrounds ⊢
    rw [hrounds]
    have hloop : Returns (forUpto (addFrame index) r.count (r.vaddr, done ++ List.replicate room 0)) fun s =>
        s.1 = r.page r.count ∧
          s.2 = done ++ (List.range r.count).map r.page ++ List.replicate (room - r.count) 0 := by
      refine forUpto_returns (fun k (s : BitVec 64 × List (BitVec 64)) => s.1 = r.page k ∧
        s.2 = done ++ (List.range k).map r.page ++ List.replicate (room - k) 0) ⟨r.page_zero.symm, by simp⟩ ?_
      rintro k hk ⟨addr, frames⟩ ⟨hpage, hframes⟩
      dsimp only at hpage hframes
      have hlast : (done ++ (List.range k).map r.page).length = index.toNat + k := by
        rw [List.length_append, List.length_map, List.length_range, hindex]
      have hmore : room - k = room - (k + 1) + 1 := by omega
      rw [addFrame, writeAt_eq _ (by rw [hframes, List.length_append, hlast, List.length_replicate]; omega)]
      refine returns_ok.mpr ⟨by rw [hpage, r.page_succ], ?_⟩
      rw [hframes, List.set_append_right _ _ (by rw [hlast]), hlast, Nat.sub_self, hmore, List.replicate_succ,
        List.set_cons_zero, hpage, List.range_succ, List.map_append]
      simp only [List.append_assoc, List.map_cons, List.map_nil, List.cons_append, List.nil_append]
    refine hloop.bind ?_
    rintro ⟨addr, frames⟩ ⟨-, hframes⟩
    refine returns_pure.mpr ⟨hframes, ?_⟩
    rw [BitVec.toNat_add, BitVec.toNat_ofNat, Nat.mod_eq_of_lt (a := r.count) (by omega),
      Nat.mod_eq_of_lt (by omega), hindex]

theorem toIndex_of_lt {i : BitVec 64} (h : i.toNat < 2 ^ 31) : (toIndex i).toNat = i.toNat := by
  rw [toNat_toIndex, Nat.mod_eq_of_lt (by omega), if_pos h]

theorem addRegions_returns (rs : List Region) {done : List (BitVec 64)} {room : ℕ} {index : BitVec 64}
    (hindex : index.toNat = done.length) (hroom : (rs.map Region.count).sum ≤ room)
    (hfits : done.length + (rs.map Region.count).sum < 2 ^ 31) :
    Returns (addRegions rs (done ++ List.replicate room 0) index) fun s =>
      s.1 = done ++ rs.flatMap Region.frames ++ List.replicate (room - (rs.map Region.count).sum) 0 ∧
        s.2.toNat = done.length + (rs.map Region.count).sum := by
  induction rs generalizing done room index with
  | nil => exact returns_pure.mpr ⟨by simp, by simp [hindex]⟩
  | cons r rs ih =>
      rw [List.map_cons, List.sum_cons] at hroom hfits
      refine (addFrames_returns r hindex (by omega) (by omega)).bind ?_
      rintro ⟨frames, i⟩ ⟨hframes, hi⟩
      dsimp only at hframes hi
      subst hframes
      have hlength : (done ++ r.frames).length = done.length + r.count := by
        rw [List.length_append, r.length_frames]
      have hindex' : (toIndex i).toNat = (done ++ r.frames).length := by
        rw [toIndex_of_lt (by omega), hi, hlength]
      refine (ih hindex' (by omega) (by omega)).mono ?_
      rintro s ⟨hs, hplace⟩
      rw [hs, hplace, hlength, List.map_cons, List.sum_cons, List.flatMap_cons]
      refine ⟨?_, by omega⟩
      rw [List.append_assoc done, Nat.sub_sub]

/-! ### The list and its end -/

/-- The region of the arguments. -/
def BenchProcess.argsRegion (p : BenchProcess) : Region := ⟨p.argsVaddr, 1⟩

theorem BenchProcess.count_argsRegion (p : BenchProcess) : p.argsRegion.count = 1 := by
  show (if p.argsVaddr = 0 then 0 else 1) = 1
  exact if_neg p.argsVaddr_ne

theorem BenchProcess.frames_argsRegion (p : BenchProcess) : p.argsRegion.frames = [p.argsVaddr] := by
  rw [Region.frames, p.count_argsRegion]
  simp [Region.page_zero, argsRegion]

/-- The number of frames a process exists of. -/
def BenchProcess.frameCount (p : BenchProcess) : ℕ := (p.regions.map Region.count).sum + 1

theorem BenchProcess.length_existingFrames (p : BenchProcess) : p.existingFrames.length = p.frameCount := by
  rw [existingFrames, frameCount, List.length_append, List.length_flatMap]
  simp

/-- The number of entries of the array. -/
def BenchProcess.room (p : BenchProcess) : ℕ := p.pages.toNat % 2 ^ 61

theorem BenchProcess.mallocFrames_eq (p : BenchProcess) : mallocFrames p.pages = List.replicate p.room 0 := by
  rw [mallocFrames, BitVec.toNat_mul, room]
  congr 1
  show 8 * p.pages.toNat % 2 ^ 64 / 8 = p.pages.toNat % 2 ^ 61
  omega

theorem BenchProcess.room_lt (p : BenchProcess) : p.room < 2 ^ 61 := Nat.mod_lt _ (by decide)

/-- With room for the frames the array holds them, and the rest is `NULL`. -/
theorem initVspace_returns (p : BenchProcess) (hhuge : p.args.hugepageVaddr = 0)
    (hint : p.frameCount ≤ 2 ^ 31) (hroom : p.frameCount ≤ p.room) :
    Returns (initVspace p) fun frames =>
      frames = p.existingFrames ++ List.replicate (p.room - p.frameCount) 0 := by
  unfold BenchProcess.frameCount at *
  rw [initVspace_eq, require_pos hhuge, pure_bind, p.mallocFrames_eq, ← List.nil_append (List.replicate p.room 0)]
  refine (addRegions_returns p.regions (by rfl) (by omega) (by rw [List.length_nil]; omega)).bind ?_
  rintro ⟨frames, index⟩ ⟨hframes, hindex⟩
  dsimp only at hframes hindex ⊢
  have hlength : (p.regions.flatMap Region.frames).length = (p.regions.map Region.count).sum := by
    simp [List.length_flatMap]
  have hone := p.count_argsRegion
  rw [List.nil_append] at hframes
  rw [List.length_nil, Nat.zero_add, ← hlength] at hindex
  rw [hframes]
  refine (addFrames_returns p.argsRegion hindex (by omega) (by omega)).bind ?_
  rintro ⟨frames', index'⟩ ⟨hframes', -⟩
  dsimp only at hframes' ⊢
  rw [returns_pure, hframes', p.frames_argsRegion, hone, Nat.sub_sub]
  rfl

/-- The list of existing frames is well formed: the array holds the frames in order and a `NULL` after
them. -/
def FramesTerminated (p : BenchProcess) : Prop :=
  Returns (initVspace p) fun frames => ∃ rest, frames = p.existingFrames ++ 0 :: rest

/-- A run that ends with the frames in their places got every position through the `int`, and had room
for an entry after them. -/
theorem FramesTerminated.fits {p : BenchProcess} (h : FramesTerminated p) :
    p.frameCount ≤ 2 ^ 31 ∧ p.frameCount < p.room := by
  obtain ⟨frames, hrun, rest, hframes⟩ := h
  have hhuge : p.args.hugepageVaddr = 0 := by
    by_contra hhuge
    rw [initVspace_eq, require, if_neg hhuge] at hrun
    cases hrun
  rw [initVspace_eq, require_pos hhuge, pure_bind, p.mallocFrames_eq] at hrun
  obtain ⟨⟨frames₁, index⟩, hrun₁, hrun⟩ := bind_eq_ok.mp hrun
  obtain ⟨⟨frames₂, index'⟩, hrun₂, hrun⟩ := bind_eq_ok.mp hrun
  cases hrun
  have hplaced₀ : Placed 0 0 := .inl (by decide)
  have hshort : (List.replicate p.room (0 : BitVec 64)).length < 2 ^ 61 := by
    rw [List.length_replicate]
    exact p.room_lt
  obtain ⟨hlength₁, hplaced, hsame⟩ := (addRegions_ensures p.regions hplaced₀ hshort).of_ok _ hrun₁
  obtain ⟨hadded, -⟩ := (addFrames_ensures frames₁ index p.argsRegion).of_ok _ hrun₂
  rw [Nat.zero_add] at hplaced hsame
  dsimp only at hframes hlength₁ hplaced hsame hadded
  have hlength : p.frameCount < p.room := by
    have hroom := hadded.length_eq
    rw [hlength₁, hframes, List.length_replicate, List.length_append, p.length_existingFrames,
      List.length_cons] at hroom
    omega
  refine ⟨?_, hlength⟩
  -- the entry of the arguments page is not `NULL`, so the last call wrote it
  have hlast : frames₂[(p.regions.map Region.count).sum]? = some p.argsVaddr := by
    rw [hframes, BenchProcess.existingFrames, List.append_assoc,
      List.getElem?_append_right (by simp [List.length_flatMap])]
    simp [List.length_flatMap]
  unfold BenchProcess.frameCount at hlength ⊢
  have hclear : frames₁[(p.regions.map Region.count).sum]? = some 0 := by
    rw [hsame _ (le_refl _), List.getElem?_replicate, if_pos (by omega)]
  have hrounds := p.argsRegion.rounds_le index
  rw [p.count_argsRegion] at hrounds
  have hwritten := hadded.getElem?_eq (p.regions.map Region.count).sum
  rw [hlast, hclear] at hwritten
  split_ifs at hwritten with hin
  · rcases hplaced with h | h
    · omega
    · have hbound := hadded.bound (by omega)
      omega
  · exact absurd (Option.some.inj hwritten) p.argsVaddr_ne

theorem Region.toNat_present (r : Region) (pages : BitVec 64) :
    (if r.vaddr ≠ 0 then pages + r.pages else pages).toNat = (pages.toNat + r.count) % 2 ^ 64 := by
  unfold count
  by_cases h : r.vaddr = 0
  · rw [if_neg (not_not.mpr h), if_pos h, Nat.add_zero, Nat.mod_eq_of_lt pages.isLt]
  · rw [if_pos h, if_neg h, BitVec.toNat_add]

/-- The pages that are counted: those of the stack whether it is present or not. -/
def BenchProcess.countedPages (p : BenchProcess) : ℕ :=
  p.frameCount - Region.count ⟨p.args.stackVaddr, p.args.stackPages⟩ + p.args.stackPages.toNat

theorem BenchProcess.room_eq (p : BenchProcess) : p.room = p.countedPages % 2 ^ 61 := by
  have hshared := Region.toNat_present ⟨p.args.sharedVaddr, p.args.sharedPages⟩ (1 + p.ipcPages)
  have hrecord := Region.toNat_present ⟨p.args.recordVaddr, p.args.recordPages⟩
    (if p.args.sharedVaddr ≠ 0 then 1 + p.ipcPages + p.args.sharedPages else 1 + p.ipcPages)
  have hipc : Region.count ⟨p.ipcBuffer, p.ipcPages⟩ = p.ipcPages.toNat := if_neg p.ipcBuffer_ne
  have hone : (1 + p.ipcPages).toNat = (1 + p.ipcPages.toNat) % 2 ^ 64 := BitVec.toNat_add 1 p.ipcPages
  dsimp only at hshared hrecord
  rw [room, pages, BitVec.toNat_add, hrecord, hshared, hone, countedPages, frameCount, regions,
    List.map_cons, List.map_cons, List.map_cons, List.map_cons, List.map_nil,
    List.sum_cons, List.sum_cons, List.sum_cons, List.sum_cons, List.sum_nil, hipc]
  omega

theorem BenchProcess.frameCount_le (p : BenchProcess) : p.frameCount ≤ p.countedPages := by
  have hstack : Region.count ⟨p.args.stackVaddr, p.args.stackPages⟩ ≤ p.args.stackPages.toNat := by
    unfold Region.count
    split_ifs
    · exact Nat.zero_le _
    · exact le_refl _
  unfold countedPages
  omega

/-- **The end of the list of existing frames.** It is within the array exactly if the pages of a stack
that is absent were counted, and there are no more frames than the position can count. -/
theorem framesTerminated_iff (p : BenchProcess) (hhuge : p.args.hugepageVaddr = 0) :
    FramesTerminated p ↔ p.args.stackVaddr = 0 ∧ 0 < p.args.stackPages.toNat % 2 ^ 61 ∧
      p.frameCount + p.args.stackPages.toNat % 2 ^ 61 < 2 ^ 61 ∧ p.frameCount ≤ 2 ^ 31 := by
  have hroom := p.room_eq
  have hstack : Region.count ⟨p.args.stackVaddr, p.args.stackPages⟩ < p.frameCount := by
    rw [BenchProcess.frameCount, BenchProcess.regions]
    simp only [List.map_cons, List.sum_cons]
    omega
  unfold BenchProcess.countedPages at hroom
  unfold Region.count at hroom hstack
  dsimp only at hroom hstack
  constructor
  · intro h
    obtain ⟨hint, hlt⟩ := h.fits
    by_cases hvaddr : p.args.stackVaddr = 0
    · rw [if_pos hvaddr] at hroom
      refine ⟨hvaddr, ?_, ?_, hint⟩ <;> omega
    · rw [if_neg hvaddr] at hroom hstack
      rw [Nat.sub_add_cancel hstack.le] at hroom
      have hle := Nat.mod_le p.frameCount (2 ^ 61)
      omega
  · rintro ⟨hvaddr, hpos, hfits, hint⟩
    rw [if_pos hvaddr] at hroom
    have hmore : p.frameCount < p.room := by omega
    refine (initVspace_returns p hhuge hint hmore.le).mono ?_
    intro frames hframes
    refine ⟨List.replicate (p.room - p.frameCount - 1) 0, ?_⟩
    rw [hframes, ← List.replicate_succ, Nat.sub_add_cancel (by omega)]

/-- A process whose stack is absent, but counted. -/
def stacklessProcess : BenchProcess where
  args := { stackPages := 2 }
  argsVaddr := 0x30001000
  ipcBuffer := 0x30000000
  ipcPages := 1
  argsVaddr_ne := by decide
  ipcBuffer_ne := by decide

theorem framesTerminated_stackless : FramesTerminated stacklessProcess :=
  (framesTerminated_iff stacklessProcess rfl).mpr (by decide)

/-- A process with a stack of two pages, a shared page and a record page. -/
def usualProcess : BenchProcess where
  args := { sharedVaddr := 0x10000000, sharedPages := 1, recordVaddr := 0x10001000, recordPages := 1,
            stackVaddr := 0x20000000, stackPages := 2 }
  argsVaddr := 0x30001000
  ipcBuffer := 0x30000000
  ipcPages := 1
  argsVaddr_ne := by decide
  ipcBuffer_ne := by decide

/-- Its six frames fill the array, and no entry is left for the end of the list. -/
theorem usualProcess_unterminated :
    initVspace usualProcess = .ok [0x10000000, 0x10001000, 0x20000000, 0x20001000, 0x30000000, 0x30001000] ∧
      ¬FramesTerminated usualProcess := by
  refine ⟨by decide, ?_⟩
  intro h
  have hroom : usualProcess.room = usualProcess.frameCount := by decide
  exact absurd h.fits.2 (by omega)

end ChannelBench
