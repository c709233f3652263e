import ChannelBench.CRing
import ChannelBench.VList
import ChannelBench.ProberProbes

/-! Prime and probe on x86, from `pp.c` and `low.h`. `pp_prepare` links the words at an offset in some pages
of a list into a ring; `pp_probe` goes round a ring and counts the slow accesses, and `walk` goes round it
a number of times. A run is a sequence of `pp_prepare` calls for the sets of a cache map. -/

namespace ChannelBench

open CSem

/-- The two x86 targets. -/
inductive X86 where
  | ia32
  | x86_64

/-- `sizeof(void *)`. -/
def X86.sizeofPtr : X86 → ℕ
  | ia32 => 4
  | x86_64 => 8

/-- `if (count == 0 || vl_len(list) < count) count = vl_len(list)`. -/
def ppCount (list : VList ℕ) (count : ℕ) : ℕ :=
  if count = 0 ∨ vlLen list < count then vlLen list else count

/-- `pp_prepare`: links the words at an offset in the first pages of a list and returns the first one. -/
def ppPrepare (arch : X86) (mem : Mem) (list : VList ℕ) (count offset : ℕ) : Run (ℕ × Mem) := do
  require (offset &&& 0x3f = 0) .assertion
  let count := ppCount list count
  let mem ← forUpto (fun i mem => do
      let here ← vlGet list i
      let next ← vlGet list ((i + 1) % count)
      return store mem arch.sizeofPtr (here + offset) (next + offset))
    count mem
  let head ← vlGet list 0
  return (head + offset, mem)

section Probing

variable {σ : Type} (arch : X86) (clock : σ → BitVec 32 × σ) (threshold : BitVec 32)

/-- `pp_probe`, which counts the slow accesses as `probecount` does. A walk through more words than there
are addresses would never end. -/
def ppProbe (pp : ℕ) (mem : Mem) (world : σ) : Run (ℤ × σ) := do
  if pp = 0 then
    return (0, world)
  goRound (fun p st => (load mem arch.sizeofPtr p, probecountRound clock threshold st))
    (256 ^ arch.sizeofPtr + 1) pp (0, world)

/-- `walk`. The counter is decremented after every time round, so a count of 0 stands for `2 ^ 32`. -/
def walk (p : ℕ) (count : BitVec 32) (mem : Mem) : Run Unit := do
  if p = 0 then
    return ()
  loop (fun count : BitVec 32 => do
      goRound (fun p _ => (load mem arch.sizeofPtr p, ())) (256 ^ arch.sizeofPtr + 1) p ()
      let count := count - 1#32
      if count ≠ 0#32 then
        return .inl count
      else
        return .inr ())
    (2 ^ 32 + 1) count

/-- `pp_prime`. -/
def ppPrime (pp : ℕ) (reps : BitVec 32) (mem : Mem) : Run Unit := walk arch pp reps mem

end Probing

/-! ### Runs -/

/-- The page lists of a cache map: pairwise disjoint and not empty, with pages that are aligned and inside
the address space. -/
structure PageLists (arch : X86) where
  lists : List (VList ℕ)
  pages : PageGroups arch.sizeofPtr lists

/-- A call of `pp_prepare` for a list and a cache line of a page. -/
structure PrepareCall {arch : X86} (cm : PageLists arch) where
  list : VList ℕ
  count : ℕ
  offset : ℕ
  list_mem : list ∈ cm.lists
  line : 64 ∣ offset
  in_page : offset < 4096

namespace PrepareCall

variable {arch : X86} {cm : PageLists arch}

def run (call : PrepareCall cm) (mem : Mem) : Run (ℕ × Mem) :=
  ppPrepare arch mem call.list call.count call.offset

/-- The words that a call links: those at the offset in the first `count` pages, or in all pages when
`count` is 0. -/
def words (call : PrepareCall cm) : List ℕ :=
  ((call.list.toList.take
      (if call.count = 0 then call.list.toList.length else call.count)).map (· + call.offset))

/-- Two calls are for the same ring. -/
def SameRing (call call' : PrepareCall cm) : Prop := call.list = call'.list ∧ call.offset = call'.offset

end PrepareCall

/-- The call for a set and the cache line of a given number. -/
def PageLists.lineCall {arch : X86} (cm : PageLists arch) (p : Fin cm.lists.length) (count : ℕ)
    (line : Fin 64) : PrepareCall cm where
  list := cm.lists[p]
  count := count
  offset := line * 64
  list_mem := List.getElem_mem p.isLt
  line := Dvd.intro_left _ rfl
  in_page := by omega

end ChannelBench
