import ChannelBench.CGather
import ChannelBench.CJump
import ChannelBench.L1State

/-! The L1 instruction cache prober of `l1i.c`, for `CONFIG_ARCH_X86`. `l1i_prepare` writes code into the
probe buffer: a jump to the same line of the next page at every cache line of every page but the last, and a
return there. A probe of a cache set is a call of its line of the first page. -/

namespace ChannelBench

open CSem

/-- The macros of `low.h` for the instruction cache, and `sizeof(void *)`. -/
structure L1iConfig where
  sizeofPtr : ℕ
  pageSize : ℕ
  l1Associativity : ℕ
  l1iAssociativity : ℕ
  l1iSets : ℕ
  l1iCacheline : ℕ
  l1iLines : ℕ
  page_aligns : 0x1000 ≤ pageSize
  page_jump : pageSize < 2 ^ 31
  line_room : 5 ≤ l1iCacheline
  page_room : l1iCacheline * l1iSets ≤ pageSize
  assoc_bounds : 0 < l1iAssociativity ∧ l1iAssociativity ≤ l1Associativity
  mask_words : 64 ∣ l1iSets
  sets_fit : l1iSets ≤ 2 ^ 8

/-- `CONFIG_ARCH_X86`, with or without `CONFIG_ARCH_X86_64`. -/
def x86L1i (x64 : Bool) : L1iConfig where
  sizeofPtr := if x64 then 8 else 4
  pageSize := 4096
  l1Associativity := 8
  l1iAssociativity := 8
  l1iSets := 64
  l1iCacheline := 64
  l1iLines := 512
  page_aligns := by decide
  page_jump := by decide
  line_room := by decide
  page_room := by decide
  assoc_bounds := by decide
  mask_words := by decide
  sets_fit := by decide

namespace L1iConfig

/-- `I_MONITOR_MASK`. -/
def iMonitorMask (C : L1iConfig) : ℕ := C.l1iSets / 64

/-- `JMP_OFFSET`. -/
def jmpOffset (C : L1iConfig) : ℕ := C.pageSize - 5

end L1iConfig

/-- The probe buffer. -/
structure L1iLayout extends L1iConfig where
  memory : ℕ
  memory_pos : 0 < memory
  memory_fits : memory + pageSize * l1iAssociativity ≤ 256 ^ sizeofPtr

/-- `SET`. -/
def L1iLayout.set (l1 : L1iLayout) (page set : ℕ) : ℕ :=
  l1.memory + l1.pageSize * page + l1.l1iCacheline * set

/-- `struct l1iinfo` and the memory of the probe buffer. -/
structure L1iinfo where
  layout : L1iLayout
  monitoredSets : List (BitVec 64)
  monitored : List (BitVec 8)
  nsets : ℕ
  mem : Mem

/-! ### The monitored sets -/

/-- `l1i_randomise`. -/
def l1iRandomise {σ : Type} (random : σ → ℕ × σ) (s : L1iinfo) (world : σ) : Run (L1iinfo × σ) := do
  let shuffled ← forUpto (fun i st => do
      let draw := random st.2
      let p := draw.1 % (s.nsets - i) + i
      let monitored ← swapAt st.1 i p
      return (monitored, draw.2))
    s.nsets (s.monitored, world)
  return ({ s with monitored := shuffled.1 }, shuffled.2)

/-- The inner loop of `l1i_set_monitored_set`. -/
def l1iMonitorWord (i : ℕ) (mask : BitVec 64) (st : ℕ × List (BitVec 8)) : Run (ℕ × List (BitVec 8)) :=
  gatherWord (BitVec.ofNat 8) i mask st

/-- `l1i_set_monitored_set`; `none` is the `NULL` mask. -/
def l1iSetMonitoredSet {σ : Type} (random : σ → ℕ × σ) (s : L1iinfo)
    (monitoredSets : Option (List (BitVec 64))) (world : σ) : Run (L1iinfo × σ) := do
  match monitoredSets with
  | none => throw .assertion
  | some masks =>
      let st ← forUpto (fun i (st : List (BitVec 64) × ℕ × List (BitVec 8)) => do
          let mask ← readAt masks i
          let sets ← writeAt st.1 i mask
          let st ← l1iMonitorWord i mask st.2
          return (sets, st))
        s.layout.iMonitorMask (s.monitoredSets, 0, s.monitored)
      l1iRandomise random { s with monitoredSets := st.1, nsets := st.2.1, monitored := st.2.2 } world

/-! ### The code in the probe buffer -/

/-- The five bytes of a jump that `l1i_prepare` writes. -/
def writeJump (jmpOffset : ℕ) (mem : Mem) (p : ℕ) : Mem :=
  let mem := store mem 1 p 0xe9
  let mem := store mem 1 (p + 1) (jmpOffset &&& 0xff)
  let mem := store mem 1 (p + 2) (jmpOffset >>> 8 &&& 0xff)
  let mem := store mem 1 (p + 3) (jmpOffset >>> 16 &&& 0xff)
  store mem 1 (p + 4) (jmpOffset >>> 24 &&& 0xff)

/-- The loops of `l1i_prepare` that write the code. -/
def l1iWriteCode (l1 : L1iLayout) (mem : Mem) : Run Mem :=
  forUpto (fun i mem => do
      let mem ← forUpto (fun j mem => return writeJump l1.jmpOffset mem (l1.set j i))
        (l1.l1iAssociativity - 1) mem
      return store mem 1 (l1.set (l1.l1iAssociativity - 1) i) 0xc3)
    l1.l1iSets mem

/-- The probe buffer in a mapped block. -/
def L1iConfig.layout (C : L1iConfig) (block : Malloc C.sizeofPtr (C.pageSize * (C.l1Associativity + 1))) :
    L1iLayout where
  toL1iConfig := C
  memory := alignPage block.address
  memory_pos := by
    have hpos := block.pos
    unfold alignPage
    omega
  memory_fits := by
    have hfits := block.fits
    have haligns := C.page_aligns
    have hassoc := Nat.mul_le_mul_left C.pageSize C.assoc_bounds.2
    have hpages := Nat.mul_add_one C.pageSize C.l1Associativity
    unfold alignPage
    omega

/-- `l1i_prepare`, when no allocation fails. `leftovers` are the contents that `malloc` leaves in the two
arrays of `struct l1iinfo`, and `mem` those of the probe buffer. -/
def l1iPrepare {σ : Type} (C : L1iConfig) (block : Malloc C.sizeofPtr (C.pageSize * (C.l1Associativity + 1)))
    (leftovers : (Fin C.iMonitorMask → BitVec 64) × (Fin C.l1iSets → BitVec 8)) (mem : Mem)
    (random : σ → ℕ × σ) (monitoredSets : Option (List (BitVec 64))) (world : σ) :
    Run (L1iinfo × σ) := do
  let l1 := C.layout block
  require (l1.memory % 0x1000 = 0) .assertion
  let mem ← l1iWriteCode l1 mem
  l1iSetMonitoredSet random {
    layout := l1
    monitoredSets := List.ofFn leftovers.1
    monitored := List.ofFn leftovers.2
    nsets := 0
    mem := mem } monitoredSets world

/-- `l1i_rewrite`: the first word of every line is loaded and stored again. -/
def l1iRewrite (s : L1iinfo) : Run L1iinfo := do
  let l1 := s.layout
  require (l1.memory ≠ 0) .assertion
  let mem ← forUpto (fun i mem =>
      let linePtr := l1.memory + i * l1.l1iCacheline
      return store mem l1.sizeofPtr linePtr (load mem l1.sizeofPtr linePtr))
    l1.l1iLines s.mem
  return { s with mem }

/-! ### Probing -/

section Probing

variable {σ : Type} (clock : σ → BitVec 32 × σ) (fuel : ℕ) (s : L1iinfo)

/-- `l1i_probe`: the addresses of the instructions that each of its calls executes, and `results`. A call may
execute as many instructions as `fuel` says. -/
def l1iProbe (results : List (BitVec 16)) (world : σ) : Run (List (List ℕ) × List (BitVec 16) × σ) :=
  forUpto (fun i (st : List (List ℕ) × List (BitVec 16) × σ) => do
      let start := clock st.2.2
      let set ← readAt s.monitored i
      let executed ← call s.layout.sizeofPtr s.mem fuel (s.layout.set 0 set.toNat)
      let res := clock start.2
      let results ← writeAt st.2.1 i (clampTime (res.1 - start.1))
      return (st.1 ++ [executed], results, res.2))
    s.nsets ([], results, world)

/-- `l1i_prime`. -/
def l1iPrime : Run (List (List ℕ)) :=
  forUpto (fun i (calls : List (List ℕ)) => do
      let set ← readAt s.monitored i
      let executed ← call s.layout.sizeofPtr s.mem fuel (s.layout.set 0 set.toNat)
      return calls ++ [executed])
    s.nsets []

end Probing

/-- The calls that change the prober between two probes. -/
inductive L1iCall where
  | setMonitoredSet (monitoredSets : Option (List (BitVec 64)))
  | rewrite

/-- A call of an entry point. -/
def l1iCall {σ : Type} (random : σ → ℕ × σ) : L1iCall → L1iinfo × σ → Run (Unit × L1iinfo × σ)
  | .setMonitoredSet monitoredSets, (s, world) => do
      let st ← l1iSetMonitoredSet random s monitoredSets world
      return ((), st)
  | .rewrite, (s, world) => do
      let s ← l1iRewrite s
      return ((), s, world)

end ChannelBench
