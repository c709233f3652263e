import ChannelBench.CArray
import ChannelBench.CBitmap
import ChannelBench.CMemory
import Mathlib.Tactic.Linarith

/-! The L1 probe list of `l1.c`, which also serves the L2 cache. Every line of the probe buffer holds
a forward and a backward pointer. `l1_prepare` links the ways of each set; `l1_randomise` draws an
order of the monitored sets and links the sets in that order. -/

namespace ChannelBench

open CSem

/-- The macros of `low.h` for the probed cache, and `sizeof(void *)`. -/
structure L1Config where
  sizeofPtr : ℕ
  l1Associativity : ℕ
  l1Sets : ℕ
  l1Cacheline : ℕ
  ptr_pos : 0 < sizeofPtr
  ptr_room : 2 * sizeofPtr ≤ 16
  line_room : sizeofPtr + 20 ≤ l1Cacheline
  assoc_pos : 0 < l1Associativity
  mask_words : 64 ∣ l1Sets
  sets_fit : l1Sets ≤ 2 ^ 16

/-- `CONFIG_ARCH_X86`, with the L1 or the L2 cache as the probed one. -/
def x86L1 (l2 : Bool) : L1Config where
  sizeofPtr := 8
  l1Associativity := 8
  l1Sets := if l2 then 512 else 64
  l1Cacheline := 64
  ptr_pos := by decide
  ptr_room := by decide
  line_room := by decide
  assoc_pos := by decide
  mask_words := by cases l2 <;> decide
  sets_fit := by cases l2 <;> decide

/-- `CONFIG_PLAT_TX1`. -/
def tx1L1 : L1Config where
  sizeofPtr := 8
  l1Associativity := 2
  l1Sets := 256
  l1Cacheline := 64
  ptr_pos := by decide
  ptr_room := by decide
  line_room := by decide
  assoc_pos := by decide
  mask_words := by decide
  sets_fit := by decide

/-- `CONFIG_PLAT_HIKEY`. -/
def hikeyL1 : L1Config where
  sizeofPtr := 8
  l1Associativity := 4
  l1Sets := 128
  l1Cacheline := 64
  ptr_pos := by decide
  ptr_room := by decide
  line_room := by decide
  assoc_pos := by decide
  mask_words := by decide
  sets_fit := by decide

/-- `CONFIG_PLAT_SABRE`. -/
def sabreL1 : L1Config where
  sizeofPtr := 4
  l1Associativity := 4
  l1Sets := 256
  l1Cacheline := 32
  ptr_pos := by decide
  ptr_room := by decide
  line_room := by decide
  assoc_pos := by decide
  mask_words := by decide
  sets_fit := by decide

namespace L1Config

/-- `L1_STRIDE`. -/
def l1Stride (C : L1Config) : ℕ := C.l1Cacheline * C.l1Sets

/-- `L1_PROBE_BUFFER`. -/
def l1ProbeBuffer (C : L1Config) : ℕ := C.l1Stride * C.l1Associativity + 4096

/-- `MONITOR_MASK`. -/
def monitorMask (C : L1Config) : ℕ := C.l1Sets / 64

end L1Config

/-- The probe buffer. -/
structure L1Layout extends L1Config where
  memory : ℕ
  memory_pos : 0 < memory
  memory_fits : memory + toL1Config.l1Stride * l1Associativity ≤ 256 ^ sizeofPtr

/-- `PTR`: the address of a pointer in the line of a set and a way. -/
def L1Layout.ptr (l1 : L1Layout) (set way ptr : ℕ) : ℕ :=
  l1.memory + set * l1.l1Cacheline + way * l1.l1Stride + ptr * l1.sizeofPtr

/-- `struct l1info` and the memory of the probe buffer. -/
structure L1info where
  layout : L1Layout
  fwdlist : ℕ
  bkwlist : ℕ
  monitoredSets : List (BitVec 64)
  monitored : List ℕ
  nsets : ℕ
  mem : Mem

/-! ### Building the lists -/

/-- Store of the pointer `value` at `address`: `LNEXT(address) = value`. -/
def L1Layout.link (l1 : L1Layout) (mem : Mem) (address value : ℕ) : Mem :=
  store mem l1.sizeofPtr address value

/-- The loop of `l1_randomise` that shuffles the monitored sets. -/
def l1Shuffle {σ : Type} (random : σ → ℕ × σ) (nsets : ℕ) (monitored : List ℕ) (world : σ) :
    Run (List ℕ × σ) :=
  forUpto (fun i st => do
      let draw := random st.2
      let p := draw.1 % (nsets - i) + i
      let monitored ← swapAt st.1 i p
      return (monitored, draw.2))
    nsets (monitored, world)

/-- `l1_randomise`. Without a monitored set it would read `monitored[-1]`. -/
def l1Randomise {σ : Type} (random : σ → ℕ × σ) (s : L1info) (world : σ) : Run (L1info × σ) := do
  let l1 := s.layout
  let last := l1.l1Associativity - 1
  let (monitored, world) ← l1Shuffle random s.nsets s.monitored world
  let mem ← forUpto (fun i mem => do
      let here ← readAt monitored i
      let next ← readAt monitored (i + 1)
      let mem := l1.link mem (l1.ptr here last 0) (l1.ptr next 0 0)
      return l1.link mem (l1.ptr here 0 1) (l1.ptr next last 1))
    (s.nsets - 1) s.mem
  require (0 < s.nsets) .bounds
  let final ← readAt monitored (s.nsets - 1)
  let first ← readAt monitored 0
  let fwdlist := l1.ptr first 0 0
  let mem := l1.link mem (l1.ptr final last 0) fwdlist
  let bkwlist := l1.ptr first last 1
  let mem := l1.link mem (l1.ptr final 0 1) bkwlist
  return ({ s with monitored, mem, fwdlist, bkwlist }, world)

/-- The inner loop of `l1_set_monitored_set`: the sets of one word of the mask. -/
def l1MonitorWord (i : ℕ) (mask : BitVec 64) (st : ℕ × List ℕ) : Run (ℕ × List ℕ) :=
  forUpto (fun j st => do
      if mask &&& 1#64 <<< j != 0#64 then
        let monitored ← writeAt st.2 st.1 ((i * 64 + j) % 2 ^ 16)
        return (st.1 + 1, monitored)
      else
        return st)
    64 st

/-- `l1_set_monitored_set`; `none` is the `NULL` mask. -/
def l1SetMonitoredSet {σ : Type} (random : σ → ℕ × σ) (s : L1info)
    (monitoredSets : Option (List (BitVec 64))) (world : σ) : Run (L1info × σ) := do
  match monitoredSets with
  | none => throw .assertion
  | some masks =>
      let (sets, nsets, monitored) ← forUpto (fun i st => do
          let mask ← readAt masks i
          let sets ← writeAt st.1 i mask
          let st ← l1MonitorWord i mask st.2
          return (sets, st))
        s.layout.monitorMask (s.monitoredSets, 0, s.monitored)
      l1Randomise random { s with monitoredSets := sets, monitored, nsets } world

/-- The loops of `l1_prepare` that link the ways of every set. -/
def l1LinkWays (l1 : L1Layout) (mem : Mem) : Run Mem :=
  forUpto (fun set mem =>
      forUpto (fun way mem => do
          let mem := l1.link mem (l1.ptr set way 0) (l1.ptr set (way + 1) 0)
          return l1.link mem (l1.ptr set (way + 1) 1) (l1.ptr set way 1))
        (l1.l1Associativity - 1) mem)
    l1.l1Sets mem

/-- `(p + 0xfff) & ~0xfff`. -/
def alignPage (p : ℕ) : ℕ := (p + 0xfff) / 0x1000 * 0x1000

/-- The probe buffer in a mapped block. -/
def L1Config.layout (C : L1Config) (block : Malloc C.sizeofPtr C.l1ProbeBuffer) : L1Layout where
  toL1Config := C
  memory := alignPage block.address
  memory_pos := by
    have hpos := block.pos
    unfold alignPage
    omega
  memory_fits := by
    have hfits := block.fits
    unfold alignPage
    unfold L1Config.l1ProbeBuffer at hfits
    omega

/-- `l1_prepare`, when no allocation fails. `leftovers` are the contents that `malloc` leaves in the two
arrays of `struct l1info`, and `mem` those of the probe buffer. -/
def l1Prepare {σ : Type} (C : L1Config) (block : Malloc C.sizeofPtr C.l1ProbeBuffer)
    (leftovers : (Fin C.monitorMask → BitVec 64) × (Fin C.l1Sets → ℕ)) (mem : Mem)
    (random : σ → ℕ × σ) (monitoredSets : Option (List (BitVec 64))) (world : σ) :
    Run (L1info × σ) := do
  let l1 := C.layout block
  require (l1.memory % 0x1000 = 0) .assertion
  let mem ← l1LinkWays l1 mem
  l1SetMonitoredSet random {
    layout := l1
    fwdlist := 0
    bkwlist := 0
    monitoredSets := List.ofFn leftovers.1
    monitored := List.ofFn leftovers.2
    nsets := 0
    mem := mem } monitoredSets world

/-! ### Following the lists -/

/-- The inner loop of `probelist`; `write` is `CONFIG_BENCH_COVERT_L1D_WRITE`. -/
def probeSegment (sizeofPtr : ℕ) (write : Bool) : ℕ → ℕ × Mem → ℕ × Mem
  | 0, st => st
  | seglen + 1, (p, mem) =>
      if p = 0 then
        (p, mem)
      else
        let mem := if write then store mem 4 (p + 16) 0xff else mem
        probeSegment sizeofPtr write seglen (load mem sizeofPtr p, mem)

/-- `res > UINT16_MAX ? UINT16_MAX : res`. -/
def clampTime (res : BitVec 32) : BitVec 16 :=
  if res > 0xffff#32 then 0xffff#16 else res.setWidth 16

/-- `probelist`, with the values written to `results` in order. -/
def probelist {σ : Type} (clock : σ → BitVec 32 × σ) (sizeofPtr : ℕ) (write : Bool)
    (pp segments seglen : ℕ) (mem : Mem) (world : σ) : Run (ℤ × List (BitVec 16) × Mem × σ) := do
  let (p, results, mem, world) ← forUpto
    (fun _ (st : ℕ × List (BitVec 16) × Mem × σ) => do
      let s := clock st.2.2.2
      let walked := probeSegment sizeofPtr write seglen (st.1, st.2.2.1)
      let res := clock s.2
      return (walked.1, st.2.1 ++ [clampTime (res.1 - s.1)], walked.2, res.2))
    segments (pp, [], mem, world)
  return (if p = pp then 1 else 0, results, mem, world)

/-- The inner loop of `primelist`. -/
def primeSegment (sizeofPtr : ℕ) (mem : Mem) : ℕ → ℕ → ℕ
  | 0, p => p
  | seglen + 1, p => if p = 0 then p else primeSegment sizeofPtr mem seglen (load mem sizeofPtr p)

/-- `primelist`. -/
def primelist (sizeofPtr : ℕ) (mem : Mem) (p segments seglen : ℕ) : Run ℕ :=
  forUpto (fun _ p => return primeSegment sizeofPtr mem seglen p) segments p

section Entry

variable {σ : Type} (clock : σ → BitVec 32 × σ) (write : Bool) (s : L1info) (world : σ)

/-- `l1_probe`. -/
def l1Probe : Run (ℤ × List (BitVec 16) × L1info × σ) := do
  let (back, results, mem, world) ← probelist clock s.layout.sizeofPtr write s.fwdlist s.nsets
    s.layout.l1Associativity s.mem world
  return (back, results, { s with mem }, world)

/-- `l1_bprobe`. -/
def l1Bprobe : Run (List (BitVec 16) × L1info × σ) := do
  let (_, results, mem, world) ← probelist clock s.layout.sizeofPtr write s.bkwlist s.nsets
    s.layout.l1Associativity s.mem world
  return (results, { s with mem }, world)

/-- `l1_prime`. -/
def l1Prime : Run ℕ :=
  primelist s.layout.sizeofPtr s.mem s.fwdlist s.nsets s.layout.l1Associativity

end Entry

end ChannelBench
