import ChannelBench.CDoubly

/-! The L1 data cache attack of `dcache.c`. The lines of the prime buffer are linked into one list per
cache set, in an order drawn at random; the last line of a set leads to the first one of the next set
for priming, and the first line to the last one for probing. A probe leaves the time of a set in the
line at which it finishes with the set, and `record` adds it to the cell of the plaintext. -/

namespace ChannelBench

open CSem

/-! ### `bench_common.h` -/

def clSize : ℕ := 64

def nL1dSets : ℕ := 64

def nL1dWays : ℕ := 8

def nL1dWayBitmask : BitVec 32 := 0xff#32

def l1dSetSize : ℕ := 0x1000

def aesMsgSize : ℕ := 16

def nPtB : ℕ := 256

/-- The static data of `dcache.c`, with `struct bl` field by field. `msgTime i p s` is
`msg_time[i].t[p][s]`. -/
structure Dcache where
  pBuf : ℕ
  pBuf_pos : 0 < pBuf
  time : ℕ → BitVec 64
  prev : ℕ → ℕ
  next : ℕ → ℕ
  nextSet : ℕ → ℕ
  set0Head : ℕ
  set0Tail : ℕ
  pText : ℕ → BitVec 8
  msgTime : ℕ → ℕ → ℕ → BitVec 64

/-- `p_buf + s * CL_SIZE + w * L1D_SET_SIZE`. -/
def lineAddress (pBuf s w : ℕ) : ℕ := pBuf + s * clSize + w * l1dSetSize

/-! ### Building the lists -/

/-- The variables of `buffer_init` in the loop over the ways of a set. -/
structure SetState (σ : Type) where
  buf : Dcache
  pL : ℕ
  setH : ℕ
  setT : ℕ
  bitMask : BitVec 32
  world : σ

/-- A round of `while (bit_mask != N_L1D_WAY_BITMASK)`. -/
def bufferInitRound {σ : Type} (rand : σ → ℕ × σ) (s : ℕ) (st : SetState σ) :
    Run (SetState σ ⊕ SetState σ) := do
  if st.bitMask ≠ nL1dWayBitmask then
    let draw := rand st.world
    let w := draw.1 % nL1dWays
    let l := lineAddress st.buf.pBuf s w
    if st.bitMask &&& 1#32 <<< w != 0#32 then
      return .inl { st with world := draw.2 }
    let prev := Function.update st.buf.prev l st.pL
    let next := if st.pL = 0 then st.buf.next else Function.update st.buf.next st.pL l
    let setH := if st.bitMask = 0#32 then l else st.setH
    let bitMask := st.bitMask ||| 1#32 <<< w
    let setT := if bitMask = nL1dWayBitmask then l else st.setT
    return .inl { buf := { st.buf with prev, next }, pL := l, setH, setT, bitMask, world := draw.2 }
  else
    return .inr st

/-- The body of the loop of `buffer_init` over the sets; the state carries `p_set_h` and `p_set_t`. -/
def bufferInitSet {σ : Type} (rand : σ → ℕ × σ) (fuel s : ℕ) (st : Dcache × ℕ × ℕ × σ) :
    Run (Dcache × ℕ × ℕ × σ) := do
  let (buf, pSetH, pSetT, world) := st
  let set ← loop (bufferInitRound rand s) fuel
    { buf, pL := 0, setH := 0, setT := 0, bitMask := 0#32, world }
  if s = 0 then
    return ({ set.buf with set0Head := set.setH, set0Tail := set.setT }, set.setH, set.setT, set.world)
  else
    require (pSetH ≠ 0) .bounds
    let nextSet := Function.update set.buf.nextSet pSetH set.setT
    require (pSetT ≠ 0) .bounds
    let nextSet := Function.update nextSet pSetT set.setH
    return ({ set.buf with nextSet }, set.setH, set.setT, set.world)

/-- `buffer_init`; `fuel` bounds the draws for one set, which `rand()` may waste without end. -/
def bufferInit {σ : Type} (rand : σ → ℕ × σ) (fuel : ℕ) (d : Dcache) (world : σ) :
    Run (Dcache × σ) := do
  let d := { d with time := fun _ => 0, prev := fun _ => 0, next := fun _ => 0, nextSet := fun _ => 0 }
  let (d, _, _, world) ← forUpto (bufferInitSet rand fuel) nL1dSets (d, 0, 0, world)
  return (d, world)

/-! ### One measurement -/

/-- More steps than the buffer has lines. -/
def walkFuel : ℕ := nL1dSets * nL1dWays + 1

/-- `prime`: the lines read, in order. -/
def Dcache.prime (d : Dcache) : Run (List ℕ) :=
  loop (fun st : List ℕ × ℕ => do
      if st.2 ≠ 0 then
        let (lines, l) ← chase d.next walkFuel st.2
        return .inl (st.1 ++ lines, d.nextSet l)
      else
        return .inr st.1)
    walkFuel ([], d.set0Head)

/-- What `probe` does: the lines it reads, the times it measures, and the times it leaves in the lines. -/
structure Probing (σ : Type) where
  lines : List ℕ
  times : List (BitVec 64)
  time : ℕ → BitVec 64
  world : σ

/-- A round of `probe`. -/
def Dcache.probeRound {σ : Type} (clock : σ → BitVec 64 × σ) (d : Dcache) (st : Probing σ × ℕ) :
    Run ((Probing σ × ℕ) ⊕ Probing σ) := do
  if st.2 ≠ 0 then
    let start := clock st.1.world
    let (lines, l) ← chase d.prev walkFuel st.2
    let stop := clock start.2
    let measured := stop.1 - start.1
    return .inl ({
      lines := st.1.lines ++ lines
      times := st.1.times ++ [measured]
      time := Function.update st.1.time l measured
      world := stop.2 }, d.nextSet l)
  else
    return .inr st.1

/-- `probe`. -/
def Dcache.probe {σ : Type} (clock : σ → BitVec 64 × σ) (d : Dcache) (world : σ) : Run (Probing σ) :=
  loop (d.probeRound clock) walkFuel ({ lines := [], times := [], time := d.time, world }, d.set0Tail)

/-- The part of `encry` that draws the plaintext. -/
def Dcache.encry {σ : Type} (rand : σ → ℕ × σ) (d : Dcache) (world : σ) : Run (Dcache × σ) :=
  forUpto (fun i st => do
      let draw := rand st.2
      return ({ st.1 with pText := Function.update st.1.pText i (BitVec.ofNat 8 (draw.1 % nPtB)) }, draw.2))
    aesMsgSize (d, world)

/-- `g->t[p][s] += time`. -/
def addTime (msgTime : ℕ → ℕ → ℕ → BitVec 64) (i p s : ℕ) (time : BitVec 64) :
    ℕ → ℕ → ℕ → BitVec 64 :=
  fun i' p' s' => if i' = i ∧ p' = p ∧ s' = s then msgTime i' p' s' + time else msgTime i' p' s'

/-- A round of the outer loop of `record`. -/
def Dcache.recordByte (d : Dcache) (i : ℕ) (msgTime : ℕ → ℕ → ℕ → BitVec 64) :
    Run (ℕ → ℕ → ℕ → BitVec 64) := do
  let p := (d.pText i).toNat
  let (msgTime, _) ← forUpto (fun s st => do
      let (_, l) ← chase d.prev walkFuel st.2
      return (addTime st.1 i p s (d.time l), d.nextSet l))
    nL1dSets (msgTime, d.set0Tail)
  return msgTime

/-- `record`. -/
def Dcache.record (d : Dcache) : Run Dcache := do
  let msgTime ← forUpto d.recordByte aesMsgSize d.msgTime
  return { d with msgTime }

/-- `record_clear`. -/
def Dcache.recordClear (d : Dcache) : Dcache :=
  { d with msgTime := fun i p s => if i < aesMsgSize then 0 else d.msgTime i p s }

/-- What one iteration of `dcache_attack` did. -/
structure Sample where
  primed : List ℕ
  probed : List ℕ
  text : ℕ → BitVec 8
  times : List (BitVec 64)

/-- An iteration of `dcache_attack`. -/
def Dcache.attackRound {σ : Type} (rand : σ → ℕ × σ) (clock : σ → BitVec 64 × σ) (d : Dcache) (world : σ) :
    Run (Sample × Dcache × σ) := do
  let primed ← d.prime
  let (d, world) ← d.encry rand world
  let probing ← d.probe clock world
  let d ← { d with time := probing.time }.record
  return (⟨primed, probing.lines, d.pText, probing.times⟩, d, probing.world)

/-- The loop of `dcache_attack`. -/
def Dcache.attackRounds {σ : Type} (rand : σ → ℕ × σ) (clock : σ → BitVec 64 × σ) (nDTests : ℕ) (d : Dcache)
    (world : σ) : Run (List Sample × Dcache × σ) :=
  forUpto (fun _ st => do
      let (sample, d, world) ← st.2.1.attackRound rand clock st.2.2
      return (st.1 ++ [sample], d, world))
    nDTests ([], d, world)

/-- `dcache_attack`. -/
def dcacheAttack {σ : Type} (rand : σ → ℕ × σ) (clock : σ → BitVec 64 × σ) (fuel nDTests : ℕ)
    (d : Dcache) (world : σ) : Run (List Sample × Dcache × σ) := do
  let (d, world) ← bufferInit rand fuel d.recordClear world
  d.attackRounds rand clock nDTests world

end ChannelBench
