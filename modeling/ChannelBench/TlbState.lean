import ChannelBench.CArray
import ChannelBench.CMemory

/-! The TLB walk of `tlb_spy.c` on x86. `allocbuf` links one word of each page of its buffer into a chain
that starts in page 0 and visits the other pages in an order drawn at random; `tlb_probe` follows the chain
for as many words as it is asked to. The accesses are checked against the block that `malloc` returned, and
the size of the block against the range of `int`. The indices are smaller and are integers here. -/

namespace ChannelBench

open CSem

/-- The macros of `tlb_spy.c`. -/
structure TlbConfig where
  spyTlbPages : ℕ
  trojanTlbPages : ℕ

/-- The values that `tlb_spy.c` gives them. -/
def tlbSpy : TlbConfig where
  spyTlbPages := 32
  trojanTlbPages := 64

/-- `pages` of `allocbuf`. -/
def TlbConfig.pages (C : TlbConfig) (spy : ℕ) : ℕ := if spy ≠ 0 then C.spyTlbPages else C.trojanTlbPages

/-- `offset(i, spy)`. The condition of the conditional is the whole sum, as `+` binds more tightly. -/
def offset (i spy : ℕ) : ℕ := if i * 793 % 512 + (spy &&& i) ≠ 0 then 512 else 0

/-- The static `buf`, the block it lies in, and the words of the block by their index from `buf` on. -/
structure TlbBuf where
  block : ℕ
  size : ℕ
  buf : ℕ
  words : ℤ → ℤ

/-- The word at an index lies in the block. -/
def TlbBuf.Inside (m : TlbBuf) (i : ℤ) : Prop :=
  (m.block : ℤ) ≤ m.buf + 4 * i ∧ m.buf + 4 * i + 4 ≤ (m.block + m.size : ℕ)

instance (m : TlbBuf) (i : ℤ) : Decidable (m.Inside i) := inferInstanceAs (Decidable (_ ∧ _))

/-- `buf[i]`. -/
def TlbBuf.read (m : TlbBuf) (i : ℤ) : Run ℤ := do
  require (m.Inside i) .bounds
  return m.words i

/-- `buf[i] = value`. -/
def TlbBuf.write (m : TlbBuf) (i value : ℤ) : Run TlbBuf := do
  require (m.Inside i) .bounds
  return { m with words := Function.update m.words i value }

section Alloc

variable {σ : Type} (random : σ → ℕ × σ)

/-- The loop of `allocbuf` that shuffles the pages behind the first one. -/
def tlbShuffle (pages : ℕ) (r : List ℕ) (world : σ) : Run (List ℕ × σ) :=
  forUpto (fun k st => do
      let i := k + 1
      let draw := random st.2
      let j := i + draw.1 % (pages - i)
      let r ← swapAt st.1 j i
      return (r, draw.2))
    (pages - 1) (r, world)

/-- The loop of `allocbuf` that links each page to the next one, and the end of the chain. -/
def tlbLink (pages spy : ℕ) (r : List ℕ) (m : TlbBuf) : Run TlbBuf := do
  let m ← forUpto (fun i m => do
      let here ← readAt r i
      let next ← readAt r (i + 1)
      m.write (1024 * here + offset i spy : ℕ) (1024 * next + offset (i + 1) spy : ℕ))
    (pages - 1) m
  require (0 < pages) .bounds
  let last ← readAt r (pages - 1)
  m.write (1024 * last + offset (pages - 1) spy : ℕ) (-1)

/-- `allocbuf`, when no allocation fails. `b` is the block for the buffer, and `leftovers` are the contents
that `malloc` leaves in the two blocks. -/
def allocbuf {sizeofPtr : ℕ} (C : TlbConfig) (spy : ℕ) (b : Malloc sizeofPtr (C.pages spy * 4096 + 4096))
    (leftovers : (ℤ → ℤ) × (Fin (C.pages spy) → ℕ)) (world : σ) : Run (TlbBuf × σ) := do
  let pages := C.pages spy
  require (pages * 4096 + 4096 < 2 ^ 31) .overflow
  let m : TlbBuf := {
    block := b.address
    size := pages * 4096 + 4096
    buf := (b.address + 4096) / 4096 * 4096
    words := leftovers.1 }
  let r ← forUpto (fun i r => writeAt r i i) pages (List.ofFn leftovers.2)
  let (r, world) ← tlbShuffle random pages r world
  let m ← tlbLink pages spy r m
  return (m, world)

end Alloc

/-- The variables of the loop of `tlb_probe`, with the indices it has read. -/
structure TlbWalk where
  reads : List ℤ
  i : ℤ
  secret : ℤ

/-- The body of `do { i = buf[i]; } while ((i != 0) && (--secret > 0))`. -/
def tlbProbeRound (m : TlbBuf) (st : TlbWalk) : Run (TlbWalk ⊕ TlbWalk) := do
  let i ← m.read st.i
  let reads := st.reads ++ [st.i]
  if i ≠ 0 then
    let secret := st.secret - 1
    if 0 < secret then
      return .inl ⟨reads, i, secret⟩
    else
      return .inr ⟨reads, i, secret⟩
  else
    return .inr ⟨reads, i, st.secret⟩

/-- `tlb_probe`, with the indices that it reads in order. Every round but the last one decrements `secret`,
so the loop ends within the rounds that it is given. -/
def tlbProbe {σ : Type} (rdtscp : σ → BitVec 32 × σ) (m : TlbBuf) (secret : ℤ) (world : σ) :
    Run (List ℤ × BitVec 32 × σ) := do
  let start := rdtscp world
  if secret = 0 then
    let now := rdtscp start.2
    return ([], now.1 - start.1, now.2)
  let walk ← loop (tlbProbeRound m) (secret.toNat + 1) ⟨[], 0, secret⟩
  let now := rdtscp start.2
  return (walk.reads, now.1 - start.1, now.2)

end ChannelBench
