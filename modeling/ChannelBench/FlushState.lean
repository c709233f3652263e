import ChannelBench.L1iProbes
import ChannelBench.L1Runs

/-! The cache flush benchmarks of `cache_flush.c` and the calibration of `bench_helper.h`. A benchmark measures
the overhead of reading the cycle counter and then, once for each time slice, how long some work takes; the
overhead is subtracted from every result. The readings of the counter are a sequence, of which each reading
takes the next element. -/

namespace ChannelBench

open CSem

def benchWarmups : ℕ := 10

def benchOverheadRuns : ℕ := 10

def benchOverheadRetries : ℕ := 4

def benchCacheFlushRuns : ℕ := 100

/-- `struct bench_cache_flush`; `w` is the width of a `ccnt_t`. -/
structure BenchCacheFlush (w : ℕ) where
  overhead : BitVec w
  costs : List (BitVec w)

/-! ### The calibration -/

section Calibration

variable {w : ℕ}

/-- `overhead_stable`. -/
def overheadStable (array : List (BitVec w)) : Run Bool :=
  loop (fun i => do
      if i < benchOverheadRuns then
        let here ← readAt array i
        let before ← readAt array (i - 1)
        if here ≠ before then
          return .inr false
        return .inl (i + 1)
      else
        return .inr true)
    (benchOverheadRuns + 1) 1

/-- `find_min_overhead`. -/
def findMinOverhead (array : List (BitVec w)) : Run (BitVec w) := do
  let min ← readAt array 0
  forUpto (fun k min => do
      let x ← readAt array (k + 1)
      if x < min then
        return x
      else
        return min)
    (benchOverheadRuns - 1) min

variable (reading : ℕ → BitVec w)

/-- The loops of `measure_overhead` that fill `local_overhead` once. -/
def overheadBatch (localOverhead : List (BitVec w)) (n : ℕ) : Run (List (BitVec w) × ℕ) :=
  forUpto (fun j st =>
      forUpto (fun _ st => do
          let start := reading st.2
          let stop := reading (st.2 + 1)
          let localOverhead ← writeAt st.1 j (stop - start)
          return (localOverhead, st.2 + 2))
        benchWarmups st)
    benchOverheadRuns (localOverhead, n)

/-- `measure_overhead`, from reading `n` on: what it returns, the overhead, and the number of readings taken. -/
def measureOverhead (localOverhead : List (BitVec w)) (n : ℕ) : Run (Bool × BitVec w × ℕ) :=
  loop (fun st : ℕ × List (BitVec w) × ℕ => do
      if st.1 < benchOverheadRetries then
        let batch ← overheadBatch reading st.2.1 st.2.2
        if ← overheadStable batch.1 then
          let overhead ← readAt batch.1 0
          return .inr (true, overhead, batch.2)
        return .inl (st.1 + 1, batch)
      else
        let overhead ← findMinOverhead st.2.1
        return .inr (false, overhead, st.2.2))
    (benchOverheadRetries + 1) (0, localOverhead, n)

end Calibration

/-! ### The benchmarks -/

/-- What a benchmark asks of the kernel and of the other threads. -/
inductive FlushCall where
  | setMR (i value : ℕ)
  | send
  | newTimeSlice
  | yield

/-- The state of a benchmark: the number of readings taken, the record, and the calls made. -/
structure FlushState (w : ℕ) where
  taken : ℕ
  record : BenchCacheFlush w
  calls : List FlushCall

section Benchmark

variable {w : ℕ} (reading : ℕ → BitVec w)

/-- One round of the loop of a benchmark. A `tagged` benchmark sets a message register before its work, and a
`yields` benchmark yields after it. -/
def flushRound (tagged yields : Bool) (work : Run Unit) (overhead : BitVec w) (i : ℕ) (s : FlushState w) :
    Run (FlushState w) := do
  let calls := s.calls ++ [.newTimeSlice] ++ if tagged then [.setMR 100 0x12345678] else []
  let start := reading s.taken
  work
  let stop := reading (s.taken + 1)
  let costs ← writeAt s.record.costs i (stop - start - overhead)
  return {
    taken := s.taken + 2
    record := { s.record with costs }
    calls := calls ++ if yields then [.yield] else [] }

/-- The common body of the benchmarks, up to their last loop. `leftovers` are the contents of
`local_overhead` and of `costs` before. -/
def cacheFlushBenchmark (tagged yields : Bool) (work : Run Unit)
    (leftovers : (Fin benchOverheadRuns → BitVec w) × (Fin benchCacheFlushRuns → BitVec w)) :
    Run (FlushState w) := do
  let (_, overhead, taken) ← measureOverhead reading (List.ofFn leftovers.1) 0
  let s ← forUpto (flushRound reading tagged yields work overhead) benchCacheFlushRuns {
    taken
    record := { overhead, costs := List.ofFn leftovers.2 }
    calls := [.setMR 0 0, .send] }
  return { s with
    calls := s.calls ++ [.newTimeSlice] ++ (if tagged then [.setMR 100 0] else []) ++ [.setMR 0 0, .send] }

end Benchmark

/-- `access_llc_buffer`, with the addresses it accesses. -/
def accessLlcBuffer (l3Size l1Cacheline buffer : ℕ) : Run (List ℕ) :=
  forUpto (fun i accesses => return accesses ++ [buffer + i * l1Cacheline]) (l3Size / l1Cacheline) []

/-- The prober that a benchmark of the L1 caches has prepared; the second one with
`CONFIG_BENCH_CACHE_FLUSH_L1_CACHES_INSTRUCTION`. -/
inductive L1Prober where
  | data (s : L1info)
  | instruction (l1 : L1iLayout) (masks : List (BitVec 64)) (s : L1iinfo) (inv : L1iInv l1 masks s)

/-- `l1_prime` or `l1i_prime`. -/
def L1Prober.prime : L1Prober → Run Unit
  | data s => do
      let _ ← l1Prime s
      return ()
  | instruction l1 _ s _ => do
      let _ ← l1iPrime l1.l1iAssociativity s
      return ()

/-- The buffer of a benchmark of the LLC, with `L3_SIZE` and `L1_CACHELINE`. -/
structure LlcBuffer where
  l3Size : ℕ
  l1Cacheline : ℕ
  buf : ℕ

def LlcBuffer.access (b : LlcBuffer) : Run Unit := do
  let _ ← accessLlcBuffer b.l3Size b.l1Cacheline b.buf
  return ()

section Benchmarks

variable {w : ℕ} (reading : ℕ → BitVec w)
  (leftovers : (Fin benchOverheadRuns → BitVec w) × (Fin benchCacheFlushRuns → BitVec w))

/-- `llc_cache_flush`. -/
def llcCacheFlush (b : LlcBuffer) : Run (FlushState w) :=
  cacheFlushBenchmark reading true false b.access leftovers

/-- `llc_cache_flush_only`. -/
def llcCacheFlushOnly (b : LlcBuffer) : Run (FlushState w) :=
  cacheFlushBenchmark reading false true b.access leftovers

/-- `l1_cache_nothing`. -/
def l1CacheNothing : Run (FlushState w) :=
  cacheFlushBenchmark reading true false (pure ()) leftovers

/-- `l1_cache_flush_only`. -/
def l1CacheFlushOnly (prober : L1Prober) : Run (FlushState w) :=
  cacheFlushBenchmark reading false true prober.prime leftovers

/-- `l1_cache_flush`. -/
def l1CacheFlush (prober : L1Prober) : Run (FlushState w) :=
  cacheFlushBenchmark reading true false prober.prime leftovers

/-- A benchmark of `cache_flush.c`. -/
inductive FlushBench where
  | llcCacheFlush (b : LlcBuffer)
  | llcCacheFlushOnly (b : LlcBuffer)
  | l1CacheNothing
  | l1CacheFlushOnly (prober : L1Prober)
  | l1CacheFlush (prober : L1Prober)

def FlushBench.run : FlushBench → Run (FlushState w)
  | .llcCacheFlush b => ChannelBench.llcCacheFlush reading leftovers b
  | .llcCacheFlushOnly b => ChannelBench.llcCacheFlushOnly reading leftovers b
  | .l1CacheNothing => ChannelBench.l1CacheNothing reading leftovers
  | .l1CacheFlushOnly prober => ChannelBench.l1CacheFlushOnly reading leftovers prober
  | .l1CacheFlush prober => ChannelBench.l1CacheFlush reading leftovers prober

end Benchmarks

end ChannelBench
