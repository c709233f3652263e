import ChannelBench.CString

/-! The trace scanners of `search.h`. A trace is a C string in which an at sign is a sample with a cache
miss. `findstart` looks for the first miss after a long gap, `findend` cuts the trace off at the next
long gap, `histogram` counts the distances of the misses in between, and `parse` prints a key bit for
each of them. -/

namespace ChannelBench

open CSem

/-- `GAPLEN`. -/
def gapLen : ℕ := 200

/-- `SPLIT`. -/
def split : ℕ := 20

/-- `findstart`: the index of the first `'@'` after a gap, if there is one. -/
def findstart (buffer : List Char) (record : ℕ) : Run (Option ℕ) :=
  scanString buffer (fun record c len => do
      if c = '@' then
        if gapLen ≤ len then
          return .inr (some record)
        return .inl 0
      else
        return .inl (len + 1))
    (fun _ => none) record 0

/-- `findend`: the buffer after the NUL has been written. -/
def findend (buffer : List Char) (record : ℕ) : Run (List Char) :=
  scanString buffer (fun record c len => do
      if c = '@' then
        return .inl 0
      else
        let len := len + 1
        if len = gapLen then
          require (gapLen ≤ record) .bounds
          let buffer ← writeAt buffer (record - gapLen) nul
          return .inr buffer
        return .inl len)
    (fun _ => buffer) record 0

/-- `histogram`: the buckets. The last one also counts the longer runs. -/
def histogram (buffer : List Char) (record : ℕ) (hist : List ℕ) (max : ℕ) : Run (List ℕ) := do
  let hist ← forUpto (fun i hist => writeAt hist i 0) max hist
  scanString buffer (fun _ c (st : ℕ × List ℕ) => do
      if c = '@' then
        -- `len >= 0` always holds, so without buckets this is `hist[-1]`
        require (0 < max) .bounds
        let len := if max ≤ st.1 then max - 1 else st.1
        let count ← readAt st.2 len
        let hist ← writeAt st.2 len (count + 1)
        return .inl (0, hist)
      else
        return .inl (st.1 + 1, st.2))
    Prod.snd (record + 1) (0, hist)

/-- `parse`: what is printed. -/
def parse (buffer : List Char) (record : ℕ) : Run (List Char) := do
  let lens := List.replicate 100 0
  scanString buffer (fun _ c (st : ℕ × List ℕ × List Char) => do
      if c = '@' then
        let out := st.2.2 ++ [if st.1 < split then '0' else '1']
        let len := if st.1 > 99 then 99 else st.1
        let count ← readAt st.2.1 len
        let lens ← writeAt st.2.1 len (count + 1)
        return .inl (0, lens, out)
      else
        return .inl (st.1 + 1, st.2))
    (fun st => st.2.2 ++ ['\n']) (record + 1) (0, lens, "Key bits: 1".toList)

/-- `low` and `high` of `attack`. -/
def lowHigh (hist : List ℕ) : Run (ℕ × ℕ) := do
  let low ← forUpto (fun i low => do return low + (← readAt hist i)) split 0
  let high ← forUpto (fun i high => do return high + (← readAt hist (split + i))) (100 - split) 0
  return (low, high)

/-- The calls of `attack` that turn the trace behind `start` into key bits. -/
def printKey (buffer : List Char) (start : ℕ) : Run (List Char) := do
  let buffer ← findend buffer start
  parse buffer start

/-! ### What is to be printed -/

/-- A gap begins at a place of a trace. -/
def GapAt (text : List Char) (i : ℕ) : Prop :=
  ((text.drop i).take gapLen).length = gapLen ∧ '@' ∉ (text.drop i).take gapLen

instance (text : List Char) (i : ℕ) : Decidable (GapAt text i) := by
  unfold GapAt
  infer_instance

/-- Where the first gap begins, or the end of the trace. -/
def gapStart (text : List Char) : ℕ :=
  ((List.range text.length).find? (fun i => decide (GapAt text i))).getD text.length

/-- The number of samples between each miss among the first samples of a trace and the miss before it. -/
def missGaps (text : List Char) (n : ℕ) : List ℕ :=
  ((List.range n).filter (fun i => text[i]? = some '@')).map fun i => tailRun '@' (text.take i)

/-- The bit of a miss: `0` when it follows the miss before it closely. -/
def keyBit (text : List Char) (i : ℕ) : Char :=
  if tailRun '@' (text.take i) < split then '0' else '1'

/-- The bits of the misses among the first samples of a trace. -/
def keyBitsTo (text : List Char) (n : ℕ) : List Char :=
  ((List.range n).filter (fun i => text[i]? = some '@')).map (keyBit text)

/-- The key bits of the trace behind a start. -/
def keyBits (text : List Char) : List Char := keyBitsTo text (gapStart text)

end ChannelBench
