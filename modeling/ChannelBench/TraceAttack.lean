import ChannelBench.CMachine
import ChannelBench.TraceStart
import ChannelBench.TraceHistogram

/-! The attack on one cache set after the other. All of them share one record, so what a set leaves in it is
there when the next one is sampled. Every access stays inside the record and the buckets, the only fault is the
failed assertion, and what is printed has as many clear and set bits as the filter asks for. -/

namespace ChannelBench

open CSem

/-- The part of `attack` for one set: the record it leaves, and what it prints as a key. -/
def attackSet (searched recorded : ℕ → ℤ) (record : List Char) : Run (Option (List Char) × List Char) := do
  let record ← sample searched record searchLen
  let matched ← matchcount record 0 mask allowedMisses
  if searchLen * 2 / mask.length / 3 < matched then
    let record ← sample recorded record recordLen
    match ← recordedStart record with
    | none => return (none, record)
    | some (record, start) =>
        let record ← findend record start
        let r ← (do
          let hist ← histogram record start (List.replicate 100 0) 100
          lowHigh hist)
        if r.1 < 100 then
          return (none, record)
        if r.2 < 100 then
          return (none, record)
        if r.1 + r.2 < 2000 ∨ 2100 < r.1 + r.2 then
          return (none, record)
        let key ← parse record start
        return (some key, record)
  else
    return (none, record)

/-! ### The record -/

section Record

variable {record record' text : List Char}

theorem RecordBuffer.set_nul (h : RecordBuffer record) (i : ℕ) : RecordBuffer (record.set i nul) where
  length_eq := by rw [List.length_set, h.length_eq]
  last_nul := by
    have hlength := h.length_eq
    by_cases hi : i = recordLen
    · rw [hi, List.getElem?_set_self (by omega)]
    · rw [List.getElem?_set_ne hi, h.last_nul]

/-- `cleanup` writes nothing behind the string. -/
theorem RecordBuffer.cleaned (h : RecordBuffer record) (hstring : CString record 0 text)
    (hcleaned : Cleaned record text 0 text.length record') : RecordBuffer record' where
  length_eq := by rw [hcleaned.length_eq, h.length_eq]
  last_nul := by
    have hroom := hstring.length_lt
    rw [h.length_eq] at hroom
    rw [hcleaned.outside _ (.inr (by omega)), h.last_nul]

/-- A start that is found is one of the record that is left. -/
theorem recordedStart_returnsOr (h : RecordBuffer record) (hstring : CString record 0 text) :
    ReturnsOr .assertion (recordedStart record) fun r => ∀ record' start, r = some (record', start) →
      RecordBuffer record' ∧ ∃ rest, CString record' start ('@' :: rest) := by
  unfold recordedStart
  apply (matchcount_returns h mask allowedMisses).orFault.bind
  intro matched _
  by_cases hfew : matched < searchLen * 2 / mask.length / 3
  · rw [if_pos hfew]
    exact (returns_pure.mpr nofun).orFault
  · rw [if_neg hfew]
    apply (cleanup_returns hstring).orFault.bind
    intro record' hcleaned
    obtain ⟨text', htext', -, -⟩ := hcleaned.string hstring
    obtain ⟨found, hfound, -⟩ := findstart_returns htext'
    rw [hfound, ok_bind]
    cases found with
    | none => exact .inr rfl
    | some start =>
        apply (returns_pure.mpr _).orFault
        rintro _ _ ⟨⟩
        exact ⟨h.cleaned hstring hcleaned, _, findstart_string htext' hfound⟩

end Record

/-! ### Runs of the attack -/

/-- What a printed key looks like: the leading bit and as many bits of either kind as the filter asks for. -/
def PrintedKey (key : List Char) : Prop :=
  ∃ bits, key = "Key bits: 1".toList ++ bits ++ ['\n'] ∧ 100 ≤ bits.count '0' ∧ 100 ≤ bits.count '1' ∧
    2000 ≤ bits.length ∧ bits.length ≤ 2100

theorem length_keyBitsTo (text : List Char) : (keyBitsTo text text.length).length = text.count '@' := by
  rw [keyBitsTo_eq_map, List.length_map, length_missGaps]

/-- One set: every access is in range, the assertion aside. -/
theorem attackSet_returnsOr {record : List Char} (h : RecordBuffer record) (searched recorded : ℕ → ℤ) :
    ReturnsOr .assertion (attackSet searched recorded record) fun r =>
      (∀ key, r.1 = some key → PrintedKey key) ∧ RecordBuffer r.2 := by
  have hsearch : searchLen ≤ recordLen := by decide
  unfold attackSet
  apply (sample_returns h hsearch).orFault.bind
  intro short hshort
  have hshort' : RecordBuffer short := hshort ▸ h.sampled hsearch
  apply (matchcount_returns hshort' mask allowedMisses).orFault.bind
  intro matched _
  have hnothing : ∀ {record : List Char}, RecordBuffer record →
      ReturnsOr .assertion (pure (none, record) : Run (Option (List Char) × List Char)) fun r =>
        (∀ key, r.1 = some key → PrintedKey key) ∧ RecordBuffer r.2 :=
    fun hrecord => (returns_pure.mpr ⟨nofun, hrecord⟩).orFault
  by_cases hmatch : searchLen * 2 / mask.length / 3 < matched
  · rw [if_pos hmatch]
    apply (sample_returns hshort' (le_refl recordLen)).orFault.bind
    intro long hlong
    have hlong' : RecordBuffer long := hlong ▸ hshort'.sampled (le_refl recordLen)
    have hstring : CString long 0 (samples recorded recordLen) := hlong ▸ cString_sampled _
    apply (recordedStart_returnsOr hlong' hstring).bind
    intro found hfound
    cases found with
    | none => exact hnothing hlong'
    | some found =>
        obtain ⟨record', start⟩ := found
        obtain ⟨hrecord', rest, hrest⟩ := hfound record' start rfl
        apply (findend_behind hrest).orFault.bind
        rintro cut ⟨hcut, text', htext', -⟩
        have hcut' : RecordBuffer cut := by
          rcases hcut with rfl | ⟨i, rfl⟩
          · exact hrecord'
          · exact hrecord'.set_nul i
        apply (lowHigh_counts_bits htext' List.length_replicate).orFault.bind
        intro r hr
        obtain ⟨hlow, hhigh, hall⟩ := hr
        by_cases hclear : r.1 < 100
        · rw [if_pos hclear]
          exact hnothing hcut'
        rw [if_neg hclear]
        by_cases hset : r.2 < 100
        · rw [if_pos hset]
          exact hnothing hcut'
        rw [if_neg hset]
        by_cases hnumber : r.1 + r.2 < 2000 ∨ 2100 < r.1 + r.2
        · rw [if_pos hnumber]
          exact hnothing hcut'
        rw [if_neg hnumber]
        apply (parse_returns htext').orFault.bind
        intro out hout
        apply (returns_pure.mpr _).orFault
        refine ⟨?_, hcut'⟩
        rintro key ⟨⟩
        have hlength := length_keyBitsTo text'
        exact ⟨keyBitsTo text' text'.length, hout, by omega, by omega, by omega, by omega⟩
  · rw [if_neg hmatch]
    exact hnothing hshort'

/-- **The attack stays inside its buffers.** Over any sequence of cache sets and whatever their probes return, no
access is out of range, the only fault is the failed assertion of a start, and every key that is printed has
passed the filter. -/
theorem attack_returnsOr {record : List Char} (h : RecordBuffer record) (sets : List ((ℕ → ℤ) × (ℕ → ℤ))) :
    ReturnsOr .assertion (runAll (fun set record => attackSet set.1 set.2 record) sets record) fun r =>
      (∀ out ∈ r.1, ∀ key, out = some key → PrintedKey key) ∧ RecordBuffer r.2 := by
  have hstep : ∀ (set : (ℕ → ℤ) × (ℕ → ℤ)) record, RecordBuffer record →
      ReturnsOr .assertion (attackSet set.1 set.2 record) fun r =>
        (∀ key, r.1 = some key → PrintedKey key) ∧ RecordBuffer r.2 :=
    fun set _ h => attackSet_returnsOr h set.1 set.2
  exact runAll_returnsOr RecordBuffer (fun out => ∀ key, out = some key → PrintedKey key) hstep sets record h

end ChannelBench
