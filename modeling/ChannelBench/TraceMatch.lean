import ChannelBench.TraceScan
import Mathlib.Data.Finset.Card
import Mathlib.Data.Finset.Range

/-! The recognition of a key in the samples of a cache set. `sample` leaves a string in the record, and
`misses` compares a window of it to the mask up to the end of the string. `matchcount` tries the windows of
the whole record, however, also those behind the string, where the samples of an earlier set still are. -/

namespace ChannelBench

open CSem

/-- `RECORDLEN`. -/
def recordLen : ℕ := 100000

/-- `SEARCHLEN`. -/
def searchLen : ℕ := 1000

/-- `ALLOWEDMISSES`. -/
def allowedMisses : ℕ := 2

/-- `mask`. -/
def mask : List Char := ".....@@@@@@.....".toList

theorem length_mask : mask.length = 16 := by decide

/-- `misses`. -/
def misses (buffer : List Char) : ℕ → List Char → ℕ → Run ℕ
  | _, [], mismatch => return mismatch
  | record, m :: mask, mismatch => do
      let c ← readAt buffer record
      misses buffer (record + if c ≠ nul then 1 else 0) mask (mismatch + if m ≠ c then 1 else 0)

/-- `matchcount`. It compares to `mask`, whatever it is to match. -/
def matchcount (buffer : List Char) (record : ℕ) (_match : List Char) (allowedmisses : ℤ) : Run ℕ :=
  forUpto (fun i matchcount => do
      let mismatch ← misses buffer (record + i) mask 0
      if mismatch ≤ allowedmisses then
        return matchcount + 1
      else
        return matchcount)
    recordLen 0

/-- `sample`, with what its probes return. The priming before them and the waits between them leave the record
alone. -/
def sample (ppProbe : ℕ → ℤ) (record : List Char) (samplecount : ℕ) : Run (List Char) := do
  let record ← forUpto (fun i record => writeAt record i (if ppProbe i ≠ 0 then '@' else '.')) samplecount record
  writeAt record samplecount nul

/-! ### Windows -/

/-- The number of places at which a string differs from a mask. -/
def mismatches : List Char → List Char → ℕ
  | _, [] => 0
  | [], _ :: mask => mismatches [] mask + 1
  | c :: text, m :: mask => mismatches text mask + if m ≠ c then 1 else 0

section Windows

variable {buffer text : List Char} {pattern : List Char}

theorem mismatches_nil (text : List Char) : mismatches text [] = 0 := by
  cases text <;> rfl

theorem misses_returns (hmask : nul ∉ pattern) {p : ℕ} (h : CString buffer p text) (mismatch : ℕ) :
    Returns (misses buffer p pattern mismatch) fun n => n = mismatch + mismatches text pattern := by
  induction pattern generalizing p text mismatch with
  | nil =>
      rw [misses, returns_pure, mismatches_nil]
      rfl
  | cons m pattern ih =>
      obtain ⟨hm, hpattern⟩ := not_or.mp (mt List.mem_cons.mpr hmask)
      cases text with
      | nil =>
          rw [misses, h.readAt_head, ok_bind, List.headD_nil, if_neg (not_not.mpr rfl), if_pos (Ne.symm hm)]
          apply (ih hpattern h (mismatch + 1)).mono
          rintro _ rfl
          rw [mismatches]
          omega
      | cons c text =>
          have hc : c ≠ nul := fun heq => h.nul_free (heq ▸ List.mem_cons_self)
          rw [misses, h.readAt_head, ok_bind, List.headD_cons, if_pos hc]
          apply (ih hpattern (CString.tail [c] h) _).mono
          rintro _ rfl
          rw [mismatches]
          omega

/-- A short string differs from the rest of the mask. -/
theorem length_le_mismatches (text pattern : List Char) :
    pattern.length ≤ text.length + mismatches text pattern := by
  induction pattern generalizing text with
  | nil => exact Nat.zero_le _
  | cons m pattern ih =>
      cases text with
      | nil =>
          have := ih []
          rw [mismatches, List.length_cons]
          omega
      | cons c text =>
          have := ih text
          rw [mismatches, List.length_cons, List.length_cons]
          omega

theorem mismatches_le_length (text pattern : List Char) : mismatches text pattern ≤ pattern.length := by
  induction pattern generalizing text with
  | nil => rw [mismatches_nil]; exact Nat.zero_le _
  | cons m pattern ih =>
      cases text with
      | nil =>
          have := ih []
          rw [mismatches, List.length_cons]
          omega
      | cons c text =>
          have := ih text
          rw [mismatches, List.length_cons]
          split_ifs <;> omega

/-- A string differs from a mask behind what they agree on. -/
theorem mismatches_append_le (pre text pattern : List Char) :
    mismatches (pre ++ text) (pre ++ pattern) ≤ pattern.length := by
  induction pre with
  | nil => exact mismatches_le_length text pattern
  | cons c pre ih =>
      rw [List.cons_append, List.cons_append, mismatches, if_neg (not_not.mpr rfl)]
      exact ih

end Windows

/-! ### The record -/

/-- The record of `RECORDLEN + 1` characters. Its last one is never more than the NUL of a longest string. -/
structure RecordBuffer (record : List Char) : Prop where
  length_eq : record.length = recordLen + 1
  last_nul : record[recordLen]? = some nul

/-- The record before the first `sample`. -/
def zeroedRecord : List Char := List.replicate (recordLen + 1) nul

theorem getElem?_zeroedRecord {i : ℕ} (hi : i ≤ recordLen) : zeroedRecord[i]? = some nul := by
  rw [zeroedRecord, List.getElem?_replicate, if_pos (Nat.lt_succ_of_le hi)]

theorem recordBuffer_zeroed : RecordBuffer zeroedRecord where
  length_eq := List.length_replicate
  last_nul := getElem?_zeroedRecord (le_refl recordLen)

/-- What `sample` makes of the probes. -/
def samples (ppProbe : ℕ → ℤ) (samplecount : ℕ) : List Char :=
  (List.range samplecount).map fun i => if ppProbe i ≠ 0 then '@' else '.'

section Samples

variable {ppProbe : ℕ → ℤ} {record : List Char} {samplecount : ℕ}

@[simp] theorem length_samples (ppProbe : ℕ → ℤ) (samplecount : ℕ) :
    (samples ppProbe samplecount).length = samplecount := by
  rw [samples, List.length_map, List.length_range]

theorem mem_samples {c : Char} (hc : c ∈ samples ppProbe samplecount) : c = '@' ∨ c = '.' := by
  obtain ⟨i, -, rfl⟩ := List.mem_map.mp hc
  split_ifs
  · exact .inl rfl
  · exact .inr rfl

theorem nul_not_mem_samples : nul ∉ samples ppProbe samplecount := by
  intro hmem
  rcases mem_samples hmem with h | h
  · exact absurd h (by decide)
  · exact absurd h (by decide)

/-- The misses among the samples are the probes that missed. -/
theorem miss_samples {i : ℕ} : (samples ppProbe samplecount)[i]? = some '@' ↔ i < samplecount ∧ ppProbe i ≠ 0 := by
  rw [samples, List.getElem?_map]
  by_cases hi : i < samplecount
  · rw [List.getElem?_range hi]
    simp [hi]
  · rw [List.getElem?_eq_none (by rw [List.length_range]; omega)]
    simp [hi]

theorem take_samples (n : ℕ) : (samples ppProbe samplecount).take n = samples ppProbe (min n samplecount) := by
  rw [samples, ← List.map_take, List.take_range]
  rfl

theorem drop_samples (n : ℕ) : (samples ppProbe samplecount).drop n =
    samples (fun i => ppProbe (n + i)) (samplecount - n) := by
  apply List.ext_getElem
  · simp
  · intro i _ _
    simp [samples]

/-- What `sample` makes of a record: a string in front, and what was there behind it. -/
def sampledRecord (ppProbe : ℕ → ℤ) (samplecount : ℕ) (record : List Char) : List Char :=
  samples ppProbe samplecount ++ nul :: record.drop (samplecount + 1)

theorem sample_returns (h : RecordBuffer record) (hcount : samplecount ≤ recordLen) :
    Returns (sample ppProbe record samplecount) fun record' =>
      record' = sampledRecord ppProbe samplecount record := by
  have hlength := h.length_eq
  have hlt : samplecount < record.length := by omega
  unfold sample
  apply (fill_returns (fun i => if ppProbe i ≠ 0 then '@' else '.') hlt.le).bind
  rintro _ rfl
  rw [← samples, writeAt_eq _ (by rw [List.length_append, length_samples, List.length_drop]; omega), returns_ok,
    List.set_append_right _ _ (length_samples ppProbe samplecount).le, length_samples, Nat.sub_self,
    List.drop_eq_getElem_cons hlt, List.set_cons_zero, sampledRecord]

theorem cString_sampled (record : List Char) :
    CString (sampledRecord ppProbe samplecount record) 0 (samples ppProbe samplecount) :=
  ⟨⟨record.drop (samplecount + 1), rfl⟩, nul_not_mem_samples⟩

theorem getElem?_sampledRecord {i : ℕ} (hi : samplecount < i) :
    (sampledRecord ppProbe samplecount record)[i]? = record[i]? := by
  obtain ⟨n, rfl⟩ : ∃ n, i = samplecount + 1 + n := ⟨i - (samplecount + 1), by omega⟩
  rw [sampledRecord, List.getElem?_append_right (by rw [length_samples]; exact hi.le), length_samples,
    show samplecount + 1 + n - samplecount = n + 1 by omega, List.getElem?_cons_succ, List.getElem?_drop]

theorem RecordBuffer.sampled (h : RecordBuffer record) (hcount : samplecount ≤ recordLen) :
    RecordBuffer (sampledRecord ppProbe samplecount record) where
  length_eq := by
    have hlength := h.length_eq
    rw [sampledRecord, List.length_append, length_samples, List.length_cons, List.length_drop]
    omega
  last_nul := by
    rcases Nat.lt_or_eq_of_le hcount with hlt | heq
    · rw [getElem?_sampledRecord hlt, h.last_nul]
    · rw [sampledRecord, ← heq, List.getElem?_append_right (by rw [length_samples]), length_samples, Nat.sub_self]
      rfl

end Samples

/-- The places of a record whose windows match. -/
def matchedAt (record : List Char) (allowedmisses : ℤ) : Finset ℕ :=
  (Finset.range recordLen).filter fun i => (mismatches (stringAt record i) mask : ℤ) ≤ allowedmisses

section Matches

variable {record text : List Char} {allowedmisses : ℤ}

theorem matchcount_returns (h : RecordBuffer record) (pattern : List Char) (allowedmisses : ℤ) :
    Returns (matchcount record 0 pattern allowedmisses) fun count =>
      count = (matchedAt record allowedmisses).card := by
  unfold matchcount matchedAt
  apply forUpto_returns (fun i count => count = ((Finset.range i).filter
    fun i => (mismatches (stringAt record i) mask : ℤ) ≤ allowedmisses).card) rfl
  intro i hi count hcount
  have hstring := (cString_stringAt hi.le h.last_nul).1
  rw [Nat.zero_add]
  apply (misses_returns (by decide) hstring 0).bind
  rintro _ rfl
  rw [Nat.zero_add, Finset.range_add_one, Finset.filter_insert]
  by_cases hmatch : (mismatches (stringAt record i) mask : ℤ) ≤ allowedmisses
  · rw [if_pos hmatch, if_pos hmatch, returns_pure, Finset.card_insert_of_notMem (by simp), hcount]
  · rw [if_neg hmatch, if_neg hmatch, returns_pure, hcount]

/-- The windows inside the string depend on the string only. -/
theorem stringAt_front (h : CString record 0 text) {i : ℕ} (hi : i ≤ text.length) :
    stringAt record i = text.drop i := by
  have htail := CString.tail (text.take i) (by rwa [List.take_append_drop])
  rw [List.length_take, Nat.min_eq_left hi, Nat.zero_add] at htail
  exact htail.stringAt_eq

/-- A window behind the string is too short to match when the string comes close to the end of the record. -/
theorem not_match_behind (h : RecordBuffer record) {i samplecount : ℕ} (hi : samplecount < i) (hin : i < recordLen)
    (hnear : allowedmisses < 0 ∨ (recordLen : ℤ) ≤ samplecount + mask.length - allowedmisses) :
    ¬(mismatches (stringAt record i) mask : ℤ) ≤ allowedmisses := by
  have hshort := (cString_stringAt hin.le h.last_nul).2
  have hdiffer := length_le_mismatches (stringAt record i) mask
  omega

end Matches

/-! ### Leftovers -/

section Leftovers

variable {ppProbe : ℕ → ℤ} {record : List Char} {samplecount : ℕ}

/-- In a record that was zeroed there is nothing to match behind the string. -/
theorem stringAt_behind_zeroed {i : ℕ} (hi : samplecount < i) (hin : i < recordLen) :
    stringAt (sampledRecord ppProbe samplecount zeroedRecord) i = [] := by
  have hnul : (sampledRecord ppProbe samplecount zeroedRecord)[i]? = some nul := by
    rw [getElem?_sampledRecord hi, getElem?_zeroedRecord hin.le]
  have hshort := (cString_stringAt (le_refl i) hnul).2
  exact List.eq_nil_of_length_eq_zero (by omega)

/-- Probes that miss where the mask wants a miss. -/
def maskProbe (i : ℕ) : ℤ := if mask[i]? = some '@' then 1 else 0

theorem maskProbe_ne_zero {r : ℕ} : maskProbe r ≠ 0 ↔ 5 ≤ r ∧ r ≤ 10 := by
  by_cases hr : r < mask.length
  · have hall : ∀ r, r < mask.length → (maskProbe r ≠ 0 ↔ 5 ≤ r ∧ r ≤ 10) := by decide
    exact hall r hr
  · have hlong : 16 ≤ r := Nat.not_lt.mp hr
    rw [maskProbe, List.getElem?_eq_none (Nat.not_lt.mp hr)]
    simp
    omega

/-- Samples of them match the mask as far as they go. -/
theorem mismatches_maskProbe {ppProbe : ℕ → ℤ} (hprobe : ∀ i, i < mask.length → ppProbe i = maskProbe i) (n : ℕ) :
    mismatches (samples ppProbe n) mask ≤ mask.length - n := by
  have hmask : samples maskProbe mask.length = mask := by decide
  have hfront : (samples ppProbe n).take mask.length = mask.take n := by
    have hsame : samples ppProbe (min mask.length n) = samples maskProbe (min mask.length n) := by
      apply List.map_congr_left
      intro i hi
      rw [hprobe i (by have := List.mem_range.mp hi; omega)]
    rw [take_samples, hsame, Nat.min_comm, ← take_samples, hmask]
  calc mismatches (samples ppProbe n) mask
      = mismatches (mask.take n ++ (samples ppProbe n).drop mask.length) (mask.take n ++ mask.drop n) := by
        rw [← hfront, List.take_append_drop, hfront, List.take_append_drop]
    _ ≤ (mask.drop n).length := mismatches_append_le _ _ _
    _ = mask.length - n := List.length_drop

/-- A record with samples that match the mask from a place on. -/
def matchingFrom (place : ℕ) : List Char := samples (fun i => maskProbe (i - place)) recordLen ++ [nul]

theorem recordBuffer_matchingFrom (place : ℕ) : RecordBuffer (matchingFrom place) where
  length_eq := by rw [matchingFrom, List.length_append, length_samples, List.length_singleton]
  last_nul := by
    rw [matchingFrom, List.getElem?_append_right (by rw [length_samples]), length_samples, Nat.sub_self]
    rfl

/-- Leftovers match behind the string when there is room for enough of the mask. -/
theorem matchingFrom_matches {allowedmisses : ℤ} (hroom : samplecount + 1 ≤ recordLen)
    (hallowed : 0 ≤ allowedmisses) (hfar : samplecount + mask.length - allowedmisses < recordLen) :
    (mismatches (stringAt (sampledRecord ppProbe samplecount (matchingFrom (samplecount + 1))) (samplecount + 1))
      mask : ℤ) ≤ allowedmisses := by
  have hleft : (matchingFrom (samplecount + 1)).drop (samplecount + 1) =
      samples maskProbe (recordLen - (samplecount + 1)) ++ nul :: [] := by
    rw [matchingFrom, List.drop_append_of_le_length (by rwa [length_samples]), drop_samples]
    simp only [Nat.add_sub_cancel_left]
  have hbehind : (sampledRecord ppProbe samplecount (matchingFrom (samplecount + 1))).drop (samplecount + 1) =
      (matchingFrom (samplecount + 1)).drop (samplecount + 1) := by
    apply List.ext_getElem?
    intro k
    rw [List.getElem?_drop, List.getElem?_drop, getElem?_sampledRecord (by omega)]
  have hstring : CString (sampledRecord ppProbe samplecount (matchingFrom (samplecount + 1))) (samplecount + 1)
      (samples maskProbe (recordLen - (samplecount + 1))) :=
    ⟨⟨[], hbehind.trans hleft⟩, nul_not_mem_samples⟩
  rw [hstring.stringAt_eq]
  have hmatch := mismatches_maskProbe (fun _ _ => rfl) (recordLen - (samplecount + 1))
  omega

/-- They are counted then. -/
theorem matchedAt_ssubset (ppProbe : ℕ → ℤ) {allowedmisses : ℤ} (hroom : samplecount + 1 < recordLen)
    (hnonneg : 0 ≤ allowedmisses) (hallowed : allowedmisses < mask.length)
    (hfar : samplecount + mask.length - allowedmisses < recordLen) :
    matchedAt (sampledRecord ppProbe samplecount zeroedRecord) allowedmisses ⊂
      matchedAt (sampledRecord ppProbe samplecount (matchingFrom (samplecount + 1))) allowedmisses := by
  have hnothing : ¬(mismatches [] mask : ℤ) ≤ allowedmisses := by
    have hdiffer := length_le_mismatches [] mask
    rw [List.length_nil] at hdiffer
    omega
  refine Finset.ssubset_iff_subset_ne.mpr ⟨?_, ?_⟩
  · intro i hi
    obtain ⟨hin, hmatch⟩ := Finset.mem_filter.mp hi
    refine Finset.mem_filter.mpr ⟨hin, ?_⟩
    rcases Nat.lt_or_ge samplecount i with hbehind | hfront
    · rw [stringAt_behind_zeroed hbehind (Finset.mem_range.mp hin)] at hmatch
      exact absurd hmatch hnothing
    · have hle : i ≤ (samples ppProbe samplecount).length := by rwa [length_samples]
      rw [stringAt_front (cString_sampled _) hle] at hmatch ⊢
      exact hmatch
  · intro heq
    have hin : samplecount + 1 ∈
        matchedAt (sampledRecord ppProbe samplecount (matchingFrom (samplecount + 1))) allowedmisses :=
      Finset.mem_filter.mpr ⟨Finset.mem_range.mpr hroom, matchingFrom_matches hroom.le hnonneg hfar⟩
    rw [← heq] at hin
    obtain ⟨-, hmatch⟩ := Finset.mem_filter.mp hin
    rw [stringAt_behind_zeroed (Nat.lt_succ_self _) hroom] at hmatch
    exact hnothing hmatch

/-- `matchcount` counts the windows of the record that `sample` leaves. -/
theorem sampled_matchcount (h : RecordBuffer record) (hcount : samplecount ≤ recordLen) (allowedmisses : ℤ) :
    Returns (do
        let record ← sample ppProbe record samplecount
        matchcount record 0 mask allowedmisses) fun count =>
      count = (matchedAt (sampledRecord ppProbe samplecount record) allowedmisses).card := by
  apply (sample_returns h hcount).bind
  rintro _ rfl
  exact matchcount_returns (h.sampled hcount) mask allowedmisses

/-- No leftovers are counted when the string comes close to the end of the record. -/
theorem matchedAt_congr {old old' : List Char} (hold : RecordBuffer old) (hold' : RecordBuffer old')
    (hcount : samplecount ≤ recordLen) {allowedmisses : ℤ}
    (hnear : allowedmisses < 0 ∨ (recordLen : ℤ) ≤ samplecount + mask.length - allowedmisses) :
    matchedAt (sampledRecord ppProbe samplecount old) allowedmisses =
      matchedAt (sampledRecord ppProbe samplecount old') allowedmisses := by
  apply Finset.filter_congr
  intro i hi
  have hin := Finset.mem_range.mp hi
  rcases Nat.lt_or_ge samplecount i with hbehind | hfront
  · exact iff_of_false (not_match_behind (hold.sampled hcount) hbehind hin hnear)
      (not_match_behind (hold'.sampled hcount) hbehind hin hnear)
  · have hle : i ≤ (samples ppProbe samplecount).length := by rwa [length_samples]
    rw [stringAt_front (cString_sampled _) hle, stringAt_front (cString_sampled _) hle]

end Leftovers

/-- **Leftovers of earlier samples.** What `matchcount` returns for the samples of a cache set is independent of
what an earlier call of `sample` left behind their end exactly when no miss is allowed that the mask could make,
or the place behind the end is too close to the end of the record for a match. -/
theorem matchcount_ignores_leftovers_iff (ppProbe : ℕ → ℤ) (samplecount : ℕ) (hcount : samplecount ≤ recordLen)
    (allowedmisses : ℤ) (hallowed : allowedmisses < mask.length) :
    (∀ old old', RecordBuffer old → RecordBuffer old' →
      Returns (do
          let record ← sample ppProbe old samplecount
          matchcount record 0 mask allowedmisses) fun count =>
        (do
          let record ← sample ppProbe old' samplecount
          matchcount record 0 mask allowedmisses) = .ok count) ↔
      allowedmisses < 0 ∨ (recordLen : ℤ) ≤ samplecount + mask.length - allowedmisses := by
  constructor
  · intro h
    by_contra hfar
    obtain ⟨hnonneg, hfar⟩ := not_or.mp hfar
    obtain ⟨count, hzeroed, hmatching⟩ := h _ _ recordBuffer_zeroed (recordBuffer_matchingFrom (samplecount + 1))
    have hcard := (sampled_matchcount recordBuffer_zeroed hcount allowedmisses).of_eq_ok hzeroed
    have hcard' := (sampled_matchcount (recordBuffer_matchingFrom _) hcount allowedmisses).of_eq_ok hmatching
    have hroom : samplecount + 1 < recordLen := by omega
    have hmore := Finset.card_lt_card (matchedAt_ssubset ppProbe hroom (Int.not_lt.mp hnonneg) hallowed (by omega))
    omega
  · intro hnear old old' hold hold'
    obtain ⟨count', hcount', hcard'⟩ : Returns (do
        let record ← sample ppProbe old' samplecount
        matchcount record 0 mask allowedmisses) _ := sampled_matchcount hold' hcount allowedmisses
    apply (sampled_matchcount hold hcount allowedmisses).mono
    intro count hcard
    rw [hcount', hcard, hcard', matchedAt_congr hold hold' hcount hnear]

/-- A sample of full length leaves no room for leftovers. -/
theorem matchcount_ignores_leftovers_of_full_length :
    Returns (do
        let record ← sample maskProbe zeroedRecord recordLen
        matchcount record 0 mask allowedMisses) fun count =>
      (do
        let record ← sample maskProbe (matchingFrom 1001) recordLen
        matchcount record 0 mask allowedMisses) = .ok count :=
  (matchcount_ignores_leftovers_iff maskProbe recordLen (le_refl _) allowedMisses (by decide)).mpr
    (.inr (by rw [length_mask, allowedMisses]; omega)) _ _ recordBuffer_zeroed (recordBuffer_matchingFrom 1001)

/-- A cache set has more matches after a key was recorded than in a record that was zeroed. -/
theorem matchcount_after_key (ppProbe : ℕ → ℤ) (samplecount : ℕ) (allowedmisses : ℤ) (hnonneg : 0 ≤ allowedmisses)
    (hallowed : allowedmisses < mask.length) (hfar : samplecount + mask.length - allowedmisses < recordLen) :
    Returns (do
        let fresh ← sample ppProbe zeroedRecord samplecount
        let earlier ← sample (fun i => maskProbe (i - (samplecount + 1))) zeroedRecord recordLen
        let reused ← sample ppProbe earlier samplecount
        let count ← matchcount fresh 0 mask allowedmisses
        let count' ← matchcount reused 0 mask allowedmisses
        return (fresh, reused, count, count')) fun r =>
      (∃ text, CString r.1 0 text ∧ CString r.2.1 0 text) ∧ r.2.2.1 < r.2.2.2 := by
  have hroom : samplecount + 1 < recordLen := by omega
  have hcount : samplecount ≤ recordLen := by omega
  apply (sample_returns recordBuffer_zeroed hcount).bind
  intro fresh hfresh
  apply (sample_returns recordBuffer_zeroed (le_refl recordLen)).bind
  intro earlier hearlier
  have hmatching : earlier = matchingFrom (samplecount + 1) := by
    rw [hearlier, sampledRecord, matchingFrom, List.drop_of_length_le recordBuffer_zeroed.length_eq.le]
  rw [hmatching]
  apply (sample_returns (recordBuffer_matchingFrom (samplecount + 1)) hcount).bind
  intro reused hreused
  rw [hfresh, hreused]
  apply (matchcount_returns (recordBuffer_zeroed.sampled hcount) mask allowedmisses).bind
  intro count hcard
  apply (matchcount_returns ((recordBuffer_matchingFrom (samplecount + 1)).sampled hcount) mask allowedmisses).bind
  intro count' hcard'
  have hmore := Finset.card_lt_card (matchedAt_ssubset ppProbe hroom hnonneg hallowed hfar)
  rw [← hcard, ← hcard'] at hmore
  rw [returns_pure]
  exact ⟨⟨_, cString_sampled _, cString_sampled _⟩, hmore⟩

/-- So has a set whose probes all hit. -/
theorem matchcount_counts_leftovers :
    Returns (do
        let fresh ← sample (fun _ => 0) zeroedRecord searchLen
        let earlier ← sample (fun i => maskProbe (i - (searchLen + 1))) zeroedRecord recordLen
        let reused ← sample (fun _ => 0) earlier searchLen
        let count ← matchcount fresh 0 mask allowedMisses
        let count' ← matchcount reused 0 mask allowedMisses
        return (fresh, reused, count, count')) fun r =>
      (∃ text, CString r.1 0 text ∧ CString r.2.1 0 text) ∧ r.2.2.1 < r.2.2.2 :=
  matchcount_after_key (fun _ => 0) searchLen allowedMisses (by decide) (by decide)
    (by rw [length_mask, searchLen, allowedMisses, recordLen]; decide)

end ChannelBench
