import ChannelBench.TraceCleanup
import ChannelBench.TraceKey
import ChannelBench.TraceMatch

/-! The start of a key. `attack` asserts that a record it takes for a key has a start, a mark behind a long gap.
What it has checked is the number of windows that match the mask, which says nothing about gaps: a record in
which the mask repeats all the time has no start. -/

namespace ChannelBench

open CSem

/-- The part of `attack` between the second sample of a set and the end of the key: the record and the start,
or nothing for a false positive. -/
def recordedStart (record : List Char) : Run (Option (List Char × ℕ)) := do
  let matched ← matchcount record 0 mask allowedMisses
  if matched < searchLen * 2 / mask.length / 3 then
    return none
  let record ← cleanup record 0
  match ← findstart record 0 with
  | none => throw .assertion
  | some start => return some (record, start)

/-- A burst that leaves a mark and has none among the `gapLen` samples in front of it. -/
def KeyStart (text : List Char) (k : ℕ) : Prop :=
  MarkAt text text.length k ∧ gapLen ≤ k ∧ ∀ j, j < k → k ≤ j + gapLen → ¬MarkAt text text.length j

/-- `findstart` finds a start behind `cleanup` when a burst leaves one. -/
theorem findstart_cleaned {buffer text : List Char} {p : ℕ} (h : CString buffer p text) :
    Returns (do
        let buffer ← cleanup buffer p
        findstart buffer p) fun start => start ≠ none ↔ ∃ k, KeyStart text k := by
  apply (cleanup_returns h).bind
  intro buffer' hcleaned
  obtain ⟨text', htext', -, hmark⟩ := hcleaned.string h
  have hkey : ∀ k, StartAt text' k ↔ KeyStart text k := by
    intro k
    simp only [StartAt, KeyStart, ne_eq, hmark]
  apply (findstart_returns htext').mono
  intro start hstart
  constructor
  · intro hne
    obtain ⟨place, rfl⟩ := Option.ne_none_iff_exists'.mp hne
    obtain ⟨k, -, hk⟩ := hstart.1 place rfl
    exact ⟨k, (hkey k).mp hk⟩
  · rintro ⟨k, hk⟩ hnone
    exact hstart.2 hnone k ((hkey k).mpr hk)

/-- A record of full length. -/
theorem recordBuffer_of_length {text : List Char} (hlength : text.length = recordLen) :
    RecordBuffer (text ++ [nul]) where
  length_eq := by rw [List.length_append, hlength, List.length_singleton]
  last_nul := by
    rw [← hlength, List.getElem?_append_right (le_refl _), Nat.sub_self]
    rfl

/-- **The start of a key.** For every record of samples with as many matches as `attack` asks for, `findstart`
finds a start behind `cleanup`, so that the assertion of `attack` holds, exactly when some burst leaves a mark
and none is left among the `gapLen` samples in front of it. -/
theorem attack_start_iff (text : List Char) (hlength : text.length = recordLen)
    (hsamples : ∀ c ∈ text, c = '@' ∨ c = '.') :
    Returns (matchcount (text ++ [nul]) 0 mask allowedMisses) fun matched =>
      searchLen * 2 / mask.length / 3 ≤ matched →
        (Returns (do
            let record ← cleanup (text ++ [nul]) 0
            findstart record 0) (fun start => start ≠ none) ↔ ∃ k, KeyStart text k) ∧
          (recordedStart (text ++ [nul]) ≠ .error .assertion ↔ ∃ k, KeyStart text k) := by
  have hstring : CString (text ++ [nul]) 0 text := by
    refine ⟨⟨[], rfl⟩, fun hmem => ?_⟩
    rcases hsamples nul hmem with h | h
    · exact absurd h (by decide)
    · exact absurd h (by decide)
  obtain ⟨matched, hmatched, -⟩ := matchcount_returns (recordBuffer_of_length hlength) mask allowedMisses
  rw [hmatched, returns_ok]
  intro hguard
  obtain ⟨start, hstart, hiff⟩ := findstart_cleaned hstring
  refine ⟨by rw [hstart, returns_ok, hiff], ?_⟩
  obtain ⟨buffer, hcleanup, hfind⟩ := bind_eq_ok.mp hstart
  rw [recordedStart, hmatched, ok_bind, if_neg (Nat.not_lt.mpr hguard), hcleanup, ok_bind, hfind, ok_bind, ← hiff]
  cases start with
  | none => exact iff_of_false (not_not.mpr rfl) (not_not.mpr rfl)
  | some start => exact iff_of_true nofun nofun

/-! ### Records in which the mask repeats -/

/-- A record in which the mask repeats after some hits. -/
def repeatedMask (quiet : ℕ) : List Char := samples (fun i => if i < quiet then 0 else maskProbe (i % 16)) recordLen

section RepeatedMask

variable {quiet : ℕ}

theorem miss_repeatedMask {i : ℕ} :
    (repeatedMask quiet)[i]? = some '@' ↔ i < recordLen ∧ quiet ≤ i ∧ 5 ≤ i % 16 ∧ i % 16 ≤ 10 := by
  rw [repeatedMask, miss_samples]
  apply and_congr_right
  intro _
  by_cases hi : i < quiet
  · rw [if_pos hi]
    exact iff_of_false (not_not.mpr rfl) (by omega)
  · rw [if_neg hi, maskProbe_ne_zero]
    exact ⟨fun h => ⟨by omega, h⟩, fun h => h.2⟩

/-- The record has as many matches as are asked for. -/
theorem matchcount_repeatedMask (hquiet : quiet ≤ 400) :
    Returns (matchcount (repeatedMask quiet ++ [nul]) 0 mask allowedMisses) fun matched =>
      searchLen * 2 / mask.length / 3 ≤ matched := by
  have hlong : 2000 < recordLen := by decide
  apply (matchcount_returns (recordBuffer_of_length (length_samples _ _)) mask allowedMisses).mono
  intro matched hmatched
  rw [hmatched, show searchLen * 2 / mask.length / 3 = 41 by decide]
  apply Finset.le_card_of_inj_on_range (fun j => 16 * (25 + j))
  · intro j hj
    refine Finset.mem_filter.mpr ⟨Finset.mem_range.mpr (by omega), ?_⟩
    have hin : 16 * (25 + j) ≤ (repeatedMask quiet).length := by
      rw [repeatedMask, length_samples]
      omega
    rw [stringAt_front (cString_append_nul nul_not_mem_samples) hin, drop_samples]
    have hwindow : ∀ i, i < mask.length → (if 16 * (25 + j) + i < quiet then 0 else
        maskProbe ((16 * (25 + j) + i) % 16)) = maskProbe i := by
      intro i hi
      rw [length_mask] at hi
      rw [if_neg (by omega), Nat.mul_add_mod, Nat.mod_eq_of_lt hi]
    have hfew := mismatches_maskProbe hwindow (recordLen - 16 * (25 + j))
    rw [length_mask] at hfew
    omega
  · intro i _ j _ heq
    omega

/-- The mask leaves a mark where it begins to miss. -/
theorem markAt_repeatedMask {m : ℕ} (hquiet : quiet ≤ 16 * m) (hm : 16 * m + 6 < recordLen) :
    MarkAt (repeatedMask quiet) (repeatedMask quiet).length (16 * m + 5) := by
  refine .inl ⟨⟨miss_repeatedMask.mpr (by omega), ?_⟩, .inl (miss_repeatedMask.mpr (by omega))⟩
  intro j hj hnear hmiss
  have := miss_repeatedMask.mp hmiss
  omega

end RepeatedMask

/-- A start is found behind a quiet stretch. -/
theorem attack_start_after_quiet :
    Returns (do
      let record ← cleanup (repeatedMask 400 ++ [nul]) 0
      findstart record 0) fun start => start ≠ none := by
  have hlong : 2000 < recordLen := by decide
  have hguard := matchcount_repeatedMask (le_refl 400)
  obtain ⟨matched, hmatched, hiff⟩ := attack_start_iff (repeatedMask 400) (length_samples _ _) fun c => mem_samples
  apply (hiff (hguard.of_eq_ok hmatched)).1.mpr
  refine ⟨16 * 25 + 5, markAt_repeatedMask (by omega) (by omega), by decide, ?_⟩
  intro j hj _ hmark
  have := miss_repeatedMask.mp hmark.miss
  omega

/-- When the mask repeats from the first sample on, every mark has another one close in front of it. -/
theorem not_keyStart_repeatedMask (k : ℕ) : ¬KeyStart (repeatedMask 0) k := by
  rintro ⟨hmark, hgap, hnone⟩
  have hlong : 200 ≤ k := hgap
  have hk := miss_repeatedMask.mp hmark.miss
  have hplace : 16 * ((k - 6) / 16) + 5 < k := by omega
  have hclose : k ≤ 16 * ((k - 6) / 16) + 5 + gapLen := by
    rw [gapLen]
    omega
  exact hnone _ hplace hclose (markAt_repeatedMask (Nat.zero_le _) (by omega))

/-- None is found then. -/
theorem attack_start_missing :
    (repeatedMask 0).length = recordLen ∧ (∀ c ∈ repeatedMask 0, c = '@' ∨ c = '.') ∧
      Returns (matchcount (repeatedMask 0 ++ [nul]) 0 mask allowedMisses)
          (fun matched => searchLen * 2 / mask.length / 3 ≤ matched) ∧
        Returns (do
            let record ← cleanup (repeatedMask 0 ++ [nul]) 0
            findstart record 0) fun start => start = none := by
  have hstring : CString (repeatedMask 0 ++ [nul]) 0 (repeatedMask 0) := cString_append_nul nul_not_mem_samples
  refine ⟨length_samples _ _, fun c => mem_samples, matchcount_repeatedMask (Nat.zero_le _), ?_⟩
  apply (findstart_cleaned hstring).mono
  intro start hstart
  by_contra hne
  obtain ⟨k, hk⟩ := hstart.mp hne
  exact not_keyStart_repeatedMask k hk

end ChannelBench
