import ChannelBench.TraceKey
import Mathlib.Data.List.Induction

/-! The false-positive filter of the attack. `histogram` counts the gaps of a trace after it has cut them to
the number of buckets, while `parse` reads the bits off the gaps as they are. Both look at the same gaps, so
the sums that the filter judges a trace by are the numbers of clear and set bits it would print. -/

namespace ChannelBench

open CSem

/-- `histogram` counts every gap behind the start in its bucket. -/
theorem histogram_returns {buffer text : List Char} {start max : ℕ} {hist : List ℕ}
    (h : CString buffer (start + 1) text) (hmax : 0 < max) (hhist : hist.length = max) :
    Returns (histogram buffer start hist max) fun hist' =>
      hist' = tally max ((missGaps text text.length).map (min (max - 1))) := by
  unfold histogram
  apply (fill_returns (fun _ => 0) hhist.ge).bind
  intro cleared hcleared
  apply scanString_returns h (fun pre st => st.1 = tailRun '@' pre ∧
    st.2 = tally max ((missGaps pre pre.length).map (min (max - 1))))
  · refine ⟨rfl, ?_⟩
    rw [hcleared, ← hhist, List.drop_length, List.append_nil]
    rfl
  · intro pre c rest st _ hst
    obtain ⟨len, buckets⟩ := st
    obtain ⟨hlen, hbuckets⟩ := hst
    dsimp only at hlen hbuckets ⊢
    by_cases hc : c = '@'
    · have hbucket : (if max ≤ len then max - 1 else len) = min (max - 1) len := by
        split_ifs <;> omega
      have hlt : min (max - 1) len < max := by omega
      have hin : min (max - 1) len < buckets.length := by rwa [hbuckets, length_tally]
      rw [if_pos hc, require_pos hmax, pure_bind, hbucket, readAt_eq hin, ok_bind, writeAt_eq _ hin, ok_bind,
        returns_pure]
      refine ⟨?_, ?_⟩
      · rw [hc, tailRun_append_mark]
      · have hcount : buckets[min (max - 1) len] =
            ((missGaps pre pre.length).map (min (max - 1))).count (min (max - 1) len) := by
          have hget : buckets[min (max - 1) len]? = _ := hbuckets ▸ getElem?_tally hlt
          rw [List.getElem?_eq_getElem hin, Option.some.injEq] at hget
          exact hget
        rw [missGaps_concat, if_pos hc, List.map_append, List.map_singleton, ← hlen, tally_append hlt, ← hbuckets,
          hcount]
    · rw [if_neg hc, returns_pure]
      refine ⟨?_, ?_⟩
      · rw [tailRun_append_other _ _ hc, hlen]
      · rw [missGaps_concat, if_neg hc, List.append_nil]
        exact hbuckets
  · intro st hst
    exact hst.2

/-- The loops of `attack` add up the buckets below `split` and the others. -/
theorem lowHigh_returns {hist : List ℕ} (hhist : hist.length = 100) :
    Returns (lowHigh hist) fun r => r = ((hist.take split).sum, (hist.drop split).sum) := by
  have hlow := sum_returns hist 0 split 0 (by rw [hhist]; decide)
  have hhigh := sum_returns hist split (100 - split) 0 (by rw [hhist]; decide)
  simp only [Nat.zero_add, List.drop_zero] at hlow hhigh
  unfold lowHigh
  apply hlow.bind
  rintro _ rfl
  apply hhigh.bind
  rintro _ rfl
  rw [returns_pure, List.take_of_length_le (l := hist.drop split) (by rw [List.length_drop, hhist])]

/-- Every miss ends a gap. -/
theorem length_missGaps (text : List Char) : (missGaps text text.length).length = text.count '@' := by
  induction text using List.reverseRecOn with
  | nil => rfl
  | append_singleton pre c ih =>
      rw [missGaps_concat, List.length_append, ih, List.count_append, List.count_singleton]
      by_cases hc : c = '@'
      · simp [hc]
      · simp [hc]

theorem bit_eq_clear {gap : ℕ} : (if gap < split then '0' else '1') = '0' ↔ gap < split := by
  split_ifs with h <;> simp [h]

theorem bit_eq_set {gap : ℕ} : (if gap < split then '0' else '1') = '1' ↔ split ≤ gap := by
  split_ifs with h <;> simp [h, Nat.not_lt.mp]

/-- The sums of `attack` over the histogram are the numbers of clear and of set bits of the trace. -/
theorem lowHigh_counts_bits {buffer text : List Char} {start : ℕ} {hist : List ℕ}
    (h : CString buffer (start + 1) text) (hhist : hist.length = 100) :
    Returns (do
        let hist ← histogram buffer start hist 100
        lowHigh hist) fun r =>
      r.1 = (keyBitsTo text text.length).count '0' ∧ r.2 = (keyBitsTo text text.length).count '1' ∧
        r.1 + r.2 = text.count '@' := by
  apply (histogram_returns h (by decide) hhist).bind
  intro hist' hhist'
  apply (lowHigh_returns (hhist' ▸ length_tally)).mono
  rintro _ rfl
  generalize hgaps : missGaps text text.length = gaps at hhist'
  have hbuckets : ∀ bucket ∈ gaps.map (min (100 - 1)), bucket < 100 := by
    intro bucket hbucket
    obtain ⟨gap, -, rfl⟩ := List.mem_map.mp hbucket
    omega
  have hclear : (hist'.take split).sum = (keyBitsTo text text.length).count '0' := by
    rw [hhist', sum_take_tally (by decide), keyBitsTo_eq_map, hgaps, List.count, List.countP_map, List.countP_map]
    apply List.countP_congr
    intro gap _
    rw [Function.comp_apply, Function.comp_apply, decide_eq_true_eq, beq_iff_eq, bit_eq_clear, split]
    omega
  have hset : (hist'.drop split).sum = (keyBitsTo text text.length).count '1' := by
    rw [hhist', sum_drop_tally hbuckets (by decide), keyBitsTo_eq_map, hgaps, List.count, List.countP_map,
      List.countP_map]
    apply List.countP_congr
    intro gap _
    rw [Function.comp_apply, Function.comp_apply, decide_eq_true_eq, beq_iff_eq, bit_eq_set, split]
    omega
  have hall : (hist'.take split).sum + (hist'.drop split).sum = text.count '@' := by
    have hcounted := List.countP_eq_length.mpr fun bucket hbucket => decide_eq_true (hbuckets bucket hbucket)
    rw [List.sum_take_add_sum_drop, hhist', sum_tally, hcounted, List.length_map, ← hgaps, length_missGaps]
  exact ⟨hclear, hset, hall⟩

/-- **The filter agrees with the decoder.** For every record that is not empty, the sums of `attack` over the
histogram are the numbers of clear and of set bits that `parse` prints behind the leading bit, and together
the number of misses behind the first character. -/
theorem histogram_agrees_with_parse (buffer : List Char) (record : ℕ) (c : Char) (text : List Char)
    (hrecord : CString buffer record (c :: text)) (hist : List ℕ) (hhist : hist.length = 100) :
    Returns (do
        let hist ← histogram buffer record hist 100
        lowHigh hist) fun r =>
      Returns (parse buffer record) fun out => ∃ bits, out = "Key bits: 1".toList ++ bits ++ ['\n'] ∧
        r.1 = bits.count '0' ∧ r.2 = bits.count '1' ∧ r.1 + r.2 = text.count '@' := by
  have htail : CString buffer (record + 1) text := CString.tail [c] hrecord
  apply (lowHigh_counts_bits htail hhist).mono
  intro r hr
  apply (parse_returns htail).mono
  intro out hout
  exact ⟨_, hout, hr⟩

/-- A start and one close miss behind it: one clear bit, in buckets with leftovers of an earlier trace. -/
theorem histogram_agrees_on_close_miss :
    CString (closeMisses ++ [nul]) 200 ('@' :: ['.', '.', '.', '.', '.', '@']) ∧
      Returns (do
          let hist ← histogram (closeMisses ++ [nul]) 200 (List.replicate 100 7) 100
          lowHigh hist) fun r =>
        Returns (parse (closeMisses ++ [nul]) 200) fun out => ∃ bits, out = "Key bits: 1".toList ++ bits ++ ['\n'] ∧
          r.1 = bits.count '0' ∧ r.2 = bits.count '1' ∧ r.1 + r.2 = ['.', '.', '.', '.', '.', '@'].count '@' := by
  have hrecord : CString (closeMisses ++ [nul]) 200 ('@' :: ['.', '.', '.', '.', '.', '@']) :=
    ⟨⟨[], by decide +kernel⟩, by decide⟩
  exact ⟨hrecord, histogram_agrees_with_parse _ 200 '@' _ hrecord _ List.length_replicate⟩

end ChannelBench
