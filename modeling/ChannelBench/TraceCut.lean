import ChannelBench.TraceHistogram

/-! Where the scanners stop after `findend`. They skip the start itself, which does no harm as long as the NUL
is written behind it. When a gap follows the start directly, `findend` writes the NUL over the start, and
the scanners step over it. -/

namespace ChannelBench

open CSem

section Scanners

variable {buffer text : List Char} {start : ℕ}

/-- `parse` stops at the end of a trace that holds its start. -/
theorem parse_stops {c : Char} (h : CString buffer start (c :: text)) :
    StopsAtNul (fun buffer => parse buffer start) buffer start :=
  h.stopsAtNul fun _ h => parse_returns (CString.tail [c] h)

/-- `parse` steps over a NUL at the start. -/
theorem not_parse_stops (h : CString buffer start []) :
    ¬StopsAtNul (fun buffer => parse buffer start) buffer start := by
  apply h.not_stopsAtNul
  rw [parse]
  exact scanString_eq_error (List.length_take_le _ _)

/-- `histogram` stops at the end of a trace that holds its start. -/
theorem histogram_stops {c : Char} (h : CString buffer start (c :: text)) {hist : List ℕ} {max : ℕ}
    (hmax : 0 < max) (hhist : hist.length = max) :
    StopsAtNul (fun buffer => histogram buffer start hist max) buffer start :=
  h.stopsAtNul fun _ h => histogram_returns (CString.tail [c] h) hmax hhist

/-- `histogram` steps over a NUL at the start. -/
theorem not_histogram_stops (h : CString buffer start []) {hist : List ℕ} {max : ℕ} (hhist : hist.length = max) :
    ¬StopsAtNul (fun buffer => histogram buffer start hist max) buffer start := by
  obtain ⟨cleared, hcleared, -⟩ := fill_returns (fun _ => 0) hhist.ge
  apply h.not_stopsAtNul
  rw [histogram, hcleared, ok_bind]
  exact scanString_eq_error (List.length_take_le _ _)

/-- The string that `findend` leaves at the start: nothing when a gap follows directly, and otherwise the
start and samples in front of the first gap. -/
theorem findend_leaves (h : CString buffer start ('@' :: text)) :
    Returns (findend buffer start) fun cut => GapAt text 0 ∧ CString cut start [] ∨
      ¬GapAt text 0 ∧ ∃ n, n ≤ gapStart text ∧ CString cut start ('@' :: text.take n) := by
  apply (findend_returns h).mono
  intro cut hcut
  rcases hcut with ⟨hfree, rfl⟩ | ⟨g, hgap, rfl⟩
  · refine .inr ⟨hfree 0, text.length, (gapStart_eq_length hfree).ge, ?_⟩
    rwa [List.take_length]
  · have hle := hgap.gap.length_le
    have hset := h.set_inside (show g < ('@' :: text).length by rw [List.length_cons]; omega)
    cases g with
    | zero => exact .inl ⟨hgap.gap, hset⟩
    | succ g => exact .inr ⟨hgap.first 0 (Nat.zero_lt_succ g), g, hgap.gapStart_eq.ge.trans' (Nat.le_succ g), hset⟩

end Scanners

/-- **The truncation point.** For a record in which `findstart` finds a start, neither scanner reads behind the
first NUL that `findend` leaves at or after the start exactly when no gap follows the start directly. The trace
they see then ends in front of the first gap. -/
theorem scanners_stop_iff (buffer record : List Char) (hrecord : CString buffer 0 record) (start : ℕ)
    (hstart : findstart buffer 0 = .ok (some start)) (hist : List ℕ) (max : ℕ) (hmax : 0 < max)
    (hhist : hist.length = max) :
    Returns (findend buffer start) fun cut =>
      (StopsAtNul (fun buffer => histogram buffer start hist max) cut start ↔
          ¬GapAt (record.drop (start + 1)) 0) ∧
        (StopsAtNul (fun buffer => parse buffer start) cut start ↔ ¬GapAt (record.drop (start + 1)) 0) ∧
          (¬GapAt (record.drop (start + 1)) 0 → ∃ text, CString cut start text ∧
            text <+: '@' :: (record.drop (start + 1)).take (gapStart (record.drop (start + 1)))) := by
  apply (findend_leaves (findstart_string hrecord hstart)).mono
  intro cut hcut
  rcases hcut with ⟨hgap, hempty⟩ | ⟨hfree, n, hn, hstart⟩
  · exact ⟨iff_of_false (not_histogram_stops hempty hhist) (not_not.mpr hgap),
      iff_of_false (not_parse_stops hempty) (not_not.mpr hgap), fun hfree => absurd hgap hfree⟩
  · refine ⟨iff_of_true (histogram_stops hstart hmax hhist) hfree, iff_of_true (parse_stops hstart) hfree, ?_⟩
    intro _
    refine ⟨_, hstart, ?_⟩
    rw [List.cons_prefix_cons]
    exact ⟨rfl, List.take_prefix_take_left hn⟩

theorem scanners_stop_behind_close_miss :
    Returns (findend (closeMisses ++ [nul]) 200) fun cut =>
      StopsAtNul (fun buffer => histogram buffer 200 (List.replicate 100 0) 100) cut 200 ∧
        StopsAtNul (fun buffer => parse buffer 200) cut 200 := by
  have hfree : ¬GapAt (closeMisses.drop (200 + 1)) 0 := by decide +kernel
  apply (scanners_stop_iff (closeMisses ++ [nul]) closeMisses (cString_append_nul (by decide +kernel)) 200
    (by decide +kernel) (List.replicate 100 0) 100 (by decide) List.length_replicate).mono
  intro cut hcut
  exact ⟨hcut.1.mpr hfree, hcut.2.1.mpr hfree⟩

/-- A start between two gaps, and a miss behind the second one. -/
def gapBehindStart : List Char := List.replicate 200 '.' ++ '@' :: List.replicate 200 '.' ++ ['@']

/-- There the scanners read the miss behind the gap. -/
theorem scanners_pass_the_nul :
    CString (gapBehindStart ++ [nul]) 0 gapBehindStart ∧
      findstart (gapBehindStart ++ [nul]) 0 = .ok (some 200) ∧
        ¬Returns (findend (gapBehindStart ++ [nul]) 200) fun cut =>
          StopsAtNul (fun buffer => histogram buffer 200 (List.replicate 100 0) 100) cut 200 ∧
            StopsAtNul (fun buffer => parse buffer 200) cut 200 := by
  have hrecord : CString (gapBehindStart ++ [nul]) 0 gapBehindStart := cString_append_nul (by decide +kernel)
  have hstart : findstart (gapBehindStart ++ [nul]) 0 = .ok (some 200) := by decide +kernel
  have hgap : GapAt (gapBehindStart.drop (200 + 1)) 0 := by decide +kernel
  refine ⟨hrecord, hstart, ?_⟩
  rintro ⟨cut, hcut, -, hparse⟩
  rcases (findend_leaves (findstart_string hrecord hstart)).of_eq_ok hcut with ⟨-, hempty⟩ | ⟨hfree, -⟩
  · exact not_parse_stops hempty hparse
  · exact hfree hgap

end ChannelBench
