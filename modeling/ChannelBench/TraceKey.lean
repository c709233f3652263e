import ChannelBench.TraceScan

/-! What the scanners do on a trace. `findend` recognises the first gap but writes the NUL over the miss
in front of the gap instead of over its first sample, so the last key bit is lost; when that miss is
the start itself, `parse` steps over the NUL and reads on behind the gap. -/

namespace ChannelBench

open CSem

section Bits

theorem missGaps_succ (text : List Char) (n : ℕ) : missGaps text (n + 1) =
    missGaps text n ++ if text[n]? = some '@' then [tailRun '@' (text.take n)] else [] := by
  unfold missGaps
  rw [List.range_succ, List.filter_append, List.map_append]
  by_cases h : text[n]? = some '@'
  · simp [h]
  · simp [h]

/-- Gaps depend on the samples up to them only. -/
theorem missGaps_append (pre suf : List Char) {n : ℕ} (hn : n ≤ pre.length) :
    missGaps (pre ++ suf) n = missGaps pre n := by
  induction n with
  | zero => rfl
  | succ n ih =>
      rw [missGaps_succ, missGaps_succ, ih (by omega), List.getElem?_append_left (by omega),
        List.take_append_of_le_length (by omega)]

/-- One more sample ends a gap when it is a miss. -/
theorem missGaps_concat (pre : List Char) (c : Char) : missGaps (pre ++ [c]) (pre ++ [c]).length =
    missGaps pre pre.length ++ if c = '@' then [tailRun '@' pre] else [] := by
  rw [List.length_append, List.length_singleton, missGaps_succ, missGaps_append _ _ (le_refl _),
    List.getElem?_concat_length, List.take_left]
  simp only [Option.some.injEq]

/-- The bits of a trace are read off its gaps. -/
theorem keyBitsTo_eq_map (text : List Char) (n : ℕ) :
    keyBitsTo text n = (missGaps text n).map fun gap => if gap < split then '0' else '1' := by
  rw [keyBitsTo, missGaps, List.map_map]
  rfl

theorem keyBitsTo_succ (text : List Char) (n : ℕ) : keyBitsTo text (n + 1) =
    keyBitsTo text n ++ if text[n]? = some '@' then [keyBit text n] else [] := by
  rw [keyBitsTo_eq_map, keyBitsTo_eq_map, missGaps_succ, List.map_append]
  by_cases h : text[n]? = some '@'
  · rw [if_pos h, if_pos h]
    rfl
  · rw [if_neg h, if_neg h]
    rfl

/-- Bits depend on the samples up to them only. -/
theorem keyBitsTo_append (pre suf : List Char) {n : ℕ} (hn : n ≤ pre.length) :
    keyBitsTo (pre ++ suf) n = keyBitsTo pre n := by
  rw [keyBitsTo_eq_map, keyBitsTo_eq_map, missGaps_append _ _ hn]

end Bits

/-- `parse` prints a bit for every miss behind the start. -/
theorem parse_returns {buffer text : List Char} {start : ℕ} (h : CString buffer (start + 1) text) :
    Returns (parse buffer start) fun out =>
      out = "Key bits: 1".toList ++ keyBitsTo text text.length ++ ['\n'] := by
  unfold parse
  apply scanString_returns h (fun pre st => st.1 = tailRun '@' pre ∧ st.2.1.length = 100 ∧
    st.2.2 = "Key bits: 1".toList ++ keyBitsTo pre pre.length)
  · exact ⟨rfl, List.length_replicate, rfl⟩
  · intro pre c rest st _ hst
    obtain ⟨len, lens, out⟩ := st
    obtain ⟨hlen, hlens, hout⟩ := hst
    dsimp only at hlen hlens hout ⊢
    have hbits : keyBitsTo (pre ++ [c]) (pre ++ [c]).length = keyBitsTo pre pre.length ++
        if c = '@' then [if len < split then '0' else '1'] else [] := by
      rw [keyBitsTo_eq_map, keyBitsTo_eq_map, missGaps_concat, List.map_append, hlen]
      by_cases hc : c = '@'
      · rw [if_pos hc, if_pos hc]
        rfl
      · rw [if_neg hc, if_neg hc]
        rfl
    by_cases hc : c = '@'
    · have hlt : (if len > 99 then 99 else len) < lens.length := by
        split_ifs <;> omega
      rw [if_pos hc, readAt_eq hlt, ok_bind, writeAt_eq _ hlt, ok_bind, returns_pure]
      refine ⟨?_, List.length_set.trans hlens, ?_⟩
      · rw [hc, tailRun_append_mark]
      · rw [hbits, if_pos hc, hout, List.append_assoc]
    · rw [if_neg hc, returns_pure]
      refine ⟨?_, hlens, ?_⟩
      · rw [tailRun_append_other _ _ hc, hlen]
      · rw [hbits, if_neg hc, hout, List.append_nil]
  · intro st hst
    rw [hst.2.2]

/-- A miss behind a long gap. -/
def StartAt (text : List Char) (k : ℕ) : Prop :=
  text[k]? = some '@' ∧ gapLen ≤ k ∧ ∀ j, j < k → k ≤ j + gapLen → text[j]? ≠ some '@'

/-- `findstart` finds a start if there is one. -/
theorem findstart_returns {buffer text : List Char} {p : ℕ} (h : CString buffer p text) :
    Returns (findstart buffer p) fun r => (∀ start, r = some start → ∃ k, start = p + k ∧ StartAt text k) ∧
      (r = none → ∀ k, ¬StartAt text k) := by
  have hstart : ∀ k, k < text.length →
      (StartAt text k ↔ text[k]? = some '@' ∧ gapLen ≤ tailRun '@' (text.take k)) := by
    intro k hk
    rw [StartAt, le_tailRun_take '@' hk.le]
  unfold findstart
  apply scanString_returns h (fun pre len => len = tailRun '@' pre ∧ ∀ k, k < pre.length → ¬StartAt text k) _
    ⟨rfl, fun k hk => absurd hk (Nat.not_lt_zero k)⟩
  · intro pre c rest len htext hinv
    obtain ⟨hlen, hnone⟩ := hinv
    have hlt : pre.length < text.length := by
      rw [htext, List.length_append, List.length_cons]
      omega
    have hget : text[pre.length]? = some c := by
      rw [htext, List.getElem?_append_right (le_refl _), Nat.sub_self]
      rfl
    have htake : text.take pre.length = pre := by rw [htext, List.take_left]
    have hhere := hstart pre.length hlt
    rw [hget, htake, ← hlen, Option.some.injEq] at hhere
    have hnext : ¬StartAt text pre.length → ∀ k, k < (pre ++ [c]).length → ¬StartAt text k := by
      intro hno k hk
      rw [List.length_append, List.length_singleton] at hk
      rcases Nat.lt_succ_iff_lt_or_eq.mp hk with hk | rfl
      · exact hnone k hk
      · exact hno
    by_cases hc : c = '@'
    · rw [if_pos hc]
      by_cases hgap : gapLen ≤ len
      · rw [if_pos hgap, returns_pure]
        refine ⟨?_, nofun⟩
        rintro _ ⟨⟩
        exact ⟨_, rfl, hhere.mpr ⟨hc, hgap⟩⟩
      · rw [if_neg hgap, returns_pure]
        refine ⟨?_, hnext fun h => hgap (hhere.mp h).2⟩
        rw [hc]
        exact (tailRun_append_mark '@' pre).symm
    · rw [if_neg hc, returns_pure]
      refine ⟨?_, hnext fun h => hc (hhere.mp h).1⟩
      rw [tailRun_append_other _ _ hc, hlen]
  · intro len hinv
    refine ⟨nofun, ?_⟩
    intro _ k hk
    exact hinv.2 k (List.getElem?_eq_some_iff.mp hk.1).1 hk

/-- The trace behind a start is the record behind it. -/
theorem findstart_string {buffer record : List Char} {start : ℕ} (hrecord : CString buffer 0 record)
    (hstart : findstart buffer 0 = .ok (some start)) :
    CString buffer start ('@' :: record.drop (start + 1)) := by
  obtain ⟨k, hindex, hmiss, -⟩ := ((findstart_returns hrecord).of_eq_ok hstart).1 start rfl
  rw [Nat.zero_add] at hindex
  subst hindex
  obtain ⟨hlt, hget⟩ := List.getElem?_eq_some_iff.mp hmiss
  have htail := CString.tail (record.take start) (by rwa [List.take_append_drop])
  rwa [List.length_take, Nat.min_eq_left hlt.le, Nat.zero_add, List.drop_eq_getElem_cons hlt, hget] at htail

/-! ### The first gap -/

/-- The first gap of a trace. -/
structure FirstGap (text : List Char) (g : ℕ) : Prop where
  gap : GapAt text g
  first : ∀ i, i < g → ¬GapAt text i

section Gaps

variable {text : List Char} {g : ℕ}

theorem gapLen_pos : 0 < gapLen := by decide

theorem GapAt.length_le (h : GapAt text g) : g + gapLen ≤ text.length := by
  have hlength := h.1
  have hpos := gapLen_pos
  rw [List.length_take, List.length_drop] at hlength
  omega

theorem gapStart_eq_length (h : ∀ i, ¬GapAt text i) : gapStart text = text.length := by
  rw [gapStart, List.find?_eq_none.mpr]
  · rfl
  · intro i _
    simpa using h i

theorem FirstGap.gapStart_eq (h : FirstGap text g) : gapStart text = g := by
  have hlt : g < text.length := by
    have := h.gap.length_le
    have := gapLen_pos
    omega
  rw [gapStart, List.find?_range_eq_some.mpr]
  · rfl
  · exact ⟨by simpa using h.gap, List.mem_range.mpr hlt, fun i hi => by simpa using h.first i hi⟩

/-- A first gap behind the first sample has a miss in front of it. -/
theorem FirstGap.miss_before (h : FirstGap text (g + 1)) : text[g]? = some '@' := by
  have hlength := h.gap.length_le
  have hlt : g < text.length := by omega
  rw [List.getElem?_eq_getElem hlt]
  by_contra hne
  apply h.first g (Nat.lt_succ_self g)
  obtain ⟨n, hn⟩ : ∃ n, gapLen = n + 1 := ⟨gapLen - 1, by have := gapLen_pos; omega⟩
  constructor
  · rw [List.length_take, List.length_drop]
    omega
  · intro hmem
    rw [List.drop_eq_getElem_cons hlt, hn, List.take_succ_cons, List.mem_cons] at hmem
    rcases hmem with heq | hmem
    · exact hne (congrArg some heq.symm)
    · have hgap := h.gap.2
      rw [hn] at hgap
      exact hgap (List.take_subset_take_left _ (Nat.le_succ n) hmem)

/-- A run of gap length behind a start ends a gap. -/
theorem gapLen_le_tailRun {k : ℕ} (hk : k ≤ text.length) :
    gapLen ≤ tailRun '@' ('@' :: text.take k) ↔ gapLen ≤ k ∧ GapAt text (k - gapLen) := by
  have hpos := gapLen_pos
  have hlength : ('@' :: text.take k).length = k + 1 := by
    rw [List.length_cons, List.length_take]
    omega
  rw [le_tailRun, hlength]
  by_cases hle : gapLen ≤ k
  · have hdrop : ('@' :: text.take k).drop (k + 1 - gapLen) = (text.drop (k - gapLen)).take gapLen := by
      rw [show k + 1 - gapLen = k - gapLen + 1 by omega, List.drop_succ_cons, List.drop_take,
        Nat.sub_sub_self hle]
    rw [hdrop, GapAt, List.length_take, List.length_drop]
    constructor
    · intro h
      exact ⟨hle, by omega, h.2⟩
    · intro h
      exact ⟨by omega, h.2.2⟩
  · constructor
    · intro h
      have hzero : k + 1 - gapLen = 0 := by omega
      rw [hzero, List.drop_zero] at h
      exact absurd List.mem_cons_self h.2
    · intro h
      exact absurd h.1 hle

end Gaps

/-- `findend` leaves a trace without a gap, and writes the NUL one place in front of the first gap
otherwise. -/
theorem findend_returns {buffer text : List Char} {start : ℕ}
    (h : CString buffer start ('@' :: text)) :
    Returns (findend buffer start) fun buffer' => (∀ i, ¬GapAt text i) ∧ buffer' = buffer ∨
      ∃ g, FirstGap text g ∧ buffer' = buffer.set (start + g) nul := by
  have hpos := gapLen_pos
  unfold findend
  apply scanString_returns h (fun pre len => len = tailRun '@' pre ∧ len < gapLen ∧
    ∀ k, k < pre.length → tailRun '@' ('@' :: text.take k) < gapLen) _ ⟨rfl, hpos, by simp⟩
  · intro pre c rest len htext hinv
    obtain ⟨hlen, hbound, hshort⟩ := hinv
    have hnext : pre ++ [c] = '@' :: text.take pre.length := by
      have htake := congrArg (List.take (pre.length + 1)) htext
      rw [List.take_succ_cons, List.take_append, List.take_of_length_le (Nat.le_succ _),
        Nat.add_sub_cancel_left, List.take_succ_cons, List.take_zero] at htake
      exact htake.symm
    have hle : pre.length ≤ text.length := by
      have hlength := congrArg List.length htext
      simp only [List.length_cons, List.length_append] at hlength
      omega
    -- the run stays short up to the character just read
    have hstep : tailRun '@' (pre ++ [c]) < gapLen → ∀ k, k < (pre ++ [c]).length →
        tailRun '@' ('@' :: text.take k) < gapLen := by
      intro hrun k hk
      rw [List.length_append, List.length_singleton] at hk
      rcases Nat.lt_succ_iff_lt_or_eq.mp hk with hlt | heq
      · exact hshort k hlt
      · rwa [heq, ← hnext]
    by_cases hc : c = '@'
    · rw [if_pos hc, returns_pure]
      have hrun : tailRun '@' (pre ++ [c]) = 0 := by rw [hc, tailRun_append_mark]
      exact ⟨hrun.symm, hpos, hstep (by omega)⟩
    · have hrun : tailRun '@' (pre ++ [c]) = len + 1 := by rw [tailRun_append_other _ _ hc, hlen]
      rw [if_neg hc]
      by_cases hgap : len + 1 = gapLen
      · have hend := (gapLen_le_tailRun hle).mp (by rw [← hnext, hrun, hgap])
        have hplace : start + pre.length - gapLen = start + (pre.length - gapLen) := by
          omega
        have hroom := h.length_lt
        rw [List.length_cons] at hroom
        rw [if_pos hgap, require_pos (by omega), pure_bind, writeAt_eq _ (by omega), ok_bind,
          returns_pure]
        refine .inr ⟨pre.length - gapLen, ⟨hend.2, ?_⟩, by rw [hplace]⟩
        intro i hi hgapAt
        have hfits : i + gapLen ≤ text.length := by omega
        have hearly := (gapLen_le_tailRun hfits).mpr
          ⟨by omega, by rwa [Nat.add_sub_cancel]⟩
        have hlate := hshort (i + gapLen) (by omega)
        omega
      · rw [if_neg hgap, returns_pure]
        exact ⟨hrun.symm, by omega, hstep (by omega)⟩
  · intro len hinv
    refine .inl ⟨?_, rfl⟩
    intro i hgapAt
    have hlength := hgapAt.length_le
    have hearly := (gapLen_le_tailRun hlength).mpr ⟨by omega, by rwa [Nat.add_sub_cancel]⟩
    have hlate := hinv.2.2 (i + gapLen) (by rw [List.length_cons]; omega)
    omega

/-! ### The printed key -/

/-- The string that `findend` leaves behind the start, and the one character it may write. -/
theorem findend_behind {buffer text : List Char} {start : ℕ} (h : CString buffer start ('@' :: text)) :
    Returns (findend buffer start) fun cut => (cut = buffer ∨ ∃ i, cut = buffer.set i nul) ∧
      ∃ text', CString cut (start + 1) text' ∧ ((∀ i, ¬GapAt text i) ∧ text' = text ∨
        FirstGap text 0 ∧ text' = text ∨ ∃ g, FirstGap text (g + 1) ∧ text' = text.take g) := by
  have htail : CString buffer (start + 1) text := CString.tail ['@'] h
  apply (findend_returns h).mono
  intro cut hcut
  rcases hcut with ⟨hfree, rfl⟩ | ⟨g, hgap, rfl⟩
  · exact ⟨.inl rfl, text, htail, .inl ⟨hfree, rfl⟩⟩
  · refine ⟨.inr ⟨_, rfl⟩, ?_⟩
    cases g with
    | zero => exact ⟨text, htail.set_before (Nat.lt_succ_self start), .inr (.inl ⟨hgap, rfl⟩)⟩
    | succ g =>
        have hle := hgap.gap.length_le
        have hcut := htail.set_inside (show g < text.length by omega)
        rw [show start + 1 + g = start + (g + 1) by omega] at hcut
        exact ⟨_, hcut, .inr (.inr ⟨g, hgap, rfl⟩)⟩

/-- What is printed when the first gap is recognised: the bit of the last miss in front of it is missing,
and a gap right behind the start is not seen at all. -/
theorem printKey_returns {buffer text : List Char} {start : ℕ}
    (h : CString buffer start ('@' :: text)) :
    Returns (printKey buffer start) fun out =>
      (∀ i, ¬GapAt text i) ∧ out = "Key bits: 1".toList ++ keyBitsTo text text.length ++ ['\n'] ∨
        FirstGap text 0 ∧ out = "Key bits: 1".toList ++ keyBitsTo text text.length ++ ['\n'] ∨
          ∃ g, FirstGap text (g + 1) ∧ out = "Key bits: 1".toList ++ keyBitsTo text g ++ ['\n'] := by
  apply (findend_behind h).bind
  rintro cut ⟨-, text', htext', hcase⟩
  apply (parse_returns htext').mono
  intro out hout
  rcases hcase with ⟨hfree, rfl⟩ | ⟨hgap, rfl⟩ | ⟨g, hgap, rfl⟩
  · exact .inl ⟨hfree, hout⟩
  · exact .inr (.inl ⟨hgap, hout⟩)
  · have hle := hgap.gap.length_le
    have hlength : (text.take g).length = g := by
      rw [List.length_take]
      omega
    have hbits : keyBitsTo (text.take g) g = keyBitsTo text g := by
      have happend := keyBitsTo_append (text.take g) (text.drop g) (le_of_eq hlength.symm)
      rw [List.take_append_drop] at happend
      exact happend.symm
    rw [hlength, hbits] at hout
    exact .inr (.inr ⟨g, hgap, hout⟩)

/-- The miss in front of a first gap has the last key bit. -/
theorem FirstGap.keyBits_eq {text : List Char} {g : ℕ} (h : FirstGap text (g + 1)) :
    keyBits text = keyBitsTo text g ++ [keyBit text g] := by
  rw [keyBits, h.gapStart_eq, keyBitsTo_succ, if_pos h.miss_before]

/-- So what is printed without it is not the key. -/
theorem FirstGap.printed_ne {text : List Char} {g : ℕ} (h : FirstGap text (g + 1)) :
    "Key bits: 1".toList ++ keyBitsTo text g ++ ['\n'] ≠ "Key bits: 1".toList ++ keyBits text ++ ['\n'] := by
  intro heq
  rw [h.keyBits_eq] at heq
  have hlength := congrArg List.length heq
  simp only [List.length_append, List.length_cons, List.length_nil] at hlength
  omega

theorem keyBitsTo_eq_nil {text : List Char} : keyBitsTo text text.length = [] ↔ '@' ∉ text := by
  rw [keyBitsTo, List.map_eq_nil_iff, List.filter_eq_nil_iff]
  constructor
  · intro h hmem
    obtain ⟨i, hi, hget⟩ := List.getElem_of_mem hmem
    have hnot := h i (List.mem_range.mpr hi)
    rw [List.getElem?_eq_getElem hi, hget] at hnot
    exact hnot (by simp)
  · intro h i _ hget
    exact h (List.mem_of_getElem? (of_decide_eq_true hget))

/-- **Key bits.** For a record in which `findstart` finds a start, `findend` and `parse` print the key bits
of the trace behind it exactly when no gap follows the start or no miss does. -/
theorem printKey_eq_keyBits_iff (buffer record : List Char) (hrecord : CString buffer 0 record)
    (start : ℕ) (hstart : findstart buffer 0 = .ok (some start)) :
    Returns (printKey buffer start) (fun out =>
        out = "Key bits: 1".toList ++ keyBits (record.drop (start + 1)) ++ ['\n']) ↔
      (∀ i, ¬GapAt (record.drop (start + 1)) i) ∨ '@' ∉ record.drop (start + 1) := by
  generalize htext : record.drop (start + 1) = text
  have hstring : CString buffer start ('@' :: text) := htext ▸ findstart_string hrecord hstart
  obtain ⟨out, hout, hprinted⟩ := printKey_returns hstring
  rw [hout, returns_ok]
  rcases hprinted with ⟨hfree, rfl⟩ | ⟨hgap, rfl⟩ | ⟨g, hgap, rfl⟩
  · rw [keyBits, gapStart_eq_length hfree]
    exact ⟨fun _ => .inl hfree, fun _ => rfl⟩
  · rw [keyBits, hgap.gapStart_eq, List.append_cancel_right_eq, List.append_cancel_left_eq]
    show keyBitsTo text text.length = [] ↔ _
    rw [keyBitsTo_eq_nil]
    exact ⟨.inr, fun h => h.resolve_left fun hfree => hfree 0 hgap.gap⟩
  · refine iff_of_false hgap.printed_ne ?_
    rintro (hfree | hnone)
    · exact hfree _ hgap.gap
    · exact hnone (List.mem_of_getElem? hgap.miss_before)

/-- A gap, the start, and one more miss close behind it. -/
def closeMisses : List Char := List.replicate 200 '.' ++ ['@', '.', '.', '.', '.', '.', '@']

theorem cString_append_nul {text : List Char} (h : nul ∉ text) : CString (text ++ [nul]) 0 text :=
  ⟨⟨[], rfl⟩, h⟩

theorem printKey_prints_close_miss :
    Returns (printKey (closeMisses ++ [nul]) 200) fun out => out = "Key bits: 10\n".toList := by
  have h := printKey_eq_keyBits_iff (closeMisses ++ [nul]) closeMisses
    (cString_append_nul (by decide +kernel)) 200 (by decide +kernel)
  have hkey : keyBits (closeMisses.drop (200 + 1)) = ['0'] := by decide +kernel
  rw [hkey] at h
  apply h.mpr
  left
  intro i hgap
  have hlength := hgap.length_le
  have hshort : (closeMisses.drop (200 + 1)).length < gapLen := by decide
  omega

/-- With a gap behind the second miss its bit is not printed. -/
theorem printKey_loses_a_bit :
    CString (closeMisses ++ List.replicate 200 '.' ++ [nul]) 0 (closeMisses ++ List.replicate 200 '.') ∧
      findstart (closeMisses ++ List.replicate 200 '.' ++ [nul]) 0 = .ok (some 200) ∧
        ¬Returns (printKey (closeMisses ++ List.replicate 200 '.' ++ [nul]) 200) (fun out =>
          out = "Key bits: 1".toList ++
            keyBits ((closeMisses ++ List.replicate 200 '.').drop (200 + 1)) ++ ['\n']) := by
  have hrecord : CString (closeMisses ++ List.replicate 200 '.' ++ [nul]) 0
      (closeMisses ++ List.replicate 200 '.') := cString_append_nul (by decide +kernel)
  have hstart : findstart (closeMisses ++ List.replicate 200 '.' ++ [nul]) 0 = .ok (some 200) := by decide +kernel
  have hgap : GapAt ((closeMisses ++ List.replicate 200 '.').drop (200 + 1)) 6 := by decide +kernel
  have hclose : ¬GapAt ((closeMisses ++ List.replicate 200 '.').drop (200 + 1)) 0 := by decide +kernel
  refine ⟨hrecord, hstart, ?_⟩
  obtain ⟨out, hout, hprinted⟩ := printKey_returns (findstart_string hrecord hstart)
  rw [hout, returns_ok]
  rcases hprinted with ⟨hfree, -⟩ | ⟨hfirst, -⟩ | ⟨g, hfirst, rfl⟩
  · exact absurd hgap (hfree 6)
  · exact absurd hfirst.gap hclose
  · exact hfirst.printed_ne

end ChannelBench
