import ChannelBench.CArray
import Mathlib.Tactic.Common

/-! C strings and loops over them. A string is the part of a buffer from a pointer to the next NUL; a
`while (*p)` loop reads it a character at a time, so the rule for it has an invariant of the prefix
read so far. The run at the end of a prefix is what the scanners of this kind count. -/

namespace CSem

def nul : Char := Char.ofNat 0

/-- The string at a pointer into a buffer. -/
structure CString (buffer : List Char) (p : ℕ) (text : List Char) : Prop where
  drop_eq : ∃ rest, buffer.drop p = text ++ nul :: rest
  nul_free : nul ∉ text

namespace CString

variable {buffer text : List Char} {p : ℕ}

theorem length_lt (h : CString buffer p text) : p + text.length < buffer.length := by
  obtain ⟨rest, hrest⟩ := h.drop_eq
  have hlength := congrArg List.length hrest
  rw [List.length_drop, List.length_append, List.length_cons] at hlength
  omega

theorem getElem?_eq (h : CString buffer p text) {k : ℕ} (hk : k < text.length) :
    buffer[p + k]? = text[k]? := by
  obtain ⟨rest, hrest⟩ := h.drop_eq
  rw [← List.getElem?_drop, hrest, List.getElem?_append_left hk]

theorem getElem?_length (h : CString buffer p text) : buffer[p + text.length]? = some nul := by
  obtain ⟨rest, hrest⟩ := h.drop_eq
  rw [← List.getElem?_drop, hrest, List.getElem?_append_right (le_refl _), Nat.sub_self]
  rfl

/-- `*p`. -/
theorem readAt_head (h : CString buffer p text) : readAt buffer p = .ok (text.headD nul) := by
  obtain ⟨rest, hrest⟩ := h.drop_eq
  have hget : buffer[p]? = some (text.headD nul) := by
    rw [← Nat.add_zero p, ← List.getElem?_drop, hrest]
    cases text <;> rfl
  exact readAt_of_eq_some hget

/-- The string at a pointer into a string. -/
theorem tail (pre : List Char) {suf : List Char} (h : CString buffer p (pre ++ suf)) :
    CString buffer (p + pre.length) suf where
  drop_eq := by
    obtain ⟨rest, hrest⟩ := h.drop_eq
    refine ⟨rest, ?_⟩
    rw [← List.drop_drop, hrest, List.append_assoc, List.drop_left]
  nul_free := fun hmem => h.nul_free (List.mem_append_right pre hmem)

/-- A NUL written in front of a string leaves it. -/
theorem set_before (h : CString buffer p text) {i : ℕ} (hi : i < p) :
    CString (buffer.set i nul) p text where
  drop_eq := by
    obtain ⟨rest, hrest⟩ := h.drop_eq
    exact ⟨rest, by rw [List.drop_set_of_lt hi, hrest]⟩
  nul_free := h.nul_free

/-- A NUL written into a string cuts it off. -/
theorem set_inside (h : CString buffer p text) {k : ℕ} (hk : k < text.length) :
    CString (buffer.set (p + k) nul) p (text.take k) where
  drop_eq := by
    obtain ⟨rest, hrest⟩ := h.drop_eq
    refine ⟨text.drop (k + 1) ++ nul :: rest, ?_⟩
    rw [List.drop_set, if_neg (by omega), Nat.add_sub_cancel_left, hrest,
      List.set_append_left k nul hk, List.set_eq_take_append_cons_drop, if_pos hk, List.append_assoc,
      List.cons_append]
  nul_free := fun hmem => h.nul_free (List.mem_of_mem_take hmem)

/-- The buffer cut off behind a string holds the string. -/
theorem take_end (h : CString buffer p text) : CString (buffer.take (p + text.length + 1)) p text where
  drop_eq := by
    obtain ⟨rest, hrest⟩ := h.drop_eq
    refine ⟨[], ?_⟩
    rw [Nat.add_assoc, ← List.take_drop, hrest, List.take_length_add_append]
    rfl
  nul_free := h.nul_free

end CString

/-- What is found at a pointer: the string, when a NUL comes in the end. -/
def stringAt (buffer : List Char) (p : ℕ) : List Char := (buffer.drop p).takeWhile (· ≠ nul)

theorem CString.stringAt_eq {buffer text : List Char} {p : ℕ} (h : CString buffer p text) :
    stringAt buffer p = text := by
  obtain ⟨rest, hrest⟩ := h.drop_eq
  rw [stringAt, hrest, List.takeWhile_append_of_pos]
  · simp
  · intro c hc
    simp only [ne_eq, decide_eq_true_eq]
    exact fun heq => h.nul_free (heq ▸ hc)

/-- There is one string at a pointer only. -/
theorem CString.unique {buffer text text' : List Char} {p : ℕ} (h : CString buffer p text)
    (h' : CString buffer p text') : text = text' := by
  rw [← h.stringAt_eq, h'.stringAt_eq]

/-- A string ends at a NUL behind the pointer or before. -/
theorem cString_stringAt {buffer : List Char} {p q : ℕ} (hpq : p ≤ q) (hq : buffer[q]? = some nul) :
    CString buffer p (stringAt buffer p) ∧ p + (stringAt buffer p).length ≤ q := by
  have hstring : ∃ text, CString buffer p text ∧ p + text.length ≤ q := by
    obtain ⟨n, hn⟩ : ∃ n, q = p + n := ⟨q - p, by omega⟩
    induction n generalizing p with
    | zero =>
        refine ⟨[], ⟨⟨buffer.drop (p + 1), ?_⟩, List.not_mem_nil⟩, by simpa using hpq⟩
        rw [hn, Nat.add_zero] at hq
        rw [List.drop_eq_getElem?_toList_append, hq]
        rfl
    | succ n ih =>
        obtain ⟨text, htext, hle⟩ := ih (p := p + 1) (by omega) (by omega)
        have hlt : p < buffer.length := by
          have := htext.length_lt
          omega
        by_cases hc : buffer[p] = nul
        · refine ⟨[], ⟨⟨buffer.drop (p + 1), ?_⟩, List.not_mem_nil⟩, by simpa using hpq⟩
          rw [List.drop_eq_getElem_cons hlt, hc]
          rfl
        · obtain ⟨rest, hrest⟩ := htext.drop_eq
          refine ⟨buffer[p] :: text, ⟨⟨rest, ?_⟩, ?_⟩, by rw [List.length_cons]; omega⟩
          · rw [List.drop_eq_getElem_cons hlt, hrest]
            rfl
          · rw [List.mem_cons, not_or]
            exact ⟨Ne.symm hc, htext.nul_free⟩
  obtain ⟨text, htext, hle⟩ := hstring
  rw [htext.stringAt_eq]
  exact ⟨htext, hle⟩

/-- A run over a buffer reads nothing behind the first NUL at or after a pointer: it ends with the same value
on the buffer that is cut off behind that NUL. -/
def StopsAtNul {ρ : Type} (run : List Char → Run ρ) (buffer : List Char) (p : ℕ) : Prop :=
  ∃ text, CString buffer p text ∧ Returns (run (buffer.take (p + text.length + 1))) fun r => run buffer = .ok r

/-- A run whose value is a matter of the string stops at its end. -/
theorem CString.stopsAtNul {ρ : Type} {buffer text : List Char} {p : ℕ} {run : List Char → Run ρ} {r : ρ}
    (h : CString buffer p text) (hrun : ∀ buffer, CString buffer p text → Returns (run buffer) fun r' => r' = r) :
    StopsAtNul run buffer p := by
  refine ⟨text, h, ?_⟩
  apply (hrun _ h.take_end).mono
  rintro _ rfl
  obtain ⟨r', hr', rfl⟩ := hrun buffer h
  exact hr'

/-- A run that faults on what is left of the buffer behind a string does not stop there. -/
theorem CString.not_stopsAtNul {ρ : Type} {buffer text : List Char} {p : ℕ} {run : List Char → Run ρ}
    {fault : Fault} (h : CString buffer p text)
    (hrun : run (buffer.take (p + text.length + 1)) = .error fault) : ¬StopsAtNul run buffer p := by
  rintro ⟨text', htext', hreturns⟩
  rw [htext'.unique h, hrun] at hreturns
  exact returns_error.mp hreturns

section Scan

variable {σ ρ : Type}

/-- `while (*p) { body; p++; }`, where the body may leave with a result; `done` gives the result when
the NUL is reached. -/
def scanString (buffer : List Char) (body : ℕ → Char → σ → Run (σ ⊕ ρ)) (done : σ → ρ) (p : ℕ) (s : σ) :
    Run ρ :=
  loop (fun st : ℕ × σ => do
      let c ← readAt buffer st.1
      if c = nul then
        return .inr (done st.2)
      else
        let out ← body st.1 c st.2
        return out.map (fun s => (st.1 + 1, s)) id)
    (buffer.length + 1) (p, s)

/-- The scan rule: the invariant is about the prefix read so far. -/
theorem scanString_returns {buffer text : List Char} {p : ℕ} (h : CString buffer p text)
    {body : ℕ → Char → σ → Run (σ ⊕ ρ)} {done : σ → ρ} {s : σ} (Inv : List Char → σ → Prop)
    (Q : ρ → Prop) (h0 : Inv [] s)
    (hbody : ∀ pre c rest s, text = pre ++ c :: rest → Inv pre s →
      Returns (body (p + pre.length) c s) (Sum.elim (Inv (pre ++ [c])) Q))
    (hdone : ∀ s, Inv text s → Q (done s)) :
    Returns (scanString buffer body done p s) Q := by
  have hroom := h.length_lt
  apply loop_returns (fun st : ℕ × σ => ∃ k, k ≤ text.length ∧ st.1 = p + k ∧ Inv (text.take k) st.2)
    Q (fun st => buffer.length - st.1)
  · intro st hst
    obtain ⟨i, s⟩ := st
    obtain ⟨k, hk, hi, hinv⟩ := hst
    dsimp only at hi hinv ⊢
    subst hi
    rcases Nat.lt_or_eq_of_le hk with hlt | heq
    · have hread : readAt buffer (p + k) = .ok text[k] := by
        apply readAt_of_eq_some
        rw [h.getElem?_eq hlt, List.getElem?_eq_getElem hlt]
      have hne : text[k] ≠ nul := fun heq => h.nul_free (heq ▸ List.getElem_mem hlt)
      have hsplit : text = text.take k ++ text[k] :: text.drop (k + 1) := by
        rw [List.getElem_cons_drop, List.take_append_drop]
      have hstep := hbody _ _ _ s hsplit hinv
      have hlength : (text.take k).length = k := by
        rw [List.length_take]
        omega
      rw [hlength] at hstep
      rw [hread, ok_bind, if_neg hne]
      apply hstep.bind
      intro out hout
      rw [returns_pure]
      cases out with
      | inl t =>
          refine ⟨⟨k + 1, hlt, rfl, ?_⟩, ?_⟩
          · rw [List.take_succ_eq_append_getElem hlt]
            exact hout
          · show buffer.length - (p + k + 1) < buffer.length - (p + k)
            omega
      | inr r => exact hout
    · subst heq
      have hread : readAt buffer (p + text.length) = .ok nul := readAt_of_eq_some h.getElem?_length
      rw [List.take_length] at hinv
      rw [hread, ok_bind, if_pos rfl, returns_pure]
      exact hdone s hinv
  · exact ⟨0, Nat.zero_le _, rfl, h0⟩
  · show buffer.length - p < buffer.length + 1
    omega

/-- A scan that begins behind the buffer faults. -/
theorem scanString_eq_error {buffer : List Char} {p : ℕ} (h : buffer.length ≤ p)
    {body : ℕ → Char → σ → Run (σ ⊕ ρ)} {done : σ → ρ} {s : σ} :
    scanString buffer body done p s = .error .bounds := by
  rw [scanString, loop, readAt, List.getElem?_eq_none h]
  rfl

end Scan

section Edit

variable {σ : Type}

/-- `while (*p) { body; p++; }`, where the body writes to the buffer. -/
def editString (body : ℕ → Char → σ → List Char → Run (σ × List Char)) (p : ℕ) (s : σ) (buffer : List Char) :
    Run (σ × List Char) :=
  loop (fun st : ℕ × σ × List Char => do
      let c ← readAt st.2.2 st.1
      if c = nul then
        return .inr st.2
      else
        let out ← body st.1 c st.2.1 st.2.2
        return .inl (st.1 + 1, out))
    (buffer.length + 1) (p, s, buffer)

/-- The edit rule: the invariant is about the number of characters read so far, and nothing is written ahead of
them. -/
theorem editString_returns {buffer text : List Char} {p : ℕ} (h : CString buffer p text)
    {body : ℕ → Char → σ → List Char → Run (σ × List Char)} {s : σ} (Inv : ℕ → σ → List Char → Prop)
    (h0 : Inv 0 s buffer)
    (hahead : ∀ n s buffer', Inv n s buffer' → ∀ i, p + n ≤ i → buffer'[i]? = buffer[i]?)
    (hbody : ∀ n c s buffer', text[n]? = some c → Inv n s buffer' →
      Returns (body (p + n) c s buffer') fun r => Inv (n + 1) r.1 r.2) :
    Returns (editString body p s buffer) fun r => Inv text.length r.1 r.2 := by
  have hroom := h.length_lt
  apply loop_returns (fun st : ℕ × σ × List Char => ∃ n, n ≤ text.length ∧ st.1 = p + n ∧ Inv n st.2.1 st.2.2)
    _ (fun st => buffer.length - st.1)
  · intro st hst
    obtain ⟨i, s, buffer'⟩ := st
    obtain ⟨n, hn, hi, hinv⟩ := hst
    dsimp only at hi hinv ⊢
    subst hi
    have hsame := hahead n s buffer' hinv (p + n) (le_refl _)
    rcases Nat.lt_or_eq_of_le hn with hlt | heq
    · have hread : readAt buffer' (p + n) = .ok text[n] := by
        apply readAt_of_eq_some
        rw [hsame, h.getElem?_eq hlt, List.getElem?_eq_getElem hlt]
      have hne : text[n] ≠ nul := fun heq => h.nul_free (heq ▸ List.getElem_mem hlt)
      rw [hread, ok_bind, if_neg hne]
      apply (hbody n _ s buffer' (List.getElem?_eq_getElem hlt) hinv).bind
      intro out hout
      rw [returns_pure]
      refine ⟨⟨n + 1, hlt, rfl, hout⟩, ?_⟩
      show buffer.length - (p + n + 1) < buffer.length - (p + n)
      omega
    · subst heq
      have hread : readAt buffer' (p + text.length) = .ok nul := by
        exact readAt_of_eq_some (hsame.trans h.getElem?_length)
      rw [hread, ok_bind, if_pos rfl, returns_pure]
      exact hinv
  · exact ⟨0, Nat.zero_le _, rfl, h0⟩
  · show buffer.length - p < buffer.length + 1
    omega

end Edit

section TailRun

variable {α : Type} [DecidableEq α] (mark : α)

/-- The number of elements behind the last mark. -/
def tailRun (pre : List α) : ℕ := (pre.reverse.takeWhile (· ≠ mark)).length

theorem tailRun_append_mark (pre : List α) : tailRun mark (pre ++ [mark]) = 0 := by
  simp [tailRun]

theorem tailRun_append_other (pre : List α) {c : α} (hc : c ≠ mark) :
    tailRun mark (pre ++ [c]) = tailRun mark pre + 1 := by
  simp [tailRun, hc]

omit [DecidableEq α] in
theorem le_length_takeWhile {p : α → Bool} {n : ℕ} {l : List α} :
    n ≤ (l.takeWhile p).length ↔ n ≤ l.length ∧ ∀ x ∈ l.take n, p x = true := by
  induction n generalizing l with
  | zero => simp
  | succ n ih =>
      cases l with
      | nil => simp
      | cons x l =>
          rw [List.takeWhile_cons, List.take_succ_cons, List.length_cons]
          by_cases hx : p x = true
          · rw [if_pos hx, List.length_cons, Nat.succ_le_succ_iff, ih]
            simp [hx]
          · rw [if_neg hx]
            simp [hx]

/-- A long run at the end: the last elements are no marks. -/
theorem le_tailRun {n : ℕ} {pre : List α} :
    n ≤ tailRun mark pre ↔ n ≤ pre.length ∧ mark ∉ pre.drop (pre.length - n) := by
  rw [tailRun, le_length_takeWhile, List.length_reverse, List.take_reverse]
  apply and_congr_right
  intro _
  simp only [List.mem_reverse, ne_eq, decide_eq_true_eq]
  constructor
  · intro h hmem
    exact h mark hmem rfl
  · intro h x hx heq
    exact h (heq ▸ hx)

/-- A long run in front of a place. -/
theorem le_tailRun_take {n k : ℕ} {l : List α} (hk : k ≤ l.length) :
    n ≤ tailRun mark (l.take k) ↔ n ≤ k ∧ ∀ j, j < k → k ≤ j + n → l[j]? ≠ some mark := by
  rw [le_tailRun, List.length_take, Nat.min_eq_left hk]
  apply and_congr_right
  intro hn
  constructor
  · intro h j hj hjk heq
    apply h
    apply List.mem_of_getElem? (i := j - (k - n))
    rw [List.getElem?_drop, Nat.add_sub_cancel' (by omega), List.getElem?_take_of_lt hj, heq]
  · intro h hmem
    obtain ⟨i, hi⟩ := List.getElem?_of_mem hmem
    rw [List.getElem?_drop] at hi
    have hlt : k - n + i < k := by
      have := (List.getElem?_eq_some_iff.mp hi).1
      rw [List.length_take] at this
      omega
    rw [List.getElem?_take_of_lt hlt] at hi
    exact h _ hlt (by omega) hi

end TailRun

end CSem
