import ChannelBench.TraceScan

/-! The merging of bursts. `cleanup` is to leave one mark for a burst of misses, and goes through the record
with an automaton that remembers how far the last miss is behind and whether it began a burst. The later misses
of a burst lose their marks, except a second miss that follows the first one after a hit. A miss that stands
alone loses its mark too. -/

namespace ChannelBench

open CSem

/-- `state_t`. -/
inductive CleanState where
  | stZero
  | stOne
  | stOneZero
  | stOneOne
  | stOneOneZero
  deriving DecidableEq, Repr

/-- `cleanup`: the buffer with the marks that are left. -/
def cleanup (buffer : List Char) (record : ℕ) : Run (List Char) := do
  let r ← editString (fun record c state buffer =>
      match state with
      | .stZero => return (if c = '@' then .stOne else .stZero, buffer)
      | .stOne => do
          let buffer ← writeAt buffer record '.'
          return (if c = '@' then .stOneOne else .stOneZero, buffer)
      | .stOneZero =>
          if c = '@' then
            -- the second miss is not overwritten here
            return (.stOneOne, buffer)
          else do
            require (2 ≤ record) .bounds
            let buffer ← writeAt buffer (record - 2) '.'
            return (.stZero, buffer)
      | .stOneOne => do
          let buffer ← writeAt buffer record '.'
          return (if c ≠ '@' then .stOneOneZero else .stOneOne, buffer)
      | .stOneOneZero => do
          let buffer ← writeAt buffer record '.'
          return (if c = '@' then .stOneOne else .stZero, buffer))
    record CleanState.stZero buffer
  return r.2

/-! ### Bursts -/

/-- A miss begins a burst when there is none among the two samples in front of it. -/
def BurstAt (text : List Char) (k : ℕ) : Prop :=
  text[k]? = some '@' ∧ ∀ j, j < k → k ≤ j + 2 → text[j]? ≠ some '@'

/-- A mark that is left when the first samples of a trace have been read: a beginning that is not known yet to
stand alone, or the second miss behind a beginning and a hit. -/
def MarkAt (text : List Char) (n k : ℕ) : Prop :=
  BurstAt text k ∧ (text[k + 1]? = some '@' ∨ text[k + 2]? = some '@' ∨ n ≤ k + 2) ∨
    ∃ j, k = j + 2 ∧ BurstAt text j ∧ text[j + 1]? ≠ some '@' ∧ text[k]? = some '@'

/-- What a state remembers of the first samples. -/
def InState (text : List Char) (n : ℕ) : CleanState → Prop
  | .stZero => ∀ j, j < n → n ≤ j + 2 → text[j]? ≠ some '@'
  | .stOne => ∃ j, n = j + 1 ∧ BurstAt text j
  | .stOneZero => ∃ j, n = j + 2 ∧ BurstAt text j ∧ text[j + 1]? ≠ some '@'
  | .stOneOne => ∃ j, n = j + 1 ∧ text[j]? = some '@' ∧ ¬BurstAt text j
  | .stOneOneZero => ∃ j, n = j + 2 ∧ text[j]? = some '@' ∧ ¬BurstAt text j ∧ text[j + 1]? ≠ some '@'

section Bursts

variable {text : List Char} {n k : ℕ}

/-- Only a beginning that turns out to stand alone loses its mark later. -/
theorem markAt_succ (hk : k < n) : MarkAt text (n + 1) k ↔
    MarkAt text n k ∧ ¬(n = k + 2 ∧ BurstAt text k ∧ text[k + 1]? ≠ some '@' ∧ text[n]? ≠ some '@') := by
  have halone : BurstAt text k →
      ¬∃ j, k = j + 2 ∧ BurstAt text j ∧ text[j + 1]? ≠ some '@' ∧ text[k]? = some '@' := by
    rintro hburst ⟨j, rfl, hj, -⟩
    exact hburst.2 j (by omega) (le_refl _) hj.1
  unfold MarkAt
  by_cases hn : n = k + 2
  · subst hn
    constructor
    · rintro (⟨hburst, hrest⟩ | hsecond)
      · refine ⟨.inl ⟨hburst, .inr (.inr (le_refl _))⟩, ?_⟩
        rintro ⟨-, -, hone, htwo⟩
        rcases hrest with h | h | h
        · exact hone h
        · exact htwo h
        · omega
      · exact ⟨.inr hsecond, fun h => halone h.2.1 hsecond⟩
    · rintro ⟨⟨hburst, -⟩ | hsecond, hkept⟩
      · by_contra hgone
        apply hkept
        refine ⟨rfl, hburst, fun h => hgone (.inl ⟨hburst, .inl h⟩), fun h => hgone (.inl ⟨hburst, .inr (.inl h)⟩)⟩
      · exact .inr hsecond
  · rw [show n + 1 ≤ k + 2 ↔ n ≤ k + 2 by omega]
    exact ⟨fun h => ⟨h, fun h' => hn h'.1⟩, fun h => h.1⟩

/-- A miss gets a mark when it begins a burst or follows a beginning and a hit. -/
theorem markAt_self {state : CleanState} (h : InState text n state) :
    MarkAt text (n + 1) n ↔ text[n]? = some '@' ∧ (state = .stZero ∨ state = .stOneZero) := by
  have hself : MarkAt text (n + 1) n ↔ BurstAt text n ∨
      ∃ j, n = j + 2 ∧ BurstAt text j ∧ text[j + 1]? ≠ some '@' ∧ text[n]? = some '@' := by
    unfold MarkAt
    simp
  rw [hself]
  cases state <;> grind [InState, BurstAt]

/-- No mark is lost unless a single beginning is followed by two hits. -/
theorem markAt_kept {state : CleanState} (h : InState text n state)
    (hburst : state = .stOneZero → text[n]? = some '@') (hk : k < n) :
    MarkAt text (n + 1) k ↔ MarkAt text n k := by
  rw [markAt_succ hk, and_iff_left]
  rintro ⟨rfl, hbegin, hone, htwo⟩
  cases state with
  | stOneZero => exact htwo (hburst rfl)
  | _ => grind [InState, BurstAt]

theorem MarkAt.miss (h : MarkAt text n k) : text[k]? = some '@' := by
  rcases h with hburst | ⟨j, -, -, -, hk⟩
  · exact hburst.1.1
  · exact hk

theorem MarkAt.lt_length (h : MarkAt text n k) : k < text.length :=
  (List.getElem?_eq_some_iff.mp h.miss).1

end Bursts

/-! ### The automaton -/

/-- The buffer when the first samples of a trace have been read. -/
structure Cleaned (buffer text : List Char) (p n : ℕ) (buffer' : List Char) : Prop where
  length_eq : buffer'.length = buffer.length
  outside : ∀ i, i < p ∨ p + n ≤ i → buffer'[i]? = buffer[i]?
  mark_iff : ∀ k, k < n → (buffer'[p + k]? = some '@' ↔ MarkAt text n k)
  nul_free : ∀ k, k < n → buffer'[p + k]? ≠ some nul

section Cleaning

variable {buffer text buffer' : List Char} {p n : ℕ}

/-- A sample that is left as it is. -/
theorem Cleaned.keep (h : Cleaned buffer text p n buffer') (hstring : CString buffer p text) (hn : n < text.length)
    (hself : MarkAt text (n + 1) n ↔ text[n]? = some '@')
    (hkept : ∀ k, k < n → (MarkAt text (n + 1) k ↔ MarkAt text n k)) : Cleaned buffer text p (n + 1) buffer' where
  length_eq := h.length_eq
  outside := fun i hi => h.outside i (by omega)
  mark_iff := by
    intro k hk
    rcases Nat.lt_succ_iff_lt_or_eq.mp hk with hlt | rfl
    · rw [h.mark_iff k hlt, hkept k hlt]
    · rw [h.outside _ (.inr (le_refl _)), hstring.getElem?_eq hn, hself]
  nul_free := by
    intro k hk
    rcases Nat.lt_succ_iff_lt_or_eq.mp hk with hlt | rfl
    · exact h.nul_free k hlt
    · rw [h.outside _ (.inr (le_refl _)), hstring.getElem?_eq hn]
      exact fun heq => hstring.nul_free (List.mem_of_getElem? heq)

/-- A sample or an earlier mark that is overwritten. -/
theorem Cleaned.erase (h : Cleaned buffer text p n buffer') (hstring : CString buffer p text) (hn : n < text.length)
    {k : ℕ} (hk : k ≤ n) (hgone : ¬MarkAt text (n + 1) k) (hself : ¬MarkAt text (n + 1) n)
    (hnone : k = n ∨ text[n]? ≠ some '@') (hkept : ∀ j, j < n → j ≠ k → (MarkAt text (n + 1) j ↔ MarkAt text n j)) :
    Returns (writeAt buffer' (p + k) '.') (Cleaned buffer text p (n + 1)) := by
  have hroom := hstring.length_lt
  have hin : p + k < buffer'.length := by
    rw [h.length_eq]
    omega
  have hother : ∀ j, j ≠ k → (buffer'.set (p + k) '.')[p + j]? = buffer'[p + j]? := by
    intro j hj
    exact List.getElem?_set_ne (by omega)
  have hlast : buffer'[p + n]? = text[n]? := by
    rw [h.outside _ (.inr (le_refl _)), hstring.getElem?_eq hn]
  rw [writeAt_eq _ hin, returns_ok]
  constructor
  · rw [List.length_set, h.length_eq]
  · intro i hi
    rw [List.getElem?_set_ne (by omega), h.outside i (by omega)]
  · intro j hj
    by_cases hjk : j = k
    · subst hjk
      rw [List.getElem?_set_self hin]
      exact iff_of_false (by decide) hgone
    · rw [hother j hjk]
      rcases Nat.lt_succ_iff_lt_or_eq.mp hj with hlt | rfl
      · rw [h.mark_iff j hlt, hkept j hlt hjk]
      · rw [hlast]
        exact iff_of_false (hnone.resolve_left (Ne.symm hjk)) hself
  · intro j hj
    by_cases hjk : j = k
    · subst hjk
      rw [List.getElem?_set_self hin]
      decide
    · rw [hother j hjk]
      rcases Nat.lt_succ_iff_lt_or_eq.mp hj with hlt | rfl
      · exact h.nul_free j hlt
      · rw [hlast]
        exact fun heq => hstring.nul_free (List.mem_of_getElem? heq)

/-- A sample that is overwritten itself. -/
theorem Cleaned.overwrite (h : Cleaned buffer text p n buffer') (hstring : CString buffer p text)
    (hn : n < text.length) (hself : ¬MarkAt text (n + 1) n)
    (hkept : ∀ k, k < n → (MarkAt text (n + 1) k ↔ MarkAt text n k)) :
    Returns (writeAt buffer' (p + n) '.') (Cleaned buffer text p (n + 1)) :=
  h.erase hstring hn (le_refl n) hself hself (.inl rfl) fun k hk _ => hkept k hk

/-- Every sample takes the automaton on and keeps what its marks stand for. -/
theorem cleanup_returns (h : CString buffer p text) :
    Returns (cleanup buffer p) (Cleaned buffer text p text.length) := by
  unfold cleanup
  apply (editString_returns h (fun n state buffer' => InState text n state ∧ Cleaned buffer text p n buffer')
    _ _ _).bind
  · intro r hr
    exact returns_pure.mpr hr.2
  · refine ⟨fun j hj => absurd hj (Nat.not_lt_zero j), rfl, fun _ _ => rfl, ?_, ?_⟩
    · exact fun k hk => absurd hk (Nat.not_lt_zero k)
    · exact fun k hk => absurd hk (Nat.not_lt_zero k)
  · intro n state buffer' hinv i hi
    exact hinv.2.outside i (.inr hi)
  · intro n c state buffer' hc hinv
    obtain ⟨hstate, hcleaned⟩ := hinv
    have hn : n < text.length := (List.getElem?_eq_some_iff.mp hc).1
    have hself := markAt_self hstate
    cases state with
    | stZero =>
        have hnext : InState text (n + 1) (if c = '@' then .stOne else .stZero) := by
          split_ifs <;> grind [InState, BurstAt]
        rw [returns_pure]
        exact ⟨hnext, hcleaned.keep h hn (hself.trans (by simp)) fun k => markAt_kept hstate nofun⟩
    | stOne =>
        have hnext : InState text (n + 1) (if c = '@' then .stOneOne else .stOneZero) := by
          split_ifs <;> grind [InState, BurstAt]
        apply (hcleaned.overwrite h hn (by simp [hself]) fun k => markAt_kept hstate nofun).bind
        intro buffer'' h''
        exact returns_pure.mpr ⟨hnext, h''⟩
    | stOneZero =>
        dsimp only
        by_cases hhit : c = '@'
        · have hnext : InState text (n + 1) .stOneOne := by grind [InState, BurstAt]
          have hkept : ∀ k, k < n → (MarkAt text (n + 1) k ↔ MarkAt text n k) :=
            fun k => markAt_kept hstate fun _ => hhit ▸ hc
          rw [if_pos hhit, returns_pure]
          exact ⟨hnext, hcleaned.keep h hn (hself.trans (by simp)) hkept⟩
        · -- the beginning two samples ago stands alone
          have hnext : InState text (n + 1) .stZero := by grind [InState, BurstAt]
          have hmiss : text[n]? ≠ some '@' := by
            rw [hc]
            simpa using hhit
          obtain ⟨j, rfl, hbegin, hone⟩ := hstate
          have hgone : ¬MarkAt text (j + 2 + 1) j := by
            rw [markAt_succ (by omega)]
            exact fun hmark => hmark.2 ⟨rfl, hbegin, hone, hmiss⟩
          rw [if_neg hhit, require_pos (by omega), pure_bind, show p + (j + 2) - 2 = p + j by omega]
          apply (hcleaned.erase h hn (by omega) hgone (by simp [hself, hmiss]) (.inr hmiss) _).bind
          · intro buffer'' h''
            exact returns_pure.mpr ⟨hnext, h''⟩
          · intro k hk hne
            rw [markAt_succ hk, and_iff_left]
            omega
    | stOneOne =>
        have hnext : InState text (n + 1) (if c ≠ '@' then .stOneOneZero else .stOneOne) := by
          split_ifs <;> grind [InState, BurstAt]
        apply (hcleaned.overwrite h hn (by simp [hself]) fun k => markAt_kept hstate nofun).bind
        intro buffer'' h''
        exact returns_pure.mpr ⟨hnext, h''⟩
    | stOneOneZero =>
        have hnext : InState text (n + 1) (if c = '@' then .stOneOne else .stZero) := by
          split_ifs <;> grind [InState, BurstAt]
        apply (hcleaned.overwrite h hn (by simp [hself]) fun k => markAt_kept hstate nofun).bind
        intro buffer'' h''
        exact returns_pure.mpr ⟨hnext, h''⟩

/-- The string that is left has the marks of the whole trace. -/
theorem Cleaned.string (h : Cleaned buffer text p text.length buffer') (hstring : CString buffer p text) :
    ∃ text', CString buffer' p text' ∧ text'.length = text.length ∧
      ∀ k, text'[k]? = some '@' ↔ MarkAt text text.length k := by
  have hend : buffer'[p + text.length]? = some nul := by
    rw [h.outside _ (.inr (le_refl _)), hstring.getElem?_length]
  obtain ⟨htext', hle⟩ := cString_stringAt (Nat.le_add_right p text.length) hend
  have hlength : (stringAt buffer' p).length = text.length := by
    by_contra hne
    exact h.nul_free _ (by omega) htext'.getElem?_length
  refine ⟨_, htext', hlength, fun k => ?_⟩
  by_cases hk : k < text.length
  · rw [← h.mark_iff k hk, htext'.getElem?_eq (by omega)]
  · have hnone : (stringAt buffer' p)[k]? = none := List.getElem?_eq_none (by omega)
    rw [hnone]
    exact iff_of_false nofun fun hmark => hk hmark.lt_length

end Cleaning

/-! ### One mark for a burst -/

/-- Any two marks are separated by at least two samples without a mark. -/
def Separated (text : List Char) : Prop :=
  ∀ i j, i < j → text[i]? = some '@' → text[j]? = some '@' → i + 3 ≤ j

/-- A burst that begins with a miss, a hit and a miss. -/
def MissHitMiss (text : List Char) (k : ℕ) : Prop :=
  BurstAt text k ∧ text[k + 1]? ≠ some '@' ∧ text[k + 2]? = some '@'

instance (text : List Char) (k : ℕ) : Decidable (MissHitMiss text k) := by
  unfold MissHitMiss BurstAt
  infer_instance

theorem BurstAt.apart {text : List Char} {i j : ℕ} (hi : BurstAt text i) (hj : BurstAt text j) (hij : i < j) :
    i + 3 ≤ j := by
  by_contra hclose
  exact hj.2 i hij (by omega) hi.1

/-- **One mark for a burst.** `cleanup` keeps the length of a string, marks only what was marked before and
writes nothing in front of the string. The marks it leaves are separated exactly when no burst begins with a
miss, a hit and a miss. -/
theorem cleanup_separates_iff (buffer text : List Char) (record : ℕ) (h : CString buffer record text) :
    Returns (cleanup buffer record) fun buffer' => ∃ text' : List Char, CString buffer' record text' ∧
      text'.length = text.length ∧ (∀ k : ℕ, text'[k]? = some '@' → text[k]? = some '@') ∧
        (∀ i : ℕ, i < record → buffer'[i]? = buffer[i]?) ∧ (Separated text' ↔ ∀ k, ¬MissHitMiss text k) := by
  apply (cleanup_returns h).mono
  intro buffer' hcleaned
  obtain ⟨text', htext', hlength, hmark⟩ := hcleaned.string h
  refine ⟨text', htext', hlength, fun k hk => ((hmark k).mp hk).miss, fun i hi => hcleaned.outside i (.inl hi), ?_⟩
  constructor
  · intro hseparated k hk
    have hfirst : MarkAt text text.length k := .inl ⟨hk.1, .inr (.inl hk.2.2)⟩
    have hsecond : MarkAt text text.length (k + 2) := .inr ⟨k, rfl, hk⟩
    have hapart := hseparated k (k + 2) (by omega) ((hmark k).mpr hfirst) ((hmark (k + 2)).mpr hsecond)
    omega
  · intro hnone i j hij hi hj
    -- without a second mark every mark is where a burst begins
    have hbegin : ∀ k, MarkAt text text.length k → BurstAt text k := by
      rintro k (hk | ⟨j, rfl, hj⟩)
      · exact hk.1
      · exact absurd hj (hnone j)
    exact (hbegin i ((hmark i).mp hi)).apart (hbegin j ((hmark j).mp hj)) hij

theorem cleanup_separates_bursts :
    Returns (cleanup (".@@.@..@..@".toList ++ [nul]) 0) fun buffer' => ∃ text', CString buffer' 0 text' ∧
      text'.length = 11 ∧ Separated text' := by
  have hnone : ∀ k, ¬MissHitMiss ".@@.@..@..@".toList k := by
    intro k hk
    have hlt : k < 11 := (List.getElem?_eq_some_iff.mp hk.1.1).1
    have hall : ∀ k, k < 11 → ¬MissHitMiss ".@@.@..@..@".toList k := by decide +kernel
    exact hall k hlt hk
  apply (cleanup_separates_iff (".@@.@..@..@".toList ++ [nul]) ".@@.@..@..@".toList 0 ⟨⟨[], rfl⟩, by decide⟩).mono
  rintro buffer' ⟨text', htext', hlength, -, -, hseparated⟩
  exact ⟨text', htext', hlength, hseparated.mpr hnone⟩

/-- Two marks are left of a miss, a hit and a miss. -/
theorem cleanup_leaves_two_marks :
    CString ("@.@".toList ++ [nul]) 0 "@.@".toList ∧
      ¬Returns (cleanup ("@.@".toList ++ [nul]) 0) fun buffer' => ∃ text', CString buffer' 0 text' ∧
        Separated text' := by
  have hstring : CString ("@.@".toList ++ [nul]) 0 "@.@".toList := ⟨⟨[], rfl⟩, by decide⟩
  have hrun : cleanup ("@.@".toList ++ [nul]) 0 = .ok ("@.@".toList ++ [nul]) := by decide +kernel
  refine ⟨hstring, ?_⟩
  rw [hrun, returns_ok]
  rintro ⟨text', htext', hseparated⟩
  rw [htext'.unique hstring] at hseparated
  exact absurd (hseparated 0 2 (by decide) (by decide) (by decide)) (by decide)

end ChannelBench
