import Mathlib.Tactic.Common
import Mathlib.Data.Nat.Basic

/-! Runs of C functions and the rules for reasoning about them. A run ends with a value or with a
fault: a failed `assert`, an access outside an object, an `int` that overflows where the model checks
it, or a loop that did not end within the number of rounds the model gives it. `Returns` is total
correctness, so a proof of it excludes all of them. The loop rules are the usual ones: an invariant and,
where the number of rounds is not fixed, a decreasing measure. -/

namespace CSem

/-- Why a run does not end with a value. -/
inductive Fault where
  | assertion
  | bounds
  | overflow
  | rounds
  deriving DecidableEq, Repr

abbrev Run (α : Type) := Except Fault α

/-- `assert(p)`, or a check of an access or of a result, with the fault raised when `p` is false. -/
def require (p : Prop) [Decidable p] (fault : Fault) : Run Unit :=
  if p then pure () else throw fault

/-- Total correctness: the run ends with a value, and the value satisfies `Q`. -/
def Returns {α : Type} (run : Run α) (Q : α → Prop) : Prop :=
  ∃ a, run = .ok a ∧ Q a

section Rules

variable {α β : Type} {run : Run α} {P Q : α → Prop}

@[simp] theorem returns_pure {a : α} : Returns (pure a) Q ↔ Q a := by
  constructor
  · rintro ⟨b, hb, hQ⟩
    cases hb
    exact hQ
  · intro hQ
    exact ⟨a, rfl, hQ⟩

@[simp] theorem returns_ok {a : α} : Returns (.ok a) Q ↔ Q a := returns_pure

@[simp] theorem returns_error {fault : Fault} : Returns (.error fault) Q ↔ False := by
  simp [Returns]

@[simp] theorem returns_throw {fault : Fault} : Returns (throw fault) Q ↔ False := returns_error

@[simp] theorem ok_bind {a : α} {f : α → Run β} : (.ok a : Run α) >>= f = f a := rfl

@[simp] theorem returns_require {p : Prop} [Decidable p] {fault : Fault} {R : Unit → Prop} :
    Returns (require p fault) R ↔ p ∧ R () := by
  unfold require
  split_ifs with h
  · simp [h]
  · simp [h]

theorem require_pos {p : Prop} [Decidable p] {fault : Fault} (h : p) :
    require p fault = pure () := if_pos h

/-- A run that checks something first returns only when the check passes. -/
theorem returns_require_bind {p : Prop} [Decidable p] {fault : Fault} {next : Unit → Run α} :
    Returns (require p fault >>= next) Q ↔ p ∧ Returns (next ()) Q := by
  by_cases h : p
  · rw [require_pos h, pure_bind]
    exact ⟨fun hnext => ⟨h, hnext⟩, fun hnext => hnext.2⟩
  · have hfault : require p fault >>= next = .error fault := by
      rw [require, if_neg h]
      rfl
    rw [hfault, returns_error]
    exact ⟨False.elim, fun hnext => h hnext.1⟩

theorem Returns.bind {f : α → Run β} {R : β → Prop} (h : Returns run P)
    (hf : ∀ a, P a → Returns (f a) R) : Returns (run >>= f) R := by
  obtain ⟨a, rfl, hP⟩ := h
  exact hf a hP

theorem Returns.mono (h : Returns run P) (hPQ : ∀ a, P a → Q a) : Returns run Q := by
  obtain ⟨a, ha, hP⟩ := h
  exact ⟨a, ha, hPQ a hP⟩

/-- A run has one result, so facts proved about it separately hold together. -/
theorem Returns.and (hP : Returns run P) (hQ : Returns run Q) : Returns run fun a => P a ∧ Q a := by
  obtain ⟨a, rfl, ha⟩ := hP
  exact returns_ok.mpr ⟨ha, returns_ok.mp hQ⟩

theorem Returns.of_eq_ok (h : Returns run Q) {a : α} (ha : run = .ok a) : Q a := by
  rw [ha] at h
  exact returns_ok.mp h

theorem bind_eq_ok {f : α → Run β} {b : β} :
    run >>= f = .ok b ↔ ∃ a, run = .ok a ∧ f a = .ok b := by
  cases run with
  | error fault =>
      constructor
      · intro h
        cases h
      · rintro ⟨a, h, -⟩
        cases h
  | ok a =>
      constructor
      · intro h
        exact ⟨a, rfl, h⟩
      · rintro ⟨_, h, hf⟩
        cases h
        exact hf

end Rules

/-- The run ends with a value that satisfies `Q`, or with one particular fault. -/
def ReturnsOr {α : Type} (fault : Fault) (run : Run α) (Q : α → Prop) : Prop :=
  Returns run Q ∨ run = .error fault

section ReturnsOr

variable {α β : Type} {fault : Fault} {run : Run α} {P Q : α → Prop}

theorem Returns.orFault (h : Returns run Q) : ReturnsOr fault run Q := .inl h

theorem ReturnsOr.mono (h : ReturnsOr fault run P) (hPQ : ∀ a, P a → Q a) : ReturnsOr fault run Q := by
  rcases h with h | h
  · exact .inl (h.mono hPQ)
  · exact .inr h

theorem ReturnsOr.bind {f : α → Run β} {R : β → Prop} (h : ReturnsOr fault run P)
    (hf : ∀ a, P a → ReturnsOr fault (f a) R) : ReturnsOr fault (run >>= f) R := by
  rcases h with ⟨a, rfl, hP⟩ | rfl
  · exact hf a hP
  · exact .inr rfl

end ReturnsOr

section ForLoops

variable {σ : Type}

/-- `for (i = 0; i < n; i++) body`. -/
def forUpto (body : ℕ → σ → Run σ) : ℕ → σ → Run σ
  | 0, s => pure s
  | n + 1, s => forUpto body n s >>= body n

/-- `for (i = n; i--; ) body`. -/
def forDownto (body : ℕ → σ → Run σ) : ℕ → σ → Run σ
  | 0, s => pure s
  | n + 1, s => body n s >>= forDownto body n

/-- `Inv i` holds before round `i`. -/
theorem forUpto_returns {body : ℕ → σ → Run σ} (Inv : ℕ → σ → Prop) {n : ℕ} {s : σ} (h0 : Inv 0 s)
    (hbody : ∀ i, i < n → ∀ s, Inv i s → Returns (body i s) (Inv (i + 1))) :
    Returns (forUpto body n s) (Inv n) := by
  induction n with
  | zero => exact returns_pure.mpr h0
  | succ n ih =>
      refine (ih fun i hi => hbody i (Nat.lt_succ_of_lt hi)).bind fun t ht => ?_
      exact hbody n (Nat.lt_succ_self n) t ht

/-- A loop whose rounds keep the invariant or fault, and one of whose rounds faults. -/
theorem forUpto_eq_error {body : ℕ → σ → Run σ} {fault : Fault} (Inv : ℕ → σ → Prop) {s : σ} (h0 : Inv 0 s)
    {n : ℕ} (hbody : ∀ i, i < n → ∀ s, Inv i s → ReturnsOr fault (body i s) (Inv (i + 1)))
    {i : ℕ} (hi : i < n) (hfault : ∀ s, Inv i s → body i s = .error fault) :
    forUpto body n s = .error fault := by
  have hrun : ∀ m, m ≤ n → ReturnsOr fault (forUpto body m s) (Inv m) := by
    intro m hm
    induction m with
    | zero => exact (returns_pure.mpr h0).orFault
    | succ m ih => exact (ih (by omega)).bind (hbody m hm)
  have hstop : forUpto body (i + 1) s = .error fault := by
    rw [forUpto]
    rcases hrun i (by omega) with ⟨t, ht, hinv⟩ | herr
    · rw [ht, ok_bind, hfault t hinv]
    · rw [herr]
      rfl
  obtain ⟨rest, rfl⟩ : ∃ rest, n = i + 1 + rest := ⟨n - (i + 1), by omega⟩
  clear hbody hrun hi
  induction rest with
  | zero => exact hstop
  | succ rest ih =>
      rw [← Nat.add_assoc, forUpto, ih]
      rfl

/-- `Inv i` holds when `i` rounds are left. -/
theorem forDownto_returns {body : ℕ → σ → Run σ} (Inv : ℕ → σ → Prop)
    (hbody : ∀ i s, Inv (i + 1) s → Returns (body i s) (Inv i)) :
    ∀ {n : ℕ} {s : σ}, Inv n s → Returns (forDownto body n s) (Inv 0)
  | 0, _, h => returns_pure.mpr h
  | n + 1, s, h => (hbody n s h).bind fun _ ht => forDownto_returns Inv hbody ht

end ForLoops

section Loop

variable {σ ρ : Type}

/-- A loop whose body goes round again with a new state or leaves with a result (at the loop
condition, at a `break` or at a `return`). -/
def loop (body : σ → Run (σ ⊕ ρ)) : ℕ → σ → Run ρ
  | 0, _ => throw .rounds
  | fuel + 1, s => body s >>= Sum.elim (loop body fuel) pure

variable {body : σ → Run (σ ⊕ ρ)}

/-- The loop rule: the invariant holds at every loop head, the measure falls at every round, and
leaving establishes `Q`. -/
theorem loop_returns (Inv : σ → Prop) (Q : ρ → Prop) (μ : σ → ℕ)
    (hbody : ∀ s, Inv s → Returns (body s) (Sum.elim (fun t => Inv t ∧ μ t < μ s) Q)) :
    ∀ {fuel : ℕ} {s : σ}, Inv s → μ s < fuel → Returns (loop body fuel s) Q
  | fuel + 1, s, hs, hμ => by
      refine (hbody s hs).bind fun r hr => ?_
      cases r with
      | inl t => exact loop_returns Inv Q μ hbody hr.1 (by have := hr.2; omega)
      | inr r => exact returns_pure.mpr hr

/-- `while (p(k)) k++` ends at the first number from `k` on that fails the condition. -/
theorem loop_search_eq_ok {p : ℕ → Prop} [DecidablePred p] {fuel k r : ℕ} :
    loop (fun k => if p k then return .inl (k + 1) else return .inr k) fuel k = .ok r ↔
      k ≤ r ∧ r < k + fuel ∧ ¬p r ∧ ∀ j, k ≤ j → j < r → p j := by
  induction fuel generalizing k with
  | zero =>
      constructor
      · intro h
        cases h
      · intro h
        omega
  | succ fuel ih =>
      rw [loop]
      by_cases hp : p k
      · rw [if_pos hp, pure_bind, Sum.elim_inl, ih]
        constructor
        · rintro ⟨hle, hlt, hr, hall⟩
          refine ⟨by omega, by omega, hr, ?_⟩
          intro j hj hjr
          rcases Nat.eq_or_lt_of_le hj with rfl | hj
          · exact hp
          · exact hall j hj hjr
        · rintro ⟨hle, hlt, hr, hall⟩
          have hne : k ≠ r := fun h => hr (h ▸ hp)
          exact ⟨by omega, by omega, hr, fun j hj => hall j (by omega)⟩
      · rw [if_neg hp, pure_bind, Sum.elim_inr]
        constructor
        · intro h
          cases h
          exact ⟨le_refl _, by omega, hp, fun j hj hjr => absurd hjr (by omega)⟩
        · rintro ⟨hle, -, -, hall⟩
          rcases Nat.eq_or_lt_of_le hle with rfl | hlt
          · rfl
          · exact absurd (hall k (le_refl k) hlt) hp

/-- The states at the loop head of the runs from a state. -/
inductive Visits (body : σ → Run (σ ⊕ ρ)) (s : σ) : σ → Prop
  | start : Visits body s s
  | round {t u : σ} (ht : Visits body s t) (hu : body t = .ok (.inl u)) : Visits body s u

theorem Visits.inv {Inv : σ → Prop} {s t : σ} (h : Visits body s t) (hs : Inv s)
    (hbody : ∀ t u, Inv t → body t = .ok (.inl u) → Inv u) : Inv t := by
  induction h with
  | start => exact hs
  | round _ hu ih => exact hbody _ _ ih hu

theorem Visits.head {s t u : σ} (hst : body s = .ok (.inl t)) (h : Visits body t u) :
    Visits body s u := by
  induction h with
  | start => exact .round .start hst
  | round _ hu ih => exact .round ih hu

/-- A loop that ends leaves from a state at its head. -/
theorem exists_visit_of_loop {r : ρ} :
    ∀ {fuel : ℕ} {s : σ}, loop body fuel s = .ok r →
      ∃ t, Visits body s t ∧ body t = .ok (.inr r)
  | fuel + 1, s, h => by
      obtain ⟨out, hout, hrest⟩ := bind_eq_ok.mp h
      cases out with
      | inl t =>
          obtain ⟨u, hu, hr⟩ := exists_visit_of_loop hrest
          exact ⟨u, hu.head hout, hr⟩
      | inr r' =>
          cases hrest
          exact ⟨s, .start, hout⟩

/-- A loop that ends also ends from every state at its head, with the same result. -/
theorem Visits.loop_eq {s t : σ} (h : Visits body s t) {fuel : ℕ} {r : ρ}
    (hs : loop body fuel s = .ok r) : ∃ fuel', loop body fuel' t = .ok r := by
  induction h with
  | start => exact ⟨fuel, hs⟩
  | round _ hu ih =>
      obtain ⟨fuel', hfuel'⟩ := ih
      cases fuel' with
      | zero => cases hfuel'
      | succ fuel' =>
          rw [loop, hu] at hfuel'
          exact ⟨fuel', hfuel'⟩

end Loop

/-! ### Partial correctness -/

/-- Partial correctness: if the run ends with a value, the value satisfies `Q`. -/
structure Ensures {α : Type} (run : Run α) (Q : α → Prop) : Prop where
  of_ok : ∀ a, run = .ok a → Q a

section Ensures

variable {α β σ ρ : Type} {run : Run α} {P Q : α → Prop}

theorem Returns.ensures (h : Returns run Q) : Ensures run Q := ⟨fun _ ha => h.of_eq_ok ha⟩

theorem ensures_pure {a : α} (h : Q a) : Ensures (pure a) Q := (returns_pure.mpr h).ensures

theorem ensures_error {fault : Fault} : Ensures (.error fault) Q := by
  constructor
  intro a h
  cases h

theorem Returns.and_ensures (hP : Returns run P) (hQ : Ensures run Q) : Returns run fun a => P a ∧ Q a := by
  obtain ⟨a, ha, h⟩ := hP
  exact ⟨a, ha, h, hQ.of_ok a ha⟩

theorem ensures_true (run : Run α) : Ensures run fun _ => True := ⟨fun _ _ => trivial⟩

theorem Ensures.mono (h : Ensures run P) (hPQ : ∀ a, P a → Q a) : Ensures run Q :=
  ⟨fun a ha => hPQ a (h.of_ok a ha)⟩

theorem Ensures.bind {f : α → Run β} {R : β → Prop} (h : Ensures run P)
    (hf : ∀ a, P a → Ensures (f a) R) : Ensures (run >>= f) R := by
  constructor
  intro b hb
  obtain ⟨a, ha, hfa⟩ := bind_eq_ok.mp hb
  exact (hf a (h.of_ok a ha)).of_ok b hfa

/-- Behind a check that the run passes, its condition holds. -/
theorem ensures_require_bind {p : Prop} [Decidable p] {fault : Fault} {next : Unit → Run α}
    (h : p → Ensures (next ()) Q) : Ensures (require p fault >>= next) Q := by
  constructor
  intro a ha
  have hreturns : Returns (require p fault >>= next) (· = a) := ⟨a, ha, rfl⟩
  obtain ⟨hp, b, hb, rfl⟩ := returns_require_bind.mp hreturns
  exact (h hp).of_ok b hb

theorem forUpto_ensures {body : ℕ → σ → Run σ} (Inv : ℕ → σ → Prop) {n : ℕ} {s : σ} (h0 : Inv 0 s)
    (hbody : ∀ i, i < n → ∀ s, Inv i s → Ensures (body i s) (Inv (i + 1))) :
    Ensures (forUpto body n s) (Inv n) := by
  induction n with
  | zero => exact ensures_pure h0
  | succ n ih =>
      apply (ih fun i hi => hbody i (Nat.lt_succ_of_lt hi)).bind
      exact hbody n (Nat.lt_succ_self n)

/-- The loop rule without a measure. -/
theorem loop_ensures {body : σ → Run (σ ⊕ ρ)} (Inv : σ → Prop) (Q : ρ → Prop)
    (hbody : ∀ s, Inv s → Ensures (body s) (Sum.elim Inv Q)) :
    ∀ {fuel : ℕ} {s : σ}, Inv s → Ensures (loop body fuel s) Q
  | 0, _, _ => ensures_error
  | fuel + 1, s, hs => by
      apply (hbody s hs).bind
      intro out hout
      cases out with
      | inl t => exact loop_ensures Inv Q hbody hout
      | inr r => exact ensures_pure hout

end Ensures

end CSem
