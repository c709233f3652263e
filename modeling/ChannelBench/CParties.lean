import Mathlib.Data.Nat.Basic
import Mathlib.Logic.Function.Basic
import Mathlib.Logic.Relation

/-! Parties that act alone or in pairs. Every step changes the states of one or two parties, by a rule
that looks at these states only, so steps of different parties commute. If no party ever has a choice
between two partners, then all runs are alike: one run that comes to an end shows that every run can be
continued to the same end. -/

namespace CSem

/-- What parties can do: `solo t l l'` takes party `t` from `l` to `l'`, and `pair t r l m l' m'` takes
`t` from `l` to `l'` and `r` from `m` to `m'`. -/
structure Interactions (T L : Type) where
  solo : T → L → L → Prop
  pair : T → T → L → L → L → L → Prop

namespace Interactions

variable {T L : Type} [DecidableEq T] (I : Interactions T L)

/-- One step of the parties. -/
inductive Step (s : T → L) : (T → L) → Prop
  | solo {t : T} {l : L} (h : I.solo t (s t) l) : Step s (Function.update s t l)
  | pair {t r : T} {l m : L} (hne : t ≠ r) (h : I.pair t r (s t) (s r) l m) :
      Step s (Function.update (Function.update s t l) r m)

/-- The states that can be reached. -/
def Runs (s s' : T → L) : Prop := Relation.ReflTransGen I.Step s s'

/-- No party has a choice in this state. -/
structure Exclusive (s : T → L) : Prop where
  solo_solo : ∀ t l l', I.solo t (s t) l → I.solo t (s t) l' → l = l'
  solo_pair : ∀ t r l m n, I.pair t r (s t) (s r) l m → ¬I.solo t (s t) n ∧ ¬I.solo r (s r) n
  pair_pair : ∀ t r t' r' l m l' m', I.pair t r (s t) (s r) l m → I.pair t' r' (s t') (s r') l' m' →
    (t = t' ∧ r = r' ∧ l = l' ∧ m = m') ∨ (t ≠ t' ∧ t ≠ r' ∧ r ≠ t' ∧ r ≠ r')

variable {I} {s a b f : T → L}

section Rules

/-- A relation between the states of a party that every rule respects holds along a step. -/
theorem Step.rel (h : I.Step s a) (Q : T → L → L → Prop) (hrefl : ∀ t l, Q t l l)
    (hsolo : ∀ t l l', I.solo t l l' → Q t l l')
    (hpair : ∀ t r l m l' m', I.pair t r l m l' m' → Q t l l' ∧ Q r m m') (x : T) :
    Q x (s x) (a x) := by
  cases h with
  | @solo t l hl =>
      by_cases hx : x = t
      · subst hx
        rw [Function.update_self]
        exact hsolo x _ _ hl
      · rw [Function.update_of_ne hx]
        exact hrefl x _
  | @pair t r l m hne hlm =>
      obtain ⟨hl, hm⟩ := hpair _ _ _ _ _ _ hlm
      by_cases hr : x = r
      · subst hr
        rw [Function.update_self]
        exact hm
      · rw [Function.update_of_ne hr]
        by_cases hx : x = t
        · subst hx
          rw [Function.update_self]
          exact hl
        · rw [Function.update_of_ne hx]
          exact hrefl x _

/-- A reflexive and transitive relation that every rule respects holds along a run. -/
theorem Runs.rel (h : I.Runs s a) (Q : T → L → L → Prop) (hrefl : ∀ t l, Q t l l)
    (htrans : ∀ t l l' l'', Q t l l' → Q t l' l'' → Q t l l'')
    (hsolo : ∀ t l l', I.solo t l l' → Q t l l')
    (hpair : ∀ t r l m l' m', I.pair t r l m l' m' → Q t l l' ∧ Q r m m') (x : T) :
    Q x (s x) (a x) := by
  induction h with
  | refl => exact hrefl x _
  | tail _ hstep ih => exact htrans x _ _ _ ih (hstep.rel Q hrefl hsolo hpair x)

/-- What party `x` gives and party `y` takes stays in balance along a step if every rule adds as much to the
one as to the other. -/
theorem Step.balance (h : I.Step s a) (x y : T) (give take : L → ℕ)
    (hsolo : ∀ t l, I.solo t (s t) l → give l = give (s t) ∧ take l = take (s t))
    (hpair : ∀ t r l m, t ≠ r → I.pair t r (s t) (s r) l m → ∃ k,
      (t = x → give l = give (s t) + if r = y then k else 0) ∧ (r = x → give m = give (s r)) ∧
        (t = y → take l = take (s t)) ∧ (r = y → take m = take (s r) + if t = x then k else 0))
    (hbalance : give (s x) = take (s y)) : give (a x) = take (a y) := by
  cases h with
  | @solo t l hl =>
      obtain ⟨hgive, htake⟩ := hsolo t l hl
      have hx : give (Function.update s t l x) = give (s x) := by
        by_cases heq : x = t
        · rw [heq, Function.update_self, hgive]
        · rw [Function.update_of_ne heq]
      have hy : take (Function.update s t l y) = take (s y) := by
        by_cases heq : y = t
        · rw [heq, Function.update_self, htake]
        · rw [Function.update_of_ne heq]
      rw [hx, hy, hbalance]
  | @pair t r l m hne hlm =>
      obtain ⟨k, hgive, hgive', htake', htake⟩ := hpair t r l m hne hlm
      have hx : give (Function.update (Function.update s t l) r m x) =
          give (s x) + if t = x ∧ r = y then k else 0 := by
        by_cases hr : x = r
        · subst hr
          rw [Function.update_self, hgive' rfl, if_neg fun hboth => hne hboth.1, Nat.add_zero]
        · rw [Function.update_of_ne hr]
          by_cases ht : x = t
          · subst ht
            rw [Function.update_self, hgive rfl]
            simp
          · rw [Function.update_of_ne ht, if_neg fun hboth => ht hboth.1.symm, Nat.add_zero]
      have hy : take (Function.update (Function.update s t l) r m y) =
          take (s y) + if t = x ∧ r = y then k else 0 := by
        by_cases hr : y = r
        · subst hr
          rw [Function.update_self, htake rfl]
          simp
        · rw [Function.update_of_ne hr, if_neg fun hboth => hr hboth.2.symm, Nat.add_zero]
          by_cases ht : y = t
          · subst ht
            rw [Function.update_self, htake' rfl]
          · rw [Function.update_of_ne ht]
      rw [hx, hy, hbalance]

/-- An invariant of steps is an invariant of runs. -/
theorem Runs.inv {Inv : (T → L) → Prop} (h : I.Runs s a) (hs : Inv s)
    (hstep : ∀ s a, Inv s → I.Step s a → Inv a) : Inv a := by
  induction h with
  | refl => exact hs
  | tail _ hstep' ih => exact hstep _ _ ih hstep'

end Rules

section Confluence

/-- A party that acts alone does not disturb a pair without it. -/
theorem join_solo_pair {t t' r' : T} {l l' m' : L} (hl : I.solo t (s t) l) (hne : t' ≠ r')
    (hlm : I.pair t' r' (s t') (s r') l' m') (ht : t ≠ t') (hr : t ≠ r') :
    ∃ c, I.Step (Function.update s t l) c ∧
      I.Step (Function.update (Function.update s t' l') r' m') c := by
  refine ⟨Function.update (Function.update (Function.update s t l) t' l') r' m', .pair hne ?_, ?_⟩
  · rw [Function.update_of_ne ht.symm, Function.update_of_ne hr.symm]
    exact hlm
  · rw [Function.update_comm ht, Function.update_comm hr]
    apply Step.solo
    rw [Function.update_of_ne hr, Function.update_of_ne ht]
    exact hl

/-- Two pairs without a common party do not disturb each other. -/
theorem join_pair_pair {t r t' r' : T} {l m l' m' : L} (hne : t ≠ r)
    (hlm : I.pair t r (s t) (s r) l m) (hne' : t' ≠ r') (hlm' : I.pair t' r' (s t') (s r') l' m')
    (htt' : t ≠ t') (htr' : t ≠ r') (hrt' : r ≠ t') (hrr' : r ≠ r') :
    ∃ c, I.Step (Function.update (Function.update s t l) r m) c ∧
      I.Step (Function.update (Function.update s t' l') r' m') c := by
  refine ⟨Function.update (Function.update (Function.update (Function.update s t l) r m) t' l') r' m',
    .pair hne' ?_, ?_⟩
  · rw [Function.update_of_ne hrt'.symm, Function.update_of_ne htt'.symm,
      Function.update_of_ne hrr'.symm, Function.update_of_ne htr'.symm]
    exact hlm'
  · rw [Function.update_comm hrt', Function.update_comm htt', Function.update_comm hrr',
      Function.update_comm htr']
    apply Step.pair hne
    rw [Function.update_of_ne htr', Function.update_of_ne htt', Function.update_of_ne hrr',
      Function.update_of_ne hrt']
    exact hlm

/-- Two different steps can be brought together again. -/
theorem Exclusive.diamond (h : I.Exclusive s) (ha : I.Step s a) (hb : I.Step s b) :
    a = b ∨ ∃ c, I.Step a c ∧ I.Step b c := by
  cases ha with
  | @solo t l hl =>
      cases hb with
      | @solo t' l' hl' =>
          by_cases heq : t = t'
          · subst heq
            rw [h.solo_solo t l l' hl hl']
            exact .inl rfl
          · right
            refine ⟨Function.update (Function.update s t l) t' l', .solo ?_, ?_⟩
            · rw [Function.update_of_ne (Ne.symm heq)]
              exact hl'
            · rw [Function.update_comm heq]
              apply Step.solo
              rw [Function.update_of_ne heq]
              exact hl
      | @pair t' r' l' m' hne' hlm' =>
          have hnot := h.solo_pair t' r' l' m' l hlm'
          exact .inr (join_solo_pair hl hne' hlm' (fun heq => hnot.1 (heq ▸ hl))
            fun heq => hnot.2 (heq ▸ hl))
  | @pair t r l m hne hlm =>
      cases hb with
      | @solo t' l' hl' =>
          have hnot := h.solo_pair t r l m l' hlm
          obtain ⟨c, hb, ha⟩ := join_solo_pair hl' hne hlm (fun heq => hnot.1 (heq ▸ hl'))
            fun heq => hnot.2 (heq ▸ hl')
          exact .inr ⟨c, ha, hb⟩
      | @pair t' r' l' m' hne' hlm' =>
          rcases h.pair_pair t r t' r' l m l' m' hlm hlm' with hsame | hdisjoint
          · obtain ⟨rfl, rfl, rfl, rfl⟩ := hsame
            exact .inl rfl
          · obtain ⟨htt', htr', hrt', hrr'⟩ := hdisjoint
            exact .inr (join_pair_pair hne hlm hne' hlm' htt' htr' hrt' hrr')

variable {Inv : (T → L) → Prop}

/-- A step does not lead away from the end of a run. -/
theorem run_to_end_of_step (hinv : ∀ s a, Inv s → I.Step s a → Inv a)
    (hexclusive : ∀ s, Inv s → I.Exclusive s) (hend : ∀ a, ¬I.Step f a) (hf : I.Runs s f)
    (hs : Inv s) (hstep : I.Step s a) : I.Runs a f := by
  induction hf using Relation.ReflTransGen.head_induction_on generalizing a with
  | refl => exact absurd hstep (hend a)
  | head hfirst hrest ih =>
      rcases (hexclusive _ hs).diamond hstep hfirst with heq | hjoin
      · exact heq ▸ hrest
      · obtain ⟨c, hac, hbc⟩ := hjoin
        exact .head hac (ih (hinv _ _ hs hfirst) hbc)

/-- Every run can be continued to the end of a run that has ended. -/
theorem run_to_end (hinv : ∀ s a, Inv s → I.Step s a → Inv a)
    (hexclusive : ∀ s, Inv s → I.Exclusive s) (hend : ∀ a, ¬I.Step f a) (hf : I.Runs s f)
    (hs : Inv s) (hrun : I.Runs s a) : I.Runs a f := by
  induction hrun with
  | refl => exact hf
  | tail hbefore hstep ih => exact run_to_end_of_step hinv hexclusive hend ih (Runs.inv hbefore hs hinv) hstep

end Confluence

end Interactions

end CSem
