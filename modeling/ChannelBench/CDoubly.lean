import ChannelBench.CRun
import Mathlib.Data.List.Chain

/-! Doubly linked lists of cells, ended by `NULL` in both directions. A list is built by appending
cells at its end and walked from either end; a walk from one end arrives at the other. -/

namespace CSem

/-- The cells are linked in order in one direction, in the opposite order in the other, and both
directions end with `NULL`. -/
structure Doubly (next prev : ℕ → ℕ) (cells : List ℕ) : Prop where
  forward : cells.IsChain (fun a b => next a = b)
  backward : cells.IsChain (fun a b => prev b = a)
  last_next : ∀ t ∈ cells.getLast?, next t = 0
  head_prev : ∀ h ∈ cells.head?, prev h = 0
  nonnull : ∀ cell ∈ cells, cell ≠ 0

/-- The first cell of a list, or `NULL`. -/
def firstOf (cells : List ℕ) : ℕ := cells.head?.getD 0

/-- The last cell of a list, or `NULL`. -/
def lastOf (cells : List ℕ) : ℕ := cells.getLast?.getD 0

theorem head?_eq_firstOf {cells : List ℕ} (h : cells ≠ []) : cells.head? = some (firstOf cells) := by
  cases cells with
  | nil => exact absurd rfl h
  | cons c cells => rfl

theorem getLast?_eq_lastOf {cells : List ℕ} (h : cells ≠ []) :
    cells.getLast? = some (lastOf cells) := by
  rw [lastOf, List.getLast?_eq_getLast_of_ne_nil h]
  rfl

theorem firstOf_mem {cells : List ℕ} (h : cells ≠ []) : firstOf cells ∈ cells :=
  List.mem_of_mem_head? (head?_eq_firstOf h)

theorem lastOf_mem {cells : List ℕ} (h : cells ≠ []) : lastOf cells ∈ cells :=
  List.mem_of_getLast? (getLast?_eq_lastOf h)

@[simp] theorem lastOf_append (cells : List ℕ) (cell : ℕ) : lastOf (cells ++ [cell]) = cell := by
  rw [lastOf, List.getLast?_concat]
  rfl

theorem firstOf_append {cells : List ℕ} (h : cells ≠ []) (cell : ℕ) :
    firstOf (cells ++ [cell]) = firstOf cells := by
  rw [firstOf, List.head?_append_of_ne_nil _ h, ← firstOf]

theorem firstOf_reverse (cells : List ℕ) : firstOf cells.reverse = lastOf cells := by
  rw [firstOf, List.head?_reverse, ← lastOf]

theorem lastOf_reverse (cells : List ℕ) : lastOf cells.reverse = firstOf cells := by
  rw [lastOf, List.getLast?_reverse, ← firstOf]

/-- The ends of a list of several different cells are different. -/
theorem firstOf_ne_lastOf {cells : List ℕ} (hnodup : cells.Nodup) (hlength : 1 < cells.length) :
    firstOf cells ≠ lastOf cells := by
  cases cells with
  | nil => exact absurd hlength (by decide)
  | cons c cells =>
      have hne : cells ≠ [] := by
        intro hnil
        rw [hnil] at hlength
        exact absurd hlength (Nat.lt_irrefl 1)
      intro heq
      apply (List.nodup_cons.mp hnodup).1
      have hlast : lastOf (c :: cells) = lastOf cells := by
        rw [lastOf, List.getLast?_cons_of_ne_nil hne, ← lastOf]
      rw [← show firstOf (c :: cells) = c from rfl, heq, hlast]
      exact lastOf_mem hne

namespace Doubly

variable {next prev next' prev' : ℕ → ℕ} {cells : List ℕ}

theorem nil : Doubly next prev [] :=
  ⟨.nil, .nil, fun _ h => absurd h (by simp), fun _ h => absurd h (by simp),
    fun _ h => absurd h List.not_mem_nil⟩

/-- Read from the other end, a list is a list. -/
theorem reverse (h : Doubly next prev cells) : Doubly prev next cells.reverse where
  forward := List.isChain_reverse.mpr h.backward
  backward := List.isChain_reverse.mpr h.forward
  last_next := by
    intro t ht
    rw [List.getLast?_reverse] at ht
    exact h.head_prev t ht
  head_prev := by
    intro t ht
    rw [List.head?_reverse] at ht
    exact h.last_next t ht
  nonnull := fun cell hcell => h.nonnull cell (List.mem_reverse.mp hcell)

/-- A list depends on the fields of its cells only. -/
theorem congr (h : Doubly next prev cells) (hnext : ∀ cell ∈ cells, next' cell = next cell)
    (hprev : ∀ cell ∈ cells, prev' cell = prev cell) : Doubly next' prev' cells where
  forward := h.forward.imp_of_mem_imp fun a b ha _ hab => (hnext a ha).trans hab
  backward := h.backward.imp_of_mem_imp fun a b _ hb hab => (hprev b hb).trans hab
  last_next := by
    intro t ht
    rw [hnext t (List.mem_of_mem_getLast? ht)]
    exact h.last_next t ht
  head_prev := by
    intro t ht
    rw [hprev t (List.mem_of_mem_head? ht)]
    exact h.head_prev t ht
  nonnull := h.nonnull

/-- `cell->prev = last; if (last) last->next = cell;` appends a cell that is not in the list and whose
own link is `NULL`. -/
theorem append (h : Doubly next prev cells) {cell last : ℕ} (hlast : last = lastOf cells)
    (hnew : cell ∉ cells) (hcell : cell ≠ 0) (hend : next cell = 0) :
    Doubly (if last = 0 then next else Function.update next last cell)
      (Function.update prev cell last) (cells ++ [cell]) := by
  have hprev : ∀ c ∈ cells, Function.update prev cell last c = prev c := by
    intro c hc
    apply Function.update_of_ne
    intro heq
    exact hnew (heq ▸ hc)
  rcases List.eq_nil_or_concat cells with hnil | ⟨init, t, hconcat⟩
  · subst hnil
    subst hlast
    refine ⟨List.isChain_singleton _, List.isChain_singleton _, ?_, ?_, ?_⟩
    · intro t ht
      cases ht
      exact hend
    · intro t ht
      cases ht
      exact Function.update_self _ _ _
    · intro c hc
      rw [List.nil_append, List.mem_singleton] at hc
      exact hc ▸ hcell
  · have hgetLast : cells.getLast? = some t := by rw [hconcat, List.concat_eq_append, List.getLast?_concat]
    have ht : t ∈ cells := List.mem_of_getLast? hgetLast
    have hlt : last = t := by rw [hlast, lastOf, hgetLast]; rfl
    subst hlt
    have hnull := h.nonnull last ht
    have hend' := h.last_next last hgetLast
    rw [if_neg hnull]
    refine ⟨?_, ?_, ?_, ?_, ?_⟩
    · rw [List.isChain_append]
      refine ⟨?_, List.isChain_singleton _, ?_⟩
      · apply h.forward.imp_of_mem_imp
        intro a b _ hb hab
        have hne : a ≠ last := by
          intro heq
          rw [heq, hend'] at hab
          exact h.nonnull b hb hab.symm
        rw [Function.update_of_ne hne, hab]
      · intro x hx y hy
        rw [hgetLast] at hx
        cases hx
        cases hy
        exact Function.update_self _ _ _
    · rw [List.isChain_append]
      refine ⟨?_, List.isChain_singleton _, ?_⟩
      · apply h.backward.imp_of_mem_imp
        intro a b _ hb hab
        rw [hprev b hb, hab]
      · intro x hx y hy
        rw [hgetLast] at hx
        cases hx
        cases hy
        exact Function.update_self _ _ _
    · intro x hx
      rw [List.getLast?_concat] at hx
      cases hx
      rw [Function.update_of_ne, hend]
      intro heq
      exact hnew (heq ▸ ht)
    · intro x hx
      rw [List.head?_append_of_ne_nil _ (List.ne_nil_of_mem ht)] at hx
      rw [hprev x (List.mem_of_mem_head? hx)]
      exact h.head_prev x hx
    · intro c hc
      rw [List.mem_append, List.mem_singleton] at hc
      rcases hc with hc | rfl
      · exact h.nonnull c hc
      · exact hcell

end Doubly

/-- `while (cell->link) cell = cell->link;`: the cells read, in order, and the last of them. Reading a
field of `NULL` faults. -/
def chase (link : ℕ → ℕ) (fuel cell : ℕ) : Run (List ℕ × ℕ) :=
  loop (fun st : List ℕ × ℕ => do
      require (st.2 ≠ 0) .bounds
      if link st.2 ≠ 0 then
        return .inl (st.1 ++ [link st.2], link st.2)
      else
        return .inr st)
    fuel ([cell], cell)

/-- A walk from the front of a list reads its cells in order and ends at the last one. -/
theorem Doubly.chase_returns {next prev : ℕ → ℕ} {cells : List ℕ} (h : Doubly next prev cells)
    (hne : cells ≠ []) {fuel : ℕ} (hfuel : cells.length ≤ fuel) :
    Returns (chase next fuel (firstOf cells)) fun r => r = (cells, lastOf cells) := by
  have hfirst := head?_eq_firstOf hne
  have hlast := getLast?_eq_lastOf hne
  generalize firstOf cells = first at hfirst ⊢
  generalize lastOf cells = last at hlast ⊢
  apply loop_returns (fun st : List ℕ × ℕ => ∃ pre suf, cells = pre ++ st.2 :: suf ∧
    st.1 = pre ++ [st.2]) _ (fun st => cells.length - st.1.length)
  · intro st hst
    obtain ⟨visited, cell⟩ := st
    obtain ⟨pre, suf, hcells, hvisited⟩ := hst
    dsimp only at hcells hvisited ⊢
    have hmem : cell ∈ cells := by
      rw [hcells]
      exact List.mem_append_right _ List.mem_cons_self
    rw [require_pos (h.nonnull cell hmem), pure_bind]
    cases suf with
    | nil =>
        rw [hcells, List.getLast?_concat, Option.some.injEq] at hlast
        have hnull := h.last_next cell (by rw [hcells, List.getLast?_concat]; rfl)
        rw [if_neg (not_not.mpr hnull), returns_pure]
        show (visited, cell) = (cells, last)
        rw [hvisited, hcells, hlast]
    | cons b suf =>
        have hnext : next cell = b := by
          have hchain := h.forward
          rw [hcells, List.isChain_append_cons_cons] at hchain
          exact hchain.2.1
        have hb : b ∈ cells := by
          rw [hcells]
          exact List.mem_append_right _ (List.mem_cons_of_mem _ List.mem_cons_self)
        rw [hnext, if_pos (h.nonnull b hb), returns_pure]
        refine ⟨⟨pre ++ [cell], suf, ?_, ?_⟩, ?_⟩
        · rw [hcells, List.append_assoc]
          rfl
        · rw [hvisited]
        · rw [hcells, hvisited]
          simp only [List.length_append, List.length_cons, List.length_nil]
          omega
  · cases cells with
    | nil => cases hfirst
    | cons c cells =>
        cases hfirst
        exact ⟨[], cells, rfl, rfl⟩
  · cases cells with
    | nil => cases hfirst
    | cons c cells =>
        show (c :: cells).length - 1 < fuel
        rw [List.length_cons] at hfuel ⊢
        omega

end CSem
