import ChannelBench.CRing
import Mathlib.Data.List.Chain

/-! Paths: the cells that a walk visits and the cell it arrives at. Paths compose, so a long linked
structure is followed piece by piece; a path that comes back to its start is a cycle. -/

namespace CSem

variable {α : Type} {next next' : α → α} {a b c : α} {nodes nodes' : List α}

/-- Following `next` from a cell visits the given cells in order and arrives at the last argument. -/
inductive Path (next : α → α) : α → List α → α → Prop
  | nil (a : α) : Path next a [] a
  | cons {a b : α} {nodes : List α} (rest : Path next (next a) nodes b) : Path next a (a :: nodes) b

theorem Path.append (h : Path next a nodes b) (h' : Path next b nodes' c) :
    Path next a (nodes ++ nodes') c := by
  induction h with
  | nil => exact h'
  | cons _ ih => exact .cons (ih h')

/-- A path depends on the links of its cells only. -/
theorem Path.congr (h : Path next a nodes b) (heq : ∀ node ∈ nodes, next' node = next node) :
    Path next' a nodes b := by
  induction h with
  | nil => exact .nil _
  | cons rest ih =>
      apply Path.cons
      rw [heq _ List.mem_cons_self]
      exact ih fun node hnode => heq node (List.mem_cons_of_mem _ hnode)

theorem Path.iterate_eq (h : Path next a nodes b) : List.iterate next a nodes.length = nodes := by
  induction h with
  | nil => rfl
  | cons rest ih => rw [List.length_cons, List.iterate, ih]

theorem Path.iterate_length (h : Path next a nodes b) : next^[nodes.length] a = b := by
  induction h with
  | nil => rfl
  | cons rest ih => rw [List.length_cons, Function.iterate_succ_apply, ih]

theorem Path.cycle {width : ℕ} {mem : Mem} {start : ℕ} {nodes : List ℕ}
    (h : Path (load mem width) start nodes start) (hnodup : nodes.Nodup) :
    Cycle width mem start nodes where
  nodup := hnodup
  visits := by rw [h.iterate_eq]
  closes := h.iterate_length

/-- A path through two lists passes a cell between them. -/
theorem Path.split (h : Path next a (nodes ++ nodes') c) :
    ∃ b, Path next a nodes b ∧ Path next b nodes' c := by
  induction nodes generalizing a with
  | nil => exact ⟨a, .nil a, h⟩
  | cons node nodes ih =>
      cases h with
      | cons rest =>
          obtain ⟨b, hleft, hright⟩ := ih rest
          exact ⟨b, .cons hleft, hright⟩

/-- Cells that are linked one to the next. -/
theorem path_range (next : α → α) (cell : ℕ → α) (n : ℕ) (h : ∀ i, i < n → next (cell i) = cell (i + 1)) :
    Path next (cell 0) ((List.range (n + 1)).map cell) (next (cell n)) := by
  induction n with
  | zero => exact .cons (.nil _)
  | succ n ih =>
      rw [List.range_succ, List.map_append, List.map_singleton]
      apply (ih fun i hi => h i (by omega)).append
      rw [h n (Nat.lt_succ_self n)]
      exact .cons (.nil _)

/-- Pieces each of which ends where the next one starts. -/
theorem path_flatMap {ι : Type} (next : α → α) (entry exit : ι → α) (piece : ι → List α) :
    ∀ (first : ι) (rest : List ι),
      (∀ i ∈ first :: rest, Path next (entry i) (piece i) (exit i)) →
        (first :: rest).IsChain (fun i j => exit i = entry j) →
          Path next (entry first) ((first :: rest).flatMap piece)
            (exit ((first :: rest).getLast (List.cons_ne_nil _ _)))
  | first, [], hpiece, _ => by
      rw [List.flatMap_cons, List.flatMap_nil, List.append_nil, List.getLast_singleton]
      exact hpiece first List.mem_cons_self
  | first, second :: rest, hpiece, hchain => by
      obtain ⟨hlink, hchain⟩ := List.isChain_cons_cons.mp hchain
      have hfirst := hpiece first List.mem_cons_self
      rw [hlink] at hfirst
      rw [List.flatMap_cons, List.getLast_cons (List.cons_ne_nil _ _)]
      exact hfirst.append (path_flatMap next entry exit piece second rest
        (fun i hi => hpiece i (List.mem_cons_of_mem _ hi)) hchain)

end CSem
