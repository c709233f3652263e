import ChannelBench.CMemory
import ChannelBench.CRun
import Mathlib.Data.List.Iterate
import Mathlib.Data.List.Nodup

/-! Rings of cells linked through memory: every cell holds the address of the next one. `Ring` gives
the links by position; following them from the first cell visits all cells in order and returns. A ring
is made by writing its links one after the other, and a loop that follows them until it is back at its
start goes round once. -/

namespace CSem

variable {width : ℕ} {mem mem' : Mem} {nodes : List ℕ}

/-- The cells are linked in order and the last one to the first. -/
def Ring (width : ℕ) (mem : Mem) (nodes : List ℕ) : Prop :=
  ∀ i (hi : i < nodes.length),
    load mem width nodes[i] = (getElem nodes ((i + 1) % nodes.length) (Nat.mod_lt _ (by omega)))

/-- Following the links from a cell visits the given cells, each once, and comes back. -/
structure Cycle (width : ℕ) (mem : Mem) (start : ℕ) (nodes : List ℕ) : Prop where
  nodup : nodes.Nodup
  visits : (List.iterate (load mem width) start nodes.length).Perm nodes
  closes : (load mem width)^[nodes.length] start = start

/-- A ring depends on the links of its cells only. -/
theorem Ring.congr (h : Ring width mem nodes)
    (hlinks : ∀ node ∈ nodes, load mem' width node = load mem width node) :
    Ring width mem' nodes := by
  intro i hi
  rw [hlinks _ (List.getElem_mem hi), h i hi]

theorem Ring.iterate (h : Ring width mem nodes) (hpos : 0 < nodes.length) (k : ℕ) :
    (load mem width)^[k] nodes[0] = (getElem nodes (k % nodes.length) (Nat.mod_lt _ hpos)) := by
  induction k with
  | zero => simp
  | succ k ih =>
      rw [Function.iterate_succ_apply', ih, h _ (Nat.mod_lt _ hpos)]
      congr 1
      rw [Nat.mod_add_mod]

/-- The cells in the order in which the links visit them. -/
theorem Ring.iterate_eq (h : Ring width mem nodes) (hpos : 0 < nodes.length) :
    List.iterate (load mem width) nodes[0] nodes.length = nodes := by
  apply List.ext_getElem
  · simp
  intro i hi hi'
  rw [List.getElem_iterate, h.iterate hpos]
  simp only [Nat.mod_eq_of_lt hi']

theorem Ring.cycle (h : Ring width mem nodes) (hpos : 0 < nodes.length) (hnodup : nodes.Nodup) :
    Cycle width mem nodes[0] nodes where
  nodup := hnodup
  visits := by rw [h.iterate_eq hpos]
  closes := by
    rw [h.iterate hpos]
    simp only [Nat.mod_self]

/-- Only the cells of a cycle matter, not the order in which they are listed. -/
theorem Cycle.perm {start : ℕ} {nodes' : List ℕ} (h : Cycle width mem start nodes)
    (hperm : nodes.Perm nodes') : Cycle width mem start nodes' where
  nodup := hperm.nodup_iff.mp h.nodup
  visits := by
    rw [← hperm.length_eq]
    exact h.visits.trans hperm
  closes := by
    rw [← hperm.length_eq]
    exact h.closes

/-! ### Making a ring -/

/-- Cells that do not overlap and can hold each other's addresses. -/
structure Cells (width : ℕ) (nodes : List ℕ) : Prop where
  apart : nodes.Pairwise fun p q => p + width ≤ q ∨ q + width ≤ p
  bounded : ∀ node ∈ nodes, node < 256 ^ width

/-- The first `count` links of a ring. -/
def LinkedUpto (width : ℕ) (mem : Mem) (nodes : List ℕ) (count : ℕ) : Prop :=
  ∀ i (hi : i < nodes.length), i < count →
    load mem width nodes[i] = (getElem nodes ((i + 1) % nodes.length) (Nat.mod_lt _ (by omega)))

theorem Cells.apart_of_ne (h : Cells width nodes) {i j : ℕ} (hi : i < nodes.length)
    (hj : j < nodes.length) (hne : i ≠ j) :
    nodes[i] + width ≤ nodes[j] ∨ nodes[j] + width ≤ nodes[i] := by
  have hpair := List.pairwise_iff_getElem.mp h.apart
  rcases Nat.lt_or_gt_of_ne hne with hlt | hlt
  · exact hpair i j hi hj hlt
  · exact (hpair j i hj hi hlt).symm

theorem Cells.nodup (h : Cells width nodes) (hwidth : 0 < width) : nodes.Nodup := by
  apply h.apart.imp
  intro p q hpq heq
  omega

/-- Writing one more link. -/
theorem LinkedUpto.store_next {count : ℕ} (h : LinkedUpto width mem nodes count)
    (hcells : Cells width nodes) (hcount : count < nodes.length) :
    LinkedUpto width (store mem width nodes[count]
      (getElem nodes ((count + 1) % nodes.length) (Nat.mod_lt _ (by omega)))) nodes (count + 1) := by
  intro i hi hlt
  rcases Nat.lt_succ_iff_lt_or_eq.mp hlt with hlt | rfl
  · rw [load_store_of_disjoint _ _ (hcells.apart_of_ne hi hcount (by omega))]
    exact h i hi hlt
  · exact load_store_same _ _ _ _ (hcells.bounded _ (List.getElem_mem _))

theorem LinkedUpto.ring (h : LinkedUpto width mem nodes nodes.length) : Ring width mem nodes :=
  fun i hi => h i hi hi

/-- A ring survives changes outside its cells. -/
theorem Ring.frame (h : Ring width mem nodes)
    (hframe : ∀ node ∈ nodes, ∀ a, node ≤ a → a < node + width → mem' a = mem a) :
    Ring width mem' nodes :=
  h.congr fun node hnode => load_congr (hframe node hnode)

/-! ### Going round -/

/-- `do { visit p; p = next; } while (p != start)`, where a step makes a visit and gives the next cell. A
visit to `NULL` faults. -/
def goRound {τ : Type} (step : ℕ → τ → ℕ × τ) (fuel start : ℕ) (acc : τ) : Run τ :=
  loop (fun s : ℕ × τ => do
      require (s.1 ≠ 0) .bounds
      let next := step s.1 s.2
      if next.1 ≠ start then
        return .inl next
      else
        return .inr next.2)
    fuel (start, acc)

/-- Steps that lead from each cell to the next one go round once. `Inv k` holds after `k` visits. -/
theorem goRound_returns {τ : Type} {step : ℕ → τ → ℕ × τ} {fuel : ℕ} {acc : τ} (hpos : 0 < nodes.length)
    (hnodup : nodes.Nodup) (hnonnull : ∀ node ∈ nodes, node ≠ 0) (hfuel : nodes.length < fuel)
    (Inv : ℕ → τ → Prop) (h0 : Inv 0 acc)
    (hstep : ∀ k (hk : k < nodes.length) acc, Inv k acc →
      (step nodes[k] acc).1 = (getElem nodes ((k + 1) % nodes.length) (Nat.mod_lt _ hpos)) ∧
        Inv (k + 1) (step nodes[k] acc).2) :
    Returns (goRound step fuel nodes[0] acc) (Inv nodes.length) := by
  apply loop_returns (fun s : ℕ × τ => ∃ k, ∃ hk : k < nodes.length, s.1 = nodes[k] ∧ Inv k s.2) _
    (fun s => nodes.length - nodes.idxOf s.1)
  · intro s hs
    obtain ⟨p, acc⟩ := s
    obtain ⟨k, hk, hp, hinv⟩ := hs
    dsimp only at hp hinv ⊢
    subst hp
    obtain ⟨hnext, hinv'⟩ := hstep k hk acc hinv
    rw [require_pos (hnonnull _ (List.getElem_mem hk)), pure_bind]
    by_cases hlast : k + 1 = nodes.length
    · have hback : (step nodes[k] acc).1 = nodes[0] := by
        rw [hnext]
        simp only [hlast, Nat.mod_self]
      rw [if_neg (not_not.mpr hback), returns_pure]
      show Inv nodes.length _
      rwa [hlast] at hinv'
    · have hlt : k + 1 < nodes.length := by omega
      have hahead : (step nodes[k] acc).1 = nodes[k + 1] := by
        rw [hnext]
        simp only [Nat.mod_eq_of_lt hlt]
      have hne : nodes[k + 1] ≠ nodes[0] := by
        rw [Ne, hnodup.getElem_inj_iff]
        exact Nat.succ_ne_zero k
      rw [if_pos (by rwa [hahead]), returns_pure]
      refine ⟨⟨k + 1, hlt, hahead, hinv'⟩, ?_⟩
      rw [hahead, hnodup.idxOf_getElem, hnodup.idxOf_getElem]
      omega
  · exact ⟨0, hpos, rfl, h0⟩
  · dsimp only
    omega

end CSem
