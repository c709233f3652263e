import ChannelBench.ProberState
import ChannelBench.CRing
import Mathlib.Data.List.Perm.Subperm

/-! Probing a ring of lines. A probe starts at a line, counts up a counter in every line it comes to
and follows the links until it is back where it started. On a ring whose links no counter touches it
goes round once, whatever it does about time on the way. -/

namespace ChannelBench

open CSem

/-- `(*(int *)OFFSET(p, 2*sizeof(void *)))++`. -/
def bump (sizeofPtr : ℕ) (mem : Mem) (p : ℕ) : Mem :=
  store mem 4 (p + 2 * sizeofPtr) ((load mem 4 (p + 2 * sizeofPtr) + 1) % 2 ^ 32)

/-- The `do … while (p != pp)` loop of the probes; `round` is what a probe does about time in a round.
A round on the `NULL` line faults, and a walk through more lines than there are addresses would never
end. -/
def probeWalk {τ : Type} (sizeofPtr : ℕ) (round : τ → τ) (pp : ℕ) (mem : Mem) (acc : τ) :
    Run (Mem × τ) :=
  loop (fun s : ℕ × Mem × τ => do
      require (s.1 ≠ 0) .bounds
      let mem := bump sizeofPtr s.2.1 s.1
      let p := load mem sizeofPtr s.1
      let acc := round s.2.2
      if p ≠ pp then
        return .inl (p, mem, acc)
      else
        return .inr (mem, acc))
    (256 ^ sizeofPtr + 1) (pp, mem, acc)

section Probes

variable {σ : Type} (clock : σ → BitVec 32 × σ) (threshold : BitVec 32) (sizeofPtr : ℕ)

/-- `probetime`: the duration of a walk. -/
def probetime (pp : ℕ) (mem : Mem) (world : σ) : Run (ℤ × Mem × σ) := do
  if pp = 0 then
    return (0, mem, world)
  let start := clock world
  let (mem, world) ← probeWalk sizeofPtr id pp mem start.2
  let stop := clock world
  return ((stop.1 - start.1).toInt, mem, stop.2)

/-- `bprobetime`. -/
def bprobetime (pp : ℕ) (mem : Mem) (world : σ) : Run (ℤ × Mem × σ) := do
  if pp = 0 then
    return (0, mem, world)
  probetime clock sizeofPtr (pp + sizeofPtr) mem world

/-- A round of `probecount`, which counts the accesses that took longer than `L3_THRESHOLD`. -/
def probecountRound (st : ℤ × σ) : ℤ × σ :=
  let start := clock st.2
  let stop := clock start.2
  (if stop.1 - start.1 > threshold then st.1 + 1 else st.1, stop.2)

/-- `probecount`. -/
def probecount (pp : ℕ) (mem : Mem) (world : σ) : Run (ℤ × Mem × σ) := do
  if pp = 0 then
    return (0, mem, world)
  let (mem, rv, world) ← probeWalk sizeofPtr (probecountRound clock threshold) pp mem (0, world)
  return (rv, mem, world)

/-- `bprobecount`. -/
def bprobecount (pp : ℕ) (mem : Mem) (world : σ) : Run (ℤ × Mem × σ) := do
  if pp = 0 then
    return (0, mem, world)
  probecount clock threshold sizeofPtr (pp + sizeofPtr) mem world

end Probes

/-- A ring whose links are not where the probes count. -/
structure Probeable (sizeofPtr : ℕ) (mem : Mem) (nodes : List ℕ) : Prop where
  ring : Ring sizeofPtr mem nodes
  nonempty : 0 < nodes.length
  nodup : nodes.Nodup
  nonnull : ∀ node ∈ nodes, node ≠ 0
  bounded : ∀ node ∈ nodes, node < 256 ^ sizeofPtr
  apart : ∀ node ∈ nodes, ∀ other ∈ nodes,
    other + sizeofPtr ≤ node + 2 * sizeofPtr ∨ node + 2 * sizeofPtr + 4 ≤ other

theorem load_bump {sizeofPtr : ℕ} (mem : Mem) {node width p : ℕ}
    (h : p + width ≤ node + 2 * sizeofPtr ∨ node + 2 * sizeofPtr + 4 ≤ p) :
    load (bump sizeofPtr mem node) width p = load mem width p :=
  load_store_of_disjoint _ _ h

theorem load_foldl_bump {sizeofPtr width p : ℕ} {nodes : List ℕ}
    (h : ∀ node ∈ nodes, p + width ≤ node + 2 * sizeofPtr ∨ node + 2 * sizeofPtr + 4 ≤ p)
    (mem : Mem) : load (nodes.foldl (bump sizeofPtr) mem) width p = load mem width p := by
  induction nodes generalizing mem with
  | nil => rfl
  | cons node nodes ih =>
      rw [List.foldl_cons, ih fun other hother => h other (List.mem_cons_of_mem _ hother)]
      exact load_bump mem (h node List.mem_cons_self)

/-- A probe is a walk round a ring that counts in every line it comes to. -/
theorem probeWalk_eq {τ : Type} (sizeofPtr : ℕ) (round : τ → τ) (pp : ℕ) (mem : Mem) (acc : τ) :
    probeWalk sizeofPtr round pp mem acc =
      goRound (fun p s => (load (bump sizeofPtr s.1 p) sizeofPtr p, bump sizeofPtr s.1 p, round s.2))
        (256 ^ sizeofPtr + 1) pp (mem, acc) := rfl

namespace Probeable

variable {sizeofPtr : ℕ} {mem : Mem} {nodes : List ℕ}

/-- Distinct addresses are at most as many as there are addresses. -/
theorem length_le (h : Probeable sizeofPtr mem nodes) : nodes.length ≤ 256 ^ sizeofPtr := by
  have hsub : nodes ⊆ List.range (256 ^ sizeofPtr) := fun node hnode =>
    List.mem_range.mpr (h.bounded node hnode)
  simpa using (h.nodup.subperm hsub).length_le

/-- The links after counting in some of the lines. -/
theorem load_counted (h : Probeable sizeofPtr mem nodes) {counted : List ℕ} (hsub : counted ⊆ nodes)
    {node : ℕ} (hnode : node ∈ nodes) :
    load (counted.foldl (bump sizeofPtr) mem) sizeofPtr node = load mem sizeofPtr node :=
  load_foldl_bump (fun other hother => h.apart other (hsub hother) node hnode) mem

/-- A probe counts in every line of the ring once and returns to its start. -/
theorem probeWalk_returns {τ : Type} (h : Probeable sizeofPtr mem nodes) (round : τ → τ) (acc : τ) :
    Returns (probeWalk sizeofPtr round (getElem nodes 0 h.nonempty) mem acc) fun r =>
      r = (nodes.foldl (bump sizeofPtr) mem, round^[nodes.length] acc) := by
  have hle := h.length_le
  rw [probeWalk_eq]
  apply (goRound_returns h.nonempty h.nodup h.nonnull (by omega)
    (fun k s => s = ((nodes.take k).foldl (bump sizeofPtr) mem, round^[k] acc)) rfl _).mono
  · intro s hs
    rwa [List.take_length] at hs
  · intro k hk s hs
    subst hs
    have hmem : bump sizeofPtr ((nodes.take k).foldl (bump sizeofPtr) mem) nodes[k] =
        (nodes.take (k + 1)).foldl (bump sizeofPtr) mem := by
      rw [List.take_succ_eq_append_getElem hk, List.foldl_append, List.foldl_cons, List.foldl_nil]
    dsimp only
    rw [hmem, h.load_counted (List.take_subset _ _) (List.getElem_mem hk), ← Function.iterate_succ_apply' round]
    exact ⟨h.ring k hk, rfl⟩

variable {σ : Type} (clock : σ → BitVec 32 × σ) (threshold : BitVec 32)

theorem head_ne_zero (h : Probeable sizeofPtr mem nodes) : (getElem nodes 0 h.nonempty) ≠ 0 :=
  h.nonnull _ (List.getElem_mem h.nonempty)

theorem probetime_returns (h : Probeable sizeofPtr mem nodes) (world : σ) :
    Returns (probetime clock sizeofPtr (getElem nodes 0 h.nonempty) mem world) fun r =>
      r.2.1 = nodes.foldl (bump sizeofPtr) mem := by
  rw [probetime, if_neg h.head_ne_zero]
  apply (h.probeWalk_returns id (clock world).2).bind
  intro r hr
  rw [hr, returns_pure]

/-- A count rises by at most one in a round. -/
theorem probecountRound_iterate (k : ℕ) (world : σ) :
    0 ≤ ((probecountRound clock threshold)^[k] (0, world)).1 ∧
      ((probecountRound clock threshold)^[k] (0, world)).1 ≤ k := by
  induction k with
  | zero => exact ⟨le_refl 0, le_refl 0⟩
  | succ k ih =>
      rw [Function.iterate_succ_apply', probecountRound]
      split_ifs
      · dsimp only
        omega
      · dsimp only
        omega

theorem probecount_returns (h : Probeable sizeofPtr mem nodes) (world : σ) :
    Returns (probecount clock threshold sizeofPtr (getElem nodes 0 h.nonempty) mem world) fun r =>
      r.2.1 = nodes.foldl (bump sizeofPtr) mem ∧ 0 ≤ r.1 ∧ r.1 ≤ nodes.length := by
  rw [probecount, if_neg h.head_ne_zero]
  apply (h.probeWalk_returns (probecountRound clock threshold) (0, world)).bind
  intro r hr
  rw [hr, returns_pure]
  exact ⟨rfl, probecountRound_iterate clock threshold _ world⟩

end Probeable

end ChannelBench
