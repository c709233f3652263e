import ChannelBench.L1Lists
import ChannelBench.L1iProbes
import ChannelBench.ProberMonitor

/-! The orders in which the probers visit their monitored sets. All three draw them with the same loop, so
that one count settles them: every order is the outcome of exactly one vector of draws. -/

namespace ChannelBench

open CSem

/-- **The shuffles are unbiased.** Each of them puts the first `n` entries in the order that its draws add up
to and leaves the others, every vector of draws can be drawn, and each of the `n!` orders comes from one of
them. -/
theorem shuffles_unbiased (n : ℕ) :
    Function.Bijective (Draws.perm : Draws n → Equiv.Perm (Fin n)) ∧
    Fintype.card (Equiv.Perm (Fin n)) = n.factorial ∧
    (∀ draws : Draws n, ∃ source : ℕ → ℕ, drawsOf (fun i => (source i, i + 1)) n 0 = draws) ∧
    ∀ (σ : Type) (random : σ → ℕ × σ) (world : σ),
      (∀ monitored, n ≤ monitored.length →
        Returns (l1Shuffle random n monitored world) fun r =>
          Permuted (drawsOf random n world).perm monitored r.1 ∧ r.1.drop n = monitored.drop n) ∧
      (∀ s : L1iinfo, s.nsets = n → n ≤ s.monitored.length →
        Returns (l1iRandomise random s world) fun r =>
          Permuted (drawsOf random n world).perm s.monitored r.1.monitored ∧
            r.1.monitored.drop n = s.monitored.drop n) ∧
      ∀ s : L3pp, s.nmonitored = n → n ≤ s.monitoredset.length → n ≤ s.monitoredhead.length →
        Returns (l3Randomise random s world) fun r =>
          Permuted (drawsOf random n world).perm s.monitoredset r.1.monitoredset ∧
            r.1.monitoredset.drop n = s.monitoredset.drop n ∧
          Permuted (drawsOf random n world).perm s.monitoredhead r.1.monitoredhead ∧
            r.1.monitoredhead.drop n = s.monitoredhead.drop n := by
  refine ⟨Draws.perm_bijective n, by rw [Fintype.card_perm, Fintype.card_fin], exists_drawsOf, ?_⟩
  intro σ random world
  refine ⟨?_, ?_, ?_⟩
  · intro monitored hn
    apply (shuffle_returns random hn world).mono
    intro r h
    exact ⟨h.1, h.1.drop_eq⟩
  · rintro s rfl hn
    apply (l1iRandomise_permutes random hn world).mono
    intro r h
    exact ⟨h.1, h.1.drop_eq⟩
  · rintro s rfl hset hhead
    apply (l3Randomise_permutes random hset hhead world).mono
    intro r h
    exact ⟨h.1, h.1.drop_eq, h.2.1, h.2.1.drop_eq⟩

/-- Two sets of three: the draw 1 exchanges them. -/
theorem shuffles_unbiased_two :
    Returns (l1Shuffle (fun draw => (draw, draw + 1)) 2 [7, 5, 9] 1) fun r =>
      Permuted (drawsOf (fun draw => (draw, draw + 1)) 2 1).perm [7, 5, 9] r.1 ∧ r.1.drop 2 = [9] :=
  ((shuffles_unbiased 2).2.2.2 ℕ (fun draw => (draw, draw + 1)) 1).1 [7, 5, 9] (by decide)

end ChannelBench
