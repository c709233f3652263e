import Mathlib.Algebra.BigOperators.Group.List.Basic
import Mathlib.Algebra.Group.Basic
import Mathlib.Tactic.Abel
import Mathlib.Data.List.GetD
import Mathlib.Data.Nat.Basic

/-! A sequence of moments cut at some of its gaps. Gap `k` lies between the moments `k` and `k + 1`. A
cut closes a stretch, and the next stretch opens at the moment after the gap, so the stretches and the
cut gaps cover the time from the first moment to the last one without overlap. -/

namespace CSem

section Cuts

variable {p : ℕ → Prop} [DecidablePred p]

/-- The gaps before moment `m` at which the sequence is cut. -/
def cuts (p : ℕ → Prop) [DecidablePred p] (m : ℕ) : List ℕ := (List.range m).filter (p ·)

@[simp] theorem cuts_zero : cuts p 0 = [] := rfl

theorem cuts_succ_of_pos {m : ℕ} (h : p m) : cuts p (m + 1) = cuts p m ++ [m] := by
  rw [cuts, List.range_succ, List.filter_append, List.filter_singleton, decide_eq_true h]
  rfl

theorem cuts_succ_of_neg {m : ℕ} (h : ¬p m) : cuts p (m + 1) = cuts p m := by
  rw [cuts, List.range_succ, List.filter_append, List.filter_singleton, decide_eq_false h]
  exact List.append_nil _

theorem mem_cuts {m k : ℕ} : k ∈ cuts p m ↔ k < m ∧ p k := by
  rw [cuts, List.mem_filter, List.mem_range, decide_eq_true_iff]

theorem length_cuts_le_of_le {m m' : ℕ} (h : m ≤ m') : (cuts p m).length ≤ (cuts p m').length :=
  ((List.range_sublist.mpr h).filter _).length_le

/-- The moment at which stretch `i` opens. -/
def opens (cuts : List ℕ) : ℕ → ℕ
  | 0 => 0
  | i + 1 => cuts.getD i 0 + 1

theorem opens_append {cuts : List ℕ} {i : ℕ} (h : i ≤ cuts.length) (cut : ℕ) :
    opens (cuts ++ [cut]) i = opens cuts i := by
  cases i with
  | zero => rfl
  | succ i => rw [opens, opens, List.getD_append _ _ _ _ h]

theorem opens_append_length (cuts : List ℕ) (cut : ℕ) :
    opens (cuts ++ [cut]) (cuts.length + 1) = cut + 1 := by
  rw [opens, List.getD_append_right _ _ _ _ (le_refl _), Nat.sub_self]
  rfl

end Cuts

/-- If every stretch starts where the one before it was closed, the times before and after the points
`p` add up to the whole time. -/
theorem sum_stretches {G : Type} [AddCommGroup G] (s p c : ℕ → G) (m n : ℕ)
    (h : ∀ i, m ≤ i → i < m + n → s (i + 1) = c i) :
    ((List.range' m (n + 1)).map fun i => p i - s i).sum +
      ((List.range' m (n + 1)).map fun i => c i - p i).sum = c (m + n) - s m := by
  induction n with
  | zero =>
      simp only [Nat.zero_add, List.range'_one, List.map_cons, List.map_nil, List.sum_singleton]
      rw [add_comm, Nat.add_zero, sub_add_sub_cancel]
  | succ n ih =>
      have hlast : s (m + (n + 1)) = c (m + n) := h (m + n) (by omega) (by omega)
      have hbefore := ih fun i hm hi => h i hm (by omega)
      rw [List.range'_concat]
      simp only [List.map_append, List.sum_append, List.map_cons, List.map_nil, List.sum_singleton, one_mul]
      calc _ = ((List.range' m (n + 1)).map fun i => p i - s i).sum +
            ((List.range' m (n + 1)).map fun i => c i - p i).sum +
            (c (m + (n + 1)) - s (m + (n + 1))) := by abel
        _ = c (m + n) - s m + (c (m + (n + 1)) - c (m + n)) := by rw [hbefore, hlast]
        _ = c (m + (n + 1)) - s m := by abel

end CSem
