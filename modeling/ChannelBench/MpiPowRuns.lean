import ChannelBench.MpiPowSteps
import Mathlib.Data.Nat.Bits

/-! Runs of the main loop of `mpi_powm`. Before every round the result is the base to the power of the bits of the
exponent so far, modulo the modulus, and the squarings and multiplications that were called are these bits below
the highest one. -/

namespace ChannelBench

open CSem

/-- The squarings and multiplications of a run. -/
def Powm.calls (st : Powm) : List PowmOp := st.ops.filter (· ≠ .reduce)

/-- Limbs that were handed out and are in neither of the two areas. -/
abbrev Clear (free R X size p n : ℕ) : Prop := p + n ≤ free ∧ Apart p n R size ∧ Apart p n X size

/-- The operands and the two areas of the main loop, at its start. -/
structure PowmSetting (u : Limbs) (free R X mp msize bp bsize : ℕ) : Prop where
  sizes : 0 < bsize ∧ bsize ≤ msize
  areas : R + 2 * msize ≤ free ∧ X + 2 * msize ≤ free ∧ Apart R (2 * msize) X (2 * msize)
  modulus : Clear free R X (2 * msize) mp msize
  base : Clear free R X (2 * msize) bp bsize
  norm : 2147483648 ≤ (u (mp + (msize - 1))).toNat

/-- Before a round: the bits of the exponent so far are `v`, and `calls` have been made. -/
structure PowmInv (u : Limbs) (free R X mp msize bp bsize v : ℕ) (calls : List PowmOp) (st : Powm) : Prop where
  value : num st.h.mem st.rp st.rsize ≡ num u bp bsize ^ v [MOD num u mp msize]
  calls : st.calls = calls
  areas : st.rp = R ∧ st.xp = X ∨ st.rp = X ∧ st.xp = R
  rsize : bsize ≤ st.rsize ∧ st.rsize ≤ msize
  frame : ∀ a, Clear free R X (2 * msize) a 1 → st.h.mem a = u a
  grows : free ≤ st.h.free
  spaces : ∀ b ∈ blocks st.spaces, free ≤ b.1
  separate : Separate st.h.free st.spaces

section Runs

variable {u : Limbs} {free R X mp msize bp bsize v : ℕ} {calls : List PowmOp} {st st' : Powm}

/-- The spaces that a run reserves are behind what was handed out before it. -/
theorem PowmInv.holds (h : PowmInv u free R X mp msize bp bsize v calls st) {p n : ℕ} (hp : p + n ≤ free) :
    st.Holds p n where
  below := Nat.le_trans hp h.grows
  clear b hb := .inl (Nat.le_trans hp (h.spaces b hb))

theorem PowmInv.num_eq (h : PowmInv u free R X mp msize bp bsize v calls st) {p n : ℕ}
    (hp : Clear free R X (2 * msize) p n) : num st.h.mem p n = num u p n :=
  num_congr fun i hi => h.frame (p + i) (by omega)

theorem PowmInv.ready (h : PowmInv u free R X mp msize bp bsize v calls st)
    (hset : PowmSetting u free R X mp msize bp bsize) : PowmReady mp msize st := by
  obtain ⟨hsizes, ⟨hR, hX, hRX⟩, hmp, hbp, hnorm⟩ := hset
  have hareas := h.areas
  have hrsize := h.rsize
  refine ⟨by omega, h.holds (by omega), h.holds (by omega), h.holds (by omega), by omega, by omega, h.separate, ?_⟩
  rw [h.frame (mp + (msize - 1)) (by omega)]
  exact hnorm

/-- A product that is congruent to a power of the base keeps the invariant. -/
theorem PowmInv.step (h : PowmInv u free R X mp msize bp bsize v calls st)
    (hset : PowmSetting u free R X mp msize bp bsize) {size Y v' : ℕ} {op : PowmOp} (hop : op ≠ .reduce)
    (hstep : PowmStep (num st.h.mem mp msize) msize size Y st st') (hsize : bsize ≤ size)
    (hY : Y ≡ num u bp bsize ^ v' [MOD num u mp msize])
    (hops : st'.ops = st.ops ++ [op] ++ if msize < size then [.reduce] else []) :
    PowmInv u free R X mp msize bp bsize v' (calls ++ [op]) st' := by
  have hmp := hset.modulus
  have hareas := h.areas
  have hsizes := hset.sizes
  obtain ⟨hR, hX, -⟩ := hset.areas
  obtain ⟨hvalue, ⟨hrp, hxp⟩, hrsize, -, hframe, hgrows, hkeeps, hsep⟩ := hstep
  rw [h.num_eq hmp] at hvalue
  refine ⟨hvalue.trans hY, ?_, ?_, ?_, ?_, Nat.le_trans h.grows hgrows, ?_, hsep⟩
  · have hreduce : (if msize < size then [PowmOp.reduce] else []).filter (· ≠ .reduce) = [] := by
      split_ifs <;> rfl
    rw [Powm.calls, hops, List.filter_append, List.filter_append, hreduce, List.append_nil,
      List.filter_cons_of_pos (by simpa using hop), List.filter_nil, ← h.calls]
    rfl
  · rw [hrp, hxp]
    omega
  · rw [hrsize]
    omega
  · intro a ha
    rw [hframe a (h.holds ha.1) (by omega), h.frame a ha]
  · intro b hb
    have hfree := h.grows
    rcases hkeeps b hb with hold | hnew
    · exact h.spaces b hold
    · omega

/-- Another limb of the exponent is loaded. -/
theorem PowmInv.load (h : PowmInv u free R X mp msize bp bsize v calls st) (e : Limb) :
    PowmInv u free R X mp msize bp bsize v calls { st with e := e } :=
  ⟨h.value, h.calls, h.areas, h.rsize, h.frame, h.grows, h.spaces, h.separate⟩

end Runs

end ChannelBench
