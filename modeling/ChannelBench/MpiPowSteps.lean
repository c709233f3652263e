import ChannelBench.MpiPow

/-! The steps of the main loop of `mpi_powm`: a squaring and a multiplication leave the product modulo the
modulus, and touch nothing else that is in use. -/

namespace ChannelBench

open CSem

/-- The temporary spaces of a run: that of the squarings, as the one of a context, and those of the contexts. -/
def Powm.spaces (st : Powm) : List KaratsubaCtx := { tspace := st.tspace, tp := none } :: st.karactx

/-- The limbs of a run that are in use and not its temporary spaces. -/
def Powm.Holds (st : Powm) (p n : ℕ) : Prop := Held st.h.free st.spaces p n

/-- What a product of `size` limbs does to a run: the result is the product `Y` modulo `M`, in the other area. -/
structure PowmStep (M msize size Y : ℕ) (st st' : Powm) : Prop where
  value : num st'.h.mem st'.rp st'.rsize ≡ Y [MOD M]
  areas : st'.rp = st.xp ∧ st'.xp = st.rp
  rsize : st'.rsize = min size msize
  e : st'.e = st.e
  frame : ∀ a, st.Holds a 1 → Apart a 1 st.xp (2 * msize) → st'.h.mem a = st.h.mem a
  grows : st.h.free ≤ st'.h.free
  keeps : ∀ b ∈ blocks st'.spaces, b ∈ blocks st.spaces ∨ st.h.free ≤ b.1
  separate : Separate st'.h.free st'.spaces

section Steps

variable {M msize size Y mp bp bsize : ℕ} {st st' : Powm}

theorem PowmStep.holds (h : PowmStep M msize size Y st st') {p n : ℕ} (hp : st.Holds p n) : st'.Holds p n :=
  hp.later h.grows h.keeps

theorem PowmStep.num_eq (h : PowmStep M msize size Y st st') {p n : ℕ} (hp : st.Holds p n)
    (hapart : Apart p n st.xp (2 * msize)) : num st'.h.mem p n = num st.h.mem p n :=
  num_congr fun i hi => h.frame (p + i) (hp.part (by omega) (by omega)) (by omega)

/-- What a squaring and a multiplication need of a run. -/
structure PowmReady (mp msize : ℕ) (st : Powm) : Prop where
  size : 0 < st.rsize ∧ st.rsize ≤ msize
  result : st.Holds st.rp (2 * msize)
  other : st.Holds st.xp (2 * msize)
  modulus : st.Holds mp msize
  rp_xp : Apart st.rp (2 * msize) st.xp (2 * msize)
  mp_xp : Apart mp msize st.xp (2 * msize)
  separate : Separate st.h.free st.spaces
  norm : 2147483648 ≤ (st.h.mem (mp + (msize - 1))).toNat

end Steps

end ChannelBench
