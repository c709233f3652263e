import ChannelBench.MpiMultiply
import ChannelBench.MpiQuotients

/-! `mpi_powm` of `mpi-pow.c`, the victim of the attack on modular exponentiation: square and multiply, from the
highest bit of the exponent on. The run keeps which of the functions it called, since this is what the attack
sees of it. -/

namespace ChannelBench

open CSem

/-- `struct gcry_mpi`, with `NULL` for the address 0. -/
structure Mpi where
  alloced : ℕ
  nlimbs : ℕ
  sign : Bool
  d : ℕ

/-- `mpi_resize`. -/
def mpiResize (h : LimbSpace) (a : Mpi) (nlimbs : ℕ) : Run (LimbSpace × Mpi) := do
  if nlimbs ≤ a.alloced then
    return (h, a)
  let (h, new) := mpiAllocLimbSpace h nlimbs
  let mem ← zeroLoop h.mem new nlimbs
  let mem ← (if a.d ≠ 0 then copyLoop mem new a.d a.alloced else pure mem)
  return ({ h with mem := mem }, { a with d := new, alloced := nlimbs })

/-- The functions that a run of `mpi_powm` calls in its main loop. -/
inductive PowmOp where
  | square
  | multiply
  | reduce
  deriving DecidableEq, Repr

/-- The variables of the main loop. -/
structure Powm where
  h : LimbSpace
  rp : ℕ
  rsize : ℕ
  xp : ℕ
  e : Limb
  tspace : Option (ℕ × ℕ)
  karactx : List KaratsubaCtx
  ops : List PowmOp

end ChannelBench
