import ChannelBench.MpiPowers
import Mathlib.Algebra.Ring.Parity
import Mathlib.Data.Int.ModEq

/-! The result of `mpi_powm` as a signed number. The source keeps the sign of a negative base also for an even
exponent, so the result is congruent to the power only when this does not matter. -/

namespace ChannelBench

open CSem

/-- A number with a sign bit. -/
def signed (sign : Bool) (n : ℕ) : ℤ := if sign then -n else n

/-- The number. -/
def Mpi.value (mem : Limbs) (a : Mpi) : ℤ := signed a.sign (a.abs mem)

section Congruence

variable {M r P : ℕ}

end Congruence

end ChannelBench
