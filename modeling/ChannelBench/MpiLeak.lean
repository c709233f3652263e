import ChannelBench.MpiPowers
import ChannelBench.TraceKey
import Mathlib.Data.List.Induction

/-! What the attack sees of `mpi_powm`. The squarings and multiplications of a run are the bits of the exponent, and
`findstart`, `findend` and `parse` print these bits from a record of the run, but for the last two of them. -/

namespace ChannelBench

open CSem

/-! ### The exponent in the calls -/

section Quiet

variable {quiet : List Char} {quiets : List (List Char)}

end Quiet

/-! ### The samples of a run -/

theorem FirstGap.unique {text : List Char} {g g' : ℕ} (h : FirstGap text g) (h' : FirstGap text g') : g = g' := by
  rcases Nat.lt_trichotomy g g' with hlt | heq | hgt
  · exact absurd h.gap (h'.first g hlt)
  · exact heq
  · exact absurd h'.gap (h.first g' hgt)

section Attack

variable {h : LimbSpace} {res base exponent mod : Mpi}

end Attack

end ChannelBench
