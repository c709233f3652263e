import ChannelBench.MpiWords

/-! The shifts of the multi-precision integers, `mpih-lshift.c` and `mpih-rshift.c`. Both can work in place. -/

namespace ChannelBench

open CSem

section Shifts

variable {wp up cnt n : ℕ}

end Shifts

end ChannelBench
