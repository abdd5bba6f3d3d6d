import Midend.Lang.Function

/-!
# Rows of instructions

The row of an instruction without a position follows from the row of the header and from how many
entries stand in front of it, modulo the number of rows. Where the sums fit, it is the row that the
instruction would occupy in the canonical text.
-/

namespace Midend.Lang.Function

variable {function : Function}

end Midend.Lang.Function
