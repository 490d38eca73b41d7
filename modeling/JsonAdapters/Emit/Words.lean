/-!
# Words of emitted files

The text of a file is put together from the texts of pieces, which stand one space apart.

## Main definitions

* `Emit.words`: pieces one after the other.
* `Emit.braced`: pieces in a block.
-/

namespace JsonAdapters.Emit

/-- Pieces with a space between them; empty ones leave no trace. -/
def words (pieces : List String) : String := " ".intercalate (pieces.filter (· ≠ ""))

def braced (pieces : List String) : String := words (["\x7b"] ++ pieces ++ ["\x7d"])

end JsonAdapters.Emit
