/-!
# The ranges of 64-bit integers
-/

namespace Outbox

/-- The largest unsigned 64-bit integer. -/
def maxUnsigned : Int := 0xFFFFFFFFFFFFFFFF

/-- The largest signed 64-bit integer. -/
def maxSigned : Int := 0x7FFFFFFFFFFFFFFF

/-- The least signed 64-bit integer. -/
def minSigned : Int := -0x8000000000000000

end Outbox
