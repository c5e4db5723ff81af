import Quicp.Library.BigEndian

/-!
# Bits of big-endian numbers

Bitwise conjunction and the number of one bits of a number, octet by octet of its big-endian bytes.
-/

namespace BigEndian

def countOnes (width value : ℕ) : ℕ := (List.range width).countP (value.testBit ·)

end BigEndian
