import Quicp.FakeTcp.Checksum
import Quicp.Library.ByteBits
import Quicp.Library.Hexadecimal

/-!
# The route of a packet

The kernel prints a table of routes with one line a route. An address stands there as the hexadecimal value of its
four octets in network order, loaded as a native word; on a little-endian host that is the value of the octets in
reverse.
-/

namespace Quicp

def isWhitespace (letter : Char) : Bool :=
  (9 ≤ letter.toNat && letter.toNat ≤ 13) || letter.toNat == 0x20 || letter.toNat == 0x85 || letter.toNat == 0xa0 ||
    letter.toNat == 0x1680 || (0x2000 ≤ letter.toNat && letter.toNat ≤ 0x200a) || letter.toNat == 0x2028 ||
    letter.toNat == 0x2029 || letter.toNat == 0x202f || letter.toNat == 0x205f || letter.toNat == 0x3000

def splitWhitespace (line : List Char) : List (List Char) :=
  (line.splitOnP isWhitespace).filter fun field => !field.isEmpty

/-- `u32::from_str_radix` with radix sixteen. -/
def fromStrRadix (field : List Char) : Option ℕ :=
  match field with
  | [] => none
  | '+' :: [] => none
  | '+' :: digits => Hexadecimal.decodeFrom (2 ^ 32) 0 digits
  | digits => Hexadecimal.decodeFrom (2 ^ 32) 0 digits

structure RouteEntry where
  interface : List Char
  gateway : ℕ
  deriving DecidableEq

/-- The words of a line that `best_route` reads. -/
structure RouteWords where
  interface : List Char
  destination : ℕ
  gateway : ℕ
  flags : ℕ
  mask : ℕ
  deriving DecidableEq

def routeWords (line : List Char) : Option RouteWords :=
  let fields := splitWhitespace line
  if fields.length < 8 then none
  else do
    let destination ← fromStrRadix (fields.getD 1 [])
    let gateway ← fromStrRadix (fields.getD 2 [])
    let flags ← fromStrRadix (fields.getD 3 [])
    let mask ← fromStrRadix (fields.getD 7 [])
    return ⟨fields.getD 0 [], destination, gateway, flags, mask⟩

abbrev Field : Type := { text : List Char // text ≠ [] ∧ ∀ letter ∈ text, isWhitespace letter = false }

/-- A route of the kernel, with its addresses as octets in network order. -/
structure Route where
  interface : Field
  destination : Octets 4
  gateway : Octets 4
  flags : UInt16
  mask : Octets 4

namespace Route

def contains (route : Route) (address : Octets 4) : Bool :=
  List.zipWith (· &&& ·) address.toList route.mask.toList ==
    List.zipWith (· &&& ·) route.destination.toList route.mask.toList

/-- The length of the network part: the one bits of the mask. -/
def networkLength (route : Route) : ℕ := (route.mask.toList.map fun octet => BigEndian.countOnes 8 octet.toNat).sum

end Route

/-- Four octets loaded as a word on a little-endian host. -/
def nativeWord (octets : Octets 4) : ℕ := BigEndian.decodeFrom 0 octets.toList.reverse

def hexField (width value : ℕ) (h : 0 < width) : Field :=
  ⟨Hexadecimal.encode width value, by
    rw [← List.length_pos_iff, Hexadecimal.length_encode]
    exact h, by
    intro letter hletter
    have hdigit := Hexadecimal.toNat_of_mem_encode hletter
    simp only [isWhitespace, Bool.or_eq_false_iff, Bool.and_eq_false_iff, decide_eq_false_iff_not, beq_eq_false_iff_ne]
    omega⟩

/-- A line of the table: a printed route with the counters between its columns and what stands behind the mask, or a
line that says nothing. -/
inductive TableLine
  | printed (route : Route) (references uses metric : Field) (trailer : List Field)
  | malformed (text : List Char) (oneLine : '\n' ∉ text) (unread : routeWords text = none)

namespace TableLine

def columns (route : Route) (references uses metric : Field) (trailer : List Field) : List Field :=
  [route.interface, hexField 8 (nativeWord route.destination) (by decide),
    hexField 8 (nativeWord route.gateway) (by decide), hexField 4 route.flags.toNat (by decide), references, uses,
    metric, hexField 8 (nativeWord route.mask) (by decide)] ++ trailer

def text : TableLine → List Char
  | printed route references uses metric trailer =>
    List.intercalate ['\t'] ((columns route references uses metric trailer).map Subtype.val)
  | malformed text _ _ => text

end TableLine

def Route.words (route : Route) : RouteWords :=
  ⟨route.interface.val, nativeWord route.destination, nativeWord route.gateway, route.flags.toNat,
    nativeWord route.mask⟩

def Route.entry (route : Route) : RouteEntry := ⟨route.interface.val, nativeWord route.gateway⟩

/-- What the lookup keeps of a route, with the length it compares. -/
def Route.candidate (route : Route) : ℕ × RouteEntry := (route.networkLength, route.entry)

end Quicp
