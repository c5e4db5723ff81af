import Quicp.Library.OnesComplement
import Quicp.Recovery.Arithmetic

/-!
# Addresses and checksums of the carrier

The sums of the checksum code are counted in 32 bits and folded once at the end. Every addition of it is one that may
overflow; none does for a packet of at most the largest size.
-/

namespace Quicp

abbrev Octets (count : ℕ) := List.Vector UInt8 count

inductive IpAddr
  | v4 (octets : Octets 4)
  | v6 (octets : Octets 16)
  deriving DecidableEq

/-- `SocketAddr`; one of the sixth version also has a flow information and a scope. -/
inductive SocketAddr
  | v4 (octets : Octets 4) (port : UInt16)
  | v6 (octets : Octets 16) (port : UInt16) (flowInfo scopeId : UInt32)
  deriving DecidableEq

namespace SocketAddr

def new : IpAddr → UInt16 → SocketAddr
  | .v4 octets, port => .v4 octets port
  | .v6 octets, port => .v6 octets port 0 0

def ip : SocketAddr → IpAddr
  | .v4 octets _ => .v4 octets
  | .v6 octets _ _ _ => .v6 octets

def port : SocketAddr → UInt16
  | .v4 _ port => port
  | .v6 _ port _ _ => port

def isIpv4 : SocketAddr → Bool
  | .v4 _ _ => true
  | .v6 _ _ _ _ => false

end SocketAddr

/-- The address of a host of one network. -/
def hostOctets (host : UInt8) : Octets 4 := ⟨[10, 0, 0, host], rfl⟩

def tcpProtocol : ℕ := 6

def maxPacketBytes : ℕ := 65535

/-- An addition of two `u32`; it fails when it overflows. -/
def addU32 (left right : ℕ) : Option ℕ := if left + right < 2 ^ 32 then some (left + right) else none

/-- The complement of a sum as a `u16`, which a sum that is too large stands for the largest of. -/
def notU16 (sum : ℕ) : ℕ := 65535 - (if sum ≤ 65535 then sum else 65535)

/-- The loop of `checksum_sum` over the two-byte words, and the odd byte behind them. -/
def checksumLoop : ℕ → List UInt8 → Option ℕ
  | sum, high :: low :: rest => do
    let sum ← addU32 sum (BigEndian.decodeFrom 0 [high, low])
    checksumLoop sum rest
  | sum, [high] => addU32 sum (high.toNat <<< 8)
  | sum, [] => some sum

def checksumSum (input : List UInt8) : Option ℕ := checksumLoop 0 input

/-- The loop of `fold_checksum`; `turns` bounds its rounds. -/
def foldLoop : ℕ → ℕ → Option ℕ
  | 0, sum => some sum
  | turns + 1, sum =>
    if sum >>> 16 ≠ 0 then do
      let sum ← addU32 (sum &&& 0xffff) (sum >>> 16)
      foldLoop turns sum
    else some sum

/-- `fold_checksum`; every round makes the sum smaller. -/
def foldChecksum (sum : ℕ) : Option ℕ := foldLoop sum sum

def internetChecksum (input : List UInt8) : Option ℕ := do
  let sum ← checksumSum input
  let folded ← foldChecksum sum
  return notU16 folded

/-- `u16::from_be_bytes` of two bytes. -/
def readU16 (bytes : List UInt8) (offset : ℕ) : ℕ := BigEndian.decodeFrom 0 ((bytes.drop offset).take 2)

def ipv4HeaderChecksum (source destination : Octets 4) (totalLength : ℕ) : Option ℕ := do
  let sum ← [0x4500, 0x4000, 0x4006, readU16 source.toList 0, readU16 source.toList 2,
    readU16 destination.toList 0, readU16 destination.toList 2].foldlM addU32 totalLength
  let folded ← foldChecksum sum
  return notU16 folded

def addressSum (source destination : List UInt8) : Option ℕ := do
  let first ← checksumSum source
  let second ← checksumSum destination
  let sum ← addU32 first second
  addU32 sum tcpProtocol

/-- `tcp_pseudo_header_prefix`; it is there for addresses of one family. -/
def tcpPseudoHeaderPrefix (source destination : SocketAddr) : Option (Option ℕ) :=
  match source.ip, destination.ip with
  | .v4 source, .v4 destination => (addressSum source.toList destination.toList).map some
  | .v6 source, .v6 destination => (addressSum source.toList destination.toList).map some
  | _, _ => some none

/-- The length of a segment as it counts in its checksum. -/
def lengthSum (source : SocketAddr) (length : ℕ) : Option ℕ :=
  if source.isIpv4 then some (if length ≤ 65535 then length else 65535)
  else
    let length := if length < 2 ^ 32 then length else 2 ^ 32 - 1
    addU32 (length >>> 16) (length &&& 0xffff)

def tcpChecksumWithPrefix (source : SocketAddr) (pseudo : ℕ) (tcp : List UInt8) : Option ℕ := do
  let length ← lengthSum source tcp.length
  let sum ← addU32 pseudo length
  let words ← checksumSum tcp
  let sum ← addU32 sum words
  let folded ← foldChecksum sum
  return notU16 folded

def tcpChecksum (source destination : SocketAddr) (tcp : List UInt8) : Option ℕ := do
  match ← tcpPseudoHeaderPrefix source destination with
  | none => return 65535
  | some pseudo => tcpChecksumWithPrefix source pseudo tcp

open OnesComplement

theorem addU32_of_lt {left right : ℕ} (h : left + right < 2 ^ 32) : addU32 left right = some (left + right) :=
  if_pos h

variable {input : List UInt8} {sum : ℕ}

private theorem checksumLoop_eq (h : sum + wordSum input < 2 ^ 32) :
    checksumLoop sum input = some (sum + wordSum input) := by
  induction sum, input using checksumLoop.induct with
  | case1 sum high low rest ih =>
    have hword : BigEndian.decodeFrom 0 [high, low] = high.toNat * 256 + low.toNat := by simp [BigEndian.decodeFrom]
    rw [wordSum] at h ⊢
    have hfits : sum + (high.toNat * 256 + low.toNat) + wordSum rest < 2 ^ 32 := by omega
    rw [checksumLoop, hword, addU32_of_lt (lt_of_le_of_lt (Nat.le_add_right _ _) hfits)]
    exact (ih _ hfits).trans (congrArg some (by omega))
  | case2 sum high =>
    have hshift : high.toNat <<< 8 = high.toNat * 256 := by simpa using Nat.shiftLeft_eq high.toNat 8
    rw [wordSum] at h ⊢
    rw [checksumLoop, hshift, addU32_of_lt h]
  | case3 sum => rfl

theorem wordSum_lt (h : input.length ≤ maxPacketBytes) : wordSum input ≤ 65535 * 32768 := by
  have hle := wordSum_le input
  unfold maxPacketBytes at h
  omega

theorem checksumSum_eq (h : input.length ≤ maxPacketBytes) :
    checksumSum input = some (wordSum input) := by
  have hsum := wordSum_lt h
  rw [checksumSum, checksumLoop_eq (by omega), Nat.zero_add]

private theorem foldLoop_eq {turns : ℕ} (hturns : sum ≤ turns) (hsum : sum < 2 ^ 32) :
    foldLoop turns sum = some (residue 65535 sum) := by
  induction turns generalizing sum with
  | zero =>
    obtain rfl := Nat.le_zero.mp hturns
    rfl
  | succ turns ih =>
    have hhigh : sum >>> 16 = sum / 65536 := by simpa using Nat.shiftRight_eq_div_pow sum 16
    have hlow : sum &&& 0xffff = sum % 65536 := by simpa using Nat.and_two_pow_sub_one_eq_mod sum 16
    rw [foldLoop, hhigh, hlow]
    split_ifs with hcarry
    · rw [addU32_of_lt (by omega), Option.bind_eq_bind, Option.bind_some, ih (by omega) (by omega)]
      exact congrArg some (residue_carry 65535 sum)
    · rw [residue_of_le (by omega)]

theorem foldChecksum_eq (h : sum < 2 ^ 32) : foldChecksum sum = some (residue 65535 sum) :=
  foldLoop_eq le_rfl h

theorem notU16_residue (sum : ℕ) : notU16 (residue 65535 sum) = 65535 - residue 65535 sum := by
  rw [notU16, if_pos (residue_le (by decide) sum)]

theorem internetChecksum_eq (h : input.length ≤ maxPacketBytes) :
    internetChecksum input = some (65535 - residue 65535 (wordSum input)) := by
  have hsum := wordSum_lt h
  rw [internetChecksum, checksumSum_eq h, Option.bind_eq_bind, Option.bind_some, foldChecksum_eq (by omega),
    Option.bind_some, notU16_residue]
  rfl

def SocketAddr.octets : SocketAddr → List UInt8
  | .v4 octets _ => octets.toList
  | .v6 octets _ _ _ => octets.toList

theorem SocketAddr.wordSum_octets_le (address : SocketAddr) : wordSum address.octets ≤ 8 * 65535 := by
  have hle := wordSum_le address.octets
  have hlength : address.octets.length ≤ 16 := by
    cases address with
    | v4 octets port => exact (List.Vector.toList_length octets).trans_le (by decide)
    | v6 octets port flowInfo scopeId => exact (List.Vector.toList_length octets).le
  omega

/-- The sum of the addresses and the protocol that every checksum of a path starts with. -/
def pathSum (source destination : SocketAddr) : ℕ := wordSum source.octets + wordSum destination.octets + tcpProtocol

theorem pathSum_le (source destination : SocketAddr) : pathSum source destination ≤ 16 * 65535 + 6 := by
  have hsource := source.wordSum_octets_le
  have hdestination := destination.wordSum_octets_le
  unfold pathSum tcpProtocol
  omega

theorem pathSum_comm (source destination : SocketAddr) : pathSum source destination = pathSum destination source := by
  rw [pathSum, pathSum, Nat.add_comm (wordSum source.octets)]

private theorem addressSum_eq {source destination : List UInt8} (hsource : source.length ≤ 16)
    (hdestination : destination.length ≤ 16) :
    addressSum source destination = some (wordSum source + wordSum destination + tcpProtocol) := by
  have hfirst := wordSum_le source
  have hsecond := wordSum_le destination
  have hmax : 16 ≤ maxPacketBytes := by decide
  have hprotocol : tcpProtocol = 6 := rfl
  rw [addressSum, checksumSum_eq (hsource.trans hmax), checksumSum_eq (hdestination.trans hmax)]
  simp only [Option.bind_eq_bind, Option.bind_some]
  rw [addU32_of_lt (by omega), Option.bind_some, addU32_of_lt (by omega)]

theorem tcpPseudoHeaderPrefix_eq (source destination : SocketAddr) : tcpPseudoHeaderPrefix source destination =
    some (if source.isIpv4 = destination.isIpv4 then some (pathSum source destination) else none) := by
  have hlength : ∀ {count : ℕ} (octets : Octets count), octets.toList.length = count := List.Vector.toList_length
  cases source <;> cases destination
  · exact congrArg (Option.map some) (addressSum_eq (by rw [hlength]; decide) (by rw [hlength]; decide))
  · rfl
  · rfl
  · exact congrArg (Option.map some) (addressSum_eq (by rw [hlength]) (by rw [hlength]))

private theorem lengthSum_eq (source : SocketAddr) {length : ℕ} (h : length ≤ maxPacketBytes) :
    lengthSum source length = some length := by
  have hlimit : length ≤ 65535 := h
  have hhigh : length >>> 16 = 0 := by
    rw [Nat.shiftRight_eq_div_pow]
    omega
  have hlow : length &&& 0xffff = length := by
    have hmod : length &&& 0xffff = length % 65536 := by simpa using Nat.and_two_pow_sub_one_eq_mod length 16
    omega
  unfold lengthSum
  dsimp only
  rw [if_pos hlimit, if_pos (show length < 2 ^ 32 by omega), hhigh, hlow, addU32_of_lt (by omega), Nat.zero_add, ite_self]

theorem tcpChecksumWithPrefix_eq (source : SocketAddr) {pseudo : ℕ} (hpseudo : pseudo ≤ 16 * 65535 + 6)
    {tcp : List UInt8} (h : tcp.length ≤ maxPacketBytes) : tcpChecksumWithPrefix source pseudo tcp =
      some (65535 - residue 65535 (pseudo + tcp.length + wordSum tcp)) := by
  have hsum := wordSum_lt h
  have hlimit : tcp.length ≤ 65535 := h
  rw [tcpChecksumWithPrefix, lengthSum_eq source h, checksumSum_eq h]
  simp only [Option.bind_eq_bind, Option.bind_some]
  rw [addU32_of_lt (by omega), Option.bind_some, addU32_of_lt (by omega), Option.bind_some,
    foldChecksum_eq (by omega), Option.bind_some, notU16_residue]
  rfl

theorem tcpChecksumWithPrefix_eq_zero (source : SocketAddr) {pseudo : ℕ} (hpseudo : pseudo ≤ 16 * 65535 + 6)
    {tcp : List UInt8} (h : tcp.length ≤ maxPacketBytes)
    (hsum : pseudo + tcp.length + wordSum tcp = sum + (65535 - residue 65535 sum)) :
    tcpChecksumWithPrefix source pseudo tcp = some 0 := by
  rw [tcpChecksumWithPrefix_eq source hpseudo h, hsum, residue_add_complement (by decide)]

private theorem readU16_add (octets : Octets 4) :
    readU16 octets.toList 0 + readU16 octets.toList 2 = wordSum octets.toList := by
  obtain ⟨list, hlength⟩ := octets
  match list, hlength with
  | [first, second, third, fourth], _ => simp [readU16, BigEndian.decodeFrom, wordSum]

private theorem foldlM_addU32 {terms : List ℕ} (h : sum + terms.sum < 2 ^ 32) :
    terms.foldlM addU32 sum = some (sum + terms.sum) := by
  induction terms generalizing sum with
  | nil => rfl
  | cons term rest ih =>
    rw [List.sum_cons, ← Nat.add_assoc] at h ⊢
    rw [List.foldlM_cons, addU32_of_lt (lt_of_le_of_lt (Nat.le_add_right _ _) h)]
    exact ih h

theorem ipv4HeaderChecksum_eq (source destination : Octets 4) {totalLength : ℕ} (h : totalLength ≤ maxPacketBytes) :
    ipv4HeaderChecksum source destination totalLength = some (65535 - residue 65535 (totalLength + 0x4500 + 0x4000 +
      0x4006 + wordSum source.toList + wordSum destination.toList)) := by
  have hlimit : totalLength ≤ 65535 := h
  have hsource := wordSum_le source.toList
  have hdestination := wordSum_le destination.toList
  rw [List.Vector.toList_length, ← readU16_add] at hsource hdestination
  have hsum : totalLength + [0x4500, 0x4000, 0x4006, readU16 source.toList 0, readU16 source.toList 2,
      readU16 destination.toList 0, readU16 destination.toList 2].sum = totalLength + 0x4500 + 0x4000 +
        0x4006 + wordSum source.toList + wordSum destination.toList := by
    rw [← readU16_add, ← readU16_add]
    simp only [List.sum_cons, List.sum_nil]
    omega
  have hfits : totalLength + [0x4500, 0x4000, 0x4006, readU16 source.toList 0, readU16 source.toList 2,
      readU16 destination.toList 0, readU16 destination.toList 2].sum < 2 ^ 32 := by
    simp only [List.sum_cons, List.sum_nil]
    omega
  rw [ipv4HeaderChecksum, foldlM_addU32 hfits, Option.bind_eq_bind, Option.bind_some, foldChecksum_eq hfits,
    Option.bind_some, notU16_residue, hsum]
  rfl

theorem exists_ipv4HeaderChecksum (source destination : Octets 4) {totalLength : ℕ}
    (h : totalLength ≤ maxPacketBytes) : ∃ checksum, ipv4HeaderChecksum source destination totalLength = some checksum :=
  ⟨_, ipv4HeaderChecksum_eq source destination h⟩

end Quicp
