import Quicp.FakeTcp.Packet

/-!
# Paths of the carrier

A path is named by the addresses of its two ends. The cookie of a SYN and the first sequence number
are taken over the IP addresses and ports only; the cookie orders the two ends first, so that both of
them issue the same one.
-/

namespace Quicp

open Buffer (writeAt)

def IpAddr.isUnspecified : IpAddr → Bool
  | .v4 octets => octets.toList.all (· == 0)
  | .v6 octets => octets.toList.all (· == 0)

/-- The order of `IpAddr`: the fourth version comes first, then the octets decide. -/
def IpAddr.cmp : IpAddr → IpAddr → Ordering
  | .v4 octets, .v4 octets' => compare octets.toList octets'.toList
  | .v4 _, .v6 _ => .lt
  | .v6 _, .v4 _ => .gt
  | .v6 octets, .v6 octets' => compare octets.toList octets'.toList

structure FourTuple where
  source : SocketAddr
  destination : SocketAddr
  deriving DecidableEq

def FourTuple.sample : FourTuple := ⟨.v4 (hostOctets 1) 4433, .v4 (hostOctets 2) 443⟩

inductive CarrierDirection
  | clientToServer
  | serverToClient
  deriving DecidableEq, Repr

def CarrierDirection.bit : CarrierDirection → UInt8
  | clientToServer => 0
  | serverToClient => 1

def FourTuple.reverse (tuple : FourTuple) : FourTuple := ⟨tuple.destination, tuple.source⟩

def FourTuple.validate (tuple : FourTuple) : Except CarrierError Unit :=
  if tuple.source.isIpv4 ≠ tuple.destination.isIpv4 ∨ tuple.source.ip.isUnspecified ∨
      tuple.destination.ip.isUnspecified ∨ tuple.source.port = 0 ∨ tuple.destination.port = 0 then
    .error .invalidTuple
  else .ok ()

def validatedPseudoHeaderPrefix (tuple : FourTuple) : Outcome CarrierError ℕ :=
  match tuple.validate with
  | .error error => .err error
  | .ok () =>
    match tcpPseudoHeaderPrefix tuple.source tuple.destination with
    | none => .panicked
    | some none => .err .invalidTuple
    | some (some pseudo) => .ok pseudo

theorem validatedPseudoHeaderPrefix_eq {tuple : FourTuple} {pseudo : ℕ}
    (h : validatedPseudoHeaderPrefix tuple = .ok pseudo) : pseudo = pathSum tuple.source tuple.destination := by
  unfold validatedPseudoHeaderPrefix at h
  split at h
  · cases h
  · rw [tcpPseudoHeaderPrefix_eq] at h
    split_ifs at h
    exact (Outcome.ok.inj h).symm

theorem validatedPseudoHeaderPrefix_of_validate {tuple : FourTuple} (h : tuple.validate = .ok ()) :
    validatedPseudoHeaderPrefix tuple = .ok (pathSum tuple.source tuple.destination) := by
  have hfamily : tuple.source.isIpv4 = tuple.destination.isIpv4 := by
    unfold FourTuple.validate at h
    split_ifs at h with hinvalid
    exact not_not.mp (not_or.mp hinvalid).1
  rw [validatedPseudoHeaderPrefix, h, tcpPseudoHeaderPrefix_eq, if_pos hfamily]

/-- The bytes copied behind the offset, and the offset behind them. -/
def appendBytes (written : List UInt8 × ℕ) (bytes : List UInt8) : List UInt8 × ℕ :=
  (writeAt written.1 written.2 bytes, written.2 + bytes.length)

/-- `append_address`: the buffer with the address written from the offset on, and the offset behind it. -/
def appendAddress (written : List UInt8 × ℕ) (address : SocketAddr) : List UInt8 × ℕ :=
  let written := match address.ip with
    | .v4 octets => appendBytes (appendBytes written [4]) octets.toList
    | .v6 octets => appendBytes (appendBytes written [6]) octets.toList
  appendBytes written (BigEndian.encode 2 address.port.toNat)

/-- `initial_sequence`; the checksum and the system's random number are given from outside. -/
def initialSequence (crc32c : List UInt8 → UInt32) (random : Option UInt32) (tuple : FourTuple)
    (direction : CarrierDirection) : Except CarrierError UInt32 :=
  let written := appendAddress (appendAddress (List.replicate 40 0, 0) tuple.source) tuple.destination
  let written := appendBytes written [direction.bit]
  match random with
  | none => .error .randomness
  | some random => .ok (random ^^^ crc32c (written.1.take written.2))

def SocketAddr.cmpEnd (address other : SocketAddr) : Ordering :=
  (address.ip.cmp other.ip).then (compare address.port other.port)

def cookieTuple (tuple : FourTuple) : FourTuple :=
  if (tuple.source.cmpEnd tuple.destination).isLE then tuple else tuple.reverse

/-- `issue_syn_cookie`; the keyed hash is given from outside. -/
def issueSynCookie (hmac : List UInt8 → List UInt8 → Octets 32) (secret : List UInt8) (tuple : FourTuple)
    (epoch : UInt64) : Octets 16 :=
  let tuple := cookieTuple tuple
  let written := appendAddress (appendAddress (List.replicate 48 0, 0) tuple.source) tuple.destination
  let written := appendBytes written (BigEndian.encode 8 epoch.toNat)
  let tag := hmac secret (written.1.take written.2)
  ⟨tag.toList.take 16, by rw [List.length_take, List.Vector.toList_length]; rfl⟩

namespace SocketAddr

/-- The two addresses are one end of a path: they have the same IP address and port. -/
def SameEnd (address other : SocketAddr) : Prop := address.ip = other.ip ∧ address.port = other.port

theorem SameEnd.appendAddress {address other : SocketAddr} (h : address.SameEnd other) (written : List UInt8 × ℕ) :
    appendAddress written address = appendAddress written other := by
  rw [Quicp.appendAddress, Quicp.appendAddress, h.1, h.2]

theorem SameEnd.cmpEnd {source destination source' destination' : SocketAddr} (hsource : source.SameEnd source')
    (hdestination : destination.SameEnd destination') : source.cmpEnd destination = source'.cmpEnd destination' := by
  rw [SocketAddr.cmpEnd, SocketAddr.cmpEnd, hsource.1, hsource.2, hdestination.1, hdestination.2]

theorem cmpEnd_swap (address other : SocketAddr) : (address.cmpEnd other).swap = other.cmpEnd address := by
  have hip : (address.ip.cmp other.ip).swap = other.ip.cmp address.ip := by
    cases address.ip <;> cases other.ip <;> first | rfl | exact Std.OrientedOrd.eq_swap.symm
  rw [cmpEnd, Ordering.swap_then, hip, cmpEnd, ← Std.OrientedOrd.eq_swap]

theorem sameEnd_of_cmpEnd {address other : SocketAddr} (h : address.cmpEnd other = .eq) : address.SameEnd other := by
  obtain ⟨hip, hport⟩ := Ordering.then_eq_eq.mp h
  refine ⟨?_, Std.LawfulEqOrd.eq_of_compare hport⟩
  cases hleft : address.ip <;> cases hright : other.ip <;> rw [hleft, hright] at hip
  · exact congrArg IpAddr.v4 (Subtype.ext (Std.LawfulEqOrd.eq_of_compare hip))
  · cases hip
  · cases hip
  · exact congrArg IpAddr.v6 (Subtype.ext (Std.LawfulEqOrd.eq_of_compare hip))

end SocketAddr

def cookieMessage (tuple : FourTuple) (epoch : UInt64) : List UInt8 :=
  let tuple := cookieTuple tuple
  let written := appendAddress (appendAddress (List.replicate 48 0, 0) tuple.source) tuple.destination
  let written := appendBytes written (BigEndian.encode 8 epoch.toNat)
  written.1.take written.2

theorem toList_issueSynCookie (hmac : List UInt8 → List UInt8 → Octets 32) (secret : List UInt8) (tuple : FourTuple)
    (epoch : UInt64) :
    (issueSynCookie hmac secret tuple epoch).toList = (hmac secret (cookieMessage tuple epoch)).toList.take 16 := rfl

theorem cookieMessage_eq (epoch : UInt64) {tuple other : FourTuple} (hsource : tuple.source.SameEnd other.destination)
    (hdestination : tuple.destination.SameEnd other.source) : cookieMessage tuple epoch = cookieMessage other epoch := by
  have hother : other.source.cmpEnd other.destination = (tuple.source.cmpEnd tuple.destination).swap := by
    rw [SocketAddr.cmpEnd_swap, hdestination.cmpEnd hsource]
  have hends : (cookieTuple tuple).source.SameEnd (cookieTuple other).source ∧
      (cookieTuple tuple).destination.SameEnd (cookieTuple other).destination := by
    unfold cookieTuple
    rw [hother]
    cases horder : tuple.source.cmpEnd tuple.destination with
    | lt => exact ⟨hsource, hdestination⟩
    | eq =>
      -- The two ends are one, so it does not matter that neither tuple is turned around.
      obtain ⟨hip, hport⟩ := SocketAddr.sameEnd_of_cmpEnd horder
      exact ⟨⟨hip.trans hdestination.1, hport.trans hdestination.2⟩,
        ⟨hip.symm.trans hsource.1, hport.symm.trans hsource.2⟩⟩
    | gt => exact ⟨hdestination, hsource⟩
  simp only [cookieMessage, hends.1.appendAddress, hends.2.appendAddress]

theorem issueSynCookie_eq (hmac : List UInt8 → List UInt8 → Octets 32) (secret : List UInt8) (epoch : UInt64)
    {tuple other : FourTuple} (hsource : tuple.source.SameEnd other.destination)
    (hdestination : tuple.destination.SameEnd other.source) :
    issueSynCookie hmac secret tuple epoch = issueSynCookie hmac secret other epoch := by
  refine Subtype.ext ?_
  change (issueSynCookie hmac secret tuple epoch).toList = (issueSynCookie hmac secret other epoch).toList
  rw [toList_issueSynCookie, toList_issueSynCookie, cookieMessage_eq epoch hsource hdestination]

end Quicp
