import Quicp.FakeTcp.Tuple

/-!
# What a SYN cookie binds

The message of a cookie is the two ends in their order, each with the version of its address in front, and the epoch.
-/

namespace Quicp

namespace SocketAddr

def endBytes (address : SocketAddr) : List UInt8 :=
  (if address.isIpv4 then 4 else 6) :: address.octets ++ BigEndian.encode 2 address.port.toNat

theorem length_octets (address : SocketAddr) : address.octets.length = if address.isIpv4 then 4 else 16 := by
  cases address with
  | v4 octets port => exact octets.toList_length
  | v6 octets port flowInfo scopeId => exact octets.toList_length

theorem length_endBytes (address : SocketAddr) : address.endBytes.length = if address.isIpv4 then 7 else 19 := by
  rw [endBytes, List.length_append, List.length_cons, length_octets, BigEndian.encode_length]
  split_ifs <;> rfl

theorem endBytes_append_inj {address other : SocketAddr} {tail tail' : List UInt8}
    (h : address.endBytes ++ tail = other.endBytes ++ tail') :
    address.isIpv4 = other.isIpv4 ∧ address.endBytes = other.endBytes ∧ tail = tail' := by
  have hfamily : address.isIpv4 = other.isIpv4 := by
    have hversion := (List.cons.inj h).1
    cases hleft : address.isIpv4 <;> cases hright : other.isIpv4 <;> simp [hleft, hright] at hversion ⊢
  have hlength : address.endBytes.length = other.endBytes.length := by
    rw [length_endBytes, length_endBytes, hfamily]
  exact ⟨hfamily, List.append_inj h hlength⟩

theorem sameEnd_of_endBytes {address other : SocketAddr} (hfamily : address.isIpv4 = other.isIpv4)
    (h : address.endBytes = other.endBytes) : address.SameEnd other := by
  have hoctets : address.octets.length = other.octets.length := by rw [length_octets, length_octets, hfamily]
  obtain ⟨hip, hport⟩ := List.append_inj (List.cons.inj h).2 hoctets
  have hvalue : address.port = other.port := by
    have hdecoded := congrArg (BigEndian.decodeFrom 0) hport
    rw [BigEndian.decodeFrom_encode, BigEndian.decodeFrom_encode, Nat.mod_eq_of_lt (by simpa using address.port.toNat_lt),
      Nat.mod_eq_of_lt (by simpa using other.port.toNat_lt)] at hdecoded
    exact UInt16.toNat_inj.mp (Nat.add_left_cancel hdecoded)
  refine ⟨?_, hvalue⟩
  cases address with
  | v4 octets port =>
    cases other with
    | v4 octets' port' => exact congrArg IpAddr.v4 (Subtype.ext hip)
    | v6 octets' port' flowInfo scopeId => cases hfamily
  | v6 octets port flowInfo scopeId =>
    cases other with
    | v4 octets' port' => cases hfamily
    | v6 octets' port' flowInfo' scopeId' => exact congrArg IpAddr.v6 (Subtype.ext hip)

end SocketAddr

/-- The bytes stand at the front of a buffer of the given size, up to the offset. -/
structure Appended (size : ℕ) (written : List UInt8 × ℕ) (bytes : List UInt8) : Prop where
  size : written.1.length = size
  offset : written.2 = bytes.length
  bytes : written.1.take written.2 = bytes

namespace Appended

variable {size : ℕ} {written : List UInt8 × ℕ} {bytes : List UInt8}

theorem start (size : ℕ) : Appended size (List.replicate size 0, 0) [] := ⟨List.length_replicate, rfl, rfl⟩

theorem append (h : Appended size written bytes) (more : List UInt8) (hfits : bytes.length + more.length ≤ size) :
    Appended size (appendBytes written more) (bytes ++ more) where
  size := by
    rw [← h.size]
    exact Buffer.length_writeAt (by rw [h.offset, h.size]; exact hfits)
  offset := by
    rw [List.length_append, ← h.offset]
    rfl
  bytes := by
    rw [← h.bytes]
    exact Buffer.take_writeAt (by rw [h.offset, h.size]; omega)

theorem appendAddress (h : Appended size written bytes) (address : SocketAddr)
    (hfits : bytes.length + address.endBytes.length ≤ size) :
    Appended size (appendAddress written address) (bytes ++ address.endBytes) := by
  have hparts : Quicp.appendAddress written address = appendBytes (appendBytes (appendBytes written
      [if address.isIpv4 then 4 else 6]) address.octets) (BigEndian.encode 2 address.port.toNat) := by
    cases address <;> rfl
  have hends : bytes ++ address.endBytes = bytes ++ [if address.isIpv4 then 4 else 6] ++ address.octets ++
      BigEndian.encode 2 address.port.toNat := by
    simp [SocketAddr.endBytes]
  have hall := congrArg List.length hends
  simp only [List.length_append] at hall
  rw [hparts, hends]
  refine ((h.append _ ?_).append _ ?_).append _ ?_ <;> (try simp only [List.length_append]) <;> omega

end Appended

theorem cookieMessage_parts (tuple : FourTuple) (epoch : UInt64) : cookieMessage tuple epoch =
    (cookieTuple tuple).source.endBytes ++ (cookieTuple tuple).destination.endBytes ++
      BigEndian.encode 8 epoch.toNat := by
  have hend : ∀ address : SocketAddr, address.endBytes.length ≤ 19 := by
    intro address
    rw [address.length_endBytes]
    split_ifs <;> decide
  have hsource := hend (cookieTuple tuple).source
  have hdestination := hend (cookieTuple tuple).destination
  have hfirst := (Appended.start 48).appendAddress (cookieTuple tuple).source (by simp; omega)
  have hsecond := hfirst.appendAddress (cookieTuple tuple).destination (by simp; omega)
  have hall := hsecond.append (BigEndian.encode 8 epoch.toNat) (by simp; omega)
  rw [List.nil_append] at hall
  exact hall.bytes

namespace FourTuple

/-- Two tuples with the same two ends, in either order; an end is an IP address and a port. -/
def SamePath (tuple other : FourTuple) : Prop :=
  tuple.source.SameEnd other.source ∧ tuple.destination.SameEnd other.destination ∨
    tuple.source.SameEnd other.destination ∧ tuple.destination.SameEnd other.source

theorem cookieTuple_cases (tuple : FourTuple) : cookieTuple tuple = tuple ∨ cookieTuple tuple = tuple.reverse := by
  unfold cookieTuple
  split_ifs
  · exact .inl rfl
  · exact .inr rfl

theorem samePath_of_cookieTuple {tuple other : FourTuple}
    (hsource : (cookieTuple tuple).source.SameEnd (cookieTuple other).source)
    (hdestination : (cookieTuple tuple).destination.SameEnd (cookieTuple other).destination) :
    tuple.SamePath other := by
  rcases tuple.cookieTuple_cases with hleft | hleft <;> rcases other.cookieTuple_cases with hright | hright <;>
    rw [hleft, hright] at hsource hdestination
  · exact .inl ⟨hsource, hdestination⟩
  · exact .inr ⟨hsource, hdestination⟩
  · exact .inr ⟨hdestination, hsource⟩
  · exact .inl ⟨hdestination, hsource⟩

theorem SamePath.cookieMessage {tuple other : FourTuple} (h : tuple.SamePath other) (epoch : UInt64) :
    cookieMessage tuple epoch = cookieMessage other epoch := by
  rcases h with ⟨hsource, hdestination⟩ | ⟨hsource, hdestination⟩
  · calc Quicp.cookieMessage tuple epoch = Quicp.cookieMessage tuple.reverse epoch :=
          cookieMessage_eq epoch ⟨rfl, rfl⟩ ⟨rfl, rfl⟩
      _ = Quicp.cookieMessage other epoch := cookieMessage_eq epoch hdestination hsource
  · exact cookieMessage_eq epoch hsource hdestination

end FourTuple

theorem samePath_of_cookieMessage {tuple other : FourTuple} {epoch epoch' : UInt64}
    (h : cookieMessage tuple epoch = cookieMessage other epoch') : tuple.SamePath other ∧ epoch = epoch' := by
  rw [cookieMessage_parts, cookieMessage_parts, List.append_assoc, List.append_assoc] at h
  obtain ⟨hsourceFamily, hsource, hrest⟩ := SocketAddr.endBytes_append_inj h
  obtain ⟨hdestinationFamily, hdestination, hlast⟩ := SocketAddr.endBytes_append_inj hrest
  refine ⟨FourTuple.samePath_of_cookieTuple (SocketAddr.sameEnd_of_endBytes hsourceFamily hsource)
    (SocketAddr.sameEnd_of_endBytes hdestinationFamily hdestination), ?_⟩
  have hdecoded := congrArg (BigEndian.decodeFrom 0) hlast
  rw [BigEndian.decodeFrom_encode, BigEndian.decodeFrom_encode, Nat.mod_eq_of_lt (by simpa using epoch.toNat_lt),
    Nat.mod_eq_of_lt (by simpa using epoch'.toNat_lt)] at hdecoded
  exact UInt64.toNat_inj.mp (Nat.add_left_cancel hdecoded)

/-- A SYN cookie is the front of the keyed hash of a message that is the same for both directions of a path,
and that is the same for two tuples and epochs exactly when the ends, up to their order, and the epochs are. -/
theorem syn_cookie_binds_path (hmac : List UInt8 → List UInt8 → Octets 32) (secret : List UInt8)
    (tuple : FourTuple) (epoch : UInt64) :
    (issueSynCookie hmac secret tuple epoch).toList = (hmac secret (cookieMessage tuple epoch)).toList.take 16 ∧
    cookieMessage tuple.reverse epoch = cookieMessage tuple epoch ∧
    ∀ (other : FourTuple) (epoch' : UInt64),
      cookieMessage tuple epoch = cookieMessage other epoch' ↔ tuple.SamePath other ∧ epoch = epoch' := by
  refine ⟨toList_issueSynCookie hmac secret tuple epoch, ?_, ?_⟩
  · exact cookieMessage_eq epoch ⟨rfl, rfl⟩ ⟨rfl, rfl⟩
  · intro other epoch'
    constructor
    · exact samePath_of_cookieMessage
    · rintro ⟨hpath, rfl⟩
      exact hpath.cookieMessage epoch

end Quicp
