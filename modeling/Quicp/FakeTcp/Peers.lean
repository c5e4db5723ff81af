import Quicp.FakeTcp.Calls
import Quicp.FakeTcp.RoundTrip

/-!
# The two ends of a path

What one end of a path sends passes every check of the other end, except that the addresses are compared as a whole.
-/

namespace Quicp

namespace SocketAddr

/-- The address is one that a packet can say: nothing but an IP address and a port. -/
def OnWire : SocketAddr → Prop
  | .v4 _ _ => True
  | .v6 _ _ flowInfo scopeId => flowInfo = 0 ∧ scopeId = 0

instance : DecidablePred OnWire
  | .v4 _ _ => isTrue trivial
  | .v6 _ _ flowInfo scopeId => inferInstanceAs (Decidable (flowInfo = 0 ∧ scopeId = 0))

theorem new_eq_iff (address : SocketAddr) : new address.ip address.port = address ↔ address.OnWire := by
  cases address with
  | v4 octets port => exact ⟨fun _ => trivial, fun _ => rfl⟩
  | v6 octets port flowInfo scopeId =>
    constructor
    · intro h
      obtain ⟨_, _, hflow, hscope⟩ := SocketAddr.v6.inj h
      exact ⟨hflow.symm, hscope.symm⟩
    · rintro ⟨rfl, rfl⟩
      rfl

end SocketAddr

namespace Call

variable {call : Call} {carrier peer : FakeTcpCarrier}

theorem checkSyn_view (hready : call.Ready carrier) (hmode : peer.synData = carrier.synData) :
    peer.checkSyn (call.fields carrier).view = .ok () := by
  have hflags : (call.fields carrier).view.flags.isSyn = call.kind.first := call.kind.isSyn_flags
  unfold FakeTcpCarrier.checkSyn
  rw [hflags]
  by_cases hfirst : call.kind.first
  · obtain ⟨_, cookie, hcookie⟩ := hready.due hfirst
    have hfields : (call.fields carrier).view.fastOpenCookie = some cookie.toList := by
      have hsyn : call.kind.flags.isSyn = true := call.kind.isSyn_flags.trans hfirst
      have hpassed : call.kind.cookie carrier.synData = some cookie.toList := by
        rw [hcookie]
        exact if_pos hfirst
      change (carrier.options call.kind.flags (call.kind.cookie carrier.synData)).cookie = _
      rw [FakeTcpCarrier.options, if_pos hsyn, hpassed]
      have hlength : cookie.toList.length = 16 := cookie.toList_length
      simp [TcpOptions.forSynWithMss, TcpOptions.cookie, List.take_of_length_le hlength.le]
    rw [if_pos hfirst, hmode, hcookie, hfields]
    exact if_neg (not_not.mpr rfl)
  · rw [if_neg hfirst]

theorem decodeDatagram_packet (hready : call.Ready carrier) (hpeer : peer.tuple = carrier.tuple.reverse)
    (hmode : peer.synData = carrier.synData) (hmtu : peer.outerMtu = carrier.outerMtu) (hdatagram : call.datagram ≠ []) :
    peer.decodeDatagram (call.fields carrier).packet =
      if carrier.tuple.source.OnWire ∧ carrier.tuple.destination.OnWire then
        (.ok ⟨carrier.sendSequence, call.kind.first, call.datagram⟩,
          peer.acknowledge (carrier.sendSequence + consumed call.datagram.length call.kind.flags))
      else (.err .wrongTuple, peer) := by
  have hsendable : (call.fields carrier).Sendable := hready.fits.sendable
  have hlength : ¬(call.fields carrier).packet.length > peer.outerMtu.toNat := by
    rw [PacketFields.length_packet hsendable.addressed, hmtu]
    exact not_lt.mpr hready.fits.packetFits
  have hpath : peer.pseudoHeaderPrefix = pathSum carrier.tuple.source carrier.tuple.destination := by
    rw [peer.pseudoHeaderPrefix_eq, hpeer]
    exact pathSum_comm _ _
  have hview : decodePacketView (call.fields carrier).packet (some peer.pseudoHeaderPrefix) =
      .ok (call.fields carrier).view :=
    PacketFields.decodePacketView_packet hsendable fun value hvalue => (Option.some.inj hvalue).symm.trans hpath
  have hsource : (call.fields carrier).view.source = carrier.tuple.source ↔ carrier.tuple.source.OnWire :=
    carrier.tuple.source.new_eq_iff
  have hdestination : (call.fields carrier).view.destination = carrier.tuple.destination ↔
      carrier.tuple.destination.OnWire := carrier.tuple.destination.new_eq_iff
  have hreset : (call.fields carrier).view.flags.isRst = false := call.kind.isRst_flags
  have hpayload : (call.fields carrier).view.payload.isEmpty = false := List.isEmpty_eq_false_iff.mpr hdatagram
  have hexpected : peer.tuple.reverse = carrier.tuple := by rw [hpeer]; rfl
  unfold FakeTcpCarrier.decodeDatagram FakeTcpCarrier.decodeDatagramBorrowed
  rw [if_neg hlength, hview]
  dsimp only
  rw [hexpected]
  by_cases honWire : carrier.tuple.source.OnWire ∧ carrier.tuple.destination.OnWire
  · have hsame : ¬((call.fields carrier).view.source ≠ carrier.tuple.source ∨
        (call.fields carrier).view.destination ≠ carrier.tuple.destination) := by
      rw [not_or, not_not, not_not, hsource, hdestination]
      exact honWire
    rw [if_neg hsame, hreset, if_neg Bool.false_ne_true, hpayload, if_neg Bool.false_ne_true,
      checkSyn_view hready hmode, if_pos honWire]
    dsimp only
    rw [show (call.fields carrier).view.flags.isSyn = call.kind.first from call.kind.isSyn_flags]
    rfl
  · have hother : (call.fields carrier).view.source ≠ carrier.tuple.source ∨
        (call.fields carrier).view.destination ≠ carrier.tuple.destination := by
      rw [← not_and_or, hsource, hdestination]
      exact honWire
    rw [if_pos hother, if_neg honWire]

end Call

/-- A packet of one end is understood by the other end exactly when nothing but the IP addresses and ports is in the
tuple, while the cookie never depends on anything else. -/
theorem peers_understand_iff (call : Call) {carrier peer next : FakeTcpCarrier} {packet : List UInt8}
    (hpeer : peer.tuple = carrier.tuple.reverse) (hmode : peer.synData = carrier.synData)
    (hmtu : peer.outerMtu = carrier.outerMtu) (hdatagram : call.datagram ≠ [])
    (hrun : call.run carrier = (.ok packet, next)) :
    ((∃ decoded peer', peer.decodeDatagram packet = (.ok decoded, peer') ∧ decoded.payload = call.datagram) ↔
      carrier.tuple.source.OnWire ∧ carrier.tuple.destination.OnWire) ∧
      ∀ hmac secret epoch (other : FourTuple), other.source.SameEnd carrier.tuple.destination →
        other.destination.SameEnd carrier.tuple.source →
        issueSynCookie hmac secret other epoch = issueSynCookie hmac secret carrier.tuple epoch := by
  refine ⟨?_, fun hmac secret epoch other hsource hdestination =>
    issueSynCookie_eq hmac secret epoch hsource hdestination⟩
  obtain ⟨hready, hsent⟩ | ⟨_, error, herror⟩ := call.run_settles carrier
  · obtain rfl : (call.fields carrier).packet = packet := Outcome.ok.inj (Prod.mk.inj (hsent.symm.trans hrun)).1
    rw [Call.decodeDatagram_packet hready hpeer hmode hmtu hdatagram]
    constructor
    · rintro ⟨decoded, peer', hdecoded, _⟩
      by_contra honWire
      rw [if_neg honWire] at hdecoded
      cases hdecoded
    · intro honWire
      exact ⟨_, _, if_pos honWire, rfl⟩
  · rw [herror] at hrun
    cases hrun

private def linkTuple (scopeId : UInt32) : FourTuple where
  source := .v6 ⟨0xfe :: 0x80 :: (List.replicate 13 0 ++ [1]), rfl⟩ 4433 0 scopeId
  destination := .v6 ⟨0xfe :: 0x80 :: (List.replicate 13 0 ++ [2]), rfl⟩ 443 0 scopeId

private def linkSum : ℕ := pathSum (linkTuple 0).source (linkTuple 0).destination

private theorem validated_linkTuple (scopeId : UInt32) :
    validatedPseudoHeaderPrefix (linkTuple scopeId) = .ok linkSum ∧
      validatedPseudoHeaderPrefix (linkTuple scopeId).reverse = .ok linkSum := by
  have hvalid : validatedPseudoHeaderPrefix (linkTuple scopeId) = validatedPseudoHeaderPrefix (linkTuple 0) ∧
      validatedPseudoHeaderPrefix (linkTuple scopeId).reverse = validatedPseudoHeaderPrefix (linkTuple 0).reverse :=
    ⟨rfl, rfl⟩
  rw [hvalid.1, hvalid.2]
  decide +kernel

private def linkCarrier (scopeId : UInt32) : FakeTcpCarrier :=
  .fromParts (linkTuple scopeId) linkSum (.cookie (List.Vector.replicate 16 5)) 7 1400 1500 (validated_linkTuple scopeId).1

private def linkPeer (scopeId : UInt32) : FakeTcpCarrier :=
  .fromParts (linkTuple scopeId).reverse linkSum (.cookie (List.Vector.replicate 16 5)) 9 1400 1500
    (validated_linkTuple scopeId).2

private def linkSyn : Call := ⟨.syn, [1, 2, 3], none⟩

theorem peers_understand_syn :
    ∃ packet next, linkSyn.run (linkCarrier 0) = (.ok packet, next) ∧ ∃ decoded peer',
      (linkPeer 0).decodeDatagram packet = (.ok decoded, peer') ∧ decoded.payload = [1, 2, 3] := by
  have hrun : linkSyn.run (linkCarrier 0) = (.ok (linkSyn.fields (linkCarrier 0)).packet, linkSyn.sent (linkCarrier 0)) := by
    decide +kernel
  have hunderstood := peers_understand_iff linkSyn (show (linkPeer 0).tuple = (linkCarrier 0).tuple.reverse from rfl)
    rfl rfl (by decide) hrun
  exact ⟨_, _, hrun, hunderstood.1.mpr (by decide)⟩

/-- On a path of the link whose tuple has a scope, the other end takes every packet for one of another path. -/
theorem scoped_peer_rejects :
    FakeTcpCarrier.newWithMtu (fun _ => 0) (some 7) (linkTuple 1) .clientToServer (.cookie (List.Vector.replicate 16 5))
        1400 1500 = .ok (linkCarrier 1) ∧
      FakeTcpCarrier.newWithMtu (fun _ => 0) (some 9) (linkTuple 1).reverse .serverToClient
        (.cookie (List.Vector.replicate 16 5)) 1400 1500 = .ok (linkPeer 1) ∧
      ∃ packet next, (linkCarrier 1).encodeSyn [1, 2, 3] = (.ok packet, next) ∧
        (linkPeer 1).decodeDatagram packet = (.err .wrongTuple, linkPeer 1) := by
  refine ⟨by decide +kernel, by decide +kernel, (linkSyn.fields (linkCarrier 1)).packet, linkSyn.sent (linkCarrier 1), ?_⟩
  decide +kernel

end Quicp
