import Quicp.FakeTcp.RoundTrip
import Quicp.FakeTcp.Tuple

/-!
# The cached sum of a path

A carrier verifies the checksum of a segment with the sum of its own addresses, taken once, and looks at the addresses
of the packet afterwards.
-/

namespace Quicp

/-- The two checks at the front of `decode_datagram_borrowed`: the packet, then its ends against the path. -/
def checkedView (tuple : FourTuple) (known : Option ℕ) (input : List UInt8) : Outcome CarrierError PacketView :=
  match decodePacketView input known with
  | .err error => .err error
  | .panicked => .panicked
  | .ok packet =>
    let expected := tuple.reverse
    if packet.source ≠ expected.source ∨ packet.destination ≠ expected.destination then .err .wrongTuple
    else .ok packet

variable {input : List UInt8} {known : Option ℕ} {view : PacketView}

theorem checkedView_eq_ok {tuple : FourTuple} :
    checkedView tuple known input = .ok view ↔
      decodePacketView input known = .ok view ∧ view.source = tuple.destination ∧ view.destination = tuple.source := by
  unfold checkedView
  cases decodePacketView input known with
  | err error => simp
  | panicked => simp
  | ok packet =>
    dsimp only
    split_ifs with hends
    · constructor
      · intro h
        cases h
      · rintro ⟨hview, hsource, hdestination⟩
        cases hview
        exact absurd hends (by simp [FourTuple.reverse, hsource, hdestination])
    · push Not at hends
      constructor
      · intro h
        cases h
        exact ⟨rfl, hends⟩
      · exact fun h => h.1

/-- A decoder that judges without the sum: it refuses for every sum, or leaves the choice to the segment. -/
def LeavesToSegment (decode : Option ℕ → Outcome CarrierError PacketView) : Prop :=
  (∃ error, ∀ known, decode known = .err error) ∨
    ∃ source destination tcp, source.isIpv4 = destination.isIpv4 ∧ tcp.length ≤ maxPacketBytes ∧
      ∀ known, decode known = decodeTcpView source destination tcp known

namespace LeavesToSegment

variable {decode decode' : Option ℕ → Outcome CarrierError PacketView}

theorem err (error : CarrierError) : LeavesToSegment fun _ => .err error := .inl ⟨error, fun _ => rfl⟩

theorem ite {p : Prop} [Decidable p] (hthen : LeavesToSegment decode) (helse : ¬p → LeavesToSegment decode') :
    LeavesToSegment fun known => if p then decode known else decode' known := by
  by_cases h : p
  · simpa only [if_pos h] using hthen
  · simpa only [if_neg h] using helse h

end LeavesToSegment

theorem leavesToSegment_decodeIpv4View (h : input.length ≤ maxPacketBytes) :
    LeavesToSegment (decodeIpv4View input) := by
  have hlimit : (input.take ((input.getD 0 0 &&& 0x0f).toNat * 4)).length ≤ maxPacketBytes :=
    (List.length_take_le' _ _).trans h
  refine .ite (.err _) fun _ => .ite (.err _) fun _ => .ite (.err _) fun _ => ?_
  rw [internetChecksum_eq hlimit]
  refine .ite (.err _) fun _ => ?_
  refine .inr ⟨_, _, input.drop _, ?_, (List.drop_sublist _ _).length_le.trans h, fun _ => rfl⟩
  rfl

theorem leavesToSegment_decodeIpv6View (h : input.length ≤ maxPacketBytes) :
    LeavesToSegment (decodeIpv6View input) := by
  unfold decodeIpv6View
  refine .ite (.err _) fun _ => .ite (.err _) fun _ => ?_
  by_cases hsource : ((input.drop 8).take 16).length = 16
  · by_cases hdestination : ((input.drop 24).take 16).length = 16
    · simp only [dif_pos hsource, dif_pos hdestination]
      refine .inr ⟨_, _, input.drop _, ?_, (List.drop_sublist _ _).length_le.trans h, fun _ => rfl⟩
      rfl
    · simp only [dif_pos hsource, dif_neg hdestination]
      exact .err _
  · simp only [dif_neg hsource]
    exact .err _

theorem leavesToSegment_decodePacketView (input : List UInt8) : LeavesToSegment (decodePacketView input) :=
  .ite (.err _) fun _ => .ite (.err _) fun hlimit =>
    .ite (leavesToSegment_decodeIpv4View (not_lt.mp hlimit)) fun _ =>
      .ite (leavesToSegment_decodeIpv6View (not_lt.mp hlimit)) fun _ => .err _

variable {destination source : SocketAddr}

theorem decodeTcpView_none (hfamily : source.isIpv4 = destination.isIpv4)
    (tcp : List UInt8) : decodeTcpView source destination tcp none =
      decodeTcpView source destination tcp (some (pathSum source destination)) := by
  have hchecksum : tcpChecksum source destination tcp =
      tcpChecksumWithPrefix source (pathSum source destination) tcp := by
    rw [tcpChecksum, tcpPseudoHeaderPrefix_eq, if_pos hfamily]
    rfl
  simp only [decodeTcpView, Option.elim_none, Option.elim_some, hchecksum]

theorem decodeTcpView_ip {tcp : List UInt8}
    (h : decodeTcpView source destination tcp known = .ok view) :
    view.source.ip = source.ip ∧ view.destination.ip = destination.ip := by
  have hnew : ∀ (ip : IpAddr) (port : UInt16), (SocketAddr.new ip port).ip = ip := by
    intro ip port
    cases ip <;> rfl
  unfold decodeTcpView at h
  dsimp only at h
  split at h
  · cases h
  · split_ifs at h
    split at h
    · cases h
    · cases h
      exact ⟨hnew _ _, hnew _ _⟩

theorem pathSum_congr {source' destination' : SocketAddr} (hsource : source.ip = source'.ip)
    (hdestination : destination.ip = destination'.ip) : pathSum source destination = pathSum source' destination' := by
  have hoctets : ∀ {address other : SocketAddr}, address.ip = other.ip → address.octets = other.octets := by
    intro address other h
    cases address <;> cases other <;> cases h <;> rfl
  rw [pathSum, pathSum, hoctets hsource, hoctets hdestination]

theorem decodePacketView_of_path {tuple : FourTuple}
    (h : decodePacketView input known = .ok view) (hsource : view.source = tuple.destination)
    (hdestination : view.destination = tuple.source) :
    decodePacketView input (some (pathSum tuple.source tuple.destination)) = decodePacketView input none := by
  obtain ⟨error, herror⟩ | ⟨source, destination, tcp, hfamily, _, htcp⟩ := leavesToSegment_decodePacketView input
  · rw [herror, herror]
  · obtain ⟨hsourceIp, hdestinationIp⟩ := decodeTcpView_ip ((htcp known).symm.trans h)
    have hsum : pathSum tuple.source tuple.destination = pathSum source destination := by
      rw [pathSum_comm]
      exact pathSum_congr (hsource ▸ hsourceIp) (hdestination ▸ hdestinationIp)
    rw [htcp, htcp, decodeTcpView_none hfamily, hsum]

/-- With the sum kept for a valid path the two checks pass the packets that they pass without it, with the same
result, whatever the addresses of a packet are. -/
theorem cached_prefix_same_verdict {tuple : FourTuple} {pseudo : ℕ}
    (hvalid : validatedPseudoHeaderPrefix tuple = .ok pseudo) (input : List UInt8) (view : PacketView) :
    checkedView tuple (some pseudo) input = .ok view ↔ checkedView tuple none input = .ok view := by
  rw [validatedPseudoHeaderPrefix_eq hvalid, checkedView_eq_ok, checkedView_eq_ok]
  constructor
  · rintro ⟨hview, hsource, hdestination⟩
    exact ⟨(decodePacketView_of_path hview hsource hdestination).symm.trans hview, hsource, hdestination⟩
  · rintro ⟨hview, hsource, hdestination⟩
    exact ⟨(decodePacketView_of_path hview hsource hdestination).trans hview, hsource, hdestination⟩

private def answeredTuple : FourTuple := .sample

private def answer : PacketFields :=
  ⟨answeredTuple.destination, answeredTuple.source, 7, 0, TcpFlags.ack.bitor .psh, 65535, .default, [1, 2, 3]⟩

theorem cached_prefix_same_verdict_answer :
    validatedPseudoHeaderPrefix answeredTuple = .ok 5129 ∧
      checkedView answeredTuple (some 5129) answer.packet = .ok answer.view ∧
      checkedView answeredTuple none answer.packet = .ok answer.view := by
  have hvalid : validatedPseudoHeaderPrefix answeredTuple = .ok 5129 := by decide +kernel
  have hcached : checkedView answeredTuple (some 5129) answer.packet = .ok answer.view := by decide +kernel
  exact ⟨hvalid, hcached, (cached_prefix_same_verdict hvalid _ _).mp hcached⟩

end Quicp
