import Quicp.FakeTcp.Layout

/-!
# Packets decode to what was encoded

The checksum that is written completes the sum of the segment, and of the IP header in front of it, so both verify.
-/

namespace Quicp

open Buffer OnesComplement

namespace SocketAddr

@[simp] theorem ip_new (ip : IpAddr) (port : UInt16) : (new ip port).ip = ip := by cases ip <;> rfl

@[simp] theorem port_new (ip : IpAddr) (port : UInt16) : (new ip port).port = port := by cases ip <;> rfl

@[simp] theorem isIpv4_new (address : SocketAddr) (port : UInt16) : (new address.ip port).isIpv4 = address.isIpv4 := by
  cases address <;> rfl

@[simp] theorem octets_new (address : SocketAddr) (port : UInt16) : (new address.ip port).octets = address.octets := by
  cases address <;> rfl

end SocketAddr

theorem pathSum_new (source destination : SocketAddr) (port port' : UInt16) :
    pathSum (.new source.ip port) (.new destination.ip port') = pathSum source destination := by
  rw [pathSum, pathSum, SocketAddr.octets_new, SocketAddr.octets_new]

variable {bytes : List UInt8} {offset : ℕ}

theorem readU16_of_agrees {value : ℕ} (h : Agrees bytes (offset, BigEndian.encode 2 value))
    (hvalue : value < 2 ^ 16) : readU16 bytes offset = value := by
  have hslice := h.2
  rw [BigEndian.encode_length] at hslice
  rw [readU16, hslice, BigEndian.decodeFrom_encode, Nat.zero_mul, Nat.zero_add, Nat.mod_eq_of_lt (by simpa using hvalue)]

theorem readU32_of_agrees {value : ℕ} (h : Agrees bytes (offset, BigEndian.encode 4 value))
    (hvalue : value < 2 ^ 32) : readU32 bytes offset = value := by
  have hslice := h.2
  rw [BigEndian.encode_length] at hslice
  rw [readU32, hslice, BigEndian.decodeFrom_encode, Nat.zero_mul, Nat.zero_add, Nat.mod_eq_of_lt (by simpa using hvalue)]

theorem getD_of_agrees {byte : UInt8} (h : Agrees bytes (offset, [byte])) :
    bytes.getD offset 0 = byte := by
  have hhead := congrArg List.head? h.2
  rw [List.length_singleton, List.head?_take, if_neg one_ne_zero, List.head?_drop] at hhead
  rw [List.getD_eq_getElem?_getD, hhead]
  rfl

theorem octets_of_agrees {octets : Octets 4}
    (h : Agrees bytes (offset, octets.toList)) :
    (⟨[bytes.getD offset 0, bytes.getD (offset + 1) 0, bytes.getD (offset + 2) 0, bytes.getD (offset + 3) 0], rfl⟩ :
      Octets 4) = octets := by
  have hslice : (bytes.drop offset).take 4 = octets.toList := by simpa using h.2
  have hread : ∀ i, bytes.getD (offset + i) 0 = (bytes.drop offset).getD i 0 := fun i => by
    rw [List.getD_eq_getElem?_getD, List.getD_eq_getElem?_getD, List.getElem?_drop]
  refine Subtype.ext ?_
  change [bytes.getD (offset + 0) 0, _, _, _] = octets.toList
  rw [hread, hread, hread, hread, ← hslice]
  have hlength : ((bytes.drop offset).take 4).length = 4 := by rw [hslice, octets.toList_length]
  match bytes.drop offset, hlength with
  | first :: second :: third :: fourth :: rest, _ => rfl

namespace PacketFields

variable {fields : PacketFields}

def view (fields : PacketFields) : PacketView where
  source := .new fields.source.ip fields.source.port
  destination := .new fields.destination.ip fields.destination.port
  sequence := fields.sequence
  flags := fields.flags
  fastOpenCookie := fields.options.cookie
  payload := fields.payload

variable {checksum : ℕ}

theorem wordSum_segment (fields : PacketFields) (h : checksum < 65536) :
    wordSum (fields.segment checksum) = wordSum (fields.segment 0) + checksum := by
  have hsplit : ∀ value < 65536, wordSum (fields.segment value) = wordSum (fields.tcpFront fields.headerLength) +
      (value + wordSum ([0, 0] ++ (fields.options.encoded ++ fields.payload))) := by
    intro value hvalue
    rw [segment, tcpHeader, List.append_assoc, List.append_assoc,
      wordSum_append (by simp [tcpFront]; decide), wordSum_append (by rw [BigEndian.encode_length]; decide),
      wordSum_encode hvalue]
  rw [hsplit checksum h, hsplit 0 (by decide)]
  omega

theorem tcpChecksumWithPrefix_eq_zero (h : fields.packetLength ≤ maxPacketBytes) (port : UInt16) :
    tcpChecksumWithPrefix (.new fields.source.ip port) (pathSum fields.source fields.destination)
      (fields.segment fields.checksum) = some 0 := by
  have hsegment : (fields.segment fields.checksum).length = fields.tcpLength := fields.length_segment _
  have hfits : (fields.segment fields.checksum).length ≤ maxPacketBytes := by
    rw [hsegment]
    exact (Nat.le_add_left _ _).trans h
  have hsmall : fields.checksum < 65536 := Nat.lt_succ_of_le (Nat.sub_le _ _)
  have htotal : pathSum fields.source fields.destination + (fields.segment fields.checksum).length +
      wordSum (fields.segment fields.checksum) = fields.checksumTotal + (65535 - residue 65535 fields.checksumTotal) := by
    rw [hsegment, fields.wordSum_segment hsmall, ← Nat.add_assoc]
    rfl
  exact Quicp.tcpChecksumWithPrefix_eq_zero _ (pathSum_le _ _) hfits htotal

theorem headerLength_read (fields : PacketFields) :
    ((UInt8.ofNat (fields.headerLength / 4) <<< 4) >>> 4).toNat * 4 = fields.headerLength := by
  obtain ⟨hwords, hle⟩ := fields.headerLength_le
  have hread : ∀ words < 16, ((UInt8.ofNat words <<< 4) >>> 4).toNat = words := by decide
  rw [hread _ (by omega)]
  omega

theorem decodeTcpView_segment (h : fields.Sendable) {pseudo : Option ℕ}
    (hpseudo : ∀ value ∈ pseudo, value = pathSum fields.source fields.destination) :
    decodeTcpView (.new fields.source.ip 0) (.new fields.destination.ip 0) (fields.segment fields.checksum) pseudo =
      .ok fields.view := by
  have hchecksum : pseudo.elim
      (tcpChecksum (.new fields.source.ip 0) (.new fields.destination.ip 0) (fields.segment fields.checksum))
      (tcpChecksumWithPrefix (.new fields.source.ip 0) · (fields.segment fields.checksum)) = some 0 := by
    cases pseudo with
    | none =>
      change tcpChecksum _ _ _ = _
      rw [tcpChecksum, tcpPseudoHeaderPrefix_eq, SocketAddr.isIpv4_new, SocketAddr.isIpv4_new,
        if_pos h.addressed.1, pathSum_new]
      exact tcpChecksumWithPrefix_eq_zero h.length 0
    | some value =>
      obtain rfl := hpseudo value rfl
      exact tcpChecksumWithPrefix_eq_zero h.length 0
  have hagrees : ∀ write ∈ fields.tcpWrites fields.headerLength, Agrees (fields.segment fields.checksum) write :=
    fun write hwrite => (fields.agrees_tcpHeader _ _ write hwrite).append _
  simp only [tcpWrites, List.forall_mem_cons, List.not_mem_nil, false_implies, implies_true, and_true] at hagrees
  obtain ⟨hsource, hdestination, hsequence, _, hoffset, hflags, _⟩ := hagrees
  have hlength : (fields.segment fields.checksum).length = fields.headerLength + fields.payload.length :=
    fields.length_segment _
  have hheader : tcpHeaderBytes ≤ fields.headerLength := Nat.le_add_right _ _
  have hfront : (fields.tcpHeader fields.headerLength fields.checksum ++ fields.options.encoded).length =
      fields.headerLength := by
    rw [List.length_append, length_tcpHeader]
    rfl
  have hsplit : fields.segment fields.checksum =
      (fields.tcpHeader fields.headerLength fields.checksum ++ fields.options.encoded) ++ fields.payload := by
    rw [segment, List.append_assoc]
  have hoptions : ((fields.segment fields.checksum).take fields.headerLength).drop tcpHeaderBytes =
      fields.options.encoded := by
    rw [hsplit, List.take_left' hfront, List.drop_left' (fields.length_tcpHeader _ _)]
  have hpayload : (fields.segment fields.checksum).drop fields.headerLength = fields.payload := by
    rw [hsplit, List.drop_left' hfront]
  unfold decodeTcpView
  simp only [hchecksum, getD_of_agrees hoffset, fields.headerLength_read, hoptions,
    fields.options.fastOpenCookie_encoded h.cookie, hpayload, getD_of_agrees hflags,
    readU16_of_agrees hsource fields.source.port.toNat_lt,
    readU16_of_agrees hdestination fields.destination.port.toNat_lt,
    readU32_of_agrees hsequence fields.sequence.toNat_lt, SocketAddr.ip_new, UInt16.ofNat_toNat, UInt32.ofNat_toNat]
  rw [if_neg (by omega), if_neg (by omega)]
  rfl

theorem internetChecksum_ipv4Header {source destination : Octets 4} {packetLength : ℕ}
    (hlength : packetLength ≤ maxPacketBytes)
    (hchecksum : ipv4HeaderChecksum source destination packetLength = some checksum) :
    internetChecksum (ipv4Header source destination packetLength checksum) = some 0 := by
  have hlimit : packetLength < 65536 := Nat.lt_succ_of_le hlength
  obtain rfl : 65535 - residue 65535 _ = checksum :=
    Option.some.inj ((ipv4HeaderChecksum_eq source destination hlength).symm.trans hchecksum)
  rw [internetChecksum_eq (by rw [length_ipv4Header]; decide), ipv4Header,
    wordSum_append (by decide), wordSum_append (by rw [BigEndian.encode_length]; decide),
    wordSum_append (by decide), wordSum_append (by rw [BigEndian.encode_length]; decide),
    wordSum_append (by rw [List.Vector.toList_length]; decide), wordSum_encode hlimit,
    wordSum_encode (Nat.lt_succ_of_le (Nat.sub_le _ _))]
  have htotal : ∀ sum, wordSum [0x45, 0] + (packetLength + (wordSum [0, 0, 0x40, 0, 64, 6] + (sum +
      (wordSum source.toList + wordSum destination.toList)))) = packetLength + 0x4500 + 0x4000 + 0x4006 +
        wordSum source.toList + wordSum destination.toList + sum := by
    intro sum
    have hfirst : wordSum [0x45, 0] = 0x4500 := by decide
    have hsecond : wordSum [0, 0, 0x40, 0, 64, 6] = 0x4000 + 0x4006 := by decide
    omega
  rw [htotal, residue_add_complement (by decide)]

private theorem agrees_ipv4Header (source destination : Octets 4) (packetLength checksum : ℕ) :
    ∀ write ∈ [(2, BigEndian.encode 2 packetLength), (12, source.toList), (16, destination.toList)],
      Agrees (ipv4Header source destination packetLength checksum) write := by
  simp [Agrees, ipv4Header, BigEndian.encode]

theorem decodeIpv4View_packet {source destination : Octets 4} {tcp : List UInt8}
    (htcp : tcpHeaderBytes ≤ tcp.length) (hlength : ipv4HeaderBytes + tcp.length ≤ maxPacketBytes)
    (hchecksum : ipv4HeaderChecksum source destination (ipv4HeaderBytes + tcp.length) = some checksum)
    (pseudo : Option ℕ) :
    decodeIpv4View (ipv4Header source destination (ipv4HeaderBytes + tcp.length) checksum ++ tcp) pseudo =
      decodeTcpView (.v4 source 0) (.v4 destination 0) tcp pseudo := by
  have hheader := length_ipv4Header source destination (ipv4HeaderBytes + tcp.length) checksum
  have hverified := internetChecksum_ipv4Header hlength hchecksum
  have hagrees := agrees_ipv4Header source destination (ipv4HeaderBytes + tcp.length) checksum
  simp only [List.forall_mem_cons, List.not_mem_nil, false_implies, implies_true, and_true] at hagrees
  obtain ⟨htotal, hsource, hdestination⟩ := hagrees
  have hfirst : (ipv4Header source destination (ipv4HeaderBytes + tcp.length) checksum ++ tcp).getD 0 0 = 0x45 := rfl
  have hihl : ((ipv4Header source destination (ipv4HeaderBytes + tcp.length) checksum ++ tcp).getD 0 0 &&&
      0x0f).toNat * 4 = ipv4HeaderBytes := by
    rw [hfirst]
    decide
  have hprotocol : ((ipv4Header source destination (ipv4HeaderBytes + tcp.length) checksum ++ tcp).getD 9 0).toNat =
      tcpProtocol := rfl
  have hfragment : readU16 (ipv4Header source destination (ipv4HeaderBytes + tcp.length) checksum ++ tcp) 6 = 0x4000 := rfl
  unfold decodeIpv4View
  simp only [hihl, hprotocol, hfragment, readU16_of_agrees (htotal.append tcp) (Nat.lt_succ_of_le hlength),
    List.length_append, hheader, List.take_left' hheader, List.drop_left' hheader, hverified,
    octets_of_agrees (hsource.append tcp), octets_of_agrees (hdestination.append tcp)]
  have hnumber : ipv4HeaderBytes = 20 := rfl
  rw [if_neg (by omega), if_neg (by omega), if_neg (by decide), if_neg (by decide)]

private theorem agrees_ipv6Header (source destination : Octets 16) (tcpLength : ℕ) :
    ∀ write ∈ [(4, BigEndian.encode 2 tcpLength), (8, source.toList), (24, destination.toList)],
      Agrees (ipv6Header source destination tcpLength) write := by
  simp [Agrees, ipv6Header, BigEndian.encode]

theorem decodeIpv6View_packet {source destination : Octets 16} {tcp : List UInt8}
    (hlength : ipv6HeaderBytes + tcp.length ≤ maxPacketBytes) (pseudo : Option ℕ) :
    decodeIpv6View (ipv6Header source destination tcp.length ++ tcp) pseudo =
      decodeTcpView (.v6 source 0 0 0) (.v6 destination 0 0 0) tcp pseudo := by
  have hheader := length_ipv6Header source destination tcp.length
  have hagrees := agrees_ipv6Header source destination tcp.length
  simp only [List.forall_mem_cons, List.not_mem_nil, false_implies, implies_true, and_true] at hagrees
  obtain ⟨htotal, hsource, hdestination⟩ := hagrees
  have hprotocol : ((ipv6Header source destination tcp.length ++ tcp).getD 6 0).toNat = tcpProtocol := rfl
  have hsource : ((ipv6Header source destination tcp.length ++ tcp).drop 8).take 16 = source.toList := by
    simpa using (hsource.append tcp).2
  have hdestination : ((ipv6Header source destination tcp.length ++ tcp).drop 24).take 16 = destination.toList := by
    simpa using (hdestination.append tcp).2
  have hsmall : tcp.length < 2 ^ 16 := Nat.lt_succ_of_le ((Nat.le_add_left _ _).trans hlength)
  unfold decodeIpv6View
  simp only [hprotocol, readU16_of_agrees (htotal.append tcp) hsmall, List.length_append, hheader,
    List.drop_left' hheader, hsource, hdestination]
  rw [if_neg (by omega), if_neg (by omega), dif_pos source.toList_length, dif_pos destination.toList_length]
  rfl

private theorem version_ipv4Header (source destination : Octets 4) (packetLength checksum : ℕ) (tcp : List UInt8) :
    (ipv4Header source destination packetLength checksum ++ tcp).getD 0 0 >>> 4 = 4 := by
  have hfirst : (ipv4Header source destination packetLength checksum ++ tcp).getD 0 0 = 0x45 := rfl
  rw [hfirst]
  decide

private theorem version_ipv6Header (source destination : Octets 16) (tcpLength : ℕ) (tcp : List UInt8) :
    (ipv6Header source destination tcpLength ++ tcp).getD 0 0 >>> 4 = 6 := by
  have hfirst : (ipv6Header source destination tcpLength ++ tcp).getD 0 0 = 0x60 := rfl
  rw [hfirst]
  decide

theorem decodePacketView_packet (h : fields.Sendable) {pseudo : Option ℕ}
    (hpseudo : ∀ value ∈ pseudo, value = pathSum fields.source fields.destination) :
    decodePacketView fields.packet pseudo = .ok fields.view := by
  have hlength := length_packet h.addressed
  have hsegment : (fields.segment fields.checksum).length = fields.tcpLength := fields.length_segment _
  have htcp : tcpHeaderBytes ≤ (fields.segment fields.checksum).length := by
    rw [hsegment]
    exact (Nat.le_add_right _ _).trans (Nat.le_add_right _ _)
  have hdecode := decodeTcpView_segment h hpseudo
  have hshort : ¬fields.packet.length < ipv4HeaderBytes := by
    rw [packet, List.length_append, not_lt]
    exact htcp.trans (Nat.le_add_left _ _)
  have hlarge : ¬fields.packet.length > maxPacketBytes := by
    rw [hlength]
    exact not_lt.mpr h.length
  rw [decodePacketView, if_neg hshort, if_neg hlarge]
  cases hsource : fields.source with
  | v4 source port =>
    cases hdestination : fields.destination with
    | v4 destination port' =>
      have htotal : fields.packetLength = ipv4HeaderBytes + (fields.segment fields.checksum).length := by
        rw [packetLength, ipHeaderLength, hsource, hsegment]
        rfl
      have hfits := h.length
      rw [htotal] at hfits
      obtain ⟨checksum, hchecksum⟩ := exists_ipv4HeaderChecksum source destination hfits
      have hpacket : fields.packet = ipv4Header source destination
          (ipv4HeaderBytes + (fields.segment fields.checksum).length) checksum ++ fields.segment fields.checksum := by
        simp only [packet, ipHeader, hsource, hdestination, SocketAddr.ip, htotal, hchecksum, Option.getD_some]
      rw [hpacket, if_pos (version_ipv4Header _ _ _ _ _), decodeIpv4View_packet htcp hfits hchecksum]
      rw [hsource, hdestination] at hdecode
      exact hdecode
    | v6 destination port' flowInfo scopeId =>
      have hfamily := h.addressed.1
      simp [hsource, hdestination, SocketAddr.isIpv4] at hfamily
  | v6 source port flowInfo scopeId =>
    cases hdestination : fields.destination with
    | v4 destination port' =>
      have hfamily := h.addressed.1
      simp [hsource, hdestination, SocketAddr.isIpv4] at hfamily
    | v6 destination port' flowInfo' scopeId' =>
      have hfits : ipv6HeaderBytes + (fields.segment fields.checksum).length ≤ maxPacketBytes := by
        have hfits := h.length
        rw [packetLength, ipHeaderLength, hsource, ← hsegment] at hfits
        exact hfits
      have hpacket : fields.packet = ipv6Header source destination (fields.segment fields.checksum).length ++
          fields.segment fields.checksum := by
        simp only [packet, ipHeader, hsource, hdestination, SocketAddr.ip, hsegment]
      rw [hpacket, version_ipv6Header, if_neg (by decide), if_pos rfl, decodeIpv6View_packet hfits]
      rw [hsource, hdestination] at hdecode
      exact hdecode

theorem internetChecksum_packet (h : fields.Sendable) (hfamily : fields.source.isIpv4) :
    internetChecksum (fields.packet.take ipv4HeaderBytes) = some 0 := by
  have hheader : fields.ipHeaderLength = ipv4HeaderBytes := if_pos hfamily
  rw [packet, List.take_left' ((length_ipHeader h.addressed).trans hheader), ipHeader]
  have hsame := h.addressed.1
  cases hsource : fields.source with
  | v4 source port =>
    cases hdestination : fields.destination with
    | v4 destination port' =>
      obtain ⟨checksum, hchecksum⟩ := exists_ipv4HeaderChecksum source destination h.length
      simp only [SocketAddr.ip, hchecksum, Option.getD_some]
      exact internetChecksum_ipv4Header h.length hchecksum
    | v6 destination port' flowInfo scopeId => simp [hsource, hdestination, SocketAddr.isIpv4] at hsame
  | v6 source port flowInfo scopeId => simp [hsource, SocketAddr.isIpv4] at hfamily

theorem tcpChecksum_packet (h : fields.Sendable) :
    tcpChecksum fields.source fields.destination (fields.packet.drop fields.ipHeaderLength) = some 0 := by
  have hnew := tcpChecksumWithPrefix_eq_zero h.length 0
  have hfamily : tcpChecksumWithPrefix (.new fields.source.ip 0) = tcpChecksumWithPrefix fields.source := by
    funext pseudo tcp
    rw [tcpChecksumWithPrefix, tcpChecksumWithPrefix, lengthSum, lengthSum, SocketAddr.isIpv4_new]
  rw [hfamily] at hnew
  rw [packet, List.drop_left' (length_ipHeader h.addressed), tcpChecksum, tcpPseudoHeaderPrefix_eq,
    if_pos h.addressed.1]
  exact hnew

/-- The bytes decode to the fields they were written from, and both checksums verify. -/
structure RoundTrips (fields : PacketFields) (pseudo : ℕ) (bytes : List UInt8) : Prop where
  decoded : ∀ known, known = none ∨ known = some pseudo → ∃ view, decodePacketView bytes known = .ok view ∧
    view.source.ip = fields.source.ip ∧ view.source.port = fields.source.port ∧
    view.destination.ip = fields.destination.ip ∧ view.destination.port = fields.destination.port ∧
    view.sequence = fields.sequence ∧ view.flags = fields.flags ∧
    view.fastOpenCookie = fields.options.cookie ∧ view.payload = fields.payload
  header : fields.source.isIpv4 → internetChecksum (bytes.take ipv4HeaderBytes) = some 0
  segment : tcpChecksum fields.source fields.destination (bytes.drop fields.ipHeaderLength) = some 0

theorem roundTrips_packet (h : fields.Sendable) :
    fields.RoundTrips (pathSum fields.source fields.destination) fields.packet where
  decoded known hknown := by
    have hvalue : ∀ value ∈ known, value = pathSum fields.source fields.destination := by
      rintro value hmem
      obtain rfl | rfl := hknown
      · cases hmem
      · exact (Option.some.inj hmem).symm
    exact ⟨fields.view, decodePacketView_packet h hvalue, SocketAddr.ip_new _ _, SocketAddr.port_new _ _,
      SocketAddr.ip_new _ _, SocketAddr.port_new _ _, rfl, rfl, rfl, rfl⟩
  header := internetChecksum_packet h
  segment := tcpChecksum_packet h

end PacketFields

/-- No addition of the checksum code overflows on an input, whichever path it is for. -/
structure ChecksumsFit (input : List UInt8) : Prop where
  sum : checksumSum input ≠ none
  internet : internetChecksum input ≠ none
  fold : ∀ sum < 2 ^ 32, foldChecksum sum ≠ none
  header : ∀ source destination, ipv4HeaderChecksum source destination input.length ≠ none
  path : ∀ source destination, tcpPseudoHeaderPrefix source destination ≠ none
  segment : ∀ source destination, tcpChecksum source destination input ≠ none
  prepared : ∀ source destination pseudo, tcpPseudoHeaderPrefix source destination = some (some pseudo) →
    ∀ address, tcpChecksumWithPrefix address pseudo input ≠ none

theorem eq_pathSum {source destination : SocketAddr} {pseudo : ℕ}
    (h : tcpPseudoHeaderPrefix source destination = some (some pseudo)) : pseudo = pathSum source destination := by
  rw [tcpPseudoHeaderPrefix_eq, Option.some_inj] at h
  split_ifs at h
  exact (Option.some.inj h).symm

theorem checksumsFit {input : List UInt8} (h : input.length ≤ maxPacketBytes) : ChecksumsFit input where
  sum := by simp [checksumSum_eq h]
  internet := by simp [internetChecksum_eq h]
  fold sum hsum := by simp [foldChecksum_eq hsum]
  header source destination := by simp [ipv4HeaderChecksum_eq source destination h]
  path source destination := by simp [tcpPseudoHeaderPrefix_eq]
  segment source destination := by
    rw [tcpChecksum, tcpPseudoHeaderPrefix_eq]
    by_cases hfamily : source.isIpv4 = destination.isIpv4
    · simp [hfamily, tcpChecksumWithPrefix_eq source (pathSum_le source destination) h]
    · simp [hfamily]
  prepared source destination pseudo hpseudo address := by
    obtain rfl := eq_pathSum hpseudo
    simp [tcpChecksumWithPrefix_eq address (pathSum_le source destination) h]

/-- Whatever the encoder writes for a path decodes to what was encoded, and the checksum code does not overflow. -/
theorem packets_round_trip :
    (∀ (fields : PacketFields) (output written : List UInt8) (length pseudo : ℕ),
      tcpPseudoHeaderPrefix fields.source fields.destination = some (some pseudo) →
      fields.encodePacketInto output pseudo = (.ok length, written) →
      fields.RoundTrips pseudo (written.take length)) ∧
      ∀ input : List UInt8, input.length ≤ maxPacketBytes → ChecksumsFit input := by
  refine ⟨fun fields output written length pseudo hpseudo hwritten => ?_, fun input => checksumsFit⟩
  obtain rfl := eq_pathSum hpseudo
  obtain ⟨hsendable, _, hencoded⟩ | ⟨_, error, hencoded⟩ := fields.encodePacketInto_cases output
  · obtain ⟨rfl, rfl⟩ : fields.packetLength = length ∧ fields.packet ++ output.drop fields.packetLength = written := by
      simpa [hencoded] using hwritten
    rw [List.take_left' (PacketFields.length_packet hsendable.addressed)]
    exact PacketFields.roundTrips_packet hsendable
  · simp [hencoded] at hwritten

private def oddFields : PacketFields where
  source := .v6 ⟨List.replicate 15 0 ++ [1], rfl⟩ 4433 0 7
  destination := .v6 ⟨0xfe :: List.replicate 15 0xff, rfl⟩ 443 9 0
  sequence := 0xfffffffe
  acknowledgment := 12
  flags := TcpFlags.syn.bitor .ack
  window := 65535
  options := .forSynWithMss 1460 (some [1, 2, 3])
  payload := [0xff, 0xff, 0x80]

theorem packets_round_trip_odd :
    oddFields.RoundTrips (pathSum oddFields.source oddFields.destination)
      ((oddFields.encodePacketInto (List.replicate 100 0xaa) (pathSum oddFields.source oddFields.destination)).2.take 79) ∧
      ChecksumsFit (List.replicate 65535 0xff) :=
  ⟨packets_round_trip.1 oddFields (List.replicate 100 0xaa) _ 79 _ (by decide +kernel) (by decide +kernel),
    packets_round_trip.2 _ List.length_replicate.le⟩

end Quicp
