import Quicp.FakeTcp.Packet

/-!
# The layout of a packet

Whatever the buffer held before, the writes of the encoder leave the headers, the options and the
payload one after the other, and the rest of the buffer as it was.
-/

namespace Quicp

open Buffer

namespace PacketFields

def tcpFront (fields : PacketFields) (headerLength : ℕ) : List UInt8 :=
  BigEndian.encode 2 fields.source.port.toNat ++ (BigEndian.encode 2 fields.destination.port.toNat ++
    (BigEndian.encode 4 fields.sequence.toNat ++ (BigEndian.encode 4 fields.acknowledgment.toNat ++
      ([UInt8.ofNat (headerLength / 4) <<< 4] ++ ([fields.flags.bits] ++ BigEndian.encode 2 fields.window.toNat)))))

def tcpHeader (fields : PacketFields) (headerLength checksum : ℕ) : List UInt8 :=
  fields.tcpFront headerLength ++ (BigEndian.encode 2 checksum ++ [0, 0])

def headerLength (fields : PacketFields) : ℕ := tcpHeaderBytes + fields.options.encoded.length

def segment (fields : PacketFields) (checksum : ℕ) : List UInt8 :=
  fields.tcpHeader fields.headerLength checksum ++ (fields.options.encoded ++ fields.payload)

@[simp] theorem length_tcpHeader (fields : PacketFields) (headerLength checksum : ℕ) :
    (fields.tcpHeader headerLength checksum).length = tcpHeaderBytes := by
  simp [tcpHeader, tcpFront, tcpHeaderBytes]

@[simp] theorem length_segment (fields : PacketFields) (checksum : ℕ) :
    (fields.segment checksum).length = fields.headerLength + fields.payload.length := by
  rw [segment, List.length_append, length_tcpHeader, List.length_append, ← Nat.add_assoc]
  rfl

theorem headerLength_le (fields : PacketFields) : fields.headerLength % 4 = 0 ∧ fields.headerLength ≤ 60 := by
  obtain ⟨hwords, hle⟩ := fields.options.length_encoded
  have hlimit : maxTcpOptionsBytes = 40 := rfl
  have hheader : tcpHeaderBytes = 20 := rfl
  unfold headerLength
  omega

theorem agrees_tcpHeader (fields : PacketFields) (headerLength checksum : ℕ) :
    ∀ write ∈ fields.tcpWrites headerLength, Agrees (fields.tcpHeader headerLength checksum) write := by
  simp [tcpWrites, Agrees, tcpHeader, tcpFront, BigEndian.encode]

private theorem writeAll_segment (fields : PacketFields) {tcp : List UInt8}
    (hlength : tcp.length = fields.headerLength + fields.payload.length) :
    writeAll tcp ((16, [0, 0, 0, 0]) :: (fields.tcpWrites fields.headerLength ++
      [(tcpHeaderBytes, fields.options.encoded), (fields.headerLength, fields.payload)])) = fields.segment 0 := by
  refine writeAll_eq (hlength.trans (fields.length_segment 0).symm) (List.forall_mem_cons.mpr ⟨?_,
    List.forall_mem_append.mpr ⟨?_, List.forall_mem_cons.mpr ⟨?_, List.forall_mem_singleton.mpr ?_⟩⟩⟩) ?_
  · exact Agrees.append (by simp [Agrees, tcpHeader, tcpFront, BigEndian.encode]) _
  · exact fun write hwrite => (fields.agrees_tcpHeader _ 0 write hwrite).append _
  · exact agrees_middle (fields.length_tcpHeader _ _).symm _ _
  · have hpayload := agrees_middle (show fields.headerLength =
      (fields.tcpHeader fields.headerLength 0 ++ fields.options.encoded).length by
        rw [List.length_append, length_tcpHeader]; rfl) fields.payload []
    rwa [List.append_nil, List.append_assoc] at hpayload
  · intro i hi
    have hheader : tcpHeaderBytes = 20 := rfl
    rw [length_segment, headerLength] at hi
    simp only [tcpWrites, headerLength, List.cons_append, List.nil_append, List.mem_cons, List.not_mem_nil, or_false,
      exists_eq_or_imp, exists_eq_left, List.length_cons, List.length_nil, BigEndian.encode_length]
    omega

private theorem writeAt_segment (fields : PacketFields) (checksum : ℕ) :
    writeAt (fields.segment 0) 16 (BigEndian.encode 2 checksum) = fields.segment checksum := by
  simp [segment, tcpHeader, tcpFront, writeAt, BigEndian.encode]

theorem writeTcp_eq (fields : PacketFields) {pseudo checksum : ℕ} {tcp : List UInt8}
    (hlength : tcp.length = fields.headerLength + fields.payload.length)
    (hchecksum : tcpChecksumWithPrefix fields.source pseudo (fields.segment 0) = some checksum) :
    fields.writeTcp fields.headerLength fields.options.encoded pseudo tcp = (.ok (), fields.segment checksum) := by
  obtain ⟨_, hwords⟩ := fields.headerLength_le
  have hoptions : ∀ buffer : List UInt8, (if fields.options.encoded.length ≠ 0 then
      writeAt buffer tcpHeaderBytes fields.options.encoded else buffer) =
        writeAt buffer tcpHeaderBytes fields.options.encoded := by
    intro buffer
    split_ifs with hempty
    · rfl
    · rw [List.eq_nil_of_length_eq_zero (not_not.mp hempty), writeAt_nil]
  have hsegment := fields.writeAll_segment hlength
  simp only [writeAll, List.foldl_append, List.foldl_cons, List.foldl_nil] at hsegment
  unfold writeTcp
  simp only [hoptions, writeAll, List.foldl_cons, List.foldl_nil, hsegment, hchecksum]
  rw [if_neg (by omega), writeAt_segment]

def ipv4Header (source destination : Octets 4) (packetLength checksum : ℕ) : List UInt8 :=
  [0x45, 0] ++ (BigEndian.encode 2 packetLength ++ ([0, 0, 0x40, 0, 64, 6] ++ (BigEndian.encode 2 checksum ++
    (source.toList ++ destination.toList))))

def ipv6Header (source destination : Octets 16) (tcpLength : ℕ) : List UInt8 :=
  [0x60, 0, 0, 0] ++ (BigEndian.encode 2 tcpLength ++ ([6, 64] ++ (source.toList ++ destination.toList)))

@[simp] theorem length_ipv4Header (source destination : Octets 4) (packetLength checksum : ℕ) :
    (ipv4Header source destination packetLength checksum).length = ipv4HeaderBytes := by
  simp [ipv4Header, ipv4HeaderBytes]

@[simp] theorem length_ipv6Header (source destination : Octets 16) (tcpLength : ℕ) :
    (ipv6Header source destination tcpLength).length = ipv6HeaderBytes := by
  simp [ipv6Header, ipv6HeaderBytes]

theorem writeIpv4_eq {source destination : Octets 4} {packetLength checksum : ℕ} {front rest : List UInt8}
    (hfront : front.length = ipv4HeaderBytes) (hlength : packetLength ≤ maxPacketBytes)
    (hchecksum : ipv4HeaderChecksum source destination packetLength = some checksum) :
    writeIpv4 source destination packetLength (front ++ rest) =
      (.ok packetLength, ipv4Header source destination packetLength checksum ++ rest) := by
  have htarget : writeAll ((front ++ rest).take ipv4HeaderBytes) [(0, [0x45]), (1, [0]),
      (2, BigEndian.encode 2 packetLength), (4, [0, 0]), (6, [0x40]), (7, [0]), (8, [64]),
      (9, [UInt8.ofNat tcpProtocol]), (10, [0, 0]), (12, source.toList), (16, destination.toList)] =
        ipv4Header source destination packetLength 0 := by
    refine writeAll_eq ?_ ?_ ?_
    · rw [List.take_left' hfront, hfront, length_ipv4Header]
    · simp [Agrees, ipv4Header, BigEndian.encode, tcpProtocol]
    · intro i hi
      have hheader : ipv4HeaderBytes = 20 := rfl
      rw [length_ipv4Header] at hi
      simp only [List.mem_cons, List.not_mem_nil, or_false, exists_eq_or_imp, exists_eq_left, List.length_cons,
        List.length_nil, BigEndian.encode_length, List.Vector.toList_length]
      omega
  have hwrite : writeAt (ipv4Header source destination packetLength 0) 10 (BigEndian.encode 2 checksum) =
      ipv4Header source destination packetLength checksum := by
    simp [ipv4Header, writeAt, BigEndian.encode]
  unfold writeIpv4
  rw [if_neg (show ¬packetLength > 65535 from not_lt.mpr hlength), htarget, hchecksum]
  dsimp only
  rw [hwrite, writeAt, List.take_zero, List.nil_append, Nat.zero_add, length_ipv4Header, List.drop_left' hfront]

theorem writeIpv6_eq {source destination : Octets 16} {tcpLength packetLength : ℕ} {front rest : List UInt8}
    (hfront : front.length = ipv6HeaderBytes) (hlength : tcpLength ≤ maxPacketBytes) :
    writeIpv6 source destination tcpLength packetLength (front ++ rest) =
      (.ok packetLength, ipv6Header source destination tcpLength ++ rest) := by
  have htarget : writeAll ((front ++ rest).take ipv6HeaderBytes) [(0, [0x60]), (1, [0, 0, 0]),
      (4, BigEndian.encode 2 tcpLength), (6, [UInt8.ofNat tcpProtocol]), (7, [64]), (8, source.toList),
      (24, destination.toList)] = ipv6Header source destination tcpLength := by
    refine writeAll_eq ?_ ?_ ?_
    · rw [List.take_left' hfront, hfront, length_ipv6Header]
    · simp [Agrees, ipv6Header, BigEndian.encode, tcpProtocol]
    · intro i hi
      have hheader : ipv6HeaderBytes = 40 := rfl
      rw [length_ipv6Header] at hi
      simp only [List.mem_cons, List.not_mem_nil, or_false, exists_eq_or_imp, exists_eq_left, List.length_cons,
        List.length_nil, BigEndian.encode_length, List.Vector.toList_length]
      omega
  unfold writeIpv6
  rw [if_neg (show ¬tcpLength > 65535 from not_lt.mpr hlength), htarget]
  dsimp only
  rw [writeAt, List.take_zero, List.nil_append, Nat.zero_add, length_ipv6Header, List.drop_left' hfront]

def tcpLength (fields : PacketFields) : ℕ := fields.headerLength + fields.payload.length

def packetLength (fields : PacketFields) : ℕ := fields.ipHeaderLength + fields.tcpLength

def checksumTotal (fields : PacketFields) : ℕ :=
  pathSum fields.source fields.destination + fields.tcpLength + OnesComplement.wordSum (fields.segment 0)

def checksum (fields : PacketFields) : ℕ := 65535 - OnesComplement.residue 65535 fields.checksumTotal

def ipHeader (fields : PacketFields) : List UInt8 :=
  match fields.source.ip, fields.destination.ip with
  | .v4 source, .v4 destination =>
    ipv4Header source destination fields.packetLength
      ((ipv4HeaderChecksum source destination fields.packetLength).getD 0)
  | .v6 source, .v6 destination => ipv6Header source destination fields.tcpLength
  | _, _ => []

def packet (fields : PacketFields) : List UInt8 := fields.ipHeader ++ fields.segment fields.checksum

def Addressed (fields : PacketFields) : Prop :=
  fields.source.isIpv4 = fields.destination.isIpv4 ∧ fields.source.port ≠ 0 ∧ fields.destination.port ≠ 0

variable {fields : PacketFields}

theorem length_ipHeader (h : fields.Addressed) :
    fields.ipHeader.length = fields.ipHeaderLength := by
  obtain ⟨hfamily, _⟩ := h
  unfold ipHeader ipHeaderLength
  cases hsource : fields.source <;> cases hdestination : fields.destination <;>
    simp [hsource, hdestination, SocketAddr.isIpv4] at hfamily <;> simp [SocketAddr.ip, SocketAddr.isIpv4]

theorem length_packet (h : fields.Addressed) : fields.packet.length = fields.packetLength := by
  rw [packet, List.length_append, length_ipHeader h, length_segment]
  rfl

theorem tcpChecksumWithPrefix_segment (hlength : fields.packetLength ≤ maxPacketBytes) :
    tcpChecksumWithPrefix fields.source (pathSum fields.source fields.destination) (fields.segment 0) =
      some fields.checksum := by
  have hsegment : (fields.segment 0).length = fields.tcpLength := fields.length_segment 0
  have hfits : (fields.segment 0).length ≤ maxPacketBytes := by
    rw [hsegment]
    exact (Nat.le_add_left _ _).trans hlength
  rw [tcpChecksumWithPrefix_eq _ (pathSum_le _ _) hfits, hsegment]
  rfl

theorem writePacket_eq (h : fields.Addressed) (hlength : fields.packetLength ≤ maxPacketBytes)
    {output : List UInt8} (hroom : fields.packetLength ≤ output.length) :
    fields.writePacket fields.options.encoded fields.headerLength fields.tcpLength fields.packetLength
      (pathSum fields.source fields.destination) output =
        (.ok fields.packetLength, fields.packet ++ output.drop fields.packetLength) := by
  have hsegment : (fields.segment fields.checksum).length = fields.tcpLength := fields.length_segment _
  have htcp : ((output.take fields.packetLength).drop fields.ipHeaderLength).length =
      fields.headerLength + fields.payload.length := by
    rw [List.length_drop, List.length_take_of_le hroom, packetLength, Nat.add_sub_cancel_left]
    rfl
  have hfront : (output.take fields.ipHeaderLength).length = fields.ipHeaderLength :=
    List.length_take_of_le ((Nat.le_add_right _ _).trans hroom)
  have hwritten : writeAt output fields.ipHeaderLength (fields.segment fields.checksum) =
      output.take fields.ipHeaderLength ++ (fields.segment fields.checksum ++ output.drop fields.packetLength) := by
    rw [writeAt, hsegment, List.append_assoc]
    rfl
  unfold writePacket
  simp only [fields.writeTcp_eq htcp (tcpChecksumWithPrefix_segment hlength), hwritten]
  unfold packet ipHeader
  cases hsource : fields.source with
  | v4 source port =>
    cases hdestination : fields.destination with
    | v4 destination port' =>
      obtain ⟨checksum, hchecksum⟩ := exists_ipv4HeaderChecksum source destination hlength
      have hheader : fields.ipHeaderLength = ipv4HeaderBytes := by rw [ipHeaderLength, hsource]; rfl
      simp only [SocketAddr.ip, writeIpv4_eq (hfront.trans hheader) hlength hchecksum, hchecksum, Option.getD_some,
        List.append_assoc]
    | v6 destination port' flowInfo scopeId => simp [Addressed, hsource, hdestination, SocketAddr.isIpv4] at h
  | v6 source port flowInfo scopeId =>
    cases hdestination : fields.destination with
    | v4 destination port' => simp [Addressed, hsource, hdestination, SocketAddr.isIpv4] at h
    | v6 destination port' flowInfo' scopeId' =>
      have hheader : fields.ipHeaderLength = ipv6HeaderBytes := by rw [ipHeaderLength, hsource]; rfl
      have htcpLength : fields.tcpLength ≤ maxPacketBytes := (Nat.le_add_left _ _).trans hlength
      simp only [SocketAddr.ip, writeIpv6_eq (hfront.trans hheader) htcpLength, List.append_assoc]

theorem options_cases (options : TcpOptions) :
    let buffer := List.replicate maxTcpOptionsBytes 0
    let result := if options.isEmpty then Except.ok (buffer, 0) else options.encodeInto buffer
    (¬options.CookieFits ∧ result = .error .invalidTcpOption) ∨
      options.CookieFits ∧ ∃ written, result = .ok written ∧ Written written options.encoded := by
  intro buffer result
  by_cases hempty : options.isEmpty
  · obtain ⟨mss, sackPermitted, timestamps, windowScale, fastOpenCookie⟩ := options
    simp only [TcpOptions.isEmpty, Bool.and_eq_true, Option.isNone_iff_eq_none, Bool.not_eq_true'] at hempty
    obtain ⟨⟨⟨⟨rfl, rfl⟩, rfl⟩, rfl⟩, rfl⟩ := hempty
    exact Or.inr ⟨by simp [TcpOptions.CookieFits], (buffer, 0), rfl, ⟨List.length_replicate, rfl, rfl⟩⟩
  · have hresult : result = options.encodeInto buffer := if_neg hempty
    rw [hresult]
    exact options.encodeInto_cases List.length_replicate

theorem checkedAdd_of_packet {left right : ℕ} (h : left + right ≤ maxPacketBytes) :
    checkedAdd left right = some (left + right) :=
  if_pos (h.trans (by decide))

/-- The fields make a packet: usable addresses, a cookie that fits and not more than the largest packet. -/
structure Sendable (fields : PacketFields) : Prop where
  addressed : fields.Addressed
  cookie : fields.options.CookieFits
  length : fields.packetLength ≤ maxPacketBytes

theorem encodePacketInto_cases (fields : PacketFields) (output : List UInt8) :
    (fields.Sendable ∧ fields.packetLength ≤ output.length ∧
      fields.encodePacketInto output (pathSum fields.source fields.destination) =
        (.ok fields.packetLength, fields.packet ++ output.drop fields.packetLength)) ∨
      ¬(fields.Sendable ∧ fields.packetLength ≤ output.length) ∧
        ∃ error, fields.encodePacketInto output (pathSum fields.source fields.destination) = (.err error, output) := by
  unfold encodePacketInto
  by_cases haddressed : fields.Addressed
  swap
  · refine Or.inr ⟨fun h => haddressed h.1.addressed, .invalidTuple, if_pos ?_⟩
    by_contra hnone
    push Not at hnone
    exact haddressed hnone
  rw [if_neg (by
    obtain ⟨hfamily, hsource, hdestination⟩ := haddressed
    rintro (hother | hzero | hzero)
    · exact hother hfamily
    · exact hsource hzero
    · exact hdestination hzero)]
  obtain ⟨hcookie, hoptions⟩ | ⟨hcookie, ⟨optionBytes, optionLength⟩, hoptions, hwritten⟩ := options_cases fields.options
  · refine Or.inr ⟨fun h => hcookie h.1.cookie, .invalidTcpOption, ?_⟩
    simp only [hoptions]
  obtain ⟨_, hsmall⟩ := fields.headerLength_le
  have hheader : checkedAdd tcpHeaderBytes optionLength = some fields.headerLength := by
    rw [show optionLength = fields.options.encoded.length from hwritten.length]
    exact checkedAdd_of_packet (hsmall.trans (by decide))
  have hbytes : optionBytes.take optionLength = fields.options.encoded := hwritten.bytes
  simp only [hoptions, hheader, hbytes]
  by_cases hlength : fields.packetLength ≤ maxPacketBytes
  swap
  · refine Or.inr ⟨fun h => hlength h.1.length, .packetTooLarge, ?_⟩
    cases htcp : checkedAdd fields.headerLength fields.payload.length with
    | none => rfl
    | some tcpLength =>
      obtain rfl : fields.headerLength + fields.payload.length = tcpLength := (checkedAdd_eq_some htcp).symm
      dsimp only
      by_cases hlarge : fields.headerLength + fields.payload.length > maxPacketBytes
      · exact if_pos hlarge
      · rw [if_neg hlarge]
        cases hpacket : checkedAdd fields.ipHeaderLength (fields.headerLength + fields.payload.length) with
        | none => rfl
        | some packetLength =>
          obtain rfl : fields.packetLength = packetLength := (checkedAdd_eq_some hpacket).symm
          exact if_pos (not_le.mp hlength)
  · have htcpLength : fields.tcpLength ≤ maxPacketBytes := (Nat.le_add_left _ _).trans hlength
    have htcp : checkedAdd fields.headerLength fields.payload.length = some fields.tcpLength :=
      checkedAdd_of_packet htcpLength
    have hpacket : checkedAdd fields.ipHeaderLength fields.tcpLength = some fields.packetLength :=
      checkedAdd_of_packet hlength
    simp only [htcp, hpacket]
    rw [if_neg (not_lt.mpr htcpLength), if_neg (not_lt.mpr hlength)]
    by_cases hroom : fields.packetLength ≤ output.length
    · rw [if_neg (not_lt.mpr hroom)]
      exact Or.inl ⟨⟨haddressed, hcookie, hlength⟩, hroom, writePacket_eq haddressed hlength hroom⟩
    · exact Or.inr ⟨fun h => hroom h.2, _, if_pos (not_le.mp hroom)⟩

end PacketFields

end Quicp
