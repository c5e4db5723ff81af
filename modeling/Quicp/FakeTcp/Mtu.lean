import Quicp.FakeTcp.Calls
import Quicp.Library.Reader

/-!
# Payload ceilings and the packets of a carrier

The settings of a transport give the MTU of the outer packet and bounds of the QUIC payload. The safe payload of a
family is what the MTU leaves behind the two headers.
-/

namespace Quicp

def minQuicPayload : UInt16 := 1200

def maxQuicPayload : UInt16 := 65527

inductive MssMode
  | auto
  | fixed (mss : UInt16)
  deriving DecidableEq, Repr

/-- `MtuConfig`, without the discovery mode, which no check reads; durations are nanoseconds. -/
structure MtuConfig where
  outerIpMtu : UInt16
  maxQuicPayload : Option UInt16
  initialQuicPayload : UInt16
  minQuicPayload : UInt16
  mss : MssMode
  pmtuUpperBound : Option UInt16
  pmtuInterval : ℕ
  pmtuMinimumChange : UInt16
  pmtuBlackHoleCooldown : ℕ
  deriving DecidableEq, Repr

/-- The errors of `ConfigError` that the MTU settings can have. -/
inductive MtuError
  | invalidOuterMtu (mtu : UInt16)
  | invalidPayload (name : String) (value : UInt16)
  | mtuOrdering (minimum initial : UInt16) (upper : Option UInt16)
  | payloadExceedsCarrier (payload maximum : UInt16)
  | invalidMss (mss maximum : UInt16)
  | zeroPmtuDuration
  | zeroPmtuChange
  deriving DecidableEq, Repr

def MtuError.returnWhen (error : MtuError) (condition : Prop) [Decidable condition] : Except MtuError Unit :=
  if condition then .error error else .ok ()

def validatePayload (name : String) (value : UInt16) : Except MtuError Unit :=
  MtuError.returnWhen (.invalidPayload name value) (¬(Quicp.minQuicPayload ≤ value ∧ value ≤ Quicp.maxQuicPayload))

namespace MtuConfig

def default : MtuConfig where
  outerIpMtu := 1500
  maxQuicPayload := none
  initialQuicPayload := Quicp.minQuicPayload
  minQuicPayload := Quicp.minQuicPayload
  mss := .auto
  pmtuUpperBound := none
  pmtuInterval := 600 * 10 ^ 9
  pmtuMinimumChange := 20
  pmtuBlackHoleCooldown := 60 * 10 ^ 9

def ordering (config : MtuConfig) (upper : Option UInt16) : MtuError :=
  .mtuOrdering config.minQuicPayload config.initialQuicPayload upper

def validate (config : MtuConfig) : Except MtuError Unit := do
  MtuError.returnWhen (.invalidOuterMtu config.outerIpMtu) (¬(1260 ≤ config.outerIpMtu ∧ config.outerIpMtu ≤ 65535))
  validatePayload "minimum QUIC payload" config.minQuicPayload
  validatePayload "initial QUIC payload" config.initialQuicPayload
  (config.ordering (config.pmtuUpperBound <|> config.maxQuicPayload)).returnWhen
    (config.minQuicPayload > config.initialQuicPayload)
  config.maxQuicPayload.forM fun maximum => do
    validatePayload "maximum QUIC payload" maximum
    (config.ordering (some maximum)).returnWhen (config.initialQuicPayload > maximum)
  config.pmtuUpperBound.forM fun upper => do
    validatePayload "PMTU upper bound" upper
    (config.ordering (some upper)).returnWhen
      (upper < config.initialQuicPayload ∨ config.maxQuicPayload.any fun maximum => upper > maximum)
  MtuError.zeroPmtuDuration.returnWhen (config.pmtuInterval = 0 ∨ config.pmtuBlackHoleCooldown = 0)
  MtuError.zeroPmtuChange.returnWhen (config.pmtuMinimumChange = 0)
  match config.mss with
  | .auto => .ok ()
  | .fixed mss => (MtuError.invalidMss mss Quicp.maxQuicPayload).returnWhen (mss = 0 ∨ mss > Quicp.maxQuicPayload)

/-- The error of a payload that is above what the carrier holds. -/
def exceedsCarrier (config : MtuConfig) (maximum : UInt16) : MtuError :=
  .payloadExceedsCarrier (max config.initialQuicPayload config.minQuicPayload) maximum

def safePayloadForFamily (config : MtuConfig) (ipv4 : Bool) : Except MtuError UInt16 := do
  let overhead : UInt16 := if ipv4 then 40 else 60
  (MtuError.invalidOuterMtu config.outerIpMtu).returnWhen (config.outerIpMtu < overhead)
  let safe := config.outerIpMtu - overhead
  let ceiling := config.maxQuicPayload.elim Quicp.maxQuicPayload fun configured => min configured Quicp.maxQuicPayload
  let effective := min safe ceiling
  (config.exceedsCarrier effective).returnWhen
    (effective < config.initialQuicPayload ∨ effective < config.minQuicPayload)
  match config.mss with
  | .auto => pure ()
  | .fixed mss => (MtuError.invalidMss mss safe).returnWhen (mss > safe)
  return effective

def staticPayloadCeiling (config : MtuConfig) (adapterMtu : Option UInt16) (rawFamilies : List Bool) :
    Except MtuError UInt16 := do
  let ceiling := config.maxQuicPayload.getD Quicp.maxQuicPayload
  let ceiling := adapterMtu.elim ceiling (min ceiling)
  let ceiling ← rawFamilies.foldlM (fun ceiling ipv4 => return min ceiling (← config.safePayloadForFamily ipv4)) ceiling
  let ceiling := config.pmtuUpperBound.elim ceiling (min ceiling)
  (config.exceedsCarrier ceiling).returnWhen
    (ceiling < config.initialQuicPayload ∨ ceiling < config.minQuicPayload)
  return ceiling

end MtuConfig

/-- What `configure_fake_tcp_paths` gives to a carrier: its tuple, cookie, MSS and outer MTU. -/
abbrev CarrierPath := FourTuple × SynDataMode × UInt16 × UInt16

/-- `configure_fake_tcp_paths`; the secret and the epoch were read before. -/
def configureFakeTcpPaths (hmac : List UInt8 → List UInt8 → Octets 32) (secret : List UInt8) (epoch : UInt64)
    (mtu : MtuConfig) (tuples : List FourTuple) : Except MtuError (List CarrierPath) :=
  tuples.mapM fun tuple => do
    let safeMss ← mtu.safePayloadForFamily tuple.source.isIpv4
    let synMss := match mtu.mss with
      | .auto => safeMss
      | .fixed mss => mss
    return (tuple, .cookie (issueSynCookie hmac secret tuple epoch), synMss, mtu.outerIpMtu)

theorem MtuError.returnWhen_eq_ok {error : MtuError} {condition : Prop} [Decidable condition] {result : Unit} :
    error.returnWhen condition = .ok result ↔ ¬condition := by
  unfold MtuError.returnWhen
  split_ifs with h
  · exact iff_of_false (by simp) (not_not.mpr h)
  · exact iff_of_true rfl h

namespace MtuConfig

variable {config : MtuConfig}

def overhead (ipv4 : Bool) : ℕ := if ipv4 then 40 else 60

theorem toNat_overhead (ipv4 : Bool) : (if ipv4 then 40 else 60 : UInt16).toNat = overhead ipv4 := by
  cases ipv4 <;> rfl

theorem validate_eq_ok (h : config.validate = .ok ()) :
    Quicp.minQuicPayload ≤ config.minQuicPayload ∧ config.mss ≠ .fixed 0 := by
  unfold validate at h
  obtain ⟨_, _, h⟩ := Reader.bind_eq_ok.mp h
  obtain ⟨_, hminimum, h⟩ := Reader.bind_eq_ok.mp h
  obtain ⟨_, _, h⟩ := Reader.bind_eq_ok.mp h
  obtain ⟨_, _, h⟩ := Reader.bind_eq_ok.mp h
  obtain ⟨_, _, h⟩ := Reader.bind_eq_ok.mp h
  obtain ⟨_, _, h⟩ := Reader.bind_eq_ok.mp h
  obtain ⟨_, _, h⟩ := Reader.bind_eq_ok.mp h
  obtain ⟨_, _, h⟩ := Reader.bind_eq_ok.mp h
  refine ⟨(not_not.mp (MtuError.returnWhen_eq_ok.mp hminimum)).1, fun hfixed => ?_⟩
  rw [hfixed] at h
  exact MtuError.returnWhen_eq_ok.mp h (.inl rfl)

theorem validate_default : default.validate = .ok () := by decide

theorem safePayloadForFamily_eq_ok {ipv4 : Bool} {safe : UInt16} (h : config.safePayloadForFamily ipv4 = .ok safe) :
    overhead ipv4 + safe.toNat ≤ config.outerIpMtu.toNat ∧ config.minQuicPayload ≤ safe ∧
      ∀ mss, config.mss = .fixed mss → overhead ipv4 + mss.toNat ≤ config.outerIpMtu.toNat := by
  unfold safePayloadForFamily at h
  obtain ⟨_, houter, h⟩ := Reader.bind_eq_ok.mp h
  obtain ⟨_, hpayload, h⟩ := Reader.bind_eq_ok.mp h
  have hle := UInt16.not_lt.mp (MtuError.returnWhen_eq_ok.mp houter)
  have hroom := UInt16.toNat_sub_of_le _ _ hle
  have hbytes := UInt16.le_iff_toNat_le.mp hle
  rw [toNat_overhead] at hroom hbytes
  obtain ⟨hmss, rfl⟩ : (∀ mss, config.mss = .fixed mss → mss ≤ config.outerIpMtu - if ipv4 then 40 else 60) ∧
      min (config.outerIpMtu - if ipv4 then 40 else 60) (config.maxQuicPayload.elim Quicp.maxQuicPayload
        fun configured => min configured Quicp.maxQuicPayload) = safe := by
    cases hmode : config.mss with
    | auto =>
      rw [hmode] at h
      exact ⟨fun mss hmss => (nomatch hmss), Except.ok.inj h⟩
    | fixed mss =>
      rw [hmode] at h
      obtain ⟨_, hmss, h⟩ := Reader.bind_eq_ok.mp h
      refine ⟨fun mss' heq => ?_, Except.ok.inj h⟩
      obtain rfl := MssMode.fixed.inj heq
      exact UInt16.not_lt.mp (MtuError.returnWhen_eq_ok.mp hmss)
  have hpayload := (not_or.mp (MtuError.returnWhen_eq_ok.mp hpayload)).2
  have hsafe := UInt16.le_iff_toNat_le.mp (show min (config.outerIpMtu - if ipv4 then 40 else 60) _ ≤ _ from
    Std.min_le_left (b := config.maxQuicPayload.elim Quicp.maxQuicPayload
      fun configured => min configured Quicp.maxQuicPayload))
  refine ⟨by omega, UInt16.not_lt.mp hpayload, fun mss hfixed => ?_⟩
  have hfits := UInt16.le_iff_toNat_le.mp (hmss mss hfixed)
  omega

private theorem foldlM_safePayload {families : List Bool} {start ceiling : UInt16}
    (h : families.foldlM (fun ceiling ipv4 => return min ceiling (← config.safePayloadForFamily ipv4)) start =
      .ok ceiling) :
    ceiling ≤ start ∧ ∀ ipv4 ∈ families, ∃ safe, config.safePayloadForFamily ipv4 = .ok safe ∧ ceiling ≤ safe := by
  induction families generalizing start with
  | nil =>
    obtain rfl : start = ceiling := Except.ok.inj h
    exact ⟨UInt16.le_refl _, by simp⟩
  | cons first rest ih =>
    rw [List.foldlM_cons] at h
    obtain ⟨lower, hlower, hrest⟩ := Reader.bind_eq_ok.mp h
    obtain ⟨safe, hsafe, hmin⟩ := Reader.bind_eq_ok.mp hlower
    obtain rfl : min start safe = lower := Except.ok.inj hmin
    obtain ⟨hceiling, hfamilies⟩ := ih hrest
    refine ⟨UInt16.le_trans hceiling Std.min_le_left, fun ipv4 hmem => ?_⟩
    rcases List.mem_cons.mp hmem with rfl | hmem
    · exact ⟨safe, hsafe, UInt16.le_trans hceiling Std.min_le_right⟩
    · exact hfamilies ipv4 hmem

theorem staticPayloadCeiling_eq_ok {adapterMtu : Option UInt16} {families : List Bool} {ceiling : UInt16}
    (h : config.staticPayloadCeiling adapterMtu families = .ok ceiling) : config.minQuicPayload ≤ ceiling ∧
      ∀ ipv4 ∈ families, ∃ safe, config.safePayloadForFamily ipv4 = .ok safe ∧ ceiling ≤ safe := by
  unfold staticPayloadCeiling at h
  obtain ⟨lower, hlower, h⟩ := Reader.bind_eq_ok.mp h
  obtain ⟨_, hpayload, h⟩ := Reader.bind_eq_ok.mp h
  obtain rfl := Except.ok.inj h
  obtain ⟨_, hfamilies⟩ := foldlM_safePayload hlower
  have hupper : config.pmtuUpperBound.elim lower (min lower) ≤ lower := by
    cases config.pmtuUpperBound with
    | none => exact UInt16.le_refl _
    | some upper => exact Std.min_le_left
  refine ⟨UInt16.not_lt.mp (not_or.mp (MtuError.returnWhen_eq_ok.mp hpayload)).2, fun ipv4 hmem => ?_⟩
  obtain ⟨safe, hsafe, hle⟩ := hfamilies ipv4 hmem
  exact ⟨safe, hsafe, UInt16.le_trans hupper hle⟩

end MtuConfig

theorem configureFakeTcpPaths_eq_ok {hmac : List UInt8 → List UInt8 → Octets 32} {secret : List UInt8} {epoch : UInt64}
    {mtu : MtuConfig} (hvalid : mtu.validate = .ok ()) {tuples : List FourTuple} {paths : List CarrierPath}
    (h : configureFakeTcpPaths hmac secret epoch mtu tuples = .ok paths) {path : CarrierPath} (hpath : path ∈ paths) :
    ∃ tuple mss, path = (tuple, .cookie (issueSynCookie hmac secret tuple epoch), mss, mtu.outerIpMtu) ∧ mss ≠ 0 ∧
      MtuConfig.overhead tuple.source.isIpv4 + mss.toNat ≤ mtu.outerIpMtu.toNat := by
  unfold configureFakeTcpPaths at h
  induction tuples generalizing paths with
  | nil =>
    obtain rfl := Except.ok.inj h
    cases hpath
  | cons tuple rest ih =>
    rw [List.mapM_cons] at h
    obtain ⟨first, hfirst, h⟩ := Reader.bind_eq_ok.mp h
    obtain ⟨others, hothers, h⟩ := Reader.bind_eq_ok.mp h
    obtain rfl := Except.ok.inj h
    rcases List.mem_cons.mp hpath with rfl | hpath
    · obtain ⟨safe, hsafe, hpath⟩ := Reader.bind_eq_ok.mp hfirst
      obtain rfl := Except.ok.inj hpath
      obtain ⟨hroom, hminimum, hmss⟩ := MtuConfig.safePayloadForFamily_eq_ok hsafe
      obtain ⟨hpayload, hfixed⟩ := MtuConfig.validate_eq_ok hvalid
      refine ⟨tuple, _, rfl, ?_⟩
      cases hmode : mtu.mss with
      | auto =>
        refine ⟨?_, hroom⟩
        rintro rfl
        exact absurd (UInt16.le_trans hpayload hminimum) (by decide)
      | fixed mss =>
        refine ⟨?_, hmss mss hmode⟩
        rintro rfl
        exact hfixed hmode
    · exact ih hothers hpath

namespace FakeTcpCarrier

theorem newWithMtu_eq_ok (crc32c : List UInt8 → UInt32) (random : UInt32) {tuple : FourTuple}
    (htuple : tuple.validate = .ok ()) (direction : CarrierDirection) (synData : SynDataMode) {mss mtu : UInt16}
    (hmss : mss ≠ 0) (hroom : MtuConfig.overhead tuple.source.isIpv4 + mss.toNat ≤ mtu.toNat) :
    ∃ carrier, newWithMtu crc32c (some random) tuple direction synData mss mtu = .ok carrier ∧
      carrier.tuple = tuple ∧ carrier.synData = synData ∧ carrier.outerMtu = mtu := by
  have hsum := validatedPseudoHeaderPrefix_of_validate htuple
  have hheader : (UInt16.ofNat ((if tuple.source.isIpv4 then ipv4HeaderBytes else ipv6HeaderBytes) +
      tcpHeaderBytes)).toNat = MtuConfig.overhead tuple.source.isIpv4 := by
    cases tuple.source.isIpv4 <;> rfl
  unfold newWithMtu
  split
  · next error hinvalid => cases hinvalid.symm.trans hsum
  · next hinvalid => cases hinvalid.symm.trans hsum
  · next pseudo hvalid =>
    dsimp only
    rw [if_neg, if_neg]
    · exact ⟨_, rfl, rfl, rfl, rfl⟩
    · rintro (hzero | hlarge)
      · exact hmss hzero
      · rw [gt_iff_lt, UInt16.lt_iff_toNat_lt, UInt16.toNat_sub_of_le, hheader] at hlarge
        · omega
        · rw [UInt16.le_iff_toNat_le, hheader]
          omega
    · rw [UInt16.lt_iff_toNat_lt, hheader]
      omega

theorem length_synOptions (mss : UInt16) (cookie : Octets 16) :
    (TcpOptions.forSynWithMss mss (some cookie.toList)).encoded.length = 28 := by
  have hcookie : cookie.toList.length = 16 := cookie.toList_length
  simp [TcpOptions.encoded, TcpOptions.body, TcpOptions.mssBytes, TcpOptions.sackBytes, TcpOptions.timestampBytes,
    TcpOptions.scaleBytes, TcpOptions.cookieBytes, TcpOptions.cookie, TcpOptions.forSynWithMss, padding, hcookie]

variable {carrier : FakeTcpCarrier} {cookie : Octets 16}

/-- The bytes of options that the next packet of a carrier goes out with. -/
def nextOptionBytes (carrier : FakeTcpCarrier) : ℕ := if carrier.sentSyn then 0 else 28

theorem first_nextKind (carrier : FakeTcpCarrier) (direction : CarrierDirection) :
    (carrier.nextKind direction).first = !carrier.sentSyn := by
  unfold nextKind
  cases carrier.sentSyn <;> cases direction <;> rfl

theorem options_next (hmode : carrier.synData = .cookie cookie) (direction : CarrierDirection) :
    let kind := carrier.nextKind direction
    carrier.options kind.flags (kind.cookie carrier.synData) =
      if carrier.sentSyn then .default else .forSynWithMss carrier.synMss (some cookie.toList) := by
  intro kind
  rw [options, PacketKind.isSyn_flags, hmode, PacketKind.cookie, carrier.first_nextKind direction]
  cases carrier.sentSyn <;> rfl

theorem ready_next_iff (hmode : carrier.synData = .cookie cookie) (direction : CarrierDirection)
    {datagram output : List UInt8} (houtput : carrier.outerMtu.toNat ≤ output.length) :
    Call.Ready ⟨carrier.nextKind direction, datagram, some output⟩ carrier ↔ datagram.length ≤ maxDatagramBytes ∧
      MtuConfig.overhead carrier.tuple.source.isIpv4 + carrier.nextOptionBytes + datagram.length ≤
        carrier.outerMtu.toNat := by
  have hlength : (Call.fields ⟨carrier.nextKind direction, datagram, some output⟩ carrier).packetLength =
      MtuConfig.overhead carrier.tuple.source.isIpv4 + carrier.nextOptionBytes + datagram.length := by
    have hheaders : (if carrier.tuple.source.isIpv4 then ipv4HeaderBytes else ipv6HeaderBytes) + tcpHeaderBytes =
        MtuConfig.overhead carrier.tuple.source.isIpv4 := by
      cases carrier.tuple.source.isIpv4 <;> rfl
    have hbytes : (carrier.options (carrier.nextKind direction).flags
        ((carrier.nextKind direction).cookie carrier.synData)).encoded.length = carrier.nextOptionBytes := by
      rw [options_next hmode, nextOptionBytes]
      split_ifs
      · rfl
      · exact length_synOptions carrier.synMss cookie
    rw [← hheaders, ← hbytes, Nat.add_assoc, Nat.add_assoc, PacketFields.packetLength, PacketFields.tcpLength,
      PacketFields.headerLength, Nat.add_assoc]
    rfl
  constructor
  · intro h
    exact ⟨h.fits.datagramFits, hlength ▸ h.fits.packetFits⟩
  · rintro ⟨hdatagram, hfits⟩
    refine ⟨fun hfirst => ⟨?_, cookie, hmode⟩, ⟨hdatagram, ?_, hlength ▸ hfits⟩, ?_⟩
    · simpa [carrier.first_nextKind direction] using hfirst
    · rw [options_next hmode]
      split_ifs
      · rintro entry ⟨⟩
      · rintro entry ⟨⟩
        exact cookie.toList_length.le
    · rintro buffer ⟨⟩
      rw [hlength]
      exact hfits.trans houtput

theorem encodeNextDatagramInto_iff (hmode : carrier.synData = .cookie cookie) (direction : CarrierDirection)
    {datagram output : List UInt8} (houtput : carrier.outerMtu.toNat ≤ output.length) :
    (∃ length output' next, carrier.encodeNextDatagramInto direction datagram output = (.ok length, output', next) ∧
      length ≤ carrier.outerMtu.toNat) ↔ datagram.length ≤ maxDatagramBytes ∧
        MtuConfig.overhead carrier.tuple.source.isIpv4 + carrier.nextOptionBytes + datagram.length ≤
          carrier.outerMtu.toNat := by
  rw [← ready_next_iff hmode direction houtput]
  obtain ⟨hready, hencoded⟩ | ⟨hrefused, error, output', herror⟩ :=
    carrier.encodeNextDatagramInto_cases direction datagram output
  · exact iff_of_true ⟨_, _, _, hencoded, hready.fits.packetFits⟩ hready
  · refine iff_of_false ?_ hrefused
    rintro ⟨length, output'', next, hencoded, _⟩
    cases herror.symm.trans hencoded

end FakeTcpCarrier

/-- On every path that the settings give, the datagrams up to the payload ceiling all make packets within the outer MTU,
as first packets and as later ones, exactly when the ceiling leaves room for the options of a first packet. Later
packets with a datagram that a carrier takes at all are within it in any case. -/
theorem payload_ceiling_fits_iff {config : MtuConfig} (hvalid : config.validate = .ok ())
    {hmac : List UInt8 → List UInt8 → Octets 32} {secret : List UInt8} {epoch : UInt64} {tuples : List FourTuple}
    {paths : List CarrierPath} (hpaths : configureFakeTcpPaths hmac secret epoch config tuples = .ok paths)
    {tuple : FourTuple} {synData : SynDataMode} {mss mtu : UInt16} (hpath : (tuple, synData, mss, mtu) ∈ paths)
    (htuple : tuple.validate = .ok ()) {adapterMtu : Option UInt16} {families : List Bool} {ceiling : UInt16}
    (hceiling : config.staticPayloadCeiling adapterMtu families = .ok ceiling)
    (hfamily : tuple.source.isIpv4 ∈ families) (crc32c : List UInt8 → UInt32) (random : UInt32)
    (direction : CarrierDirection) :
    ∃ carrier, FakeTcpCarrier.newWithMtu crc32c (some random) tuple direction synData mss mtu = .ok carrier ∧
      ((∀ (sendSequence acknowledgment : UInt32) (sentSyn : Bool) (datagram output : List UInt8),
        1 ≤ datagram.length → datagram.length ≤ ceiling.toNat → config.outerIpMtu.toNat ≤ output.length →
          ∃ length output' next, { carrier with sendSequence, acknowledgment, sentSyn }.encodeNextDatagramInto direction
            datagram output = (.ok length, output', next) ∧ length ≤ config.outerIpMtu.toNat) ↔
        MtuConfig.overhead tuple.source.isIpv4 + 28 + ceiling.toNat ≤ config.outerIpMtu.toNat) ∧
      ∀ (sendSequence acknowledgment : UInt32) (datagram output : List UInt8), datagram.length ≤ ceiling.toNat →
        datagram.length ≤ maxDatagramBytes → config.outerIpMtu.toNat ≤ output.length →
          ∃ length output' next, { carrier with sendSequence, acknowledgment, sentSyn := true }.encodeNextDatagramInto
            direction datagram output = (.ok length, output', next) ∧ length ≤ config.outerIpMtu.toNat := by
  obtain ⟨tuple', mss', hsame, hmss, hroom⟩ := configureFakeTcpPaths_eq_ok hvalid hpaths hpath
  obtain ⟨rfl, rfl, rfl, rfl⟩ : tuple = tuple' ∧ synData = .cookie (issueSynCookie hmac secret tuple epoch) ∧
      mss = mss' ∧ mtu = config.outerIpMtu := by
    simp_all
  obtain ⟨carrier, hnew, rfl, hmode, houter⟩ :=
    FakeTcpCarrier.newWithMtu_eq_ok crc32c random htuple direction
      (.cookie (issueSynCookie hmac secret tuple epoch)) hmss hroom
  obtain ⟨hminimum, hfamilies⟩ := MtuConfig.staticPayloadCeiling_eq_ok hceiling
  have hiff : ∀ (sendSequence acknowledgment : UInt32) (sentSyn : Bool) {datagram output : List UInt8},
      config.outerIpMtu.toNat ≤ output.length → ((∃ length output' next,
        { carrier with sendSequence, acknowledgment, sentSyn }.encodeNextDatagramInto direction datagram output =
          (.ok length, output', next) ∧ length ≤ config.outerIpMtu.toNat) ↔ datagram.length ≤ maxDatagramBytes ∧
            MtuConfig.overhead carrier.tuple.source.isIpv4 + (if sentSyn then 0 else 28) + datagram.length ≤
              config.outerIpMtu.toNat) := by
    rw [← houter]
    intro sendSequence acknowledgment sentSyn datagram output houtput
    exact FakeTcpCarrier.encodeNextDatagramInto_iff
      (show { carrier with sendSequence, acknowledgment, sentSyn }.synData = _ from hmode) direction houtput
  refine ⟨carrier, hnew, ⟨fun hall => ?_, ?_⟩, ?_⟩
  · have hone : (1200 : ℕ) ≤ ceiling.toNat :=
      UInt16.le_iff_toNat_le.mp (UInt16.le_trans (MtuConfig.validate_eq_ok hvalid).1 hminimum)
    have houtput : config.outerIpMtu.toNat ≤ (List.replicate config.outerIpMtu.toNat (0 : UInt8)).length :=
      List.length_replicate.ge
    have hlargest := (hiff 0 0 false houtput).mp (hall 0 0 false (List.replicate ceiling.toNat 0) _
      (by rw [List.length_replicate]; omega) List.length_replicate.le houtput)
    rw [List.length_replicate] at hlargest
    exact hlargest.2
  · intro hoptions sendSequence acknowledgment sentSyn datagram output _ hlength houtput
    have hmtu := config.outerIpMtu.toNat_lt
    have hheaders : 40 ≤ MtuConfig.overhead carrier.tuple.source.isIpv4 := by
      cases carrier.tuple.source.isIpv4 <;> decide
    have hlimit : maxDatagramBytes = 65475 := rfl
    refine (hiff sendSequence acknowledgment sentSyn houtput).mpr ⟨by omega, ?_⟩
    split_ifs <;> omega
  · intro sendSequence acknowledgment datagram output hlength hdatagram houtput
    obtain ⟨safe, hsafe, hle⟩ := hfamilies _ hfamily
    have hwithin := (MtuConfig.safePayloadForFamily_eq_ok hsafe).1
    have hbelow := UInt16.le_iff_toNat_le.mp hle
    exact (hiff sendSequence acknowledgment true houtput).mpr ⟨hdatagram, by rw [if_pos rfl]; omega⟩

private def plainTuple : FourTuple := .sample

private def zeroHash (_ _ : List UInt8) : Octets 32 := List.Vector.replicate 32 0

private def plainPath : CarrierPath := (plainTuple, .cookie (List.Vector.replicate 16 0), 1460, 1500)

private def boundedMtu : MtuConfig := { MtuConfig.default with pmtuUpperBound := some 1432 }

theorem payload_ceiling_fits_bounded :
    boundedMtu.staticPayloadCeiling none [true] = .ok 1432 ∧
      ∃ carrier, FakeTcpCarrier.newWithMtu (fun _ => 0) (some 7) plainTuple .clientToServer plainPath.2.1 1460 1500 =
        .ok carrier ∧ ∃ length output' next, carrier.encodeNextDatagramInto .clientToServer (List.replicate 1432 0)
          (List.replicate 1500 0) = (.ok length, output', next) ∧ length ≤ 1500 := by
  have hceiling : boundedMtu.staticPayloadCeiling none [true] = .ok 1432 := by decide
  have hpaths : configureFakeTcpPaths zeroHash [] 0 boundedMtu [plainTuple] = .ok [plainPath] := by decide +kernel
  obtain ⟨carrier, hnew, hall, _⟩ := payload_ceiling_fits_iff (show boundedMtu.validate = .ok () by decide) hpaths
    List.mem_cons_self (by decide) hceiling (List.mem_singleton.mpr rfl) (fun _ => 0) 7 .clientToServer
  refine ⟨hceiling, carrier, hnew, ?_⟩
  exact hall.mpr (by decide) carrier.sendSequence carrier.acknowledgment carrier.sentSyn _ _
    (by rw [List.length_replicate]; decide) (by rw [List.length_replicate]; decide) (by rw [List.length_replicate]; decide)

/-- With the default settings a datagram of the payload ceiling is refused as the first packet: it would be 1528 bytes. -/
theorem payload_ceiling_exceeds :
    MtuConfig.default.validate = .ok () ∧ MtuConfig.default.staticPayloadCeiling none [true] = .ok 1460 ∧
      configureFakeTcpPaths zeroHash [] 0 .default [plainTuple] = .ok [plainPath] ∧
      ∃ carrier, FakeTcpCarrier.newWithMtu (fun _ => 0) (some 7) plainTuple .clientToServer plainPath.2.1 1460 1500 =
        .ok carrier ∧ (carrier.encodeNextDatagramInto .clientToServer (List.replicate 1460 0)
          (List.replicate 1528 0)).1 = .err .packetTooLarge := by
  refine ⟨by decide, by decide, by decide +kernel,
    .fromParts plainTuple 5129 plainPath.2.1 7 1460 1500 (by decide +kernel), by decide +kernel, by decide +kernel⟩

end Quicp
