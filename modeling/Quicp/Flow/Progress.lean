import Quicp.Flow.SenderInv

/-!
# When the sender makes progress

With nothing to replay, no acknowledgement will ever release anything, so the next call of `process_outbound` has to
hand over something.
-/

namespace Quicp

theorem ReplayBuffer.retain_of_empty {replay : ReplayBuffer} {chunk : Outbound}
    (hempty : replay.chunks.entries = []) (hzero : replay.bytes = 0) (hbytes : chunk.bytes ≠ [])
    (hwire : chunk.stop ≤ maxWireOffset) (hroom : chunk.bytes.length ≤ replay.maxBytes)
    (hchunks : 0 < replay.maxChunks) :
    ∃ next, replay.retain chunk.offset chunk.bytes = .ok next ∧ next.chunks.entries = [chunk.segment] := by
  have hlength : replay.chunks.length = 0 := by rw [OrderedMap.length, hempty]; rfl
  refine ⟨_, retain_of_room hbytes hwire (by omega) (by omega) (by rw [hempty]; simp), ?_⟩
  simp only [OrderedMap.insert, hempty]
  rfl

namespace Flow

/-- The flow sends datagrams: neither it nor its connection has given them up. -/
def sendsDatagrams (s : Flow) : Bool := s.task.datagramEnabled && s.connection.datagramEnabled

def payloadLimit (s : Flow) (maxDatagramSize : Option ℕ) : ℕ :=
  if s.sendsDatagrams then s.connection.maxSourcePayload maxDatagramSize else s.connection.maxStreamPayload

/-- A chunk was handed over: it is all that the replay buffer holds, and it went to the datagram queue or
waits as stream data. -/
def HandsOver (s : Flow) (chunk : Outbound) (t : Flow) : Prop :=
  t.task.replay.chunks.entries = [chunk.segment] ∧
    (t.history.sources = s.history.sources ++ [⟨s.flowId, chunk.offset, false, chunk.bytes⟩] ∨
      t.task.wireQueue = s.task.wireQueue ++ [⟨.streamData chunk.offset false chunk.bytes,
        encodeControl (.streamData chunk.offset false chunk.bytes), some chunk.stop, none⟩])

/-- A call of `process_outbound` returns true and hands over a byte or more from the front chunk. -/
def Progresses (s : Flow) (front : Outbound) (maxDatagramSize : Option ℕ) : Prop :=
  (s.processOutbound maxDatagramSize).2 = .done true ∧
    ∃ bytes, bytes ≠ [] ∧ bytes <+: front.bytes ∧
      s.HandsOver ⟨front.offset, bytes⟩ (s.processOutbound maxDatagramSize).1

/-- The flow with its front chunk in hand, knowing whether datagrams are on. -/
def taking (s : Flow) (front : Outbound) (rest : List Outbound) : Flow :=
  { s with
    shared := { s.shared with outbound := rest }
    task := { s.task with datagramEnabled := s.sendsDatagrams }
    phase := .taken front }

variable {s : Flow} {front chunk : Outbound} {rest : List Outbound} {maxDatagramSize : Option ℕ}

theorem takeOutbound_of_front (h : s.shared.outbound = front :: rest) :
    s.takeOutbound = (s.taking front rest, .next) := by
  have hnotice : s.noticeDatagrams s.connection.datagramEnabled =
      { s with task := { s.task with datagramEnabled := s.sendsDatagrams } } := by
    obtain ⟨flowId, shared, task, phase, ⟨enabled, _⟩, budget, history⟩ := s
    obtain ⟨_, _, _, _, _, _, flowEnabled, _⟩ := task
    cases flowEnabled <;> cases enabled <;> rfl
  unfold takeOutbound
  rw [hnotice]
  dsimp only
  rw [h]
  rfl

theorem cutOutbound_taking (hcredit : front.offset < s.shared.peerMaxOffset)
    (hpayload : s.sendsDatagrams = true → 0 < s.connection.maxSourcePayload maxDatagramSize) :
    (s.taking front rest).cutOutbound maxDatagramSize = (s.taking front rest).splitOutbound front
      (min (min (s.payloadLimit maxDatagramSize) (s.shared.peerMaxOffset - front.offset))
        front.bytes.length) := by
  have hpositive : ((s.taking front rest).task.datagramEnabled &&
      decide (s.connection.maxSourcePayload maxDatagramSize = 0)) = false := by
    change (s.sendsDatagrams && _) = false
    cases hsends : s.sendsDatagrams with
    | false => rfl
    | true => simpa using (hpayload hsends).ne'
  change (if front.offset ≥ s.shared.peerMaxOffset then _ else _) = _
  rw [if_neg (by omega)]
  exact if_neg (by rw [Bool.not_eq_true]; exact hpositive)

theorem sendOutbound_of_cut (hphase : s.phase = .cut chunk) (hbytes : chunk.bytes ≠ [])
    (hwire : chunk.stop ≤ maxWireOffset) (hempty : s.task.replay.chunks.entries = [])
    (hzero : s.task.replay.bytes = 0) (hroom : chunk.bytes.length ≤ s.task.replay.maxBytes)
    (hchunks : 0 < s.task.replay.maxChunks)
    (hqueue : s.task.datagramEnabled = true → s.connection.datagramEnabled = true ∧
      s.connection.pending.length < s.connection.capacity) :
    (andThen s.sendOutbound flushOutbound).2 = .done true ∧
      s.HandsOver chunk (andThen s.sendOutbound flushOutbound).1 := by
  obtain ⟨next, hretain, hentries⟩ := ReplayBuffer.retain_of_empty hempty hzero hbytes hwire hroom hchunks
  have hsum : checkedAdd chunk.offset chunk.bytes.length = some chunk.stop :=
    if_pos (le_trans hwire (by decide : maxWireOffset ≤ wordMax))
  unfold sendOutbound
  rw [hphase]
  dsimp only
  rw [hsum]
  dsimp only
  by_cases hdatagrams : s.task.datagramEnabled = true
  · have hsend : (s.connection.sendSource ⟨s.flowId, chunk.offset, false, chunk.bytes⟩).1 = .ok true :=
      Connection.sendSource_of_room (hqueue hdatagrams).1 (hqueue hdatagrams).2 hbytes hwire
    rw [if_pos hdatagrams]
    generalize s.connection.sendSource ⟨s.flowId, chunk.offset, false, chunk.bytes⟩ = result at hsend ⊢
    obtain ⟨outcome, connection⟩ := result
    obtain rfl : outcome = .ok true := hsend
    have hsent : (s.sourceQueued connection ⟨s.flowId, chunk.offset, false, chunk.bytes⟩).task.replay.retain
      chunk.offset chunk.bytes = .ok next := hretain
    simp only [retainSent, hsent]
    exact ⟨rfl, hentries, Or.inl rfl⟩
  · rw [if_neg hdatagrams]
    simp only [sendStreamData, hretain]
    exact ⟨rfl, hentries, Or.inr rfl⟩

theorem processOutbound_of_cut {t : Flow} (houtbound : s.shared.outbound = front :: rest)
    (hcut : (s.taking front rest).cutOutbound maxDatagramSize = (t, .next)) :
    s.processOutbound maxDatagramSize = andThen t.sendOutbound flushOutbound := by
  unfold processOutbound
  rw [takeOutbound_of_front houtbound]
  change andThen (andThen ((s.taking front rest).cutOutbound maxDatagramSize) sendOutbound) flushOutbound = _
  rw [hcut]
  rfl

theorem progresses_of_cut {bytes : List UInt8} {shared : FlowShared} (hinv : s.sender.Inv) (hlive : s.Live)
    (hidle : s.phase = .idle) (houtbound : s.shared.outbound = front :: rest)
    (hreplay : s.task.replay.bytes = 0)
    (hqueue : s.sendsDatagrams = true → s.connection.pending.length < s.connection.capacity)
    (hbytes : bytes ≠ []) (hinitial : bytes <+: front.bytes)
    (hcredit : front.offset + bytes.length ≤ s.shared.peerMaxOffset)
    (hcut : (s.taking front rest).cutOutbound maxDatagramSize =
      ({ s.taking front rest with shared := shared, phase := .cut ⟨front.offset, bytes⟩ }, .next)) :
    s.Progresses front maxDatagramSize := by
  have hpending : s.sender.pending = front :: rest := by
    rw [Sender.pending, Flow.sender, hidle]
    exact houtbound
  have haccount := hinv.accounted (by simp [Flow.sender, hlive.1, hlive.2])
  have hretained := haccount.bytes.symm.trans_le haccount.bytesLimit
  have hcount := haccount.chunks.symm.trans_le haccount.chunksLimit
  have hroom : bytes.length ≤ s.task.replay.maxBytes := by
    rw [hpending, pendingBytes, List.map_cons, List.sum_cons, ← haccount.maxBytes] at hretained
    have hshort := hinitial.length_le
    change _ ≤ s.task.replay.maxBytes at hretained
    omega
  have hchunks : 0 < s.task.replay.maxChunks := by
    rw [hpending, List.length_cons, ← haccount.maxChunks] at hcount
    change _ ≤ s.task.replay.maxChunks at hcount
    omega
  have hsent := sendOutbound_of_cut
    (s := { s.taking front rest with shared := shared, phase := .cut ⟨front.offset, bytes⟩ }) rfl hbytes
    (hcredit.trans hinv.framed.onWire) (hinv.placed.wellFormed.bytes_eq_zero.mp hreplay) hreplay hroom hchunks
    (fun hsends => ⟨(Bool.and_eq_true_iff.mp hsends).2, hqueue hsends⟩)
  rw [← processOutbound_of_cut houtbound hcut] at hsent
  exact ⟨hsent.1, bytes, hbytes, hinitial, hsent.2⟩

end Flow

/-- A live sender with nothing to replay, credit for its front chunk and a way to send hands something over
exactly if the front chunk can go out whole or the chunk limit has room for its second half. -/
theorem progresses_iff {s : Flow} (h : Reachable Flow.Initial Flow.Step s) (hlive : s.Live)
    (hidle : s.phase = .idle) {front : Outbound} {rest : List Outbound}
    (houtbound : s.shared.outbound = front :: rest) (hreplay : s.task.replay.bytes = 0)
    (hcredit : front.offset < s.shared.peerMaxOffset) (maxDatagramSize : Option ℕ)
    (hqueue : s.sendsDatagrams = true → s.connection.pending.length < s.connection.capacity ∧
      0 < s.connection.maxSourcePayload maxDatagramSize) :
    s.Progresses front maxDatagramSize ↔
      front.bytes.length ≤ min (s.payloadLimit maxDatagramSize) (s.shared.peerMaxOffset - front.offset) ∨
        s.shared.retainedChunks < s.shared.replayChunkLimit := by
  have hinv := Flow.inv_of_reachable h
  have hfront : front.bytes ≠ [] := by
    refine (hinv.placed.parts front (List.mem_append_right _ ?_)).1
    rw [show s.sender.outbound = front :: rest from houtbound]
    exact List.mem_cons_self
  have hpayload : 0 < s.payloadLimit maxDatagramSize := by
    unfold Flow.payloadLimit
    split_ifs with hsends
    · exact (hqueue hsends).2
    · exact s.connection.maxStreamPayload_pos
  have hcut : (s.taking front rest).cutOutbound maxDatagramSize = _ :=
    Flow.cutOutbound_taking hcredit fun hsends => (hqueue hsends).2
  have hwire : s.shared.peerMaxOffset ≤ wordMax := hinv.framed.onWire.trans (by decide)
  generalize hlimit : min (s.payloadLimit maxDatagramSize) (s.shared.peerMaxOffset - front.offset) = limit at hcut ⊢
  have hpositive : 0 < limit := by omega
  by_cases hwhole : front.bytes.length ≤ limit
  · refine iff_of_true ?_ (Or.inl hwhole)
    rw [min_eq_right hwhole, Flow.splitOutbound, if_neg (lt_irrefl _)] at hcut
    exact Flow.progresses_of_cut hinv hlive hidle houtbound hreplay (fun hsends => (hqueue hsends).1) hfront
      List.prefix_rfl (by omega) hcut
  · have hsum : checkedAdd front.offset limit = some (front.offset + limit) := if_pos (by omega)
    rw [min_eq_left (by omega), Flow.splitOutbound, if_pos (by omega), hsum] at hcut
    change _ = (if s.shared.retainedChunks ≥ s.shared.replayChunkLimit then _ else _) at hcut
    by_cases hroom : s.shared.retainedChunks < s.shared.replayChunkLimit
    · refine iff_of_true ?_ (Or.inr hroom)
      rw [if_neg (not_le.mpr hroom)] at hcut
      refine Flow.progresses_of_cut hinv hlive hidle houtbound hreplay (fun hsends => (hqueue hsends).1) ?_
        (List.take_prefix limit front.bytes) ?_ hcut
      · simpa using ⟨hpositive.ne', hfront⟩
      · rw [List.length_take]
        omega
    · refine iff_of_false (fun hprogress => ?_) (by simp [hwhole, hroom])
      rw [if_pos (not_lt.mp hroom)] at hcut
      have hstuck : (s.processOutbound maxDatagramSize).2 = .done false := by
        unfold Flow.processOutbound
        rw [Flow.takeOutbound_of_front houtbound]
        change (Flow.andThen (Flow.andThen ((s.taking front rest).cutOutbound maxDatagramSize) _) _).2 = _
        rw [hcut]
        rfl
      rw [hprogress.1] at hstuck
      cases hstuck

def longThenShort (length : ℕ) : List FlowAction :=
  .enqueue (List.replicate length 0) :: List.replicate 7 (.enqueue [1]) ++ [.control (.maxOffset 100)]

theorem progresses_iff_full :
    ((Flow.sample false).run (longThenShort 16)).Progresses ⟨0, List.replicate 16 0⟩ none := by
  have hrun : Reachable.Permits Flow.Allows Flow.apply (Flow.sample false) (longThenShort 16) := by
    decide +kernel
  exact (progresses_iff (Reachable.run (fun _ _ h => ⟨h, rfl⟩) (.start (Flow.sample_initial false)) hrun)
    ⟨by decide +kernel, by decide +kernel⟩ (by decide +kernel) rfl (by decide +kernel) (by decide +kernel)
    none (by decide +kernel)).mpr (Or.inl (by decide +kernel))

/-- One byte more than a payload at the front, with the chunk limit reached, is put back although nothing is left to
replay. -/
theorem wedged_sender :
    ∃ (s : Flow) (front : Outbound) (rest : List Outbound), Reachable Flow.Initial Flow.Step s ∧ s.Live ∧
      s.phase = .idle ∧ s.shared.outbound = front :: rest ∧ s.task.replay.bytes = 0 ∧
      front.offset < s.shared.peerMaxOffset ∧ s.sendsDatagrams = false ∧
      (s.processOutbound none).2 = .done false := by
  have hrun : Reachable.Permits Flow.Allows Flow.apply (Flow.sample false) (longThenShort 17) := by
    decide +kernel
  refine ⟨_, _, _, Reachable.run (fun _ _ h => ⟨h, rfl⟩) (.start (Flow.sample_initial false)) hrun,
    ⟨by decide +kernel, by decide +kernel⟩, by decide +kernel, rfl, ?_⟩
  decide +kernel

end Quicp
