import Quicp.Flow.Credit
import Quicp.Flow.Duplex
import Quicp.Recovery.RefuseRecord

/-!
# Stream data of an honest peer

A stream data frame that the other end has written agrees with everything received before, is within the credit and
respects the final offset.
-/

namespace Quicp

open Segment

variable {record : ℕ × List UInt8}

theorem FlowShared.insertRecord_of_insertBytes {s : FlowShared} {budget : RecoveryMemoryBudget}
    {last : Bool} {error : RecoveryError}
    (hcredit : stop record ≤ s.maxReceiveOffset)
    (hvalid : s.received.validateInsert ⟨record.1, stop record⟩ = .ok ())
    (h : (s.insertBytes budget record.1 record.2 last).1 = .err error) :
    (s.receive.insertRecord budget record.1 record.2 last).1 = .error error := by
  have hwire := (AckRanges.validateInsert_eq_ok.mp hvalid).1.2
  have hend : checkedAdd record.1 record.2.length = some (stop record) :=
    if_pos (hwire.trans (by decide))
  obtain ⟨received, hreceived⟩ := AckRanges.exists_insert_of_valid hvalid
  simp only [FlowShared.insertBytes, FlowShared.insertBytesWithReservation, hend,
    if_neg (not_lt.mpr hcredit), hvalid, Reassembler.insertWithCharge] at h
  generalize s.receive.insertRecord budget record.1 record.2 last = out at h ⊢
  obtain ⟨result, receive, after⟩ := out
  cases result with
  | error failure => simpa using h
  | ok value => simp [FlowShared.recordReceived, hreceived] at h

theorem FlowShared.insertBytes_of_invalid {s : FlowShared} {budget : RecoveryMemoryBudget}
    {last : Bool} {error : RecoveryError} (hwire : stop record ≤ maxWireOffset)
    (hcredit : stop record ≤ s.maxReceiveOffset)
    (hinvalid : s.received.validateInsert ⟨record.1, stop record⟩ = .error error) :
    (s.insertBytes budget record.1 record.2 last).1 = .err error := by
  have hend : checkedAdd record.1 record.2.length = some (stop record) :=
    if_pos (hwire.trans (by decide))
  simp only [FlowShared.insertBytes, FlowShared.insertBytesWithReservation, hend,
    if_neg (not_lt.mpr hcredit), hinvalid]

/-- Inserting the bytes resets the flow for a violation of the protocol. -/
def FlowShared.violates (s : FlowShared) (budget : RecoveryMemoryBudget) (offset : ℕ) (data : List UInt8)
    (last : Bool) : Prop :=
  ∃ error, (s.insertBytes budget offset data last).1 = .err error ∧
    (FlowTaskError.recovery error).isProtocolViolation = true

/-- The acknowledgement ranges can take a range: it is acknowledged already, the list has room, or a
recorded range touches it. -/
def AckRanges.CanRecord (ack : AckRanges) (range : Range) : Prop :=
  range.stop ≤ ack.contiguous ∨ ack.ranges.length < ack.maxRanges ∨
    ∃ current ∈ ack.ranges, max range.start ack.contiguous ≤ current.stop ∧ current.start ≤ range.stop

theorem Link.agrees {x y : Flow} (h : Link x y) (hreceiver : y.receiver.Inv)
    (hpart : IsPart x.history.written record) : y.shared.receive.AgreesWith record := by
  intro i a b hbuffered hrecord
  obtain ⟨accepted, haccepted, hat⟩ := exists_of_firstElement (hreceiver.receive.refines.buffered i a hbuffered)
  have hwritten := (h.parts accepted haccepted i a hat).symm.trans (hpart i b hrecord)
  exact Option.some.inj hwritten

theorem Link.admitsEnd {x y : Flow} (h : Link x y) (hsender : x.sender.Inv)
    (hpart : IsPart x.history.written record) (hbytes : record.2 ≠ []) :
    y.shared.receive.AdmitsEnd (stop record) false := by
  refine ⟨fun finalOffset hfinal => ?_, nofun⟩
  rw [hsender.ended.target finalOffset (h.final finalOffset hfinal), hsender.placed.length]
  exact hpart.stop_le hbytes

/-- In every run of two ends, applying the next stream data frame of the peer violates no rule of the
protocol exactly if the acknowledgement ranges can take its range. -/
theorem streamData_accepted_iff {d : Duplex} (h : Reachable Duplex.Initial Duplex.Step d) {offset : ℕ}
    {last : Bool} {data : List UInt8} (hnext : d.nextFrame = some (.streamData offset last data)) :
    ¬d.near.shared.violates d.near.budget offset data last ↔
      d.near.shared.received.CanRecord ⟨offset, offset + data.length⟩ := by
  have hinv := Duplex.inv_of_reachable h
  have hframe : ControlFrame.streamData offset last data ∈ d.far.history.frames := List.mem_of_getElem? hnext
  obtain ⟨rfl, hbytes, hpart, hlimit⟩ := hinv.farSender.framed.framed _ (List.mem_append_left _ hframe)
  have hcredit : stop (offset, data) ≤ d.near.shared.maxReceiveOffset := hlimit.trans hinv.backward.credit
  have hwire : stop (offset, data) ≤ maxWireOffset := hlimit.trans hinv.farSender.framed.onWire
  have hnonempty : offset < stop (offset, data) := Nat.lt_add_of_pos_right (List.length_pos_iff.mpr hbytes)
  have hrecord : d.near.shared.received.validateInsert ⟨offset, stop (offset, data)⟩ = .ok () ↔
      d.near.shared.received.CanRecord ⟨offset, offset + data.length⟩ := by
    rw [AckRanges.validateInsert_eq_ok]
    exact and_iff_right ⟨hnonempty, hwire⟩
  rw [← hrecord]
  rcases AckRanges.validateInsert_of_valid d.near.shared.received ⟨offset, stop (offset, data)⟩ hnonempty hwire with
    hvalid | hfull
  · refine iff_of_true ?_ hvalid
    rintro ⟨error, herror, hviolation⟩
    have hrefused := FlowShared.insertRecord_of_insertBytes hcredit hvalid herror
    rw [hinv.nearReceiver.receive.wellFormed.insertRecord_error hinv.nearReceiver.receive.identity hbytes hwire
      (hinv.backward.agrees hinv.nearReceiver hpart) (hinv.backward.admitsEnd hinv.farSender hpart hbytes)
      hrefused] at hviolation
    cases hviolation
  · refine iff_of_false (not_not.mpr ⟨.rangeCapacity, ?_, rfl⟩) (by rw [hfull]; exact nofun)
    exact FlowShared.insertBytes_of_invalid hwire hcredit hfull

def fallbackRun (arriving : List ℕ) : List (Side × DuplexAction) :=
  Duplex.feedback .near .far ++ Duplex.acts .far (List.replicate 5 (.enqueue [1])) ++
    (List.replicate 5 (Duplex.acts .far Flow.handOver)).flatten ++
    Duplex.acts .near [.useBudget arriving.length] ++
    arriving.map (fun offset => (.near, .source ⟨0, offset, false, [1]⟩ ⟨0, 1⟩)) ++
    Duplex.acts .far [.connection (Flow.sample true).connection.disableDatagrams,
      .replay ⟨false, true, 0, .ok 0⟩, .wire (.written 5)]

theorem streamData_accepted_iff_room :
    ¬((fallbackRun [2]).foldl Duplex.apply Duplex.sample).near.shared.violates
      ((fallbackRun [2]).foldl Duplex.apply Duplex.sample).near.budget 0 [1] false := by
  have hrun : Reachable.Permits Duplex.Allows Duplex.apply Duplex.sample (fallbackRun [2]) := by decide +kernel
  exact (streamData_accepted_iff (Reachable.run (fun _ _ h => ⟨h, rfl⟩) (.start Duplex.sample_initial) hrun)
    (by decide +kernel)).mpr (Or.inr (Or.inl (by decide +kernel)))

/-- With both ranges taken by later chunks, the very next byte of an honest peer is a violation and resets the flow. -/
theorem streamData_violation :
    ∃ d : Duplex, Reachable Duplex.Initial Duplex.Step d ∧ d.near.Live ∧
      d.nextFrame = some (.streamData 0 false [1]) ∧ d.near.shared.received.contiguous = 0 ∧
      d.near.budget.used + d.near.shared.receive.memoryNeeded (0, [1]) ≤ d.near.budget.limit ∧
      (d.near.shared.insertBytes d.near.budget 0 [1] false).1 = .err .rangeCapacity ∧
      d.near.shared.violates d.near.budget 0 [1] false := by
  have hrun : Reachable.Permits Duplex.Allows Duplex.apply Duplex.sample (fallbackRun [2, 4]) := by
    decide +kernel
  refine ⟨_, Reachable.run (fun _ _ h => ⟨h, rfl⟩) (.start Duplex.sample_initial) hrun,
    ⟨by decide +kernel, by decide +kernel⟩, by decide +kernel, by decide +kernel, by decide +kernel,
    by decide +kernel, .rangeCapacity, by decide +kernel, rfl⟩

end Quicp
