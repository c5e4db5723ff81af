import Quicp.Flow.Accounting
import Quicp.Flow.Effects

/-!
# Chunks that fit a stream frame

A chunk that went out as a datagram may be sent again whole as stream data, which the peer takes up to its own limit.
-/

namespace Quicp

theorem length_encodeControl_streamData (offset : ℕ) (last : Bool) {data : List UInt8} (h : data.length < 2 ^ 16) :
    (encodeControl (.streamData offset last data)).length ≤ data.length + 14 := by
  have hoffset := length_encodeVarint_le offset
  have hpayload : (ControlFrame.streamData offset last data).payload.length ≤ data.length + 9 := by
    simp only [ControlFrame.payload, List.length_append, List.length_cons]
    omega
  have hlength : (encodeVarint (ControlFrame.streamData offset last data).payload.length).length ≤ 4 := by
    generalize (ControlFrame.streamData offset last data).payload.length = length at hpayload
    unfold encodeVarint
    split_ifs <;> simp only [BigEndian.encode_length] <;> omega
  rw [encodeControl, List.length_cons, List.length_append]
  omega

theorem streamData_within_input {offset maxStreamPayload : ℕ} {last : Bool} {data : List UInt8} (maxAckRanges : ℕ)
    (hsmall : maxStreamPayload < 2 ^ 16) (hdata : data.length ≤ maxStreamPayload) :
    (encodeControl (.streamData offset last data)).length ≤ Flow.controlInputLimit maxStreamPayload maxAckRanges := by
  have hencoded := length_encodeControl_streamData offset last (hdata.trans_lt hsmall)
  refine le_max_of_le_left (le_min ?_ ?_)
  · omega
  · simp only [wordMax]
    omega

namespace Sender

variable {x y : Sender} {limit : ℕ}

/-- What was cut, is replayed or goes out as stream data is within a limit. -/
structure Sized (limit : ℕ) (x : Sender) : Prop where
  ready : ∀ chunk ∈ x.readyChunk, chunk.bytes.length ≤ limit
  replayed : ∀ entry ∈ x.replay.chunks.entries, entry.2.length ≤ limit
  framed : ∀ offset last data, .streamData offset last data ∈ x.allFrames → data.length ≤ limit

def cutUpTo (limit : ℕ) : SenderGuard := { SenderGuard.none with cut := (· ≤ limit) }

private theorem Sized.wait (h : x.Sized limit) (frame : ControlFrame) (flushed : Option ℕ)
    (hframe : ∀ offset last data, frame = .streamData offset last data → data.length ≤ limit) :
    ∀ offset last data, .streamData offset last data ∈ x.frames ++ (x.waiting ++ [(frame, flushed)]).map Prod.fst →
      data.length ≤ limit := by
  intro offset last data hmem
  rcases mem_allFrames_wait x frame flushed _ hmem with hnew | hold
  · exact hframe offset last data hnew.symm
  · exact h.framed offset last data hold

private theorem Sized.retain (h : x.Sized limit) (hplaced : x.Placed) {chunk : Outbound} {replay : ReplayBuffer}
    (hhand : x.inHand = some chunk) (hready : x.ready = true)
    (hreplay : x.replay.retain chunk.offset chunk.bytes = .ok replay) :
    ∀ entry ∈ replay.chunks.entries, entry.2.length ≤ limit := by
  intro entry hentry
  rcases hplaced.mem_of_retain hhand hreplay entry hentry with rfl | hold
  · exact h.ready chunk (readyChunk_of_ready hready hhand)
  · exact h.replayed entry hold

theorem Step.sized (hstep : Step (cutUpTo limit) x y) (hplaced : x.Placed) (h : x.Sized limit) :
    y.Sized limit := by
  have hreleased : ∀ ack, ∀ entry ∈ (x.replay.acknowledge ack).1.chunks.entries, entry.2.length ≤ limit :=
    fun ack entry hentry => h.replayed entry (ReplayBuffer.mem_of_mem_acknowledge hentry)
  cases hstep with
  | abandon => exact ⟨nofun, h.replayed, h.framed⟩
  | abandonReleased ack => exact ⟨nofun, hreleased ack, h.framed⟩
  | release ack =>
    rw [release_eq]
    exact ⟨h.ready, hreleased ack, h.framed⟩
  | take => exact ⟨nofun, h.replayed, h.framed⟩
  | putBack => exact ⟨nofun, h.replayed, h.framed⟩
  | cut chunk hhand hcredit hguard =>
    refine ⟨fun other hother => ?_, h.replayed, h.framed⟩
    rw [readyChunk_of_ready (x := { x with ready := true }) rfl hhand] at hother
    cases hother
    exact hguard
  | split chunk length hhand hpositive hlength hcredit hchunks hguard =>
    refine ⟨fun other hother => ?_, h.replayed, h.framed⟩
    cases hother
    exact (List.length_take_le _ _).trans hguard
  | handDatagram chunk replay record hhand hready hoffset hdata hfin hreplay =>
    exact ⟨nofun, h.retain hplaced hhand hready hreplay, h.framed⟩
  | handStream chunk replay hhand hready hreplay =>
    refine ⟨nofun, h.retain hplaced hhand hready hreplay, h.wait _ _ ?_⟩
    rintro _ _ _ ⟨⟩
    exact h.ready chunk (readyChunk_of_ready hready hhand)
  | requeue offset bytes htimer hfallback hnext =>
    refine ⟨h.ready, h.replayed, h.wait _ _ ?_⟩
    rintro _ _ _ ⟨⟩
    exact h.replayed _ (OrderedMap.nextAfter_eq_some hnext).1
  | queueFin => exact ⟨h.ready, h.replayed, h.wait _ _ nofun⟩
  | acknowledge => exact ⟨h.ready, h.replayed, h.wait _ _ nofun⟩
  | sendCredit => exact ⟨h.ready, h.replayed, h.wait _ _ nofun⟩
  | frameWritten frame flushed rest hwaiting =>
    exact ⟨h.ready, h.replayed, fun offset last data hmem =>
      h.framed offset last data (mem_allFrames_written hwaiting hmem)⟩
  | _ => exact ⟨h.ready, h.replayed, h.framed⟩

end Sender

/-- Two ends of a connection that agreed on the smaller of their symbols, which fits a `u16`. -/
structure Connection.Negotiated (near far : Connection) : Prop where
  agreed : near.maxSymbol = min near.maxSymbolBytes far.maxSymbolBytes
  shared : far.maxSymbol = min near.maxSymbolBytes far.maxSymbolBytes
  small : near.maxSymbol < 2 ^ 16

theorem Connection.Negotiated.maxStreamPayload_eq {near far : Connection} (h : near.Negotiated far) :
    near.maxStreamPayload = far.maxStreamPayload := by
  rw [maxStreamPayload, maxStreamPayload, h.agreed, h.shared, ← min_assoc, min_self, min_comm near.maxSymbolBytes,
    ← min_assoc, min_self]

theorem Connection.Negotiated.maxStreamPayload_lt {near far : Connection} (h : near.Negotiated far) :
    far.maxStreamPayload < 2 ^ 16 := by
  have hsmall := h.small
  have hmin : min near.maxSymbolBytes near.maxSymbol ≤ near.maxSymbol := min_le_right _ _
  rw [← h.maxStreamPayload_eq, maxStreamPayload]
  omega

theorem Connection.Negotiated.of_sameLimits {near next far : Connection} (h : near.Negotiated far)
    (hsame : near.SameLimits next) : next.Negotiated far where
  agreed := by rw [hsame.maxSymbol, hsame.maxSymbolBytes]; exact h.agreed
  shared := by rw [hsame.maxSymbolBytes]; exact h.shared
  small := by rw [hsame.maxSymbol]; exact h.small

namespace Flow

variable {s t : Flow}

/-- A chunk that is cut for a datagram fits a stream frame. -/
def FitsStream (s : Flow) : FlowAction → Prop
  | .cutOutbound maxDatagramSize =>
    s.task.datagramEnabled = true → s.connection.maxSourcePayload maxDatagramSize ≤ s.connection.maxStreamPayload
  | _ => True

instance (s : Flow) (action : FlowAction) : Decidable (s.FitsStream action) := by
  apply FlowAction.casesOn (motive := fun action => Decidable (s.FitsStream action)) action <;> intros <;>
    unfold FitsStream <;> infer_instance

/-- A step that cuts chunks for datagrams to what fits a stream frame. -/
def FittingStep (s : Flow) (action : FlowAction) (t : Flow) : Prop := s.Step action t ∧ s.FitsStream action

/-- A new flow whose connection was negotiated with the peer's. -/
def NegotiatedInitial (far : Connection) (s : Flow) : Prop := s.Initial ∧ s.connection.Negotiated far

private theorem FitsStream.cutLimit_le {maxDatagramSize : Option ℕ} (h : s.FitsStream (.cutOutbound maxDatagramSize)) :
    s.cutLimit maxDatagramSize ≤ s.connection.maxStreamPayload := by
  rw [cutLimit]
  split
  · next hon => exact h (Bool.and_eq_true_iff.mp hon).1
  · exact le_rfl

private theorem FittingStep.sized {action : FlowAction} {far : Connection} (hstep : s.FittingStep action t)
    (hinv : s.sender.Inv) (hnegotiated : s.connection.Negotiated far)
    (h : s.sender.Sized far.maxStreamPayload) : t.sender.Sized far.maxStreamPayload := by
  obtain ⟨⟨hallows, rfl⟩, hfits⟩ := hstep
  have hsteps : Sender.Steps (Sender.cutUpTo far.maxStreamPayload) s.sender (s.apply action).sender := by
    refine apply_steps hallows (inHand_ne_nil hinv) { meets_none s action with cut := ?_ }
    rintro maxDatagramSize rfl length hlength
    exact (hlength.trans hfits.cutLimit_le).trans_eq hnegotiated.maxStreamPayload_eq
  exact hsteps.keeps (fun _ _ hlast hbefore => hlast.sized hbefore.placed) hinv h

/-- In every run in which chunks for datagrams are cut to what also fits a stream frame, whatever the symbols of both
ends, the peer takes every stream data frame: its data are within the peer's limit, and so is the whole frame. -/
theorem streamData_accepted {far : Connection} (h : Reachable (NegotiatedInitial far) FittingStep s) {offset : ℕ}
    {last : Bool} {data : List UInt8} (hframe : .streamData offset last data ∈ s.sender.allFrames) :
    data.length ≤ far.maxStreamPayload ∧
      (encodeControl (.streamData offset last data)).length ≤
        controlInputLimit far.maxStreamPayload far.maxAckRanges := by
  have hinv : s.sender.Inv ∧ s.connection.Negotiated far ∧ s.sender.Sized far.maxStreamPayload := by
    refine h.invariant (P := fun s : Flow => s.sender.Inv ∧ s.connection.Negotiated far ∧
      s.sender.Sized far.maxStreamPayload) (fun x hstart => ⟨hstart.1.inv, hstart.2, ?_⟩) (fun x action y hx hstep => ?_)
    · obtain ⟨_, _, _, _, _, _, rfl, _⟩ := hstart.1
      exact ⟨nofun, nofun, nofun⟩
    · exact ⟨hstep.1.inv hx.1, hx.2.1.of_sameLimits (hstep.1.2 ▸ apply_limits hstep.1.1), hstep.sized hx.1 hx.2.1 hx.2.2⟩
  have hdata := hinv.2.2.framed offset last data hframe
  exact ⟨hdata, streamData_within_input far.maxAckRanges hinv.2.1.maxStreamPayload_lt hdata⟩

def samplePeer : Connection := (sample true).connection

theorem sample_negotiatedInitial : NegotiatedInitial samplePeer (sample true) :=
  ⟨sample_initial true, by decide, by decide, by decide⟩

def fallbackRun (bytes : List UInt8) (maxDatagramSize : Option ℕ) : List FlowAction :=
  [.enqueue bytes, .control (.maxOffset 100), .takeOutbound, .cutOutbound maxDatagramSize, .sendOutbound,
    .flushOutbound] ++ List.replicate 4 (.replay ⟨true, true, 0, .ok 0⟩)

theorem streamData_accepted_sixteen :
    (List.replicate 16 7).length ≤ samplePeer.maxStreamPayload ∧
      (encodeControl (.streamData 0 false (List.replicate 16 7))).length ≤
        controlInputLimit samplePeer.maxStreamPayload samplePeer.maxAckRanges := by
  have hrun : Reachable.Permits (fun s action => s.Allows action ∧ s.FitsStream action) apply (sample true)
      (fallbackRun (List.replicate 20 7) (some 64)) := by decide +kernel
  have hframe : .streamData 0 false (List.replicate 16 7) ∈
      ((fallbackRun (List.replicate 20 7) (some 64)).foldl apply (sample true)).sender.allFrames := by decide +kernel
  exact streamData_accepted (Reachable.run (fun _ _ h => ⟨⟨h.1, rfl⟩, h.2⟩) (.start sample_negotiatedInitial) hrun) hframe

/-- Without a limit of the backend a chunk of 33 bytes goes out as a datagram, and its peer fails the flow when it comes
again as stream data. -/
theorem fallbackRun_rejected :
    NegotiatedInitial samplePeer (sample true) ∧
      Reachable.Permits Allows apply (sample true) (fallbackRun (List.replicate 33 7) none) ∧
      ((sample true).run (fallbackRun (List.replicate 33 7) none)).sender.waiting =
        [(.streamData 0 false (List.replicate 33 7), some 33)] ∧
      samplePeer.maxStreamPayload = 16 ∧
      ((sample true).applyControl (.streamData 0 false (List.replicate 33 7))).2 = .failed (.codec .limit) :=
  ⟨sample_negotiatedInitial, by decide +kernel, by decide +kernel, by decide +kernel, by decide +kernel⟩

end Flow

end Quicp
