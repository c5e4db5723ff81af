import Quicp.FakeTcp.RawSocket

/-!
# Polls of a receiver

There are two ways to receive, and a poll goes the same way through both: it fills slots from what the receiver has,
and while there are slots left it asks the socket for more.
-/

namespace Quicp

/-- What the loops of a poll work on: where the payloads come from, how many packets may still be rejected, the slots
that hold a group and the slots that are left. -/
structure Filling (σ : Type) where
  source : σ
  budget : ℕ
  filled : List ReceiveSlot
  rest : List ReceiveSlot

inductive Reply (σ : Type)
  | notReady
  | failed (error : SocketError)
  | more (source : σ)
  | nothing (source : σ)

/-- The parts of a poll in which the ways to receive differ: the loop over the slots, what is forgotten before the
socket is asked, and how it is asked. -/
structure PollParts (σ α : Type) where
  fill : Filling σ → Outcome SocketError Unit × Filling σ
  reset : σ → σ
  ask : α → σ → Reply σ

/-- What a poll comes to, with the answers of the socket that it has not asked for. -/
structure Polled (σ α : Type) where
  result : Poll (Outcome SocketError ℕ)
  filling : Filling σ
  unread : List α

/-- The buffers of a poll and the places for what is said about them. -/
structure PollCall where
  bufs : List (List UInt8)
  info : List RecvMeta

def stopped (receivedCount : ℕ) : Poll (Outcome SocketError ℕ) :=
  if receivedCount > 0 then .ready (.ok receivedCount) else .pending

def groupInfo (tuple : FourTuple) (groupCount stride : ℕ) : RecvMeta :=
  ⟨tuple.destination, groupCount * stride, stride, some tuple.source.ip⟩

variable {σ α : Type}

def Filling.pieces (filling : Filling σ) : List (List UInt8) := filling.filled.flatMap ReceiveSlot.pieces

def Polled.pieces (polled : Polled σ α) : List (List UInt8) :=
  match polled.result with
  | .ready (.ok receivedCount) =>
    ((polled.filling.filled ++ polled.filling.rest).take receivedCount).flatMap ReceiveSlot.pieces
  | _ => []

namespace PollParts

/-- The outer loop of a poll. Without an answer the socket is not ready. -/
def pollLoop (parts : PollParts σ α) (answers : List α) (filling : Filling σ) : Polled σ α :=
  match parts.fill filling with
  | (.panicked, filling) => ⟨.ready .panicked, filling, answers⟩
  | (.err error, filling) => ⟨.ready (.err error), filling, answers⟩
  | (.ok (), filling) =>
    if filling.rest.isEmpty then ⟨.ready (.ok filling.filled.length), filling, answers⟩
    else if filling.budget = 0 then ⟨stopped filling.filled.length, filling, answers⟩
    else
      let filling := { filling with source := parts.reset filling.source }
      match answers with
      | [] => ⟨stopped filling.filled.length, filling, []⟩
      | answer :: answers =>
        match parts.ask answer filling.source with
        | .notReady => ⟨stopped filling.filled.length, filling, answers⟩
        | .failed error => ⟨.ready (.err error), filling, answers⟩
        | .more source => pollLoop parts answers { filling with source := source }
        | .nothing source =>
          let filling := { filling with source := source }
          if filling.filled.length > 0 then ⟨.ready (.ok filling.filled.length), filling, answers⟩
          else pollLoop parts answers filling

def poll (parts : PollParts σ α) (source : σ) (call : PollCall) (answers : List α) : Polled σ α :=
  let filling : Filling σ :=
    ⟨source, maxDecodeRejectsPerPoll, [], (call.bufs.zip call.info).map fun slot => ⟨slot.1, slot.2⟩⟩
  if call.bufs.isEmpty ∨ call.info.isEmpty then
    ⟨.ready (.err (.custom .invalidInput "no receive buffer")), filling, answers⟩
  else parts.pollLoop answers filling

structure Received (σ α : Type) where
  polls : List (Polled σ α)
  source : σ
  unread : List α

def receiveAll (parts : PollParts σ α) (source : σ) (answers : List α) : List PollCall → Received σ α
  | [] => ⟨[], source, answers⟩
  | call :: calls =>
    let polled := parts.poll source call answers
    let later := receiveAll parts polled.filling.source polled.unread calls
    ⟨polled :: later.polls, later.source, later.unread⟩

def Received.pieces (received : Received σ α) : List (List UInt8) := received.polls.flatMap Polled.pieces

end PollParts

/-- The account of a way to receive: which sources are sound, which have given up a group, which have to ask for more,
the payloads that are still to be handed out, which answers may come and the payloads that they bring. -/
structure PayloadAccount (σ α : Type) where
  sound : σ → Prop
  lost : σ → Prop
  idle : σ → Prop
  queued : σ → List (List UInt8)
  expects : α → Prop
  brings : α → List (List UInt8)

namespace PayloadAccount

variable (account : PayloadAccount σ α) (limit : ℕ)

/-- The loop over the slots hands out what it copies, keeps the rest and stops for a reason. -/
structure Fills (before after : Filling σ) : Prop where
  sound : account.sound after.source
  room : ∀ slot ∈ after.rest, limit ≤ slot.buffer.length
  pieces : before.pieces ++ account.queued before.source = after.pieces ++ account.queued after.source
  reason : after.rest = [] ∨ after.budget = 0 ∨ account.idle after.source

/-- What the socket was asked for is added to what is to be handed out. -/
def Adds (source : σ) (answer : α) : Reply σ → Prop
  | .notReady => account.brings answer = []
  | .failed _ => False
  | .more next => account.sound next ∧ account.queued next = account.queued source ++ account.brings answer
  | .nothing next => account.sound next ∧ account.queued next = account.queued source ++ account.brings answer

/-- The parts of a poll keep the account as long as the buffers have room for a payload of the limit. -/
structure Kept (parts : PollParts σ α) : Prop where
  fill : ∀ filling, account.sound filling.source → (∀ slot ∈ filling.rest, limit ≤ slot.buffer.length) →
    ∃ after, parts.fill filling = (.ok (), after) ∧ (¬account.lost after.source → account.Fills limit filling after) ∧
      (account.lost after.source → after.rest ≠ [] ∧ after.budget = 0)
  reset : ∀ source, account.sound source → account.idle source →
    account.sound (parts.reset source) ∧ account.queued (parts.reset source) = account.queued source
  ask : ∀ source answer, account.sound source → account.idle source → account.expects answer →
    account.Adds source answer (parts.ask answer (parts.reset source))

structure Polls (filling : Filling σ) (answers : List α) (polled : Polled σ α) : Prop where
  sound : account.sound polled.filling.source
  unread : polled.unread <:+ answers
  pieces : filling.pieces ++ account.queued filling.source ++ answers.flatMap account.brings =
    polled.pieces ++ account.queued polled.filling.source ++ polled.unread.flatMap account.brings

variable {account limit} {parts : PollParts σ α}

variable {polled : Polled σ α}

theorem pieces_eq (h : polled.result = .ready (.ok polled.filling.filled.length) ∨
    polled.result = stopped polled.filling.filled.length) : polled.pieces = polled.filling.pieces := by
  have hready : polled.result = .ready (.ok polled.filling.filled.length) → polled.pieces = polled.filling.pieces := by
    intro hresult
    simp only [Polled.pieces, hresult, List.take_left]
    rfl
  rcases h with hresult | hresult
  · exact hready hresult
  · unfold stopped at hresult
    split_ifs at hresult with hcount
    · exact hready hresult
    · rw [Polled.pieces, hresult, Filling.pieces, List.eq_nil_of_length_eq_zero (Nat.eq_zero_of_not_pos hcount)]
      rfl

variable {after : Filling σ} {answers : List α} {filling : Filling σ}

theorem Fills.stops (h : account.Fills limit filling after)
    (hresult : polled.result = .ready (.ok polled.filling.filled.length) ∨
      polled.result = stopped polled.filling.filled.length) (hfilled : polled.filling.filled = after.filled)
    (hsound : account.sound polled.filling.source) (hunread : polled.unread <:+ answers)
    (hqueued : account.queued after.source ++ answers.flatMap account.brings =
      account.queued polled.filling.source ++ polled.unread.flatMap account.brings) :
    account.Polls filling answers polled where
  sound := hsound
  unread := hunread
  pieces := by
    rw [h.pieces, pieces_eq hresult, List.append_assoc, hqueued, List.append_assoc, Filling.pieces, Filling.pieces, hfilled]

theorem Fills.goes_on (h : account.Fills limit filling after) {answer : α}
    {source : σ}
    (hqueued : account.queued source = account.queued after.source ++ account.brings answer)
    (hpolls : account.Polls { after with source := source } answers polled) :
    account.Polls filling (answer :: answers) polled where
  sound := hpolls.sound
  unread := hpolls.unread.trans (List.suffix_cons _ _)
  pieces := by
    rw [← hpolls.pieces, h.pieces, List.flatMap_cons, hqueued]
    simp only [Filling.pieces, List.append_assoc]

theorem Kept.filled (h : account.Kept limit parts) {outcome : Outcome SocketError Unit}
    (hsound : account.sound filling.source) (hroom : ∀ slot ∈ filling.rest, limit ≤ slot.buffer.length)
    (hresult : parts.fill filling = (outcome, after)) :
    outcome = .ok () ∧ (¬account.lost after.source → account.Fills limit filling after) ∧
      (¬after.rest.isEmpty = true → ¬after.budget = 0 → account.Fills limit filling after ∧
        (account.sound (parts.reset after.source) ∧
          account.queued (parts.reset after.source) = account.queued after.source) ∧
        ∀ answer, account.expects answer →
          account.Adds after.source answer (parts.ask answer (parts.reset after.source))) := by
  obtain ⟨_, hfill, hfills, hlost⟩ := h.fill filling hsound hroom
  cases hresult.symm.trans hfill
  refine ⟨rfl, hfills, fun hfull hspent => ?_⟩
  have hfilled := hfills fun hgone => hspent (hlost hgone).2
  have hidle := (hfilled.reason.resolve_left (by simpa using hfull)).resolve_left hspent
  exact ⟨hfilled, h.reset _ hfilled.sound hidle, fun answer => h.ask _ answer hfilled.sound hidle⟩

theorem Kept.pollLoop (h : account.Kept limit parts) (hanswers : ∀ answer ∈ answers, account.expects answer)
    (hsound : account.sound filling.source) (hroom : ∀ slot ∈ filling.rest, limit ≤ slot.buffer.length)
    (hkept : ¬account.lost (parts.pollLoop answers filling).filling.source) :
    account.Polls filling answers (parts.pollLoop answers filling) := by
  fun_induction parts.pollLoop answers filling with
  | case1 answers filling after hresult => cases (h.filled hsound hroom hresult).1
  | case2 answers filling error after hresult => cases (h.filled hsound hroom hresult).1
  | case3 answers filling after hresult hfull =>
    have hfills := (h.filled hsound hroom hresult).2.1 hkept
    exact hfills.stops (.inl rfl) rfl hfills.sound List.suffix_rfl rfl
  | case4 answers filling after hresult hfull hspent =>
    have hfills := (h.filled hsound hroom hresult).2.1 hkept
    exact hfills.stops (.inr rfl) rfl hfills.sound List.suffix_rfl rfl
  | case5 filling after hresult hfull hspent =>
    obtain ⟨hfills, hreset, _⟩ := (h.filled hsound hroom hresult).2.2 hfull hspent
    exact hfills.stops (.inr rfl) rfl hreset.1 List.suffix_rfl (by rw [hreset.2])
  | case6 filling after hresult hfull hspent next answer answers hask =>
    obtain ⟨hfills, hreset, hadds⟩ := (h.filled hsound hroom hresult).2.2 hfull hspent
    have hnone := hadds answer (hanswers answer List.mem_cons_self)
    rw [hask] at hnone
    exact hfills.stops (.inr rfl) rfl hreset.1 (List.suffix_cons _ _)
      (by rw [List.flatMap_cons, show account.brings answer = [] from hnone, hreset.2]; rfl)
  | case7 filling after hresult hfull hspent next answer answers error hask =>
    obtain ⟨_, _, hadds⟩ := (h.filled hsound hroom hresult).2.2 hfull hspent
    cases hask ▸ hadds answer (hanswers answer List.mem_cons_self)
  | case8 filling after hresult hfull hspent next answer answers source hask ih =>
    obtain ⟨hfills, _, hadds⟩ := (h.filled hsound hroom hresult).2.2 hfull hspent
    obtain ⟨hnext, hqueued⟩ := hask ▸ hadds answer (hanswers answer List.mem_cons_self)
    exact hfills.goes_on hqueued (ih (List.forall_mem_cons.mp hanswers).2 hnext hfills.room hkept)
  | case9 filling after hresult hfull hspent next answer answers source hask =>
    obtain ⟨hfills, _, hadds⟩ := (h.filled hsound hroom hresult).2.2 hfull hspent
    obtain ⟨hnext, hqueued⟩ := hask ▸ hadds answer (hanswers answer List.mem_cons_self)
    exact hfills.stops (.inl rfl) rfl hnext (List.suffix_cons _ _)
      (by rw [List.flatMap_cons, hqueued, List.append_assoc])
  | case10 filling after hresult hfull hspent next answer answers source hask _ _ ih =>
    obtain ⟨hfills, _, hadds⟩ := (h.filled hsound hroom hresult).2.2 hfull hspent
    obtain ⟨hnext, hqueued⟩ := hask ▸ hadds answer (hanswers answer List.mem_cons_self)
    exact hfills.goes_on hqueued (ih (List.forall_mem_cons.mp hanswers).2 hnext hfills.room hkept)

theorem Kept.receiveAll (h : account.Kept limit parts) (hanswers : ∀ answer ∈ answers, account.expects answer)
    {source : σ} (hsound : account.sound source) {calls : List PollCall}
    (hbufs : ∀ call ∈ calls, ∀ buffer ∈ call.bufs, limit ≤ buffer.length)
    (hkept : ∀ polled ∈ (parts.receiveAll source answers calls).polls, ¬account.lost polled.filling.source) :
    let received := parts.receiveAll source answers calls
    account.queued source ++ answers.flatMap account.brings =
      received.pieces ++ (account.queued received.source ++ received.unread.flatMap account.brings) := by
  induction calls generalizing source answers with
  | nil => rfl
  | cons call calls ih =>
    obtain ⟨hcall, hcalls⟩ := List.forall_mem_cons.mp hbufs
    obtain ⟨hfirst, hlater⟩ := List.forall_mem_cons.mp hkept
    have hpolls : account.Polls ⟨source, maxDecodeRejectsPerPoll, [],
        (call.bufs.zip call.info).map fun slot => ⟨slot.1, slot.2⟩⟩ answers (parts.poll source call answers) := by
      unfold PollParts.poll at hfirst ⊢
      dsimp only at hfirst ⊢
      split_ifs at hfirst ⊢
      · exact ⟨hsound, List.suffix_rfl, rfl⟩
      · refine h.pollLoop hanswers hsound (fun slot hslot => ?_) hfirst
        obtain ⟨pair, hpair, rfl⟩ := List.mem_map.mp hslot
        exact hcall _ (List.of_mem_zip hpair).1
    have hrest := ih (fun answer hanswer => hanswers answer (hpolls.unread.subset hanswer)) hpolls.sound hcalls hlater
    have hpieces := hpolls.pieces
    rw [List.append_assoc, List.append_assoc, hrest, ← List.append_assoc (Polled.pieces _)] at hpieces
    exact hpieces

end PayloadAccount

end Quicp
