import Quicp.Library.BigEndian
import Quicp.Library.Reachable
import Quicp.Recovery.Arithmetic

/-!
# Replay admission

A server admits early data for a token and a nonce once. It remembers an admitted attempt until the token expires; a
full cache forgets what has expired by the clock of the caller that fills it.
-/

namespace Quicp

/-- `ReplayTokenError`, without the error of a connection that has no capabilities yet. -/
inductive ReplayTokenError
  | malformed
  | invalidMac
  | wrongEpoch
  | expired
  | capabilitiesChanged
  | replayed
  | capacity
  | invalidPolicy
  | random
  deriving DecidableEq, Repr

def replayTokenVersion : UInt8 := 1

def replayTokenBodyBytes : ℕ := 1 + 8 + 8 + 8 + 16

def replayTokenBytes : ℕ := replayTokenBodyBytes + 32

def replayTokenDomain : List UInt8 := "quicp replay token\x00".toUTF8.data.toList

def maxReplayAttempts : ℕ := 65536

/-- `ReplayToken`: the bytes of a token. -/
structure ReplayToken where
  bytes : List UInt8
  length : bytes.length = replayTokenBytes
  deriving DecidableEq

def ReplayToken.fromBytes (bytes : List UInt8) : Except ReplayTokenError ReplayToken :=
  if h : bytes.length = replayTokenBytes then
    if bytes.head? ≠ some replayTokenVersion then .error .malformed else .ok ⟨bytes, h⟩
  else .error .malformed

def ReplayToken.body (token : ReplayToken) : List UInt8 := token.bytes.take replayTokenBodyBytes

/-- `read_token_u64`; the body is long enough for every field. -/
def readTokenField (body : List UInt8) (offset : ℕ) : ℕ := BigEndian.decodeFrom 0 ((body.drop offset).take 8)

def ReplayToken.expiry (token : ReplayToken) : ℕ := readTokenField token.body 9

/-- The key of an attempt in the cache: the identity of the token and the nonce. -/
def ReplayToken.attempt (token : ReplayToken) (nonce : ℕ) : List UInt8 :=
  token.body.drop 25 ++ BigEndian.encode 8 nonce

/-- `ReplayAdmission`; the key is the function that `hmac::sign` computes with it. -/
structure ReplayAdmission where
  sign : List UInt8 → List UInt8
  epoch : ℕ
  maxAttempts : ℕ
  attempts : AList (fun _ : List UInt8 => ℕ)

namespace ReplayAdmission

/-- `ReplayAdmission::new`, for a secret of the given length. -/
def new (secretLength : ℕ) (sign : List UInt8 → List UInt8) (epoch maxAttempts : ℕ) :
    Except ReplayTokenError ReplayAdmission :=
  if secretLength < 32 ∨ maxAttempts < 1 ∨ maxReplayAttempts < maxAttempts then .error .invalidPolicy
  else .ok ⟨sign, epoch, maxAttempts, ∅⟩

def authData (body : List UInt8) : List UInt8 := replayTokenDomain ++ body

/-- The bytes that `issue` signs. -/
def issueBody (epoch expiry fingerprint : ℕ) (identity : List UInt8) : List UInt8 :=
  replayTokenVersion :: (BigEndian.encode 8 epoch ++ (BigEndian.encode 8 expiry ++
    (BigEndian.encode 8 fingerprint ++ identity)))

/-- `issue`, for the identity that the system's random source gives; signatures have 32 bytes. -/
def issue (s : ReplayAdmission) (identity : Option (List UInt8)) (now ttl fingerprint : ℕ) :
    Except ReplayTokenError ReplayToken :=
  match identity with
  | none => .error .random
  | some identity =>
    match (checkedAdd now ttl).filter (fun _ => decide (ttl ≠ 0)) with
    | none => .error .invalidPolicy
    | some expiry =>
      let body := issueBody s.epoch expiry fingerprint identity
      ReplayToken.fromBytes (body ++ s.sign (authData body))

/-- `retain` on the attempts that have not expired. -/
def retain (attempts : AList (fun _ : List UInt8 => ℕ)) (now : ℕ) : AList (fun _ : List UInt8 => ℕ) :=
  ⟨attempts.entries.filter (fun entry => decide (now ≤ entry.2)), attempts.nodupKeys.sublist List.filter_sublist⟩

/-- The locked section of `admit`. -/
def record (s : ReplayAdmission) (attempt : List UInt8) (expiry now : ℕ) : Except ReplayTokenError ReplayAdmission :=
  if (s.attempts.lookup attempt).any (fun expires => decide (now ≤ expires)) then .error .replayed
  else if s.attempts.entries.length = s.maxAttempts then
    let kept := retain s.attempts now
    if kept.entries.length = s.maxAttempts then .error .capacity
    else .ok { s with attempts := kept.insert attempt expiry }
  else .ok { s with attempts := s.attempts.insert attempt expiry }

/-- `admit`. -/
def admitAttempt (s : ReplayAdmission) (token : ReplayToken) (nonce now fingerprint : ℕ) :
    Except ReplayTokenError ReplayAdmission :=
  if s.sign (authData token.body) ≠ token.bytes.drop replayTokenBodyBytes then .error .invalidMac
  else if readTokenField token.body 1 ≠ s.epoch then .error .wrongEpoch
  else if token.expiry < now then .error .expired
  else if readTokenField token.body 17 ≠ fingerprint then .error .capabilitiesChanged
  else s.record (token.attempt nonce) token.expiry now

theorem record_eq_ok {s next : ReplayAdmission} {attempt : List UInt8} {expiry now : ℕ}
    (h : s.record attempt expiry now = .ok next) :
    (∀ expires, s.attempts.lookup attempt = some expires → expires < now) ∧
      next.attempts.lookup attempt = some expiry ∧
      ∀ other expires, other ≠ attempt → s.attempts.lookup other = some expires → now ≤ expires →
        next.attempts.lookup other = some expires := by
  have hkept : ∀ other expires, s.attempts.lookup other = some expires → now ≤ expires →
      (retain s.attempts now).lookup other = some expires := by
    intro other expires hlookup hle
    have hmem : Sigma.mk other expires ∈ s.attempts.entries := AList.mem_lookup_iff.mp hlookup
    exact AList.mem_lookup_iff.mpr (List.mem_filter.mpr ⟨hmem, decide_eq_true hle⟩)
  have hnew : ¬(s.attempts.lookup attempt).any (fun expires => decide (now ≤ expires)) →
      ∀ expires, s.attempts.lookup attempt = some expires → expires < now := by
    intro hnot expires hlookup
    simpa [hlookup] using hnot
  unfold record at h
  dsimp only at h
  split_ifs at h with hreplayed hfull
  · obtain rfl := Except.ok.inj h
    refine ⟨hnew hreplayed, AList.lookup_insert _, fun other expires hne hlookup hle => ?_⟩
    exact (AList.lookup_insert_ne hne).trans (hkept other expires hlookup hle)
  · obtain rfl := Except.ok.inj h
    refine ⟨hnew hreplayed, AList.lookup_insert _, fun other expires hne hlookup _ => ?_⟩
    exact (AList.lookup_insert_ne hne).trans hlookup

theorem admitAttempt_eq_ok {s next : ReplayAdmission} {token : ReplayToken} {nonce now fingerprint : ℕ}
    (h : s.admitAttempt token nonce now fingerprint = .ok next) :
    now ≤ token.expiry ∧ s.record (token.attempt nonce) token.expiry now = .ok next := by
  unfold admitAttempt at h
  split_ifs at h with hmac hepoch hexpired hcapabilities
  exact ⟨not_lt.mp hexpired, h⟩

end ReplayAdmission

/-- A call of `admit`, with the clock that its caller read before it took the lock. -/
structure AdmitCall where
  token : ReplayToken
  nonce : ℕ
  now : ℕ
  fingerprint : ℕ

/-- The calls of `admit` in the order of the lock: the pairs that were answered with `Ok`, and the latest clock of
those calls. -/
structure AdmissionRun where
  admission : ReplayAdmission
  admitted : List (ReplayToken × ℕ)
  latest : ℕ

namespace AdmissionRun

def apply (s : AdmissionRun) (call : AdmitCall) : AdmissionRun :=
  match s.admission.admitAttempt call.token call.nonce call.now call.fingerprint with
  | .error _ => s
  | .ok next => ⟨next, (call.token, call.nonce) :: s.admitted, max s.latest call.now⟩

def Step (s : AdmissionRun) (call : AdmitCall) (t : AdmissionRun) : Prop := t = s.apply call

/-- The clock of a call is not behind that of a call that was admitted before it. -/
def OnTime (s : AdmissionRun) (call : AdmitCall) : Prop := s.latest ≤ call.now

def Initial (s : AdmissionRun) : Prop := s.admission.attempts = ∅ ∧ s.admitted = [] ∧ s.latest = 0

structure Inv (s : AdmissionRun) : Prop where
  distinct : s.admitted.Nodup
  remembered : ∀ pair ∈ s.admitted, pair.1.expiry < s.latest ∨
    ∃ expires, s.admission.attempts.lookup (pair.1.attempt pair.2) = some expires ∧ pair.1.expiry ≤ expires

theorem Inv.step {s t : AdmissionRun} {call : AdmitCall} (h : s.Inv) (htime : s.OnTime call) (hstep : s.Step call t) :
    t.Inv := by
  rw [hstep, apply]
  cases hgranted : s.admission.admitAttempt call.token call.nonce call.now call.fingerprint with
  | error error => exact h
  | ok next =>
    obtain ⟨hfresh, hrecord⟩ := ReplayAdmission.admitAttempt_eq_ok hgranted
    obtain ⟨hexpired, hinserted, hothers⟩ := ReplayAdmission.record_eq_ok hrecord
    refine ⟨List.nodup_cons.mpr ⟨fun hmem => ?_, h.distinct⟩, fun pair hmem => ?_⟩
    · -- An admitted pair has expired by this clock or its attempt is still remembered.
      rcases h.remembered _ hmem with hpast | ⟨expires, hlookup, hle⟩
      · have hnow := htime
        unfold OnTime at hnow
        dsimp only at hpast
        omega
      · have hlt := hexpired expires hlookup
        dsimp only at hle
        omega
    · rcases List.mem_cons.mp hmem with rfl | hbefore
      · exact Or.inr ⟨call.token.expiry, hinserted, le_rfl⟩
      · rcases h.remembered pair hbefore with hpast | ⟨expires, hlookup, hle⟩
        · exact Or.inl (hpast.trans_le (le_max_left _ _))
        · by_cases hlater : call.now ≤ expires
          · by_cases hsame : pair.1.attempt pair.2 = call.token.attempt call.nonce
            · exact absurd (hexpired expires (hsame ▸ hlookup)) (not_lt.mpr hlater)
            · exact Or.inr ⟨expires, hothers _ _ hsame hlookup hlater, hle⟩
          · exact Or.inl ((hle.trans_lt (not_le.mp hlater)).trans_le (le_max_right _ _))

/-- In every run whose calls are on time, each token and nonce is admitted at most once. -/
theorem admitted_at_most_once {s : AdmissionRun}
    (h : Reachable Initial (fun s call t => s.OnTime call ∧ s.Step call t) s) : s.admitted.Nodup := by
  refine (h.invariant (P := Inv) (fun s hstart => ?_) (fun _ _ _ hs hstep => hs.step hstep.1 hstep.2)).distinct
  obtain ⟨-, hnone, -⟩ := hstart
  exact ⟨by rw [hnone]; exact List.nodup_nil, by rw [hnone]; nofun⟩

def sampleAdmission : ReplayAdmission := ⟨fun _ => List.replicate 32 0, 1, 2, ∅⟩

def sampleToken (identity : UInt8) (expiry : ℕ) : ReplayToken where
  bytes := ReplayAdmission.issueBody 1 expiry 3 (List.replicate 16 identity) ++ List.replicate 32 0
  length := by simp [ReplayAdmission.issueBody, replayTokenBytes, replayTokenBodyBytes]

def sampleRun : AdmissionRun := ⟨sampleAdmission, [], 0⟩

def sampleCalls : List AdmitCall := [⟨sampleToken 0 10, 7, 9, 3⟩, ⟨sampleToken 0 10, 7, 10, 3⟩]

theorem admitted_at_most_once_twice :
    (sampleCalls.foldl apply sampleRun).admitted = [(sampleToken 0 10, 7)] ∧
      (sampleCalls.foldl apply sampleRun).admitted.Nodup := by
  have hcalls : Reachable.Permits OnTime apply sampleRun sampleCalls := by
    refine ⟨Nat.zero_le _, ?_, trivial⟩
    show _ ≤ 10
    decide +kernel
  exact ⟨by decide +kernel,
    admitted_at_most_once (Reachable.run (fun _ _ htime => ⟨htime, rfl⟩) (.start ⟨rfl, rfl, rfl⟩) hcalls)⟩

/-- Two attempts fill the cache, a third caller forgets them by a later clock, and a fourth behind that clock is
admitted with the first token and nonce again. -/
theorem admitted_twice_behind :
    (([⟨sampleToken 0 10, 7, 10, 3⟩, ⟨sampleToken 1 10, 7, 10, 3⟩, ⟨sampleToken 2 20, 7, 11, 3⟩,
      ⟨sampleToken 0 10, 7, 10, 3⟩] : List AdmitCall).foldl apply sampleRun).admitted.count (sampleToken 0 10, 7) = 2 ∧
    sampleAdmission.issue (some (List.replicate 16 0)) 5 5 3 = .ok (sampleToken 0 10) ∧
    sampleAdmission.issue (some (List.replicate 16 1)) 5 5 3 = .ok (sampleToken 1 10) ∧
    sampleAdmission.issue (some (List.replicate 16 2)) 5 15 3 = .ok (sampleToken 2 20) := by
  refine ⟨by decide +kernel, rfl, rfl, rfl⟩

end AdmissionRun

namespace ReplayAdmission

theorem readTokenField_encode (before rest : List UInt8) {value : ℕ} (hvalue : value ≤ wordMax) :
    readTokenField (before ++ (BigEndian.encode 8 value ++ rest)) before.length = value := by
  rw [readTokenField, List.drop_left, List.take_left' (BigEndian.encode_length 8 value), BigEndian.decodeFrom_encode]
  unfold wordMax at hvalue
  omega

theorem issueBody_fields {epoch expiry fingerprint : ℕ} (hepoch : epoch ≤ wordMax) (hexpiry : expiry ≤ wordMax)
    (hfingerprint : fingerprint ≤ wordMax) (identity : List UInt8) :
    let body := issueBody epoch expiry fingerprint identity
    readTokenField body 1 = epoch ∧ readTokenField body 9 = expiry ∧ readTokenField body 17 = fingerprint :=
  ⟨readTokenField_encode [replayTokenVersion] _ hepoch,
    readTokenField_encode (replayTokenVersion :: BigEndian.encode 8 epoch) _ hexpiry,
    readTokenField_encode (replayTokenVersion :: (BigEndian.encode 8 epoch ++ BigEndian.encode 8 expiry)) _ hfingerprint⟩

/-- A token that a server issued passes its checks until it expires, under the capabilities that it was issued for; the
attempts that are remembered decide. -/
theorem issued_token_checked {s : ReplayAdmission} {identity : List UInt8} {issued ttl fingerprint : ℕ}
    {token : ReplayToken} (h : s.issue (some identity) issued ttl fingerprint = .ok token)
    (hidentity : identity.length = 16) (hepoch : s.epoch ≤ wordMax) (hfingerprint : fingerprint ≤ wordMax)
    (nonce now current : ℕ) :
    s.admitAttempt token nonce now current =
      if issued + ttl < now then .error .expired
      else if fingerprint ≠ current then .error .capabilitiesChanged
      else s.record (identity ++ BigEndian.encode 8 nonce) (issued + ttl) now := by
  unfold issue at h
  dsimp only at h
  split at h
  · cases h
  rename_i expiry hexpiry
  have hsum := (Option.filter_eq_some_iff.mp hexpiry).1
  unfold checkedAdd at hsum
  split_ifs at hsum with hword
  obtain rfl := Option.some.inj hsum
  unfold ReplayToken.fromBytes at h
  split_ifs at h
  obtain rfl := Except.ok.inj h
  have hlength : (issueBody s.epoch (issued + ttl) fingerprint identity).length = replayTokenBodyBytes := by
    simp [issueBody, hidentity, replayTokenBodyBytes]
  obtain ⟨hfirst, hsecond, hthird⟩ := issueBody_fields hepoch hword hfingerprint identity
  simp only [admitAttempt, ReplayToken.expiry, ReplayToken.attempt, ReplayToken.body, List.take_left' hlength,
    List.drop_left' hlength, hfirst, hsecond, hthird, ne_eq, not_true_eq_false, if_false]
  rfl

open AdmissionRun in
theorem issued_token_checked_late : sampleAdmission.admitAttempt (sampleToken 0 15) 7 16 3 = .error .expired :=
  issued_token_checked (show sampleAdmission.issue (some (List.replicate 16 0)) 5 10 3 = _ from rfl) rfl (by decide)
    (by decide) 7 16 3

end ReplayAdmission

end Quicp
