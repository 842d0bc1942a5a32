import Enml.Invariant.Wire
import Enml.Lib.Run
import Enml.OsIpc.Session

/-! A response is returned only to the call it answers. The identifier of a request
is taken once, so that what is left in the channel by an earlier call fails the
comparison with every later one. -/
namespace Enml.OsIpc

open Enml.Core LittleEndian ClientConnection WireFlag List Errors Decoder

/-- Forty bytes and the header in them determine each other, and both sides agree on
which headers there are. -/
structure HeaderExact : Prop where
  decoded : ∀ header out e, out.length = wireHeaderV1Size.toNat →
    encodeWireHeaderV1 header { output := out } = (e, .ok ()) →
    e.output.length = wireHeaderV1Size.toNat ∧
      (decodeWireHeaderV1 { input := e.output }).2 = .ok header
  encoded : ∀ header bytes, bytes.length = wireHeaderV1Size.toNat →
    (decodeWireHeaderV1 { input := bytes }).2 = .ok header →
    ∀ out, out.length = wireHeaderV1Size.toNat → encodeWireHeaderV1 header { output := out } =
        ({ output := bytes, cursor := wireHeaderV1Size.toNat }, .ok ())

theorem wrote_headerBytes {out : List UInt8} (h : out.length = wireHeaderV1Size.toNat)
    (header : WireHeaderV1) : Encoder.wrote out ([] ++ headerBytes header) =
      { output := headerBytes header, cursor := wireHeaderV1Size.toNat } := by
  rw [Encoder.wrote, nil_append, length_headerBytes, drop_of_length_le h.le, append_nil]

theorem header_exact : HeaderExact := by
  constructor
  · intro header out e hLen hEncoded
    rw [Encoder.wrote_nil, encodeWireHeaderV1_eq_ok_iff (by simp [hLen]),
      wrote_headerBytes hLen] at hEncoded
    obtain ⟨hLegal, rfl⟩ := hEncoded
    refine ⟨length_headerBytes header, ?_⟩
    have hDecoded : decodeWireHeaderV1 (between [] (headerBytes header)) =
        (between ([] ++ headerBytes header) [], .ok header) :=
      decodeWireHeaderV1_eq_ok_iff.mpr ⟨hLegal, [], by simp, rfl⟩
    rw [start_eq, hDecoded]
  · intro header bytes hLen hDecoded out hOut
    have hPair : decodeWireHeaderV1 (between [] bytes) =
        ((decodeWireHeaderV1 (between [] bytes)).1, .ok header) := Prod.ext rfl hDecoded
    obtain ⟨hLegal, more, hBytes, -⟩ := decodeWireHeaderV1_eq_ok_iff.mp hPair
    have hMore : more = [] := by
      have hSame := congrArg List.length hBytes
      rw [hLen, length_append, length_headerBytes] at hSame
      exact eq_nil_of_length_eq_zero (by omega)
    rw [Encoder.wrote_nil, encodeWireHeaderV1_eq_ok_iff (by simp [hOut]), wrote_headerBytes hOut,
      hBytes, hMore, append_nil]
    exact ⟨hLegal, rfl⟩

theorem accept_eq_ok {header : WireHeaderV1} {response message : InboundMessage}
    (h : accept header response = .ok message) :
    message = response ∧ answers header response.header = true := by
  unfold accept at h
  split_ifs at h with hAns hErr
  · split at h
    all_goals cases h
  · cases h
    exact ⟨rfl, by simpa using hAns⟩

/-- A message that is not accepted is not the answer, or it is and carries an error. -/
theorem accept_eq_error {header : WireHeaderV1} {response : InboundMessage} {e : Error}
    (h : accept header response = .error e) :
    e = ipcError protocolViolation ∨
      answers header response.header = true ∧ hasFlag response.header.flags error = true ∧
        (decodeRpcError response.payload = .ok e ∨ decodeRpcError response.payload = .error e) := by
  unfold accept at h
  split_ifs at h with hAns hErr hHandles
  · cases h
    exact .inl rfl
  · cases h
    exact .inl rfl
  · refine .inr ⟨by simpa using hAns, hErr, ?_⟩
    split at h
    · cases h
      exact .inr (by assumption)
    · cases h
      exact .inl (by assumption)

namespace Session

/-- The header of the request that a call makes, when it gets so far. -/
def request? (s : Session) (input : CallInput) : Option WireHeaderV1 :=
  if s.valid = true ∧ input.requestPayload.length ≤ maxInlinePayloadSize ∧ s.nextRequestId ≠ 0 then
    some (s.requestHeader input)
  else none

/-- How many identifiers have been handed out, the zero that stands for the end
counted as the last. -/
def issued (s : Session) : Nat := if s.nextRequestId = 0 then 2 ^ 64 else s.nextRequestId.toNat

variable {s : Session} {input : CallInput} {header : WireHeaderV1}

theorem request?_eq_some (h : s.request? input = some header) :
    s.valid = true ∧ input.requestPayload.length ≤ maxInlinePayloadSize ∧ s.nextRequestId ≠ 0 ∧
      header = s.requestHeader input := by
  unfold request? at h
  split_ifs at h with hChecks
  exact ⟨hChecks.1, hChecks.2.1, hChecks.2.2, (Option.some.inj h).symm⟩

theorem receive_frame (s : Session) (bufferSize : Nat) (ending : Ending) :
    (s.receive bufferSize ending).1.valid = s.valid ∧
      (s.receive bufferSize ending).1.nextRequestId = s.nextRequestId := by
  unfold receive
  split_ifs
  · exact ⟨rfl, rfl⟩
  · cases s.inbox with
    | nil | cons => exact ⟨rfl, rfl⟩

/-- A call that makes a request takes its identifier, whatever becomes of it, and
returns only what answers the request. -/
theorem call_of_request (h : s.request? input = some header) :
    (s.call input).1.valid = s.valid ∧ (s.call input).1.nextRequestId =
        (if s.nextRequestId = 0xFFFFFFFFFFFFFFFF then 0 else s.nextRequestId + 1) ∧
      ∀ message, (s.call input).2 = .ok message →
        answers header message.header = true := by
  obtain ⟨hValid, hSize, hId, rfl⟩ := request?_eq_some h
  have hUsable : ¬(!s.valid) = true := by simp [hValid]
  unfold call
  rw [if_neg hUsable, if_neg (by omega), if_neg hId]
  cases sendPacket input.outcome (s.requestHeader input) input.requestPayload [] with
  | error => exact ⟨rfl, rfl, nofun⟩
  | ok =>
    obtain ⟨hSameValid, hSameId⟩ :=
      receive_frame (s.taken input) input.receiveBufferSize input.ending
    cases hRecvd : (s.taken input).receive input.receiveBufferSize input.ending with
    | mk _ result =>
      rw [hRecvd] at hSameValid hSameId
      cases result with
      | error => exact ⟨hSameValid, hSameId, nofun⟩
      | ok response =>
        dsimp only
        cases hAcc : accept (s.requestHeader input) response.toInboundMessage with
        | error e => exact ⟨hSameValid, hSameId, nofun⟩
        | ok _ =>
          refine ⟨hSameValid, hSameId, ?_⟩
          rintro message ⟨⟩
          exact (accept_eq_ok hAcc).2

/-- What becomes of a message that a call takes is for `accept` to say. -/
theorem call_of_taken {packet : Packet} {message : Delivered} (h : s.request? input = some header)
    (hInbox : s.inbox ++ input.arrivals = packet :: (s.call input).1.inbox)
    (hPacket : receivePacket packet = .ok message) :
    (s.call input).2 = (accept header message.toInboundMessage).map fun _ => message := by
  have hGrows : ∀ waiting : List Packet, waiting ≠ packet :: waiting := fun _ => by simp
  obtain ⟨hValid, hSize, hId, rfl⟩ := request?_eq_some h
  have hUsable : ¬(!s.valid) = true := by simp [hValid]
  unfold call at hInbox ⊢
  rw [if_neg hUsable, if_neg (by omega), if_neg hId] at hInbox ⊢
  cases hSent : sendPacket input.outcome (s.requestHeader input) input.requestPayload [] with
  | error =>
    rw [hSent] at hInbox
    exact absurd hInbox (hGrows _)
  | ok =>
    rw [hSent] at hInbox
    unfold receive at hInbox ⊢
    dsimp only at hInbox ⊢
    split_ifs at hInbox ⊢ with hBuffer
    · exact absurd hInbox (hGrows _)
    have hWaiting : (s.taken input).inbox = s.inbox ++ input.arrivals := rfl
    rw [hWaiting] at hInbox ⊢
    cases hFirst : s.inbox ++ input.arrivals with
    | nil =>
      rw [hFirst] at hInbox
      cases hInbox
    | cons first rest =>
      have hSame : first = packet := by
        rw [hFirst] at hInbox
        exact (List.cons.inj hInbox).1
      rw [hSame]
      dsimp only
      rw [hPacket]
      dsimp only
      cases accept (s.requestHeader input) message.toInboundMessage with
      | error | ok => rfl

/-- A call that makes no request changes nothing and fails. -/
theorem call_of_none (h : s.request? input = none) :
    ∃ e, s.call input = (s, .error e) ∧
      (s.valid = true → input.requestPayload.length ≤ maxInlinePayloadSize →
        e = ipcError requestIdExhausted) := by
  unfold request? at h
  split_ifs at h with hChecks
  unfold call
  split_ifs with hValid hSize hId
  · exact ⟨_, rfl, fun hTrue => by simp [hTrue] at hValid⟩
  · exact ⟨_, rfl, fun _ hSmall => by omega⟩
  · exact ⟨_, rfl, fun _ _ => rfl⟩
  · refine absurd ⟨by simpa using hValid, by omega, hId⟩ hChecks

theorem call_issued (h : s.request? input = some header) :
    header.requestId.toNat = s.issued ∧ (s.call input).1.issued = s.issued + 1 := by
  obtain ⟨-, hNext, -⟩ := call_of_request h
  obtain ⟨-, -, hId, rfl⟩ := request?_eq_some h
  have hIssued : s.issued = s.nextRequestId.toNat := if_neg hId
  refine ⟨hIssued.symm, ?_⟩
  have hLt := s.nextRequestId.toNat_lt
  rw [hIssued, issued, hNext]
  by_cases hLast : s.nextRequestId = 0xFFFFFFFFFFFFFFFF
  · rw [if_pos hLast, if_pos rfl, hLast]
    rfl
  have hNat : s.nextRequestId.toNat ≠ 2 ^ 64 - 1 := fun hMax => hLast (UInt64.toNat_inj.mp hMax)
  have hSucc : (s.nextRequestId + 1).toNat = s.nextRequestId.toNat + 1 := by
    rw [UInt64.toNat_add]
    exact Nat.mod_eq_of_lt (show s.nextRequestId.toNat + 1 < 2 ^ 64 by omega)
  have hNonzero : s.nextRequestId + 1 ≠ 0 := by
    intro hZero
    rw [hZero] at hSucc
    cases hSucc
  rw [if_neg hLast, if_neg hNonzero, hSucc]

theorem issued_step (s : Session) (op : SessionOp) : s.issued ≤ (s.step op).1.issued := by
  cases op with
  | arrive => exact Nat.le_refl _
  | call input =>
    show s.issued ≤ (s.call input).1.issued
    cases hReq : s.request? input with
    | none =>
      obtain ⟨e, hCall, -⟩ := call_of_none hReq
      rw [hCall]
    | some =>
      rw [(call_issued hReq).2]
      exact Nat.le_succ _

/-- The stateful call is `ClientConnection::call` on the channel as the call meets
it. -/
theorem call_refines (s : Session) (input : CallInput) {c : ClientConnection}
    (hChannel : c.channel = some (s.channel input)) (hId : c.nextRequestId = s.nextRequestId) :
    (c.call input.serviceId input.operationId input.requestPayload).2 =
        (s.call input).2.map Delivered.toInboundMessage ∧
      (c.call input.serviceId input.operationId input.requestPayload).1.nextRequestId =
        (s.call input).1.nextRequestId := by
  have hHeader : c.requestHeader input.serviceId input.operationId input.requestPayload =
      s.requestHeader input := by
    rw [requestHeader, ClientConnection.requestHeader, hId]
    rfl
  have hNext : (if c.nextRequestId = 0xFFFFFFFFFFFFFFFF then 0 else c.nextRequestId + 1) =
      (s.taken input).nextRequestId := by
    rw [hId]
    rfl
  have hSameId := (receive_frame (s.taken input) input.receiveBufferSize input.ending).2
  unfold ClientConnection.call call
  rw [hChannel]
  dsimp only [channel]
  rw [hHeader, hNext, hId]
  by_cases hUsable : (!s.valid) = true
  · simp only [if_pos hUsable]
    exact ⟨rfl, hId⟩
  by_cases hSize : maxInlinePayloadSize < input.requestPayload.length
  · simp only [if_neg hUsable, if_pos hSize]
    exact ⟨rfl, hId⟩
  by_cases hZero : s.nextRequestId = 0
  · simp only [if_neg hUsable, if_neg hSize, if_pos hZero]
    exact ⟨rfl, hId⟩
  simp only [if_neg hUsable, if_neg hSize, if_neg hZero]
  cases sendPacket input.outcome (s.requestHeader input) input.requestPayload [] with
  | error => exact ⟨rfl, rfl⟩
  | ok =>
    cases hRecvd : (s.taken input).receive input.receiveBufferSize input.ending with
    | mk _ result =>
      rw [hRecvd] at hSameId
      cases result with
      | error => exact ⟨rfl, hSameId.symm⟩
      | ok response =>
        dsimp only [Except.map]
        cases hAcc : accept (s.requestHeader input) response.toInboundMessage with
        | error e => exact ⟨rfl, hSameId.symm⟩
        | ok message =>
          refine ⟨?_, hSameId.symm⟩
          rw [(accept_eq_ok hAcc).1]

end Session

/-- A run of one connection: calls, and packets that arrive between them. -/
structure SessionRun where
  valid : Bool
  ops : List SessionOp

namespace SessionRun

def reached (r : SessionRun) (n : Nat) : Session :=
  Run.after Session.step { valid := r.valid } (r.ops.take n)

/-- The call at place `n` gave the channel a request with this header. -/
def RequestAt (r : SessionRun) (n : Nat) (header : WireHeaderV1) : Prop :=
  ∃ input, r.ops[n]? = some (.call input) ∧ (r.reached n).request? input = some header

/-- The call at place `n` returned this message. -/
def ReturnedAt (r : SessionRun) (n : Nat) (message : Delivered) : Prop :=
  ∃ input, r.ops[n]? = some (.call input) ∧ ((r.reached n).call input).2 = .ok message

/-- The call at place `n` made a request with this header and took this message from
its channel. -/
def TakenAt (r : SessionRun) (n : Nat) (header : WireHeaderV1) (message : Delivered) : Prop :=
  ∃ input packet, r.ops[n]? = some (.call input) ∧ (r.reached n).request? input = some header ∧
    (r.reached n).inbox ++ input.arrivals = packet :: ((r.reached n).call input).1.inbox ∧
    receivePacket packet = .ok message

/-- The header names the service, the operation and the identifier of the request. -/
def Names (request header : WireHeaderV1) : Prop :=
  header.serviceId = request.serviceId ∧ header.operationId = request.operationId ∧
    header.requestId = request.requestId

/-- The call at place `n` failed with this error. -/
def FailedAt (r : SessionRun) (n : Nat) (e : Error) : Prop :=
  ∃ input, r.ops[n]? = some (.call input) ∧ ((r.reached n).call input).2 = .error e

/-- The server made the message to answer a request with this header. -/
def IsAnswer (request : WireHeaderV1) (message : InboundMessage) : Prop :=
  (∃ payload handles, sendRpcResponse request payload handles = .ok message) ∨
    ∃ error, sendRpcError request error = .ok message

/-- What holds of every run, whatever packets arrive in it and however its sends and
receives end. -/
structure Correlated (r : SessionRun) : Prop where
  /-- What a call returns carries the call's own service, operation and identifier. -/
  own : ∀ n input message, r.ops[n]? = some (.call input) →
    ((r.reached n).call input).2 = .ok message →
    ∃ request, r.RequestAt n request ∧ request.serviceId = input.serviceId ∧
      request.operationId = input.operationId ∧ request.requestId ≠ 0 ∧
      message.header.serviceId = input.serviceId ∧
      message.header.operationId = input.operationId ∧
      message.header.requestId = request.requestId
  /-- Identifiers are not reused. -/
  distinct : ∀ m n first second, m < n → r.RequestAt m first → r.RequestAt n second →
    first.requestId ≠ second.requestId
  /-- A call on a usable channel that gets no identifier says so. -/
  exhausted : ∀ n input, r.ops[n]? = some (.call input) → r.valid = true →
    input.requestPayload.length ≤ maxInlinePayloadSize →
    (∃ request, r.RequestAt n request) ∨
      ((r.reached n).call input).2 = .error (ipcError requestIdExhausted)
  /-- Nothing that carries the identifier of an earlier request is returned. -/
  late : ∀ m n request message, m < n → r.RequestAt m request → r.ReturnedAt n message →
    message.header.requestId ≠ request.requestId
  /-- A message that does not name the call's own request is a violation of the
  protocol, also one that carries an error. -/
  foreign : ∀ n request message, r.TakenAt n request message → ¬Names request message.header →
    r.FailedAt n (ipcError protocolViolation)
  /-- In particular no answer to an earlier request, error or not, is the result. -/
  stale : ∀ m n request message, m < n → r.RequestAt m request →
    IsAnswer request message.toInboundMessage → ¬r.ReturnedAt n message ∧
      ∀ own, r.TakenAt n own message → r.FailedAt n (ipcError protocolViolation)
  /-- An error that a call takes from the channel comes from a message that names the
  call's own request. -/
  failed : ∀ n e, r.FailedAt n e → (∀ request message, ¬r.TakenAt n request message) ∨
    e = ipcError protocolViolation ∨
    ∃ request message, r.TakenAt n request message ∧ Names request message.header ∧
      hasFlag message.header.flags error = true ∧
      (decodeRpcError message.payload = .ok e ∨ decodeRpcError message.payload = .error e)
  /-- The server's check takes every request that the client makes. -/
  agreed : ∀ n request, r.RequestAt n request → request.Legal ∧
    ∀ message resolve peer, message.header = request → resolve message.sender = .ok peer →
      validateRpcRequest message request.serviceId resolve =
        .ok { peer, requestId := request.requestId }

variable {r : SessionRun}

theorem valid_reached (r : SessionRun) (n : Nat) : (r.reached n).valid = r.valid := by
  refine Run.always_of_invariant (P := fun s : Session => s.valid = r.valid) rfl ?_ n
  intro s op hValid
  cases op with
  | arrive => exact hValid
  | call input =>
    refine Eq.trans ?_ hValid
    show (s.call input).1.valid = s.valid
    cases hReq : s.request? input with
    | none =>
      obtain ⟨e, hCall, -⟩ := Session.call_of_none hReq
      rw [hCall]
    | some => exact (Session.call_of_request hReq).1

theorem issued_reached (r : SessionRun) {m n : Nat} (h : m ≤ n) :
    (r.reached m).issued ≤ (r.reached n).issued := by
  refine Run.stable (P := fun s : Session => (r.reached m).issued ≤ s.issued) ?_ h (Nat.le_refl _)
  intro s op hBefore
  exact hBefore.trans (Session.issued_step s op)

variable {m n : Nat} {message : Delivered} {request : WireHeaderV1}

/-- A later request has a larger identifier. -/
theorem requestId_lt {first second : WireHeaderV1} (hmn : m < n) (hFirst : r.RequestAt m first)
    (hSnd : r.RequestAt n second) : first.requestId.toNat < second.requestId.toNat := by
  obtain ⟨input, hOp, hReq⟩ := hFirst
  obtain ⟨input', -, hReq'⟩ := hSnd
  obtain ⟨hId, hNext⟩ := Session.call_issued hReq
  have hStep : r.reached (m + 1) = ((r.reached m).step (.call input)).1 := Run.after_take_succ hOp
  have hLater := r.issued_reached hmn
  rw [hStep] at hLater
  change ((r.reached m).call input).1.issued ≤ _ at hLater
  rw [hNext] at hLater
  rw [hId, (Session.call_issued hReq').1]
  exact hLater

theorem ReturnedAt.answers (h : r.ReturnedAt n message) :
    ∃ request, r.RequestAt n request ∧
      answers request message.header = true := by
  obtain ⟨input, hOp, hOk⟩ := h
  cases hReq : (r.reached n).request? input with
  | none =>
    obtain ⟨e, hCall, -⟩ := Session.call_of_none hReq
    rw [hCall] at hOk
    cases hOk
  | some request =>
    exact ⟨request, ⟨input, hOp, hReq⟩, (Session.call_of_request hReq).2.2 message hOk⟩

theorem names_of_answers {response : WireHeaderV1} (h : answers request response = true) :
    Names request response := by
  simp only [answers, Bool.and_eq_true, beq_iff_eq] at h
  exact ⟨h.1.1.2, h.1.2, h.2⟩

/-- An answer carries the identifier of the request it was made for. -/
theorem requestId_of_isAnswer {message : InboundMessage} (h : IsAnswer request message) :
    message.header.requestId = request.requestId := by
  rcases h with ⟨payload, handles, hResp⟩ | ⟨error, hErr⟩
  · simp only [sendRpcResponse, check_eq_ok_iff] at hResp
    obtain ⟨-, -, -, hMsg⟩ := hResp
    cases hMsg
    rfl
  unfold sendRpcError at hErr
  split at hErr
  · cases hErr
  · cases hErr
    rfl

theorem late_of_requestAt (hmn : m < n) (hReq : r.RequestAt m request)
    (hReturned : r.ReturnedAt n message) : message.header.requestId ≠ request.requestId := by
  obtain ⟨own, hOwn, hAns⟩ := hReturned.answers
  rw [(names_of_answers hAns).2.2]
  intro hSame
  have hLess := requestId_lt hmn hReq hOwn
  rw [hSame] at hLess
  omega

theorem TakenAt.requestAt (h : r.TakenAt n request message) : r.RequestAt n request := by
  obtain ⟨input, -, hOp, hReq, -⟩ := h
  exact ⟨input, hOp, hReq⟩

theorem failedAt_of_foreign (h : r.TakenAt n request message)
    (hNot : ¬Names request message.header) :
    r.FailedAt n (ipcError protocolViolation) := by
  obtain ⟨input, packet, hOp, hReq, hInbox, hPacket⟩ := h
  refine ⟨input, hOp, ?_⟩
  have hAns : answers request message.header = false := by
    rw [Bool.eq_false_iff]
    exact fun hAns => hNot (names_of_answers hAns)
  rw [Session.call_of_taken hReq hInbox hPacket, accept, hAns]
  rfl

/-- An earlier request has another identifier. -/
theorem not_names_of_stale (hmn : m < n) (hReq : r.RequestAt m request)
    (hAnswer : IsAnswer request message.toInboundMessage) {own : WireHeaderV1}
    (hOwn : r.RequestAt n own) : ¬Names own message.header := by
  rintro ⟨-, -, hSame⟩
  have hLess := requestId_lt hmn hReq hOwn
  rw [← hSame, requestId_of_isAnswer hAnswer] at hLess
  omega

theorem failed_cases {e : Error} (h : r.FailedAt n e) :
    (∀ request message, ¬r.TakenAt n request message) ∨ e = ipcError protocolViolation ∨
      ∃ request message, r.TakenAt n request message ∧ Names request message.header ∧
        hasFlag message.header.flags error = true ∧
        (decodeRpcError message.payload = .ok e ∨
          decodeRpcError message.payload = .error e) := by
  obtain ⟨input, hOp, hErr⟩ := h
  by_cases hTaken : ∃ request message, r.TakenAt n request message
  · obtain ⟨request, message, hTaken⟩ := hTaken
    obtain ⟨input', packet, hOp', hReq, hInbox, hPacket⟩ := id hTaken
    cases Option.some.inj (hOp.symm.trans hOp')
    rw [Session.call_of_taken hReq hInbox hPacket] at hErr
    cases hAcc : accept request message.toInboundMessage with
    | ok =>
      rw [hAcc] at hErr
      cases hErr
    | error =>
      rw [hAcc] at hErr
      cases hErr
      refine .inr ((accept_eq_error hAcc).imp_right fun hOwn => ?_)
      exact ⟨request, message, hTaken, names_of_answers hOwn.1, hOwn.2⟩
  · exact .inl fun request message hSome => hTaken ⟨request, message, hSome⟩

theorem legal_requestHeader {s : Session} {input : CallInput}
    (h : s.request? input = some request) : request.Legal := by
  obtain ⟨-, hSize, -, rfl⟩ := Session.request?_eq_some h
  have hFlags : validateWireFlags request 0 = .ok () := by decide
  have hHandles : (0 : UInt16) ≤ maxHandleCount := by decide
  refine ⟨?_, hHandles, rfl, hFlags⟩
  exact (Nat.mod_le _ _).trans hSize

/-- The wire header is exact, and in every run of a connection responses are
correlated with the calls they are returned from. -/
theorem responses_are_correlated : HeaderExact ∧ ∀ r : SessionRun, r.Correlated := by
  refine ⟨header_exact, fun r => ⟨?_, ?_, ?_, ?_, ?_, ?_, ?_, ?_⟩⟩
  · intro n input message hOp hOk
    obtain ⟨request, hReq, hAns⟩ := ReturnedAt.answers ⟨input, hOp, hOk⟩
    obtain ⟨hService, hOperation, hId⟩ := names_of_answers hAns
    refine ⟨request, hReq, ?_⟩
    obtain ⟨input', hOp', hHeader⟩ := hReq
    cases Option.some.inj (hOp.symm.trans hOp')
    obtain ⟨-, -, hNonzero, rfl⟩ := Session.request?_eq_some hHeader
    exact ⟨rfl, rfl, hNonzero, hService, hOperation, hId⟩
  · intro m n first second hmn hFirst hSnd hSame
    have hLess := requestId_lt hmn hFirst hSnd
    rw [hSame] at hLess
    omega
  · intro n input hOp hValid hSize
    cases hReq : (r.reached n).request? input with
    | some request => exact .inl ⟨request, input, hOp, hReq⟩
    | none =>
      obtain ⟨e, hCall, hErr⟩ := Session.call_of_none hReq
      refine .inr ?_
      rw [hCall, hErr ((r.valid_reached n).trans hValid) hSize]
  · exact fun m n request message => late_of_requestAt
  · exact fun n request message => failedAt_of_foreign
  · intro m n request message hmn hReq hAnswer
    refine ⟨fun hReturned => ?_, fun own hTaken => ?_⟩
    · exact late_of_requestAt hmn hReq hReturned (requestId_of_isAnswer hAnswer)
    · exact failedAt_of_foreign hTaken (not_names_of_stale hmn hReq hAnswer hTaken.requestAt)
  · exact fun n e => failed_cases
  · rintro n request ⟨input, hOp, hReq⟩
    refine ⟨legal_requestHeader hReq, ?_⟩
    intro message resolve peer hHeader hPeer
    obtain ⟨-, -, hNonzero, rfl⟩ := Session.request?_eq_some hReq
    have hFlags : hasFlag request request = true ∧ hasFlag request response = false ∧
        hasFlag request event = false ∧
        hasFlag request error = false ∧
        hasFlag request oneway = false ∧
        hasFlag request cancellable = false := by decide
    unfold validateRpcRequest
    rw [hHeader, hPeer]
    simp [Session.requestHeader, requestHeader, hFlags, hNonzero]

end SessionRun

end Enml.OsIpc
