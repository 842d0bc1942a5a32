import Enml.Invariant.Codec
import Enml.OsIpc.Rpc

/-! What becomes of an error that a service answers a call with. The envelope
carries every domain, and the decoder takes only those up to `ui`. -/
namespace Enml.OsIpc

open Enml.Core LittleEndian WireFlag Decoder ClientConnection Encoder

/-- The eight bytes an error travels as. -/
def envelope (error : Error) : List UInt8 :=
  bytesOf 2 (errorDomainRaw error.domain).toNat ++
    (bytesOf 2 (0 : UInt16).toNat ++ (bytesOf 4 error.code.toNat ++ []))

/-- The domains the decoder knows. -/
def Carried (domain : ErrorDomain) : Prop := domain ∉ [.shell, .kernel, .image]

instance (domain : ErrorDomain) : Decidable (Carried domain) := inferInstanceAs (Decidable (_ ∉ _))

theorem encodeRpcError_eq (error : Error) :
    encodeRpcError error = (wrote (List.replicate 8 0) (envelope error), .ok ()) := by
  unfold encodeRpcError
  dsimp only
  rw [wrote_nil, Call.bind_of_ok (writeU16Le_wrote (by simp)),
    Call.bind_of_ok (writeU16Le_wrote (by simp)), writeU32Le_wrote (by simp)]
  simp [envelope]

/-- The message that carries an error back. -/
def errorResponse (request : WireHeaderV1) (error : Error) : InboundMessage where
  header :=
    { flags := WireFlag.response ||| WireFlag.error
      serviceId := request.serviceId
      operationId := request.operationId
      requestId := request.requestId
      payloadSize := 8 }
  payload := envelope error

theorem sendRpcError_eq (request : WireHeaderV1) (error : Error) :
    sendRpcError request error = .ok (errorResponse request error) := by
  have hLen : (envelope error).length = 8 := by simp [envelope]
  rw [sendRpcError, encodeRpcError_eq]
  dsimp only
  rw [written_wrote, hLen]
  rfl

/-- A number is taken for a domain exactly if it is the number of one that is
carried. -/
theorem accepted_domain_iff {raw : UInt16} {domain : ErrorDomain} :
    validErrorDomain raw = true ∧ errorDomainOf raw = some domain ↔
      raw = errorDomainRaw domain ∧ Carried domain := by
  constructor
  · rintro ⟨hValid, hOf⟩
    have hFound := List.find?_some hOf
    obtain rfl : errorDomainRaw domain = raw := beq_iff_eq.mp hFound
    refine ⟨rfl, ?_⟩
    revert hValid
    cases domain <;> decide
  · rintro ⟨rfl, hCarried⟩
    revert hCarried
    cases domain <;> decide

variable {error : Error}

theorem checkRpcError_eq_ok_iff {domain reserved : UInt16} {code : UInt32}
    {front rest : List UInt8} {d : Decoder} :
    checkRpcError domain reserved code (between front rest) = (d, .ok error) ↔
      d = between front rest ∧ rest = [] ∧ reserved = 0 ∧
        domain = errorDomainRaw error.domain ∧ Carried error.domain ∧ code = error.code ∧
        error.code ≠ 0 ∧ error.reserved = 0 := by
  have hEnd : requireEnd (between front rest) = (between front rest,
      if rest ≠ [] then .error (ipcError Errors.malformedMessage) else .ok ()) := by
    rw [requireEnd, remaining_between]
    simp [List.length_eq_zero_iff]
  unfold checkRpcError
  rw [hEnd]
  by_cases hRest : rest = []
  · rw [if_neg (by simpa using hRest)]
    split_ifs with hBad
    · refine iff_of_false nofun ?_
      rintro ⟨-, -, hResv, hDomain, hCarried, hCode, hNonzero, -⟩
      have hValid := (accepted_domain_iff.mpr ⟨hDomain, hCarried⟩).1
      rcases hBad with hBad | hBad | hBad
      · exact hBad hResv
      · rw [hValid] at hBad
        cases hBad
      · exact hNonzero (hCode.symm.trans hBad)
    · rw [not_or, not_or, not_not, Bool.not_eq_false] at hBad
      obtain ⟨hResv, hValid, hCode⟩ := hBad
      cases hOf : errorDomainOf domain with
      | none =>
        refine iff_of_false nofun ?_
        rintro ⟨-, -, -, hDomain, hCarried, -⟩
        have hSome := (accepted_domain_iff.mpr ⟨hDomain, hCarried⟩).2
        rw [hOf] at hSome
        cases hSome
      | some =>
        obtain ⟨hDomain, hCarried⟩ := accepted_domain_iff.mp ⟨hValid, hOf⟩
        constructor
        · intro h
          cases h
          exact ⟨rfl, hRest, hResv, hDomain, hCarried, rfl, hCode, rfl⟩
        rintro ⟨rfl, -, -, hDomain', hCarried', rfl, -, hZero⟩
        have hSame := (accepted_domain_iff.mpr ⟨hDomain', hCarried'⟩).2
        rw [hOf] at hSame
        cases error
        cases hSame
        cases hZero
        rfl
  · rw [if_pos (by simpa using hRest)]
    refine iff_of_false nofun ?_
    rintro ⟨-, hNone, -⟩
    exact hRest hNone

/-- The decoder takes exactly the envelopes of errors in a domain it knows. -/
theorem decodeRpcError_eq_ok_iff {payload : List UInt8} :
    decodeRpcError payload = .ok error ↔
      payload = envelope error ∧ error.reserved = 0 ∧ error.code ≠ 0 ∧ Carried error.domain := by
  have hRun : ∀ {x : Call Decoder Error} {s : Decoder},
      (x s).2 = .ok error ↔ ∃ d, x s = (d, .ok error) := by
    intro x s
    constructor
    · intro h
      exact ⟨(x s).1, Prod.ext rfl h⟩
    · rintro ⟨d, h⟩
      rw [h]
  unfold decodeRpcError
  rw [hRun, start_eq]
  simp only [Call.bind_eq_ok_iff]
  constructor
  · rintro ⟨d, u₁, domain, hDomain, u₂, reserved, hResv, u₃, code, hCode, hCheck⟩
    obtain ⟨more, rfl, rfl⟩ := readU16Le_eq_ok_iff.mp hDomain
    obtain ⟨more, rfl, rfl⟩ := readU16Le_eq_ok_iff.mp hResv
    obtain ⟨more, rfl, rfl⟩ := readU32Le_eq_ok_iff.mp hCode
    obtain ⟨-, rfl, rfl, rfl, hCarried, rfl, hNonzero, hZero⟩ := checkRpcError_eq_ok_iff.mp hCheck
    exact ⟨rfl, hZero, hNonzero, hCarried⟩
  · rintro ⟨rfl, hZero, hNonzero, hCarried⟩
    exact ⟨_, _, _, readU16Le_between, _, _, readU16Le_between, _, _,
      readU32Le_between, checkRpcError_eq_ok_iff.mpr
        ⟨rfl, rfl, rfl, rfl, hCarried, rfl, hNonzero, hZero⟩⟩

/-- The error reaches the caller as it was: it is read back from the message that
carries it, and a call that is answered with that message fails with it. -/
structure Survives (error : Error) : Prop where
  decoded : ∀ request, ∃ message, sendRpcError request error = .ok message ∧
    decodeRpcError message.payload = .ok error
  reported : ∀ (c : ClientConnection) channel serviceId operationId payload,
    c.channel = some channel → channel.valid = true →
    payload.length ≤ maxInlinePayloadSize → c.nextRequestId ≠ 0 →
    channel.send (c.requestHeader serviceId operationId payload) payload = .ok () →
    channel.receive (c.requestHeader serviceId operationId payload) payload =
      sendRpcError (c.requestHeader serviceId operationId payload) error →
    (c.call serviceId operationId payload).2 = .error error

theorem answers_errorResponse (request : WireHeaderV1) (error : Error) :
    ClientConnection.answers request (errorResponse request error).header = true := by
  have hFlags : hasFlag (WireFlag.response ||| WireFlag.error) WireFlag.response = true ∧
      hasFlag (WireFlag.response ||| WireFlag.error) WireFlag.request = false ∧
      hasFlag (WireFlag.response ||| WireFlag.error) WireFlag.event = false ∧
      hasFlag (WireFlag.response ||| WireFlag.error) WireFlag.oneway = false ∧
      hasFlag (WireFlag.response ||| WireFlag.error) WireFlag.cancellable = false := by decide
  simp [answers, errorResponse, hFlags]

theorem accept_errorResponse {request : WireHeaderV1}
    (h : decodeRpcError (envelope error) = .ok error) :
    ClientConnection.accept request (errorResponse request error) = .error error := by
  have hFlag : hasFlag (errorResponse request error).header.flags WireFlag.error = true := by
    show hasFlag (WireFlag.response ||| WireFlag.error) WireFlag.error = true
    decide
  have hDecoded : decodeRpcError (errorResponse request error).payload = .ok error := h
  rw [accept, answers_errorResponse, Bool.not_true, if_neg (by decide),
    if_pos hFlag, if_neg (by simp [errorResponse]), hDecoded]

/-- An error survives the wire exactly if its domain is none of the three that
were added after `ui`; and whatever the decoder takes is the encoding of such an
error. -/
theorem rpc_error_survives_iff (error : Error) (hCode : error.code ≠ 0)
    (hResv : error.reserved = 0) :
    (Survives error ↔ error.domain ∉ [.shell, .kernel, .image]) ∧
      ∀ payload decoded, decodeRpcError payload = .ok decoded →
        decoded.code ≠ 0 ∧ decoded.reserved = 0 ∧
          ∀ request, ∃ message, sendRpcError request decoded = .ok message ∧
            message.payload = payload := by
  refine ⟨⟨?_, ?_⟩, ?_⟩
  · intro hSurvives
    obtain ⟨message, hSent, hDecoded⟩ := hSurvives.decoded {}
    exact (decodeRpcError_eq_ok_iff.mp hDecoded).2.2.2
  · intro hCarried
    have hDecoded : decodeRpcError (envelope error) = .ok error :=
      decodeRpcError_eq_ok_iff.mpr ⟨rfl, hResv, hCode, hCarried⟩
    constructor
    · intro request
      exact ⟨_, sendRpcError_eq request error, hDecoded⟩
    · intro c channel serviceId operationId payload hChannel hValid hSize hId hSend hRecv
      rw [sendRpcError_eq] at hRecv
      rw [call, hChannel]
      dsimp only
      rw [hValid, Bool.not_true, if_neg (by decide), if_neg (by omega), if_neg hId, hSend]
      rw [hRecv]
      exact accept_errorResponse hDecoded
  · intro payload decoded hDecoded
    obtain ⟨rfl, hZero, hNonzero, -⟩ := decodeRpcError_eq_ok_iff.mp hDecoded
    exact ⟨hNonzero, hZero, fun request => ⟨_, sendRpcError_eq request decoded, rfl⟩⟩

/-- An error of the shell is turned into a protocol violation. -/
theorem shell_error_lost :
    decodeRpcError (envelope (makeError .shell 20)) = .error (ipcError Errors.protocolViolation) ∧
      ¬∀ error : Error, error.code ≠ 0 → error.reserved = 0 → Survives error := by
  have hLost : decodeRpcError (envelope (makeError .shell 20)) =
      .error (ipcError Errors.protocolViolation) := by decide
  refine ⟨hLost, fun h => ?_⟩
  obtain ⟨message, hSent, hDecoded⟩ := (h (makeError .shell 20) (by decide) rfl).decoded {}
  rw [sendRpcError_eq] at hSent
  cases hSent
  exact absurd (hLost.symm.trans hDecoded) nofun

/-- An error of a service arrives. -/
theorem service_error_survives : Survives (makeError .service 1) :=
  ((rpc_error_survives_iff (makeError .service 1) (by decide) rfl).1).mpr (by decide)

end Enml.OsIpc
