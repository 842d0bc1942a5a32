import Enml.Invariant.Codec
import Enml.OsIpc.Rpc

/-! The header on the wire. Encoder and decoder agree on which headers are legal,
and a legal header has one representation. -/
namespace Enml.OsIpc

open Enml.Core LittleEndian Decoder Encoder Call

/-- The forty bytes of a header. -/
def headerBytes (header : WireHeaderV1) : List UInt8 :=
  wireMagic ++ (bytesOf 2 wireHeaderV1Size.toNat ++ (bytesOf 2 transportVersionV1.toNat ++
    (bytesOf 4 header.flags.toNat ++ (bytesOf 4 header.serviceId.toNat ++
      (bytesOf 4 header.operationId.toNat ++ (bytesOf 8 header.requestId.toNat ++
        (bytesOf 4 header.payloadSize.toNat ++ (bytesOf 2 header.handleCount.toNat ++
          (bytesOf 2 (0 : UInt16).toNat ++ bytesOf 4 (0 : UInt32).toNat)))))))))

theorem length_headerBytes (header : WireHeaderV1) :
    (headerBytes header).length = wireHeaderV1Size.toNat := by
  simp only [headerBytes, List.length_append, length_bytesOf]
  rfl

/-- What both sides ask of a header. -/
structure WireHeaderV1.Legal (header : WireHeaderV1) : Prop where
  payload : header.payloadSize.toNat ≤ maxInlinePayloadSize
  handles : header.handleCount ≤ maxHandleCount
  checksum : header.payloadChecksum = 0
  flags : validateWireFlags header.flags header.handleCount = .ok ()

/-- The encoder accepts exactly the legal headers. -/
theorem encodeWireHeaderV1_eq_ok_iff {header : WireHeaderV1} {out done : List UInt8} {e : Encoder}
    (hRoom : done.length + wireHeaderV1Size.toNat ≤ out.length) :
    encodeWireHeaderV1 header (wrote out done) = (e, .ok ()) ↔
      header.Legal ∧ e = wrote out (done ++ headerBytes header) := by
  have hRoom' : done.length + 40 ≤ out.length := hRoom
  have hForward : ∀ e, encodeWireHeaderV1 header (wrote out done) = (e, .ok ()) → header.Legal := by
    intro e h
    unfold encodeWireHeaderV1 at h
    rw [bind_of_ok (ensureCapacity_wrote hRoom)] at h
    simp only [Call.bind_eq_ok_iff, Call.ensure_eq_ok_iff, Call.check_eq_ok_iff] at h
    obtain ⟨_, _, ⟨rfl, hPayload⟩, _, _, ⟨rfl, hHandles⟩, _, _, ⟨rfl, hChecksum⟩, _, _,
      ⟨rfl, hFlags⟩, -⟩ := h
    exact ⟨by simpa using hPayload, by simpa using hHandles, by simpa using hChecksum, hFlags⟩
  have hBackward : header.Legal → encodeWireHeaderV1 header (wrote out done) =
      (wrote out (done ++ headerBytes header), .ok ()) := by
    intro hLegal
    have hPayload : (!decide (maxInlinePayloadSize < header.payloadSize.toNat)) = true := by
      simpa using hLegal.payload
    have hHandles : (!decide (maxHandleCount < header.handleCount)) = true := by
      simpa using hLegal.handles
    have hChecksum : (header.payloadChecksum == 0) = true := by simpa using hLegal.checksum
    have hWrites := (writes_raw wireMagic).bind <| (writes_u16 wireHeaderV1Size).bind <|
      (writes_u16 transportVersionV1).bind <| (writes_u32 header.flags).bind <|
      (writes_u32 header.serviceId).bind <| (writes_u32 header.operationId).bind <|
      (writes_u64 header.requestId).bind <| (writes_u32 header.payloadSize).bind <|
      (writes_u16 header.handleCount).bind <| (writes_u16 0).bind (writes_u32 0)
    unfold encodeWireHeaderV1
    rw [bind_of_ok (ensureCapacity_wrote hRoom), bind_of_ok (ensure_of_true hPayload),
      bind_of_ok (ensure_of_true hHandles),
      bind_of_ok (ensure_of_true hChecksum),
      bind_of_ok (check_of_ok hLegal.flags)]
    exact (hWrites out done _ (by omega)).mpr ⟨hRoom, rfl⟩
  constructor
  · intro h
    have hLegal := hForward e h
    rw [hBackward hLegal] at h
    cases h
    exact ⟨hLegal, rfl⟩
  · rintro ⟨hLegal, rfl⟩
    exact hBackward hLegal

/-- The decoder takes exactly the representations of legal headers. -/
theorem reads_wireHeader :
    Reads decodeWireHeaderV1 fun header bytes => header.Legal ∧ bytes = headerBytes header := by
  have hEnd : ∀ header : WireHeaderV1,
      Reads (check (validateWireFlags header.flags header.handleCount) >>= fun _ =>
        pure header)
        fun b bytes => validateWireFlags header.flags header.handleCount = .ok () ∧
          b = header ∧ bytes = [] := by
    intro header
    cases hFlags : validateWireFlags header.flags header.handleCount with
    | error => exact fun _ _ _ _ => iff_of_false nofun (by simp)
    | ok => exact (reads_pure header).congr (by simp)
  refine ((reads_raw _).bind fun magic => (reads_u16.part fun size => (reads_u16.part fun version =>
    (reads_u32.part fun flags => reads_u32.part fun serviceId => reads_u32.part fun operationId =>
    reads_u64.part fun requestId => reads_u32.part fun payloadSize =>
    reads_u16.part fun handleCount => reads_u16.part fun reserved => (reads_u32.part fun checksum =>
    (((hEnd { flags, serviceId, operationId, requestId, payloadSize, handleCount
              payloadChecksum := 0 }).ensured _ _).ensured _ _).ensured _ _).ensured _ _).ensured
    _ _).ensured _ _).ensured _ _).congr fun header bytes => ?_
  simp only [Bool.not_eq_true', decide_eq_false_iff_not, beq_iff_eq, headerBytes]
  constructor
  · rintro ⟨_, _, _, ⟨rfl, -⟩, ⟨rfl, _, _, ⟨rfl, _, _, ⟨rfl, flags, _, ⟨serviceId, _,
      ⟨operationId, _, ⟨requestId, _, ⟨payloadSize, _, ⟨handleCount, _, ⟨_, _, ⟨rfl, _, _,
      ⟨rfl, hSmall, hFew, hFlags, rfl, rfl⟩, rfl⟩, rfl⟩, rfl⟩, rfl⟩, rfl⟩, rfl⟩, rfl⟩, rfl⟩, rfl⟩,
      rfl⟩, rfl⟩
    exact ⟨⟨Nat.not_lt.mp hSmall, by simpa using hFew, rfl, hFlags⟩, by simp⟩
  · rintro ⟨⟨hPayload, hHandles, hChecksum, hFlags⟩, rfl⟩
    exact ⟨_, _, _, ⟨rfl, rfl⟩, ⟨rfl, _, _, ⟨rfl, _, _, ⟨rfl, header.flags, _, ⟨header.serviceId, _,
      ⟨header.operationId, _, ⟨header.requestId, _, ⟨header.payloadSize, _, ⟨header.handleCount, _,
      ⟨0, _, ⟨rfl, 0, [], ⟨rfl, Nat.not_lt.mpr hPayload, by simpa using hHandles, hFlags,
      by rw [← hChecksum], rfl⟩, rfl⟩, rfl⟩, rfl⟩, rfl⟩, rfl⟩, rfl⟩, rfl⟩, rfl⟩, rfl⟩, rfl⟩,
      by simp⟩

theorem decodeWireHeaderV1_eq_ok_iff {front rest : List UInt8} {d : Decoder}
    {header : WireHeaderV1} :
    decodeWireHeaderV1 (between front rest) = (d, .ok header) ↔
      header.Legal ∧ ∃ more, rest = headerBytes header ++ more ∧
        d = between (front ++ headerBytes header) more := by
  rw [reads_wireHeader]
  simp [and_assoc]

end Enml.OsIpc
