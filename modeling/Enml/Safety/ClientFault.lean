import Enml.Invariant.StorageObjects
import Enml.Invariant.Wire
import Enml.Lib.Run

/-! What a client can do to the storage service through the endpoints of its objects.
Every reply that the service makes can be sent, so that a turn fails only if the packet is
refused by the channel, the client is gone before the reply, or it leaves no room for it. -/
namespace Enml.OsStorage.ClientTurns

open Enml.Core Enml.OsIpc Run StorageService List WireFlag Encoder LittleEndian Decoder

variable {payload : List UInt8} {handles : List Int32} {packet : Packet}

theorem encodeRpcError_eq (e : Error) : ∃ encoder, encodeRpcError e = (encoder, .ok ()) ∧
    encoder.written.length = 8 := by
  unfold encodeRpcError
  simp only
  rw [wrote_nil, Call.bind_of_ok (writeU16Le_wrote (by simp)),
    Call.bind_of_ok (writeU16Le_wrote (by simp [length_bytesOf])),
    writeU32Le_wrote (by simp [length_bytesOf])]
  exact ⟨_, rfl, by simp [written_wrote, length_bytesOf]⟩

/-- A failure that is never read as the death of the peer. -/
def NotDeath {α : Type} (x : Result α) : Prop := ∀ e, x = .error e → isPeerDeath e = false

/-- A call whose failures are never read as the death of the peer. -/
def Distinct {σ α : Type} (x : Call σ α) : Prop :=
  ∀ s t e, x s = (t, .error e) → isPeerDeath e = false

section

variable {σ α β : Type} {condition : Bool}

theorem Distinct.bind {x : Call σ α} {f : α → Call σ β} (hx : Distinct x)
    (hf : ∀ a, Distinct (f a)) : Distinct (x >>= f) := by
  intro s t e h
  cases hFirst : x s with
  | mk u result =>
    cases result with
    | error =>
      rw [Call.bind_of_error hFirst] at h
      cases h
      exact hx s _ _ hFirst
    | ok a =>
      rw [Call.bind_of_ok hFirst] at h
      exact hf a u t e h

theorem NotDeath.bind {x : Result α} {f : α → Result β} (hx : NotDeath x)
    (hf : ∀ a, NotDeath (f a)) : NotDeath (x >>= f) := by
  intro e h
  cases hFirst : x with
  | error =>
    rw [hFirst] at h
    cases h
    exact hx _ hFirst
  | ok a =>
    rw [hFirst] at h
    exact hf a e h

end

/-- A turn in which the service serves the object at `index`. The main endpoint is quiet
and the kernel does its part: what is missing is the client's doing. -/
structure ClientTurn (s : StorageService) (d : Dispatch) (index : Nat) : Prop where
  buffer : maxWirePacketSize ≤ d.receiveBuffer
  timeout : -1 ≤ d.timeoutMs
  ready : ∃ objects, d.poll = .ready {} objects ∧ s.readyObject objects = some index
  received : d.arrival ≠ .ending .failure
  sent : d.surroundings.outcome ≠ some .short ∧ d.surroundings.outcome ≠ some .failure

/-- The message that a request is answered with, and the descriptors beside it. -/
def Replies (requestHeader : WireHeaderV1) : Result Answer → InboundMessage → List Int32 → Prop
  | .error e, reply, handles => sendRpcError requestHeader e = .ok reply ∧ handles = []
  | .ok (.payload bytes), reply, handles =>
    sendRpcResponse requestHeader bytes [] = .ok reply ∧ handles = []
  | .ok (.minted m), reply, handles =>
    sendRpcResponse requestHeader m.payload [m.client.fd] = .ok reply ∧ handles = [m.client.fd]

/-- The request has been received and its reply has been sent. -/
def Answered (s : StorageService) (d : Dispatch) (index : Nat) : Prop :=
  ∃ message reply handles, receiveFrom d.arrival = .ok message ∧
    Replies message.header (s.answerObject d.surroundings (s.slotAt index) message) reply handles ∧
    reply.header.requestId = message.header.requestId ∧
    sendWaiting d.surroundings.outcome reply.header reply.payload handles = some (.ok ())

structure Served (s : StorageService) (d : Dispatch) (index : Nat) : Prop where
  result : (s.dispatchOnce d).2 = some (.ok ())
  continues : (Loop.step { service := s } (.service d)).1.running = true
  settled : (s.dispatchOnce d).1.slotAt index = {} ∨ Answered s d index
  others : ∀ i, i ≠ index → (s.slotAt i).occupied = true →
    (s.dispatchOnce d).1.slotAt i = s.slotAt i

section

variable {s : StorageService} {d : Dispatch} {index : Nat}

theorem ClientTurn.within (h : ClientTurn s d index) :
    ¬d.receiveBuffer < maxWirePacketSize ∧ ¬d.timeoutMs < -1 :=
  ⟨Nat.not_lt.mpr h.buffer, Int.not_lt.mpr h.timeout⟩

end

def clientCredentials : ControlRecord := .credentials 700 1000 1000

/-- A well-formed packet. -/
def packetOf (header : WireHeaderV1) (payload : List UInt8) (control : List ControlRecord) :
    Packet where
  bytes :=
    match encodePacket header payload (replicate header.handleCount.toNat 0) with
    | .ok bytes => bytes
    | .error _ => []
  control

/-- The root of principal 1 and user 1 is registered. -/
def registration : Control where
  arrival := .packet (packetOf
    { flags := request ||| hasHandles, serviceId := bootstrapServiceId
      operationId := storageControlRegisterRootOperation, requestId := 1, payloadSize := 24
      handleCount := 1 }
    ([0, 0, 0, 0, 0, 0, 0, 0] ++ [1, 0, 0, 0, 0, 0, 0, 0] ++ [1, 0, 0, 0, 0, 0, 0, 0])
    [clientCredentials, .rights [{ fd := 9 }] 0])
  adopted := .ok 9

def surroundings (outcome : Option SendOutcome) : Surroundings where
  resolve _ := .ok { principal := ⟨0, 1⟩, user := 1, process := 5 }
  opened := .ok 12
  pair := .ok (⟨10, by decide⟩, ⟨11, by decide⟩)
  outcome

/-- A client opens the root and is given an endpoint for it. -/
def opening : Dispatch where
  poll := .ready { input := true } fun _ => {}
  arrival := .packet (packetOf
    { flags := request, serviceId := storageServiceId
      operationId := storageOpenPrivateRootOperation, requestId := 1, payloadSize := 4 }
    [0, 0, 0, 0] [clientCredentials])
  surroundings := surroundings (some .complete)

/-- The client sends a single byte on the endpoint of the object. -/
def malformed : Dispatch where
  poll := .ready {} fun index => { input := index == 0 }
  arrival := .packet { bytes := [0], control := [clientCredentials] }
  surroundings := surroundings (some .complete)

/-- The client asks for the creation of a directory. -/
def creation (outcome : Option SendOutcome) : Dispatch where
  poll := .ready {} fun index => { input := index == 0 }
  arrival := .packet (packetOf
    { flags := request, serviceId := storageObjectServiceId
      operationId := ObjectOperation.createDirectory, requestId := 1, payloadSize := 5 }
    [1, 0, 0, 0, 0x61] [clientCredentials])
  surroundings := surroundings outcome

def opened : StorageService := after step {} [.control registration, .dispatch opening]

/-- The files below the root of a caller, by the segments that lead to them. -/
abbrev Files := List (List UInt8) → Option (List UInt8)

/-- What `openat` leaves of the file it opens. -/
def leaves (options : OpenOptions) : Option (List UInt8) → Option (List UInt8)
  | none => if options.create = .openExisting then none else some []
  | some contents => if options.truncate then some [] else some contents

section Refusals

variable (s : StorageService) (w : Surroundings) (slot : ObjectSlot) (payload : List UInt8)
  (files : Files) (path : RelativePath)

/-- The steps of `openFile` up to the call of the substrate. -/
def openStarted : Result (RelativePath × OpenOptions × File) := do
  ensure slot.isDirectory (storageError Errors.invalidObjectType)
  let (path, options) ← Request.decode Request.pathAndOptions payload
  let required ← requiredDirectoryRights options
  ensure (hasRights slot.rights required) (storageError Errors.accessDenied)
  let directory ← s.directoryFor slot
  let file ← directory.openFile path options w.opened
  .ok (path, options, file)

def placeOf : List (List UInt8) := slot.namespacePath.segments ++ path.segments

/-- The files after an answer to an open: whatever becomes of the request, the call
of the substrate has created or emptied the file. -/
def filesAfterOpen : Files :=
  match openStarted s w slot payload with
  | .error _ => files
  | .ok (path, options, _) =>
    Function.update files (placeOf slot path) (leaves options (files (placeOf slot path)))

/-- The steps of `openFile` behind the call of the substrate go through. -/
structure Finishes : Prop where
  path : ∃ full, slot.canonicalNamespacePath path = .ok full
  room : ∃ index, s.allocateSlot slot.principal slot.user = .ok index
  pair : ∃ ends, w.pair = .ok ends

variable {s w slot payload files path}

theorem openFile_eq : s.openFile w slot payload = (do
    let (path, _, file) ← openStarted s w slot payload
    let childNamespace ← slot.canonicalNamespacePath path
    s.mint w slot.principal slot.user
      (fun endpoint child =>
        { child with
          occupied := true, kind := .file, rights := rightsForFile file, principal := slot.principal
          user := slot.user, namespacePath := childNamespace, file, endpoint := some endpoint
          derivation := slot.extended path })
      (encodeObjectDescriptor .file (rightsForFile file))) := by
  simp only [StorageService.openFile, openStarted, bind_assoc]
  rfl

theorem openFile_isOk_iff {options : OpenOptions} {file : File}
    (h : openStarted s w slot payload = .ok (path, options, file)) :
    (∃ answer, s.openFile w slot payload = .ok answer) ↔ Finishes s w slot path := by
  obtain ⟨bytes, hBytes, -⟩ := encodeObjectDescriptor_eq .file (rightsForFile file)
  rw [openFile_eq]
  constructor
  · rintro ⟨answer, hOpen⟩
    obtain ⟨started, hStarted, hOpen⟩ := bind_ok hOpen
    rw [h] at hStarted
    cases hStarted
    obtain ⟨full, hPath, hOpen⟩ := bind_ok hOpen
    obtain ⟨index, hRoom, hOpen⟩ := bind_ok hOpen
    obtain ⟨ends, hPair, -⟩ := bind_ok hOpen
    exact ⟨⟨full, hPath⟩, ⟨index, hRoom⟩, ⟨ends, hPair⟩⟩
  · rintro ⟨⟨full, hPath⟩, ⟨index, hRoom⟩, ⟨ends, hPair⟩⟩
    exact ⟨_, bind_eq_ok_iff.mpr ⟨_, h, bind_eq_ok_iff.mpr ⟨full, hPath, bind_eq_ok_iff.mpr
      ⟨index, hRoom, bind_eq_ok_iff.mpr ⟨ends, hPair, bind_eq_ok_iff.mpr ⟨bytes, hBytes, rfl⟩⟩⟩⟩⟩⟩

end Refusals

/-- A packet on the endpoint of an object asks for a file to be opened. -/
structure AsksToOpen (arrival : Arrival) (message : Delivered) : Prop where
  received : receiveFrom arrival = .ok message
  valid : validObjectRequest message = true
  operation : message.header.operationId = ObjectOperation.openFile

theorem AsksToOpen.answer_eq {s : StorageService} {w : Surroundings} {slot : ObjectSlot}
    {arrival : Arrival} {message : Delivered} (h : AsksToOpen arrival message) :
    s.answerObject w slot message = s.openFile w slot message.payload := by
  unfold answerObject operate
  rw [h.valid, h.operation]
  rfl

/-- An open that is answered with an error leaves the objects and the files alone. -/
def RefusalClean (s : StorageService) (w : Surroundings) (arrival : Arrival) (index : Nat)
    (files : Files) : Prop :=
  ∀ message e, AsksToOpen arrival message → s.answerObject w (s.slotAt index) message = .error e →
    (s.dispatchObject w arrival index).1 = s ∧
      filesAfterOpen s w (s.slotAt index) message.payload files = files

/-- A refused open leaves everything alone exactly when each open that reaches the
substrate goes through there or would leave the file as it is. -/
theorem refusal_clean_iff (s : StorageService) (w : Surroundings) (arrival : Arrival) (index : Nat)
    (files : Files) :
    RefusalClean s w arrival index files ↔ ∀ message path options file, AsksToOpen arrival message →
        openStarted s w (s.slotAt index) message.payload = .ok (path, options, file) →
        Finishes s w (s.slotAt index) path ∨
          leaves options (files (placeOf (s.slotAt index) path)) =
            files (placeOf (s.slotAt index) path) := by
  constructor
  · intro hClean message path options file hAsks hStarted
    cases hOpen : s.openFile w (s.slotAt index) message.payload with
    | ok answer => exact .inl ((openFile_isOk_iff hStarted).mp ⟨answer, hOpen⟩)
    | error e =>
      have hSame := (hClean message e hAsks (hAsks.answer_eq.trans hOpen)).2
      unfold filesAfterOpen at hSame
      rw [hStarted] at hSame
      exact .inr (Function.update_eq_self_iff.mp hSame)
  · intro hWhen message e hAsks hErr
    refine ⟨?_, ?_⟩
    · unfold dispatchObject
      dsimp only
      rw [hAsks.received]
      dsimp only
      rw [hErr]
      split_ifs <;> rfl
    · rw [hAsks.answer_eq] at hErr
      unfold filesAfterOpen
      cases hStarted : openStarted s w (s.slotAt index) message.payload with
      | error => rfl
      | ok started =>
        obtain ⟨path, options, file⟩ := started
        rcases hWhen message path options file hAsks hStarted with hFinishes | hSame
        · obtain ⟨answer, hOk⟩ := (openFile_isOk_iff hStarted).mpr hFinishes
          rw [hOk] at hErr
          cases hErr
        · exact Function.update_eq_self_iff.mpr hSame

/-- The client asks for the file `a` to be opened and emptied. -/
def truncation : Arrival :=
  .packet (packetOf
    { flags := request, serviceId := storageObjectServiceId
      operationId := ObjectOperation.openFile, requestId := 1, payloadSize := 8 }
    [1, 0, 0, 0, 0x61, 2, 0, 1] [clientCredentials])

/-- No channel can be made for the object. -/
def unpaired : Surroundings :=
  { surroundings (some .complete) with pair := .error (storageError 99) }

/-- The open is refused and the file is empty. -/
theorem refused_open_truncates :
    ¬ RefusalClean opened unpaired truncation 0 (fun _ => some [1]) := by
  intro hClean
  obtain ⟨message, hAsks, hPayload⟩ : ∃ message, AsksToOpen truncation message ∧
      message.payload = [1, 0, 0, 0, 0x61, 2, 0, 1] :=
    ⟨_, ⟨rfl, by decide +kernel, by decide +kernel⟩, by decide +kernel⟩
  have hStarted : openStarted opened unpaired (opened.slotAt 0) message.payload =
      .ok (⟨[0x61], .inr (by decide +kernel)⟩, { access := .readWrite, truncate := true },
        { handle := 12, readable := true, writable := true }) := by
    rw [hPayload]
    decide +kernel
  cases hOpen : opened.openFile unpaired (opened.slotAt 0) message.payload with
  | ok answer =>
    obtain ⟨ends, hPair⟩ := ((openFile_isOk_iff hStarted).mp ⟨answer, hOpen⟩).pair
    cases hPair
  | error e =>
    have hFiles := (hClean message e hAsks (hAsks.answer_eq.trans hOpen)).2
    unfold filesAfterOpen at hFiles
    rw [hStarted] at hFiles
    have hEmptied := Function.update_eq_self_iff.mp hFiles
    cases hEmptied

end Enml.OsStorage.ClientTurns
