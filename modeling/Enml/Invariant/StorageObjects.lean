import Enml.Invariant.Codec
import Enml.OsStorage.Service

/-! What one step of the storage service can do to its tables, and the invariant of the
objects it has given out that follows from it. -/
namespace Enml.OsStorage

open Enml.Core Enml.OsIpc SlotTable List DirectoryRights Encoder StorageService PrivateRootRegistry
  LittleEndian ObjectSlot RelativePath

variable {slot : ObjectSlot} {e : Error}

theorem ensure_bind_eq_ok_iff {β : Type} {condition : Bool} {f : Unit → Result β} {b : β} :
    ensure condition e >>= f = .ok b ↔ condition = true ∧ f () = .ok b := by
  rw [check_eq_ok_iff, ensure_eq_ok_iff]

theorem hasRights_trans {a b c : RightsMask} (hFirst : hasRights a b = true)
    (hSnd : hasRights b c = true) : hasRights a c = true := by
  simp only [hasRights, beq_iff_eq] at *
  calc a &&& c = a &&& (b &&& c) := by rw [hSnd]
    _ = a &&& b &&& c := (UInt32.and_assoc a b c).symm
    _ = c := by rw [hFirst, hSnd]

theorem hasRights_rightsForFile_read (file : File) :
    hasRights (rightsForFile file) FileRights.read = file.readable := by
  cases hRead : file.readable <;> cases hWrite : file.writable <;>
    simp only [rightsForFile, hRead, hWrite, if_true, Bool.false_eq_true, if_false] <;> decide

theorem hasRights_rightsForFile_write (file : File) :
    hasRights (rightsForFile file) FileRights.write = file.writable := by
  cases hRead : file.readable <;> cases hWrite : file.writable <;>
    simp only [rightsForFile, hRead, hWrite, if_true, Bool.false_eq_true, if_false] <;> decide

/-- A file is opened for reading or writing only with the directory right for it. -/
theorem requiredDirectoryRights_covers {options : OpenOptions} {required : RightsMask}
    {readable writable : Bool} (hRequired : requiredDirectoryRights options = .ok required)
    (hFlags : openFlags options = .ok (readable, writable)) :
    (readable = true → hasRights required openFileRead = true) ∧
      (writable = true → hasRights required openFileWrite = true) := by
  obtain ⟨access, create, truncate⟩ := options
  cases access <;> cases create <;> cases truncate <;> cases hRequired <;> cases hFlags <;> decide

namespace PrivateRootRegistry

variable {r after : PrivateRootRegistry} {principal other : PrincipalId} {user otherUser : UserId}
  {root : PrivateRoot} {place : RootPlace}

theorem owner_of_find (h : r.find principal user = some place) :
    ∃ entry, r.entries[place]? = some entry ∧ entry.owner = some (principal, user) := by
  obtain ⟨hBound, hOwner, -⟩ := findIdx?_eq_some_iff_getElem.mp h
  exact ⟨_, getElem?_eq_getElem hBound, of_decide_eq_true hOwner⟩

/-- One entry has one owner. -/
theorem find_inj (h : r.find principal user = some place)
    (hOther : r.find other otherUser = some place) : (other, otherUser) = (principal, user) := by
  obtain ⟨entry, hAt, hOwner⟩ := owner_of_find h
  obtain ⟨entry', hAt', hOwner'⟩ := owner_of_find hOther
  obtain rfl : entry' = entry := Option.some.inj (hAt'.symm.trans hAt)
  exact Option.some.inj (hOwner'.symm.trans hOwner)

/-- An entry that changes between owners other than the one in question does not show. -/
theorem find_replace {front back : List RootEntry} {e e' : RootEntry}
    (h : e.owner ≠ some (principal, user)) (h' : e'.owner ≠ some (principal, user)) :
    find { entries := front ++ e :: back } principal user =
      find { entries := front ++ e' :: back } principal user := by
  simp only [find, findIdx?_append, findIdx?_cons, decide_eq_false h, decide_eq_false h']

theorem registerRoot_eq_ok (h : r.registerRoot principal user root = (after, .ok ())) :
    r.find principal user = none ∧ ∀ other otherUser, (other, otherUser) ≠ (principal, user) →
      after.find other otherUser = r.find other otherUser := by
  unfold registerRoot at h
  split_ifs at h with hBad hFound
  · cases h
  · cases h
  split at h
  · cases h
  rename_i entries hIns
  cases h
  obtain ⟨front, free, back, hBefore, -, hFree, rfl⟩ := insert_eq_some hIns
  refine ⟨by simpa using hFound, fun other otherUser hOther => ?_⟩
  obtain rfl : r = { entries := front ++ free :: back } := by rw [← hBefore]
  refine find_replace ?_ (by rw [hFree]; exact nofun)
  exact fun hSame => hOther (Option.some.inj hSame).symm

theorem registerRoot_eq_error (h : (r.registerRoot principal user root).2 = .error e) :
    (r.registerRoot principal user root).1 = r := by
  unfold registerRoot at h ⊢
  split_ifs at h ⊢
  · rfl
  · rfl
  · split at h
    · rfl
    · cases h

theorem unregisterRoot_eq_ok (h : r.unregisterRoot principal user = (after, .ok ())) :
    (r.find principal user).isSome ∧ ∀ other otherUser, (other, otherUser) ≠ (principal, user) →
      after.find other otherUser = r.find other otherUser := by
  unfold unregisterRoot at h
  split_ifs at h with hBad
  · cases h
  split at h
  · cases h
  rename_i place hFound
  cases h
  refine ⟨by rw [hFound]; rfl, fun other otherUser hOther => ?_⟩
  obtain ⟨entry, hAt, hOwner⟩ := owner_of_find hFound
  obtain ⟨hBound, hEntry⟩ := List.getElem?_eq_some_iff.mp hAt
  have hSplit : r.entries = r.entries.take place ++ entry :: r.entries.drop (place + 1) := by
    rw [← hEntry, getElem_cons_drop, take_append_drop]
  have hBefore :
      r = { entries := r.entries.take place ++ entry :: r.entries.drop (place + 1) } := by
    rw [← hSplit]
  rw [set_eq_take_append_cons_drop, if_pos hBound]
  conv_rhs => rw [hBefore]
  refine find_replace nofun ?_
  rw [hOwner]
  exact fun hSame => hOther (Option.some.inj hSame).symm

theorem unregisterRoot_eq_error (h : (r.unregisterRoot principal user).2 = .error e) :
    (r.unregisterRoot principal user).1 = r := by
  unfold unregisterRoot at h ⊢
  split_ifs at h ⊢
  · rfl
  · split at h
    · rfl
    · cases h

end PrivateRootRegistry

/-- What is true of an object that has been given out. -/
structure ObjectSlot.Sound (roots : PrivateRootRegistry) (slot : ObjectSlot) : Prop where
  owner : (slot.principal, slot.user) =
    (slot.derivation.caller.principal, slot.derivation.caller.user)
  registered : (roots.find slot.principal slot.user).isSome
  endpoint : slot.endpoint.isSome
  kind : slot.kind ≠ .none
  atRoot : slot.kind = .rootDirectory →
    slot.root = roots.find slot.principal slot.user ∧ slot.derivation.hops = [] ∧
      slot.namespacePath = {}
  belowRoot : slot.kind ≠ .rootDirectory →
    slot.root = none ∧ slot.derivation.hops ≠ [] ∧ slot.namespacePath.valid = true
  directory : slot.isDirectory = true →
    ∀ hop ∈ slot.derivation.hops, hasRights hop.rights slot.rights = true
  read : slot.kind = .file → hasRights slot.rights FileRights.read = true →
    ∀ hop ∈ slot.derivation.hops, hasRights hop.rights openFileRead = true
  write : slot.kind = .file → hasRights slot.rights FileRights.write = true →
    ∀ hop ∈ slot.derivation.hops, hasRights hop.rights openFileWrite = true
  namespacePath : slot.namespacePath.segments =
    slot.derivation.hops.flatMap fun hop => hop.path.segments

structure StorageService.Sound (s : StorageService) : Prop where
  length : s.objects.length = maxStorageObjects
  free : ∀ slot ∈ s.objects, slot.occupied = false → slot = {}
  granted : ∀ slot ∈ s.objects, slot.occupied = true → slot.Sound s.roots
  few : ∀ principal user, s.objects.countP (fun slot => slot.ownedBy principal user) ≤
    maxStorageObjectsPerPrincipal

/-- A request to open a private root whose sender has been identified. -/
def Authenticates (op : ServiceOp) (caller : PeerIdentity) : Prop :=
  ∃ d message context, op = .dispatch d ∧ receiveFrom d.arrival = .ok message ∧
    validateRpcRequest message storageServiceId d.surroundings.resolve = .ok context ∧
    message.header.operationId = storageOpenPrivateRootOperation ∧ context.peer = caller

/-- The objects that a step may give out. -/
inductive Granted (s : StorageService) (op : ServiceOp) : ObjectSlot → Prop where
  | root {caller : PeerIdentity} {place : RootPlace} (endpoint : NativeHandle)
      (hCaller : Authenticates op caller)
      (hFound : s.roots.find caller.principal caller.user = some place) :
      Granted s op
        { occupied := true, kind := .rootDirectory, rights := all
          principal := caller.principal, user := caller.user, root := some place
          endpoint := some endpoint, derivation := { caller } }
  | directory {parent : ObjectSlot} {path namespacePath : RelativePath} {requested : RightsMask}
      (directory : Directory) (endpoint : NativeHandle) (hPar : parent ∈ s.objects)
      (hOcc : parent.occupied = true) (hDir : parent.isDirectory = true)
      (hRights : hasRights parent.rights requested = true) (hPath : path.valid = true)
      (hNamespace : parent.canonicalNamespacePath path = .ok namespacePath) :
      Granted s op
        { occupied := true, kind := .directory, rights := requested, principal := parent.principal
          user := parent.user, namespacePath, directory, endpoint := some endpoint
          derivation := parent.extended path }
  | file {parent : ObjectSlot} {path namespacePath : RelativePath} {options : OpenOptions}
      {required : RightsMask} (handle : Int32) {readable writable : Bool} (endpoint : NativeHandle)
      (hPar : parent ∈ s.objects) (hOcc : parent.occupied = true)
      (hDir : parent.isDirectory = true)
      (hRequired : requiredDirectoryRights options = .ok required)
      (hFlags : openFlags options = .ok (readable, writable))
      (hRights : hasRights parent.rights required = true) (hPath : path.valid = true)
      (hNamespace : parent.canonicalNamespacePath path = .ok namespacePath) :
      Granted s op
        { occupied := true, kind := .file, rights := rightsForFile { handle, readable, writable }
          principal := parent.principal, user := parent.user, namespacePath
          file := { handle, readable, writable }, endpoint := some endpoint
          derivation := parent.extended path }

/-- The states that a step may lead to. -/
inductive Change (s : StorageService) (op : ServiceOp) : StorageService → Prop where
  | same : Change s op s
  | cleared (index : Nat) : Change s op (s.clearSlot index)
  | minted {index : Nat} {slot : ObjectSlot} (hFree : s.objects[index]? = some {})
      (hFew : s.objects.countP (fun other => other.ownedBy slot.principal slot.user) <
        maxStorageObjectsPerPrincipal) (hGranted : Granted s op slot) :
      Change s op (s.setSlot index slot)
  | registered {principal : PrincipalId} {user : UserId} {root : PrivateRoot}
      {roots : PrivateRootRegistry}
      (h : s.roots.registerRoot principal user root = (roots, .ok ())) :
      Change s op { s with roots }
  | unregistered {principal : PrincipalId} {user : UserId} {roots : PrivateRootRegistry}
      (h : s.roots.unregisterRoot principal user = (roots, .ok ())) :
      Change s op (({ s with roots } : StorageService).clearObjectsFor principal user)

section

variable {s : StorageService} {w : Surroundings} {principal : PrincipalId} {user : UserId}
  {index : Nat} {bytes : List UInt8} {message : Delivered}

theorem StorageService.slotAt_of_getElem? (h : s.objects[index]? = some slot) :
    s.slotAt index = slot := by
  rw [slotAt, getD_eq_getElem?_getD, h, Option.getD_some]

theorem StorageService.getElem?_of_occupied (h : (s.slotAt index).occupied = true) :
    s.objects[index]? = some (s.slotAt index) := by
  rw [slotAt, getD_eq_getElem?_getD] at h ⊢
  cases hAt : s.objects[index]? with
  | none =>
    rw [hAt] at h
    cases h
  | some slot => rfl

theorem StorageService.allocateSlot_eq_ok (hSound : s.Sound) {index : Nat}
    (h : s.allocateSlot principal user = .ok index) :
    s.objects[index]? = some {} ∧ s.objects.countP (fun slot => slot.ownedBy principal user) <
      maxStorageObjectsPerPrincipal := by
  unfold allocateSlot at h
  split_ifs at h with hFull
  split at h
  · rename_i hFound
    cases h
    obtain ⟨hBound, hVacant, -⟩ := findIdx?_eq_some_iff_getElem.mp hFound
    have hFree := hSound.free _ (getElem_mem hBound) (by simpa using hVacant)
    refine ⟨?_, Nat.not_le.mp hFull⟩
    rw [getElem?_eq_getElem hBound, hFree]
  · cases h

/-- An object is only ever put into a free slot. -/
theorem StorageService.mint_eq_ok (hSound : s.Sound)
    {fill : NativeHandle → ObjectSlot → ObjectSlot} {payload : Result (List UInt8)}
    {answer : Answer}
    (h : s.mint w principal user fill payload = .ok answer) :
    ∃ m, answer = .minted m ∧ s.objects[m.index]? = some {} ∧
      (s.objects.countP (fun slot => slot.ownedBy principal user) <
      maxStorageObjectsPerPrincipal) ∧ payload = .ok m.payload ∧
      ∃ endpoint, m.slot = fill endpoint {} := by
  obtain ⟨index, hIdx, h⟩ := bind_ok h
  obtain ⟨⟨server, client⟩, -, h⟩ := bind_ok h
  obtain ⟨bytes, hPayload, h⟩ := bind_ok h
  cases h
  obtain ⟨hFree, hFew⟩ := s.allocateSlot_eq_ok hSound hIdx
  exact ⟨_, rfl, hFree, hFew, hPayload, server, by rw [slotAt_of_getElem? hFree]⟩

/-- What an answer that gives an object out comes with. -/
structure Minted.Proper (s : StorageService) (op : ServiceOp) (m : Minted) : Prop where
  free : s.objects[m.index]? = some {}
  few : s.objects.countP (fun other => other.ownedBy m.slot.principal m.slot.user) <
    maxStorageObjectsPerPrincipal
  granted : Granted s op m.slot
  fits : m.payload.length ≤ maxInlinePayloadSize

def Answer.Proper (s : StorageService) (op : ServiceOp) : Answer → Prop
  | .payload bytes => bytes.length ≤ maxInlinePayloadSize
  | .minted m => m.Proper s op

/-- A reply leaves the tables alone unless it gives an object out. -/
theorem StorageService.reply_change {op : ServiceOp} {outcome : Option SendOutcome}
    {header : WireHeaderV1} {result : Result Answer}
    (h : ∀ answer, result = .ok answer → answer.Proper s op) :
    Change s op (s.reply outcome header result).1 := by
  cases result with
  | error => exact .same
  | ok answer =>
    cases answer with
    | payload => exact .same
    | minted m =>
      have hProper : m.Proper s op := h _ rfl
      simp only [reply]
      split
      · -- What was put into the slot is taken out again, and the slot was free.
        obtain ⟨hBound, hVacant⟩ := List.getElem?_eq_some_iff.mp hProper.free
        have hSame : (s.setSlot m.index m.slot).clearSlot m.index = s := by
          rw [clearSlot, setSlot, setSlot, set_set, ← hVacant, set_getElem_self]
        rw [hSame]
        exact .same
      · exact .minted hProper.free hProper.few hProper.granted

theorem length_encodeU32 {value : UInt32} (h : encodeU32 value 4 = .ok bytes) :
    bytes.length = 4 := by
  rw [encodeU32, wrote_nil, writeU32Le_wrote (by simp)] at h
  cases h
  rw [written_wrote, nil_append, length_bytesOf]

theorem length_encodeU64 {value : UInt64} (h : encodeU64 value 8 = .ok bytes) :
    bytes.length = 8 := by
  rw [encodeU64, wrote_nil, writeU64Le_wrote (by simp)] at h
  cases h
  rw [written_wrote, nil_append, length_bytesOf]

theorem encodeObjectDescriptor_eq (type : StorageObjectType) (rights : RightsMask) :
    ∃ bytes, encodeObjectDescriptor type rights = .ok bytes ∧ bytes.length = 8 := by
  unfold encodeObjectDescriptor
  simp only
  rw [wrote_nil, Call.bind_of_ok (writeU32Le_wrote (by simp)),
    writeU32Le_wrote (by simp [length_bytesOf])]
  exact ⟨_, rfl, by simp [written_wrote, length_bytesOf]⟩

theorem length_encodeObjectDescriptor {type : StorageObjectType} {rights : RightsMask}
    (h : encodeObjectDescriptor type rights = .ok bytes) : bytes.length = 8 := by
  obtain ⟨_, hEncoded, hLen⟩ := encodeObjectDescriptor_eq type rights
  cases hEncoded.symm.trans h
  exact hLen

theorem length_encodeOpenPrivateRootResponse (h : encodeOpenPrivateRootResponse all = .ok bytes) :
    bytes.length ≤ maxInlinePayloadSize := by
  have hShort : (match encodeOpenPrivateRootResponse all with
      | .ok bytes => decide (bytes.length ≤ maxInlinePayloadSize)
      | .error _ => true) = true := by decide +kernel
  rw [h] at hShort
  exact of_decide_eq_true hShort

theorem StorageService.answerMain_proper (hSound : s.Sound) {d : Dispatch}
    (hRecvd : receiveFrom d.arrival = .ok message) {answer : Answer}
    (h : s.answerMain d.surroundings message = .ok answer) : answer.Proper s (.dispatch d) := by
  obtain ⟨context, hCtx, h⟩ := bind_ok h
  obtain ⟨hOp, h⟩ := ensure_bind_eq_ok_iff.mp h
  obtain ⟨_, -, h⟩ := bind_ok h
  simp only at h
  split at h
  · cases h
  rename_i hFound
  obtain ⟨m, rfl, hFree, hFew, hPayload, endpoint, hSlot⟩ := s.mint_eq_ok hSound h
  have hCaller : Authenticates (.dispatch d) context.peer :=
    ⟨d, message, context, rfl, hRecvd, hCtx, beq_iff_eq.mp hOp, rfl⟩
  refine ⟨hFree, ?_, ?_, length_encodeOpenPrivateRootResponse hPayload⟩
  · rw [hSlot]
    exact hFew
  · rw [hSlot]
    exact .root endpoint hCaller hFound

variable {payload : List UInt8} {op : ServiceOp} {answer : Answer}

theorem StorageService.openFile_proper (hSound : s.Sound) (hSlot : slot ∈ s.objects)
    (hOcc : slot.occupied = true) (h : s.openFile w slot payload = .ok answer) :
    answer.Proper s op := by
  obtain ⟨hDir, h⟩ := ensure_bind_eq_ok_iff.mp h
  obtain ⟨⟨path, options⟩, -, h⟩ := bind_ok h
  obtain ⟨required, hRequired, h⟩ := bind_ok h
  obtain ⟨hRights, h⟩ := ensure_bind_eq_ok_iff.mp h
  obtain ⟨directory, -, h⟩ := bind_ok h
  obtain ⟨file, hOpened, h⟩ := bind_ok h
  obtain ⟨childNamespace, hNamespace, h⟩ := bind_ok h
  obtain ⟨m, rfl, hFree, hFew, hPayload, endpoint, hMinted⟩ := s.mint_eq_ok hSound h
  obtain ⟨hValid, hOpened⟩ := ensure_bind_eq_ok_iff.mp hOpened
  obtain ⟨⟨readable, writable⟩, hFlags, hOpened⟩ := bind_ok hOpened
  obtain ⟨handle, -, hOpened⟩ := bind_ok hOpened
  cases hOpened
  refine ⟨hFree, ?_, ?_, by rw [length_encodeObjectDescriptor hPayload]; decide⟩
  · rw [hMinted]
    exact hFew
  · rw [hMinted]
    exact .file handle endpoint hSlot hOcc hDir hRequired hFlags hRights
      (Bool.and_eq_true_iff.mp hValid).2 hNamespace

theorem StorageService.openDirectory_proper (hSound : s.Sound) (hSlot : slot ∈ s.objects)
    (hOcc : slot.occupied = true) (h : s.openDirectory w slot payload = .ok answer) :
    answer.Proper s op := by
  obtain ⟨hAllowed, h⟩ := ensure_bind_eq_ok_iff.mp h
  obtain ⟨⟨path, requested⟩, -, h⟩ := bind_ok h
  obtain ⟨hRequested, h⟩ := ensure_bind_eq_ok_iff.mp h
  obtain ⟨parent, -, h⟩ := bind_ok h
  obtain ⟨directory, hOpened, h⟩ := bind_ok h
  obtain ⟨childNamespace, hNamespace, h⟩ := bind_ok h
  obtain ⟨m, rfl, hFree, hFew, hPayload, endpoint, hMinted⟩ := s.mint_eq_ok hSound h
  obtain ⟨hValid, -⟩ := ensure_bind_eq_ok_iff.mp hOpened
  refine ⟨hFree, ?_, ?_, by rw [length_encodeObjectDescriptor hPayload]; decide⟩
  · rw [hMinted]
    exact hFew
  · rw [hMinted]
    exact .directory directory endpoint hSlot hOcc (Bool.and_eq_true_iff.mp hAllowed).1
      (Bool.and_eq_true_iff.mp hRequested).2 (Bool.and_eq_true_iff.mp hValid).2 hNamespace

theorem StorageService.changeDirectory_proper {right : RightsMask}
    (h : s.changeDirectory w slot payload right = .ok answer) : answer.Proper s op := by
  obtain ⟨-, h⟩ := ensure_bind_eq_ok_iff.mp h
  obtain ⟨path, -, h⟩ := bind_ok h
  obtain ⟨directory, -, h⟩ := bind_ok h
  obtain ⟨_, -, h⟩ := bind_ok h
  cases h
  exact Nat.zero_le _

theorem StorageService.atomicReplace_proper
    (h : s.atomicReplace w slot payload = .ok answer) : answer.Proper s op := by
  obtain ⟨-, h⟩ := ensure_bind_eq_ok_iff.mp h
  obtain ⟨⟨path, contents⟩, -, h⟩ := bind_ok h
  obtain ⟨directory, -, h⟩ := bind_ok h
  split_ifs at h
  · obtain ⟨_, -, h⟩ := bind_ok h
    obtain ⟨_, -, h⟩ := bind_ok h
    cases h
    exact Nat.zero_le _
  · obtain ⟨_, -, h⟩ := bind_ok h
    cases h
    exact Nat.zero_le _

/-- A read gives no more than was asked for. -/
theorem File.length_readAt {file : File} {offset : UInt64} {count : Nat}
    {read : Result (List UInt8)} {bytes : List UInt8}
    (h : file.readAt offset count read = .ok bytes) : bytes.length ≤ count := by
  obtain ⟨-, h⟩ := check_eq_ok_iff.mp h
  split_ifs at h with hNone
  · cases h
    exact Nat.zero_le _
  · obtain ⟨all, -, h⟩ := bind_ok h
    cases h
    exact length_take_le _ _

theorem readAt_proper (h : readAt w slot payload = .ok answer) : answer.Proper s op := by
  obtain ⟨-, h⟩ := ensure_bind_eq_ok_iff.mp h
  obtain ⟨⟨offset, requested⟩, -, h⟩ := bind_ok h
  obtain ⟨hSmall, h⟩ := ensure_bind_eq_ok_iff.mp h
  obtain ⟨bytes, hRead, h⟩ := bind_ok h
  obtain ⟨length, hLen, h⟩ := bind_ok h
  cases h
  have hSmall : requested.toNat ≤ maxStorageIoBytes := by simpa using hSmall
  have hBytes := File.length_readAt hRead
  have hHead := length_encodeU32 hLen
  show (length ++ bytes).length ≤ maxInlinePayloadSize
  rw [length_append]
  simp only [maxStorageIoBytes, maxInlinePayloadSize] at *
  omega

theorem writeAt_proper (h : writeAt w slot payload = .ok answer) : answer.Proper s op := by
  obtain ⟨-, h⟩ := ensure_bind_eq_ok_iff.mp h
  obtain ⟨⟨offset, bytes⟩, -, h⟩ := bind_ok h
  obtain ⟨count, -, h⟩ := bind_ok h
  obtain ⟨reply, hReply, h⟩ := bind_ok h
  cases h
  show reply.length ≤ maxInlinePayloadSize
  rw [length_encodeU32 hReply]
  decide

theorem sizeOf_proper (h : sizeOf w slot payload = .ok answer) : answer.Proper s op := by
  obtain ⟨-, h⟩ := ensure_bind_eq_ok_iff.mp h
  obtain ⟨-, h⟩ := ensure_bind_eq_ok_iff.mp h
  obtain ⟨size, -, h⟩ := bind_ok h
  obtain ⟨reply, hReply, h⟩ := bind_ok h
  cases h
  show reply.length ≤ maxInlinePayloadSize
  rw [length_encodeU64 hReply]
  decide

theorem syncFile_proper (h : syncFile w slot payload = .ok answer) : answer.Proper s op := by
  obtain ⟨-, h⟩ := ensure_bind_eq_ok_iff.mp h
  obtain ⟨-, h⟩ := ensure_bind_eq_ok_iff.mp h
  obtain ⟨_, -, h⟩ := bind_ok h
  cases h
  exact Nat.zero_le _

theorem StorageService.operate_proper (hSound : s.Sound) (hSlot : slot ∈ s.objects)
    (hOcc : slot.occupied = true) {operation : UInt32}
    (h : s.operate w slot payload operation = .ok answer) : answer.Proper s op := by
  obtain ⟨-, h⟩ | ⟨-, h⟩ := ite_eq_iff.mp h
  · exact s.openFile_proper hSound hSlot hOcc h
  obtain ⟨-, h⟩ | ⟨-, h⟩ := ite_eq_iff.mp h
  · exact s.openDirectory_proper hSound hSlot hOcc h
  iterate 3
    obtain ⟨-, h⟩ | ⟨-, h⟩ := ite_eq_iff.mp h
    · exact s.changeDirectory_proper h
  obtain ⟨-, h⟩ | ⟨-, h⟩ := ite_eq_iff.mp h
  · exact s.atomicReplace_proper h
  obtain ⟨-, h⟩ | ⟨-, h⟩ := ite_eq_iff.mp h
  · exact readAt_proper h
  obtain ⟨-, h⟩ | ⟨-, h⟩ := ite_eq_iff.mp h
  · exact writeAt_proper h
  obtain ⟨-, h⟩ | ⟨-, h⟩ := ite_eq_iff.mp h
  · exact sizeOf_proper h
  obtain ⟨-, h⟩ | ⟨-, h⟩ := ite_eq_iff.mp h
  · exact syncFile_proper h
  cases h

theorem StorageService.answerObject_proper (hSound : s.Sound) (hSlot : slot ∈ s.objects)
    (hOcc : slot.occupied = true) (h : s.answerObject w slot message = .ok answer) :
    answer.Proper s op := by
  obtain ⟨-, h⟩ := ensure_bind_eq_ok_iff.mp h
  exact s.operate_proper hSound hSlot hOcc h

theorem StorageService.dispatchMain_change (hSound : s.Sound) (d : Dispatch) :
    Change s (.dispatch d) (s.dispatchMain d.surroundings d.arrival).1 := by
  unfold dispatchMain
  split
  · exact .same
  · rename_i hRecvd
    exact reply_change fun answer h => s.answerMain_proper hSound hRecvd h

theorem StorageService.dispatchObject_change (hSound : s.Sound) (arrival : Arrival)
    (index : Nat) : Change s op (s.dispatchObject w arrival index).1 := by
  unfold dispatchObject
  simp only
  split_ifs with hVacant hEp
  · exact .same
  · exact .same
  have hOcc : (s.slotAt index).occupied = true := by simpa using hVacant
  split
  · split_ifs
    · exact .cleared index
    · exact .same
  · have hSlot := mem_of_getElem? (s.getElem?_of_occupied hOcc)
    exact reply_change fun answer h => s.answerObject_proper hSound hSlot hOcc h

theorem StorageService.dispatchOnce_change (hSound : s.Sound) (d : Dispatch) :
    Change s (.dispatch d) (s.dispatchOnce d).1 := by
  unfold dispatchOnce
  split_ifs
  · exact .same
  · exact .same
  split
  · exact .same
  · exact .same
  split_ifs
  · exact s.dispatchMain_change hSound d
  · exact .same
  split
  · exact .same
  · split_ifs
    · exact s.dispatchObject_change hSound d.arrival _
    · exact .cleared _

theorem StorageService.registerFrom_change (c : Control) (message : Delivered) :
    Change s op (s.registerFrom c message).1 := by
  unfold registerFrom
  split_ifs
  · exact .same
  split
  · exact .same
  split
  · exact .same
  rename_i principal user _ _ handle _
  simp only
  cases hRes : (s.roots.registerRoot principal user { root := { handle } }).2 with
  | error e =>
    rw [registerRoot_eq_error hRes]
    exact .same
  | ok _ => exact .registered (Prod.ext rfl hRes)

theorem StorageService.unregisterFrom_change (message : Delivered) :
    Change s op (s.unregisterFrom message).1 := by
  unfold unregisterFrom
  split_ifs
  · exact .same
  split
  · exact .same
  split
  · rename_i hFailed
    have hSame := unregisterRoot_eq_error (congrArg Prod.snd hFailed)
    rw [hFailed] at hSame
    cases hSame
    exact .same
  · rename_i hDone
    exact .unregistered hDone

theorem StorageService.dispatchControlOnce_change (c : Control) :
    Change s op (s.dispatchControlOnce c).1 := by
  have hOperated : ∀ message, Change s op (s.operateControl c message).1 := by
    intro message
    unfold operateControl
    simp only
    split_ifs
    · exact .same
    · exact .same
    · exact s.registerFrom_change c message
    · exact s.unregisterFrom_change message
    · exact .same
  unfold dispatchControlOnce
  split
  · exact .same
  rename_i message _
  split_ifs
  · exact .same
  split
  · rename_i hFailed
    have := hOperated message
    rwa [hFailed] at this
  · rename_i hDone
    have := hOperated message
    rwa [hDone] at this

/-- Everything that a step can do. -/
theorem StorageService.step_change (hSound : s.Sound) (op : ServiceOp) :
    Change s op (s.step op).1 := by
  cases op with
  | dispatch d => exact s.dispatchOnce_change hSound d
  | control c => exact s.dispatchControlOnce_change c

end

variable {roots : PrivateRootRegistry} {s : StorageService} {op : ServiceOp}

theorem ObjectSlot.canonicalNamespacePath_eq_ok {path result : RelativePath}
    (hPath : path.valid = true) (h : slot.canonicalNamespacePath path = .ok result) :
    result.valid = true ∧ result.segments = slot.namespacePath.segments ++ path.segments := by
  unfold canonicalNamespacePath at h
  split_ifs at h with hRoot
  · cases h
    have hEmpty : slot.namespacePath.view = [] := by simpa [valid] using hRoot
    exact ⟨hPath, by simp [segments, hEmpty]⟩
  · obtain ⟨-, -, hView⟩ := view_of_join h
    exact ⟨by simp [valid, hView], segments_of_join h⟩

/-- An object that is opened under a sound one continues its chain. -/
theorem ObjectSlot.Sound.extend {parent : ObjectSlot} (hPar : parent.Sound roots)
    {path namespacePath : RelativePath} (hPath : path.valid = true)
    (hNamespace : parent.canonicalNamespacePath path = .ok namespacePath) :
    namespacePath.valid = true ∧ namespacePath.segments =
        (parent.extended path).hops.flatMap fun hop => hop.path.segments := by
  obtain ⟨hValid, hSegments⟩ := canonicalNamespacePath_eq_ok hPath hNamespace
  refine ⟨hValid, ?_⟩
  simp [hSegments, hPar.namespacePath, extended]

theorem Granted.sound (hSound : s.Sound) (h : Granted s op slot) : slot.Sound s.roots := by
  cases h with
  | @root caller place endpoint hCaller hFound =>
    exact {
      owner := rfl
      registered := by rw [hFound]; rfl
      endpoint := rfl
      kind := nofun
      atRoot := fun _ => ⟨hFound.symm, rfl, rfl⟩
      belowRoot := fun h => absurd rfl h
      directory := fun _ hop hHop => absurd hHop not_mem_nil
      read := nofun
      write := nofun
      namespacePath := rfl }
  | @directory parent path namespacePath requested directory endpoint hMem hOcc hDir
      hRights hPath hNamespace =>
      have hPar := hSound.granted parent hMem hOcc
      obtain ⟨hValid, hSegments⟩ := hPar.extend hPath hNamespace
      refine {
        owner := hPar.owner
        registered := hPar.registered
        endpoint := rfl
        kind := nofun
        atRoot := nofun
        belowRoot := fun _ => ⟨rfl, by simp [extended], hValid⟩
        directory := fun _ hop hHop => ?_
        read := nofun
        write := nofun
        namespacePath := hSegments }
      rcases mem_append.mp hHop with hEarlier | hLast
      · exact hasRights_trans (hPar.directory hDir hop hEarlier) hRights
      · rw [mem_singleton.mp hLast]
        exact hRights
  | @file parent path namespacePath options required handle readable writable endpoint hMem
      hOcc hDir hRequired hFlags hRights hPath hNamespace =>
      have hPar := hSound.granted parent hMem hOcc
      obtain ⟨hValid, hSegments⟩ := hPar.extend hPath hNamespace
      obtain ⟨hRead, hWrite⟩ := requiredDirectoryRights_covers hRequired hFlags
      -- A right of the parent is one of every directory before it.
      have hChain : ∀ right, hasRights required right = true →
          ∀ hop ∈ (parent.extended path).hops, hasRights hop.rights right = true := by
        intro right hRight hop hHop
        have hHeld := hasRights_trans hRights hRight
        rcases mem_append.mp hHop with hEarlier | hLast
        · exact hasRights_trans (hPar.directory hDir hop hEarlier) hHeld
        · rw [mem_singleton.mp hLast]
          exact hHeld
      exact {
        owner := hPar.owner
        registered := hPar.registered
        endpoint := rfl
        kind := nofun
        atRoot := nofun
        belowRoot := fun _ => ⟨rfl, by simp [extended], hValid⟩
        directory := nofun
        read := fun _ h => hChain _ (hRead ((hasRights_rightsForFile_read _).symm.trans h))
        write := fun _ h => hChain _ (hWrite ((hasRights_rightsForFile_write _).symm.trans h))
        namespacePath := hSegments }

theorem Granted.occupied (h : Granted s op slot) : slot.occupied = true := by
  cases h <;> rfl

/-- An object does not see a change of roots that spares its owner. -/
theorem ObjectSlot.Sound.of_find {roots' : PrivateRootRegistry} (h : slot.Sound roots)
    (hSame : roots'.find slot.principal slot.user = roots.find slot.principal slot.user) :
    slot.Sound roots' :=
  { h with
    registered := by rw [hSame]; exact h.registered
    atRoot := by rw [hSame]; exact h.atRoot }

namespace StorageService

theorem sound_clearSlot (h : s.Sound) (index : Nat) : (s.clearSlot index).Sound where
  length := by rw [clearSlot, setSlot, length_set, h.length]
  free slot hSlot hVacant := by
    rcases mem_or_eq_of_mem_set hSlot with hOld | hNew
    · exact h.free slot hOld hVacant
    · exact hNew
  granted slot hSlot hOcc := by
    rcases mem_or_eq_of_mem_set hSlot with hOld | rfl
    · exact h.granted slot hOld hOcc
    · cases hOcc
  few principal user := by
    by_cases hBound : index < s.objects.length
    · have hCnt := countP_set (p := fun slot => slot.ownedBy principal user)
        (a := ({} : ObjectSlot))
        hBound
      have hFew := h.few principal user
      show (s.objects.set index {}).countP _ ≤ _
      rw [hCnt]
      exact Nat.le_trans (Nat.sub_le _ _) hFew
    · show (s.objects.set index {}).countP _ ≤ _
      rw [set_eq_of_length_le (Nat.not_lt.mp hBound)]
      exact h.few principal user

theorem sound_setSlot (h : s.Sound) {index : Nat} (hFree : s.objects[index]? = some {})
    (hFew : s.objects.countP (fun other => other.ownedBy slot.principal slot.user) <
      maxStorageObjectsPerPrincipal) (hOcc : slot.occupied = true)
    (hSlot : slot.Sound s.roots) : (s.setSlot index slot).Sound where
  length := by rw [setSlot, length_set, h.length]
  free other hOther hVacant := by
    rcases mem_or_eq_of_mem_set hOther with hOld | rfl
    · exact h.free other hOld hVacant
    · rw [hOcc] at hVacant
      cases hVacant
  granted other hOther hTaken := by
    rcases mem_or_eq_of_mem_set hOther with hOld | rfl
    · exact h.granted other hOld hTaken
    · exact hSlot
  few principal user := by
    obtain ⟨hBound, hVacant⟩ := List.getElem?_eq_some_iff.mp hFree
    show (s.objects.set index slot).countP _ ≤ _
    rw [countP_set hBound, hVacant]
    have hEmpty : ({} : ObjectSlot).ownedBy principal user = false := rfl
    rw [hEmpty, if_neg Bool.false_ne_true, Nat.sub_zero]
    split_ifs with hOwned
    · simp only [ownedBy, hOcc, Bool.true_and, Bool.and_eq_true, beq_iff_eq] at hOwned
      obtain ⟨rfl, rfl⟩ := hOwned
      exact hFew
    · exact h.few principal user

theorem sound_roots (h : s.Sound) (hSame : ∀ slot ∈ s.objects, slot.occupied = true →
      roots.find slot.principal slot.user = s.roots.find slot.principal slot.user) :
    ({ s with roots } : StorageService).Sound where
  length := h.length
  free := h.free
  granted slot hSlot hOcc := (h.granted slot hSlot hOcc).of_find (hSame slot hSlot hOcc)
  few := h.few

theorem mem_clearObjectsFor {principal : PrincipalId} {user : UserId}
    (h : slot ∈ (s.clearObjectsFor principal user).objects) :
    slot = {} ∨ slot ∈ s.objects ∧ slot.ownedBy principal user = false := by
  obtain ⟨old, hOld, rfl⟩ := mem_map.mp h
  split_ifs with hOwned
  · exact .inl rfl
  · exact .inr ⟨hOld, Bool.not_eq_true _ ▸ hOwned⟩

theorem sound_clearObjectsFor (h : s.Sound) {principal : PrincipalId} {user : UserId}
    (hSame : ∀ other otherUser, (other, otherUser) ≠ (principal, user) →
      roots.find other otherUser = s.roots.find other otherUser) :
    (({ s with roots } : StorageService).clearObjectsFor principal user).Sound where
  length := by rw [clearObjectsFor, length_map, h.length]
  free slot hSlot hVacant := by
    rcases mem_clearObjectsFor hSlot with rfl | ⟨hOld, -⟩
    · rfl
    · exact h.free slot hOld hVacant
  granted slot hSlot hOcc := by
    rcases mem_clearObjectsFor hSlot with rfl | ⟨hOld, hOther⟩
    · cases hOcc
    refine (h.granted slot hOld hOcc).of_find (hSame _ _ ?_)
    intro hOwner
    obtain ⟨rfl, rfl⟩ := Prod.mk.inj hOwner
    simp [ownedBy, hOcc] at hOther
  few p u := by
    refine Nat.le_trans ?_ (h.few p u)
    show (s.objects.map _).countP _ ≤ _
    rw [countP_map]
    refine countP_mono_left fun slot _ hOwned => ?_
    simp only [Function.comp_apply] at hOwned
    split_ifs at hOwned
    · cases hOwned
    · exact hOwned

theorem sound_start (protectedReplace : Bool) : ({ protectedReplace } : StorageService).Sound where
  length := length_replicate
  free slot hSlot _ := eq_of_mem_replicate hSlot
  granted slot hSlot hOcc := by
    rw [eq_of_mem_replicate hSlot] at hOcc
    cases hOcc
  few principal user := by
    have hNone : ({} : ObjectSlot).ownedBy principal user = false := rfl
    rw [countP_eq_zero.mpr]
    · exact Nat.zero_le _
    · intro slot hSlot
      rw [eq_of_mem_replicate hSlot, hNone]
      exact Bool.false_ne_true

theorem Sound.change {after : StorageService} {op : ServiceOp} (h : s.Sound)
    (hChange : Change s op after) : after.Sound := by
  cases hChange with
  | same => exact h
  | cleared index => exact sound_clearSlot h index
  | minted hFree hFew hGranted =>
    exact sound_setSlot h hFree hFew hGranted.occupied (hGranted.sound h)
  | registered hRegistered =>
    obtain ⟨hNone, hSame⟩ := registerRoot_eq_ok hRegistered
    refine sound_roots h fun slot hSlot hOcc => hSame _ _ ?_
    -- The owner of an object has a root already.
    intro hOwner
    obtain ⟨rfl, rfl⟩ := Prod.mk.inj hOwner
    have hFound := (h.granted slot hSlot hOcc).registered
    rw [hNone] at hFound
    cases hFound
  | unregistered hUnregistered =>
    exact sound_clearObjectsFor h (unregisterRoot_eq_ok hUnregistered).2

theorem Sound.step (h : s.Sound) (op : ServiceOp) : (s.step op).1.Sound :=
  h.change (s.step_change h op)

end StorageService

end Enml.OsStorage
