import Enml.Invariant.StorageObjects
import Enml.Lib.Run

/-! The objects of the storage service carry the authority of the caller they come from,
in every run of client requests and control requests. -/
namespace Enml.OsStorage.ObjectRun

open Enml.Core Enml.OsIpc Run StorageService PrivateRootRegistry List

variable {s : StorageService} {slot : ObjectSlot} {op : ServiceOp} {principal : PrincipalId}
  {user : UserId}

/-- What an object may do, in terms of how it came about. -/
structure Authorized (s : StorageService) (slot : ObjectSlot) : Prop where
  principal : slot.principal = slot.derivation.caller.principal
  user : slot.user = slot.derivation.caller.user
  rootDirectory : slot.kind = .rootDirectory → ∃ place entry, slot.root = some place ∧
    s.roots.entries[place]? = some entry ∧ entry.owner = some (slot.principal, slot.user)
  otherKinds : slot.kind ≠ .rootDirectory → slot.root = none
  /-- The last of these directories is the one that the object was opened from. -/
  directory : slot.isDirectory = true →
    ∀ hop ∈ slot.derivation.hops, hasRights hop.rights slot.rights = true
  read : slot.kind = .file → hasRights slot.rights FileRights.read = true →
    ∀ hop ∈ slot.derivation.hops, hasRights hop.rights DirectoryRights.openFileRead = true
  write : slot.kind = .file → hasRights slot.rights FileRights.write = true →
    ∀ hop ∈ slot.derivation.hops, hasRights hop.rights DirectoryRights.openFileWrite = true
  namespacePath : slot.namespacePath.segments =
    slot.derivation.hops.flatMap fun hop => hop.path.segments

theorem authorized_of_sound (h : slot.Sound s.roots) : Authorized s slot where
  principal := (Prod.mk.inj h.owner).1
  user := (Prod.mk.inj h.owner).2
  rootDirectory hKind := by
    obtain ⟨place, hPlace⟩ := Option.isSome_iff_exists.mp h.registered
    obtain ⟨entry, hEntry, hOwner⟩ := owner_of_find hPlace
    exact ⟨place, entry, (h.atRoot hKind).1.trans hPlace, hEntry, hOwner⟩
  otherKinds hKind := (h.belowRoot hKind).1
  directory := h.directory
  read := h.read
  write := h.write
  namespacePath := h.namespacePath

/-- An earlier request of the run has been made by the caller and opened a private root. -/
def AskedBefore (ops : List ServiceOp) (n : Nat) (caller : PeerIdentity) : Prop :=
  ∃ m op, m < n ∧ ops[m]? = some op ∧ Authenticates op caller

/-- The caller of an object is that of an object before the step, or has just asked. -/
theorem caller_of_change {after : StorageService} (hChange : Change s op after)
    (hSlot : slot ∈ after.objects) (hOcc : slot.occupied = true) :
    (∃ old ∈ s.objects, old.occupied = true ∧ old.derivation.caller = slot.derivation.caller) ∨
      Authenticates op slot.derivation.caller := by
  cases hChange with
  | same => exact .inl ⟨slot, hSlot, hOcc, rfl⟩
  | cleared =>
    rcases mem_or_eq_of_mem_set hSlot with hOld | rfl
    · exact .inl ⟨slot, hOld, hOcc, rfl⟩
    · cases hOcc
  | minted _ _ hGranted =>
    rcases mem_or_eq_of_mem_set hSlot with hOld | rfl
    · exact .inl ⟨slot, hOld, hOcc, rfl⟩
    cases hGranted with
    | root _ hCaller => exact .inr hCaller
    | directory _ _ hPar hTaken => exact .inl ⟨_, hPar, hTaken, rfl⟩
    | file _ _ hPar hTaken => exact .inl ⟨_, hPar, hTaken, rfl⟩
  | registered => exact .inl ⟨slot, hSlot, hOcc, rfl⟩
  | unregistered =>
    rcases mem_clearObjectsFor hSlot with rfl | ⟨hOld, -⟩
    · cases hOcc
    · exact .inl ⟨slot, hOld, hOcc, rfl⟩

section

variable {start : StorageService} {ops : List ServiceOp}

theorem sound_throughout (hStart : start.Sound) : Always step StorageService.Sound start ops :=
  always_of_invariant hStart fun _ op h => h.step op

theorem askedBefore_throughout (hStart : start.Sound)
    (hFresh : ∀ slot ∈ start.objects, slot.occupied = false) (n : Nat) :
    ∀ slot ∈ (after step start (ops.take n)).objects, slot.occupied = true →
      AskedBefore ops n slot.derivation.caller := by
  induction n with
  | zero =>
    intro slot hSlot hOcc
    rw [hFresh slot hSlot] at hOcc
    cases hOcc
  | succ n ih =>
    intro slot hSlot hOcc
    have hEarlier : ∀ caller, AskedBefore ops n caller → AskedBefore ops (n + 1) caller :=
      fun caller ⟨m, op, hm, hAsked⟩ => ⟨m, op, Nat.lt_succ_of_lt hm, hAsked⟩
    cases hOp : ops[n]? with
    | none =>
      rw [take_succ_of_none hOp] at hSlot
      exact hEarlier _ (ih slot hSlot hOcc)
    | some op =>
      rw [after_take_succ hOp] at hSlot
      have hSound : Always step StorageService.Sound start ops := sound_throughout hStart
      have hChange := step_change (hSound n) op
      rcases caller_of_change hChange hSlot hOcc with ⟨old, hOld, hTaken, hSame⟩ | hAsked
      · rw [← hSame]
        exact hEarlier _ (ih old hOld hTaken)
      · exact ⟨n, op, Nat.lt_succ_self n, hOp, hAsked⟩

end

/-- A control request that takes the root of a user away, which had the entry `place`. -/
structure Unregisters (s : StorageService) (op : ServiceOp) (principal : PrincipalId)
    (user : UserId) (place : RootPlace) : Prop where
  found : s.roots.find principal user = some place
  request : ∃ c message, op = .control c ∧ receiveFrom c.arrival = .ok message ∧
    validControlRequest message.header = true ∧
    message.header.operationId = storageControlUnregisterRootOperation ∧
    decodeRootIdentity message.payload = .ok (principal, user) ∧
    (s.unregisterFrom message).2 = .ok ()

theorem unregisterFrom_eq {message : Delivered}
    (hId : decodeRootIdentity message.payload = .ok (principal, user))
    (hDone : (s.unregisterFrom message).2 = .ok ()) :
    ∃ roots, (s.unregisterFrom message).1 =
      ({ s with roots } : StorageService).clearObjectsFor principal user := by
  unfold unregisterFrom at hDone ⊢
  split_ifs at hDone ⊢
  simp only [hId] at hDone ⊢
  split at hDone
  · cases hDone
  · exact ⟨_, rfl⟩

theorem objects_after_unregister (hSound : s.Sound) {place : RootPlace}
    (h : Unregisters s op principal user place) :
    ∀ slot ∈ (s.step op).1.objects,
      slot.ownedBy principal user = false ∧ slot.root ≠ some place := by
  obtain ⟨hFound, c, message, rfl, hRecvd, hValid, hOperation, hId, hDone⟩ := h
  obtain ⟨roots, hAfter⟩ := unregisterFrom_eq hId hDone
  have hOperated : s.operateControl c message = s.unregisterFrom message := by
    simp only [operateControl, hOperation]
    rfl
  have hStep : (s.step (.control c)).1 =
      ({ s with roots } : StorageService).clearObjectsFor principal user := by
    have hBoth : s.unregisterFrom message =
        (({ s with roots } : StorageService).clearObjectsFor principal user, .ok ()) :=
      Prod.ext hAfter hDone
    simp only [step, dispatchControlOnce, hRecvd, hValid,
      hOperated, hBoth, Bool.not_true, Bool.false_eq_true, if_false]
  intro slot hSlot
  rw [hStep] at hSlot
  rcases mem_clearObjectsFor hSlot with rfl | ⟨hOld, hOther⟩
  · exact ⟨rfl, nofun⟩
  refine ⟨hOther, fun hRoot => ?_⟩
  cases hOcc : slot.occupied with
  | false =>
    rw [hSound.free slot hOld hOcc] at hRoot
    cases hRoot
  | true =>
    have hGranted := hSound.granted slot hOld hOcc
    by_cases hKind : slot.kind = .rootDirectory
    · have hSame := find_inj hFound ((hGranted.atRoot hKind).1.symm.trans hRoot)
      obtain ⟨rfl, rfl⟩ := Prod.mk.inj hSame
      simp [ObjectSlot.ownedBy, hOcc] at hOther
    · rw [(hGranted.belowRoot hKind).1] at hRoot
      cases hRoot

/-- Every object belongs to the caller whose private root it descends from and can do no
more than the directories on the way to it allowed; there are never more objects than the
limits; and a root that is taken away leaves nothing behind. -/
theorem objects_carry_openers_authority (protectedReplace : Bool) (ops : List ServiceOp) :
    (∀ n, ∀ slot ∈ (after step { protectedReplace } (ops.take n)).objects, slot.occupied = true →
        Authorized (after step { protectedReplace } (ops.take n)) slot ∧
          AskedBefore ops n slot.derivation.caller) ∧
    Always step
      (fun s => s.objects.countP (fun slot => slot.occupied) ≤ 64 ∧
        ∀ principal user, s.objects.countP (fun slot => slot.ownedBy principal user) ≤ 16)
      { protectedReplace } ops ∧
    EachStep step
      (fun s op => ∀ principal user place, Unregisters s op principal user place →
        ∀ slot ∈ (s.step op).1.objects,
          slot.ownedBy principal user = false ∧ slot.root ≠ some place)
      { protectedReplace } ops := by
  have hStart := sound_start protectedReplace
  have hSound : Always step StorageService.Sound { protectedReplace } ops := sound_throughout hStart
  refine ⟨fun n slot hSlot hOcc => ⟨?_, ?_⟩, fun n => ⟨?_, ?_⟩, fun n op _ => ?_⟩
  · exact authorized_of_sound ((hSound n).granted slot hSlot hOcc)
  · refine askedBefore_throughout hStart (fun slot hSlot => ?_) n slot hSlot hOcc
    rw [eq_of_mem_replicate hSlot]
  · exact Nat.le_trans countP_le_length (Nat.le_of_eq (hSound n).length)
  · exact (hSound n).few
  · intro principal user place hUnregisters
    exact objects_after_unregister (hSound n) hUnregisters

end Enml.OsStorage.ObjectRun
