import Enml.OsIpc.Codec
import Enml.OsKeys.Snapshot

/-! The main endpoint of the key service. A key is created before the object that leads to
it, and destroyed again when there is none: what a refused creation costs is one record. -/
namespace Enml.OsKeys

open Enml.Core OsIpc SlotTable List KeyRights Errors

def keyCreateOperation : UInt32 := 1
def keyOpenOperation : UInt32 := 2

def maxKeyObjects : Nat := 64

structure ObjectSlot where
  peer : PeerIdentity
  owner : KeyOwner
  descriptor : KeyDescriptor
  endpoint : Int32

/-- A free slot is an empty one: a slot is filled and cleared as a whole. -/
structure KeyServiceState where
  registry : KeyRegistry := {}
  objects : List (Option ObjectSlot) := replicate maxKeyObjects none

/-- A request on the main endpoint, and what the service meets while it serves it. -/
structure MainRequest where
  context : Result PeerIdentity
  operationId : UInt32 := keyCreateOperation
  payload : List UInt8
  nextId : Result KeyId
  generated : Result ProviderKeyReference
  destroyed : Nat → Result Unit
  pair : Result Int32
  sent : Result Unit

def decodeExactly {α : Type} (reads : Call Decoder α) (payload : List UInt8) : Result α :=
  match reads { input := payload } with
  | (_, .error e) => .error e
  | (d, .ok value) =>
    match (Decoder.requireEnd d).2 with
    | .error _ => .error (ipcError OsIpc.Errors.protocolViolation)
    | .ok () => .ok value

def encodeDescriptor (descriptor : KeyDescriptor) : Call Encoder Unit := do
  Call.ensure descriptor.valid (keyError invalidKey)
  Encoder.writeU64Le descriptor.id.high
  Encoder.writeU64Le descriptor.id.low
  Encoder.writeU32Le descriptor.version
  Encoder.writeU32Le descriptor.purpose.raw
  Encoder.writeU32Le descriptor.rights

/-- The checks of a creation before the registry is asked. -/
def MainRequest.requestedKey (w : MainRequest) : Result (KeyPurpose × KeyId) := do
  let raw ← decodeExactly Decoder.readU32Le w.payload
  let purpose := KeyPurpose.ofRaw raw
  ensure (validPurpose purpose) (keyError unsupportedPurpose)
  let id ← w.nextId
  ensure id.valid (keyError invalidKey)
  .ok (purpose, id)

def MainRequest.openedKey (w : MainRequest) : Result KeyId :=
  decodeExactly (do return ⟨← Decoder.readU64Le, ← Decoder.readU64Le⟩) w.payload

/-- How many keys can still be created. -/
def KeyRegistry.freeRecords (r : KeyRegistry) : Nat :=
  r.records.countP fun record => !record.occupied

namespace KeyServiceState

def allocateSlot (s : KeyServiceState) : Result Nat :=
  match s.objects.findIdx? Option.isNone with
  | some index => .ok index
  | none => .error (keyError registryFull)

/-- From the choice of a slot to the reply: the slots, and what is answered. A reply that
cannot be sent is an error here too. -/
def mint (s : KeyServiceState) (w : MainRequest) (peer : PeerIdentity) (owner : KeyOwner)
    (descriptor : KeyDescriptor) : List (Option ObjectSlot) × Result (List UInt8) :=
  match s.allocateSlot with
  | .error e => (s.objects, .error e)
  | .ok index =>
    match w.pair with
    | .error e => (s.objects, .error e)
    | .ok endpoint =>
      let filled := s.objects.set index (some { peer, owner, descriptor, endpoint })
      match encodeDescriptor descriptor { output := replicate 32 0 } with
      | (_, .error e) => (filled.set index none, .error e)
      | (encoder, .ok ()) =>
        match w.sent with
        | .error e => (filled.set index none, .error e)
        | .ok () => (filled, .ok encoder.written)

def createKey (s : KeyServiceState) (w : MainRequest) (peer : PeerIdentity) (owner : KeyOwner) :
    KeyServiceState × Result (List UInt8) :=
  match w.requestedKey with
  | .error e => (s, .error e)
  | .ok (purpose, id) =>
    let (registry, answer) := s.registry.create owner id purpose all w.generated
    match answer.result with
    | .error e => ({ s with registry }, .error e)
    | .ok descriptor =>
      match s.mint w peer owner descriptor with
      | (objects, .error e) =>
        ({ registry := (registry.destroy owner descriptor.id w.destroyed).1, objects }, .error e)
      | (objects, .ok payload) => ({ registry, objects }, .ok payload)

def openKey (s : KeyServiceState) (w : MainRequest) (peer : PeerIdentity) (owner : KeyOwner) :
    KeyServiceState × Result (List UInt8) :=
  match (do (s.registry.describe owner (← w.openedKey)).result) with
  | .error e => (s, .error e)
  | .ok descriptor =>
    let (objects, result) := s.mint w peer owner descriptor
    ({ s with objects }, result)

def dispatchMain (s : KeyServiceState) (w : MainRequest) : KeyServiceState × Result (List UInt8) :=
  match w.context with
  | .error e => (s, .error e)
  | .ok peer =>
    let owner := { principal := peer.principal, user := peer.user }
    if w.operationId = keyCreateOperation then s.createKey w peer owner
    else if w.operationId = keyOpenOperation then s.openKey w peer owner
    else (s, .error (makeError .service 1))

/-- The registry creates a key for the request. -/
def creates (s : KeyServiceState) (w : MainRequest) : Bool :=
  Except.isOk do
    let peer ← w.context
    let (purpose, id) ← w.requestedKey
    (s.registry.create { principal := peer.principal, user := peer.user } id purpose all
      w.generated).2.result

/-- The creations that are refused one after the other lead from one state to another, and
the registry creates so many keys on the way. -/
inductive Refusals : KeyServiceState → Nat → KeyServiceState → Prop
  | nil (s : KeyServiceState) : Refusals s 0 s
  | cons {s s' : KeyServiceState} {n : Nat} {w : MainRequest} {e : Error}
      (hCreation : w.operationId = keyCreateOperation) (hRefused : (s.dispatchMain w).2 = .error e)
      (hRest : Refusals (s.dispatchMain w).1 n s') : Refusals s ((s.creates w).toNat + n) s'

end KeyServiceState

namespace KeyRegistry

theorem freeRecords_add_keys (r : KeyRegistry) :
    r.freeRecords + (keys KeyRecord.key r.records).length = r.records.length := by
  have hKeys : (keys KeyRecord.key r.records).length =
      r.records.countP fun record => record.occupied := by
    rw [SlotTable.keys, length_filterMap_eq_countP]
    refine countP_congr fun record _ => ?_
    rw [KeyRecord.key]
    cases record.occupied <;> simp
  rw [hKeys, freeRecords, Nat.add_comm,
    length_eq_countP_add_countP (fun record => record.occupied) (l := r.records)]
  simp

/-- A record that is destroyed stays occupied. -/
theorem freeRecords_destroy (r : KeyRegistry) (owner : KeyOwner) (id : KeyId)
    (answers : Nat → Result Unit) : (r.destroy owner id answers).1.freeRecords = r.freeRecords := by
  have hKept : ∀ f : KeyRecord → KeyRecord, (∀ record, (f record).key = record.key) →
      (r.modify id f).freeRecords = r.freeRecords := by
    intro f hKey
    have hBefore := r.freeRecords_add_keys
    have hAfter := (r.modify id f).freeRecords_add_keys
    rw [KeyRegistry.modify, SlotTable.length_modify,
      keys_modify fun record h => (hKey record).trans h] at hAfter
    exact Nat.add_right_cancel (hAfter.trans hBefore.symm)
  unfold destroy
  split
  · rfl
  split
  · rfl
  dsimp only
  split
  · exact hKept _ fun _ => rfl
  · exact hKept _ fun _ => rfl

/-- A key that is created takes one record; one that is not takes none. -/
theorem freeRecords_create (r : KeyRegistry) (owner : KeyOwner) (id : KeyId) (purpose : KeyPurpose)
    (generated : Result ProviderKeyReference) :
    (r.create owner id purpose all generated).1.freeRecords +
        (r.create owner id purpose all generated).2.result.isOk.toNat =
      r.freeRecords := by
  unfold create
  split_ifs with _ _ _ _ hFull
  all_goals try rfl
  cases generated with
  | error e => rfl
  | ok key =>
    dsimp only
    split_ifs
    · rfl
    obtain ⟨record, hMem, hFree⟩ : ∃ record ∈ r.records, record.occupied = false := by
      simpa [full] using hFull
    have hRoom : (keys KeyRecord.key r.records).length < r.records.length :=
      length_filterMap_lt_length_iff_exists.mpr ⟨record, hMem, by simp [KeyRecord.key, hFree]⟩
    obtain ⟨records, hRecords⟩ := Option.isSome_iff_exists.mp (insert_isSome_iff.mpr hRoom)
    have hBefore := r.freeRecords_add_keys
    have hAfter := (r.enroll owner ⟨id, 1, purpose, all⟩ key).freeRecords_add_keys
    rw [enroll, hRecords, Option.getD_some, length_insert hRecords,
      (keys_insert (by rfl) hRecords).length_eq, length_cons] at hAfter
    rw [enroll, hRecords, Option.getD_some]
    change KeyRegistry.freeRecords { r with records } + 1 = _
    omega

end KeyRegistry

namespace KeyServiceState

variable {s s' : KeyServiceState} {w : MainRequest} {e : Error} {n : Nat}

/-- A slot that is filled and cleared again is as it was. -/
theorem set_allocateSlot {index : Nat} (hFree : s.allocateSlot = .ok index)
    (slot : Option ObjectSlot) : (s.objects.set index slot).set index none = s.objects := by
  unfold allocateSlot at hFree
  cases hFind : s.objects.findIdx? Option.isNone with
  | none =>
    rw [hFind] at hFree
    cases hFree
  | some found =>
    rw [hFind] at hFree
    cases hFree
    obtain ⟨hLt, hNone, -⟩ := findIdx?_eq_some_iff_getElem.mp hFind
    rw [set_set, ← Option.isNone_iff_eq_none.mp hNone, set_getElem_self]

theorem mint_refused {peer : PeerIdentity} {owner : KeyOwner} {descriptor : KeyDescriptor}
    (h : (s.mint w peer owner descriptor).2 = .error e) :
    (s.mint w peer owner descriptor).1 = s.objects := by
  unfold mint at h ⊢
  cases hFree : s.allocateSlot with
  | error e => rfl
  | ok index =>
    rw [hFree] at h
    cases hPair : w.pair with
    | error e => rfl
    | ok endpoint =>
      rw [hPair] at h
      cases hSent : w.sent with
      | error e =>
        dsimp only
        split
        · exact set_allocateSlot hFree _
        · exact set_allocateSlot hFree _
      | ok u =>
        rw [hSent] at h
        dsimp only at h ⊢
        split
        · exact set_allocateSlot hFree _
        · rename_i encoder hEncoded
          rw [hEncoded] at h
          cases h

/-- What a refused creation leaves and what it costs. -/
theorem dispatchMain_refused (hCreation : w.operationId = keyCreateOperation)
    (hRefused : (s.dispatchMain w).2 = .error e) :
    (s.dispatchMain w).1.objects = s.objects ∧
      (s.dispatchMain w).1.registry.freeRecords + (s.creates w).toNat = s.registry.freeRecords := by
  unfold dispatchMain at hRefused ⊢
  unfold creates
  cases hContext : w.context with
  | error e => exact ⟨rfl, rfl⟩
  | ok peer =>
    rw [hContext] at hRefused
    dsimp only at hRefused ⊢
    rw [if_pos hCreation] at hRefused ⊢
    unfold createKey at hRefused ⊢
    cases hKey : w.requestedKey with
    | error e => exact ⟨rfl, rfl⟩
    | ok requested =>
      rw [hKey] at hRefused
      rw [← s.registry.freeRecords_create ⟨peer.principal, peer.user⟩ requested.2 requested.1
        w.generated]
      change _ ∧
        _ + (Except.isOk (s.registry.create _ requested.2 requested.1 _ _).2.result).toNat = _
      dsimp only at hRefused ⊢
      cases hCreated : (s.registry.create ⟨peer.principal, peer.user⟩ requested.2 requested.1
        all w.generated).2.result with
      | error e => exact ⟨rfl, rfl⟩
      | ok descriptor =>
        rw [hCreated] at hRefused
        dsimp only at hRefused ⊢
        cases hMint : s.mint w peer ⟨peer.principal, peer.user⟩ descriptor with
        | mk objects result =>
          rw [hMint] at hRefused
          cases result with
          | error e' =>
            have hSlots := mint_refused (congrArg Prod.snd hMint)
            rw [hMint] at hSlots
            refine ⟨hSlots, congrArg (· + _) ?_⟩
            exact KeyRegistry.freeRecords_destroy ..
          | ok payload => cases hRefused

/-- A creation that is refused leaves every slot, and what it takes is the record of the key
that was created for it. -/
theorem refusals_cost_created_keys (h : Refusals s n s') :
    s'.objects = s.objects ∧ s'.registry.freeRecords + n = s.registry.freeRecords := by
  induction h with
  | nil => exact ⟨rfl, rfl⟩
  | cons hCreation hRefused _ ih =>
    obtain ⟨hObjects, hCount⟩ := dispatchMain_refused hCreation hRefused
    exact ⟨ih.1.trans hObjects, by omega⟩

/-- A creation for which there is no channel. -/
def unpaired (client id : UInt64) : MainRequest where
  context := .ok { principal := ⟨0, client⟩ }
  payload := [1, 0, 0, 0]
  nextId := .ok ⟨0, id⟩
  generated := .ok 1
  destroyed _ := .ok ()
  pair := .error (ipcError 1)
  sent := .ok ()

/-- A service that has given out the object of one key. -/
def opened : KeyServiceState := (dispatchMain {} { unpaired 1 7 with pair := .ok 5 }).1

/-- A creation that the provider refuses. -/
def ungenerated : MainRequest :=
  { unpaired 2 8 with generated := .error (keyError providerFailure) }

theorem refusals_leave_slots :
    (dispatchMain (dispatchMain opened ungenerated).1 (unpaired 2 9)).1.objects = opened.objects ∧
      (dispatchMain (dispatchMain opened ungenerated).1 (unpaired 2 9)).1.registry.freeRecords + 1 =
        opened.registry.freeRecords := by
  have hFirst : (dispatchMain opened ungenerated).2 = .error (keyError providerFailure) := rfl
  have hSnd : (dispatchMain (dispatchMain opened ungenerated).1 (unpaired 2 9)).2 =
      .error (ipcError 1) := rfl
  have hRefusals := Refusals.cons rfl hFirst (.cons rfl hSnd (.nil _))
  have hCreates : creates opened ungenerated = false ∧
      creates (dispatchMain opened ungenerated).1 (unpaired 2 9) = true := ⟨rfl, rfl⟩
  rw [hCreates.1, hCreates.2] at hRefusals
  exact refusals_cost_created_keys hRefusals

/-- Refused creations of one client take the last record from another. -/
theorem unpaired_fills_registry :
    (dispatchMain {} (unpaired 1 7)).2 = .error (ipcError 1) ∧
      (dispatchMain {} (unpaired 1 7)).1.registry.freeRecords = 127 ∧
      (dispatchMain
        ((range 128).foldl (fun s i => (dispatchMain s (unpaired 1 (.ofNat i + 1))).1) {})
        (unpaired 2 129)).2 = .error (keyError registryFull) := by
  decide +kernel

end KeyServiceState
end Enml.OsKeys
