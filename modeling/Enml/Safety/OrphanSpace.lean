import Enml.Safety.DeadNames
import Enml.Safety.Incarnation
import Mathlib.Tactic.IntervalCases

/-! Address spaces nobody can name. A space is created together with a capability
that can destroy it, and that capability can be revoked or die with its holder
while the space lives on. -/
namespace Enml.OsKernel

open Enml.Core CapabilityTable List Rendezvous AddressSpaceEpochAuthority Forest Kernel

variable {identity : AddressSpaceIdentity} {op : Op}

/-- The object of a capability over a space names that space. -/
theorem names_objectId (hValid : identity.valid = true)
    {slot : CapabilityTable.Slot} {required : Rights} (hRight : slot.rights &&& required ≠ 0)
    (hObject : slot.object = addressSpaceObjectId identity) :
    Slot.Names slot required identity := by
  have hBits : addressSpaceObjectId identity = addressSpaceObjectTag |||
      (identity.generation.toUInt64 <<< 16) ||| identity.slot.toUInt64 := by
    rw [addressSpaceObjectId, if_neg (by simpa using hValid)]
  refine ⟨hRight, ?_, ?_, hValid⟩
  · rw [hObject, hBits]
    apply UInt64.toBitVec_inj.mp
    ext j hj
    simp only [addressSpaceObjectTag, addressSpaceObjectTagMask]
    simp
    interval_cases j <;> simp
  · obtain ⟨place, generation⟩ := identity
    rw [hObject, hBits]
    simp only [addressSpaceIdentityOf, AddressSpaceIdentity.mk.injEq]
    refine ⟨?_, ?_⟩
    · apply UInt16.toBitVec_inj.mp
      ext j hj
      simp only [addressSpaceObjectTag]
      simp
      interval_cases j <;> simp
    · apply UInt32.toBitVec_inj.mp
      ext j hj
      simp only [addressSpaceObjectTag]
      simp
      interval_cases j <;> simp

/-- A kernel call on the kernel and its authorities. -/
def System.call (s : System) (op : Op) : System × Outcome :=
  let ((kernel, env), outcome) := s.kernel.perform s.env op
  ({ kernel, env }, outcome)

/-- The live capability at `j` can destroy the space. -/
def CapabilityTable.Destroys (t : CapabilityTable) (j : ℕ) (identity : AddressSpaceIdentity) :
    Prop :=
  ∃ slot, t.slots[j]? = some slot ∧ slot.occupied = true ∧
    Slot.Names slot addressSpaceRightDestroy identity

/-- Slot `i` of the authority is active or retiring, under this name. -/
def AddressSpaceEpochAuthority.InUse (a : AddressSpaceEpochAuthority) (i : ℕ)
    (identity : AddressSpaceIdentity) : Prop :=
  ∃ slot, a.slots[i]? = some slot ∧ slot.state ≠ .free ∧
    identity = { slot := UInt16.ofNat i, generation := slot.generation }

/-- Every space in use can be named by a capability that can destroy it. -/
def NoOrphanSpace (s : System) : Prop :=
  ∀ i identity, s.env.epochs.InUse i identity → ∃ j, s.kernel.capabilities.Destroys j identity

/-- What `revoke` takes away: the target, when the revoker holds it or its
parent, and all that descends from it. -/
def CapabilityTable.revokedBy (t : CapabilityTable) (held : CapabilityTable.Slot → Bool)
    (id : CapabilityId) : Set ℕ :=
  {i | ∃ j target, t.slots[j]? = some target ∧ target.occupied = true ∧ target.id = id ∧
    (held target = true ∨ ∃ parent, parentOf t.slots target = some parent ∧ held parent = true) ∧
    i ∈ Spread.below (parentIndex t.slots) {j}}

/-- What a thread's teardown takes away. -/
def CapabilityTable.heldBelow (t : CapabilityTable) (thread : ThreadId) : Set ℕ :=
  Spread.below (parentIndex t.slots) (t.heldIndices thread)

/-- Where the capabilities stand that a call takes away: a revocation's target,
or what the thread holds that is torn down, with all their descendants. -/
def Kernel.takenAway (k : Kernel) (env : Env) : Op → Set ℕ
  | .destroyThread thread =>
    {i | (k.threads.find thread).isSome ∧ i ∈ k.capabilities.heldBelow thread}
  | .threadAdmit creator space stack root =>
    {i | ∃ thread priority, k.admitOps env creator space stack root =
        [.create .admitted thread priority, .destroy thread] ∧
      i ∈ k.capabilities.heldBelow thread}
  | .capability (.revoke revoker id) =>
    {i | revoker ≠ invalidThread ∧
      i ∈ k.capabilities.revokedBy (fun slot => slot.heldByThread revoker) id}
  | .capability (.revokeBound revoker id) =>
    {i | revoker.valid = true ∧ i ∈ k.capabilities.revokedBy (fun slot => slot.heldBy revoker) id}
  | .capability (.revokeAllHeldBy holder) =>
    {i | holder ≠ invalidThread ∧ i ∈ k.capabilities.heldBelow holder}
  | _ => ∅

/-- Every space in use keeps a capability that can destroy it. -/
def System.Spares (s : System) (op : Op) : Prop :=
  ∀ i identity, s.env.epochs.InUse i identity →
    ∃ j ∉ s.kernel.takenAway s.env op, s.kernel.capabilities.Destroys j identity

namespace CapabilityTable

variable {t : CapabilityTable}

theorem Forest.revokeWith_eq (hForest : Forest t) (held : Slot → Bool) (id : CapabilityId) :
    (t.revokeWith held id).1 = t.without (t.revokedBy held id) := by
  obtain ⟨e, hRefused⟩ | ⟨i, target, n, hCell, hLive, hId, hHeld, -, hRevoked⟩ :=
    hForest.revokeWith_cases held id
  · have hEmpty : t.revokedBy held id = ∅ := by
      rw [Set.eq_empty_iff_forall_notMem]
      rintro i ⟨j, target, hCell, hLive, hId, hHeld, -⟩
      have hMem := mem_of_getElem? hCell
      have hFind := hForest.find_eq_some_iff.mpr ⟨hMem, hLive, hId⟩
      have hNonzero : id ≠ invalidCapability := hId ▸ hForest.nonzero target hMem hLive
      rw [revokeWith, if_neg hNonzero, hFind] at hRefused
      dsimp only at hRefused
      split_ifs at hRefused with hNot
      · rcases hHeld with hOwn | ⟨parent, hPar, hGranted⟩
        · simp [hOwn] at hNot
        · simp [hPar, hGranted] at hNot
      · simp at hRefused
    rw [hRefused, hEmpty, hForest.without_empty]
  · have hSame : t.revokedBy held id = Spread.below (parentIndex t.slots) {i} := by
      ext x
      constructor
      · rintro ⟨j, target', hCell', hLive', hId', -, hx⟩
        obtain rfl := hForest.distinct j i target' target hCell' hCell hLive' hLive
          (hId'.trans hId.symm)
        exact hx
      · intro hx
        exact ⟨i, target, hCell, hLive, hId, hHeld, hx⟩
    rw [hRevoked, hSame]

theorem Forest.revokeAllHeldBy_heldBelow (hForest : Forest t) {holder : ThreadId}
    (hHolder : holder ≠ invalidThread) :
    (t.revokeAllHeldBy holder).1 = t.without (t.heldBelow holder) :=
  (hForest.revokeAllHeldBy_spec hHolder).1

end CapabilityTable

namespace Kernel

variable {k : Kernel}

theorem capabilities_destroyThread_eq (hStruct : k.Structured) (t : ThreadId) :
    (k.destroyThread t).1.capabilities =
      if (k.threads.find t).isSome then (k.capabilities.revokeAllHeldBy t).1
      else k.capabilities := by
  have hIds := IpcEndpointTable.sameIds_releaseThread k.ipc t k.threads
  have hKnown : ((k.ipc.releaseThread t k.threads).1.2.find t).isSome ↔
      (k.threads.find t).isSome := by
    rw [find_isSome_iff hStruct.same.distinct,
      find_isSome_iff (hIds.distinct hStruct.same.distinct), hIds.1]
  unfold destroyThread
  dsimp only
  rcases hExit : (k.ipc.releaseThread t k.threads).1.2.exitThread t with ⟨threads, e | n⟩
  · have hUnknown : ¬ (k.threads.find t).isSome := by
      rw [← hKnown]
      intro hSome
      obtain ⟨slot, hFind⟩ := Option.isSome_iff_exists.mp hSome
      rw [exitThread, hFind] at hExit
      cases hExit
    rw [if_neg hUnknown]
  · rw [if_pos (hKnown.mp (exitThread_ok hExit).1)]
    exact capabilities_untrack_synchronise _ t

theorem capabilities_destroyThread_without (hStruct : k.Structured)
    (hForest : k.capabilities.Forest) (t : ThreadId) :
    (k.destroyThread t).1.capabilities = k.capabilities.without
      {i | (k.threads.find t).isSome ∧ i ∈ k.capabilities.heldBelow t} := by
  rw [capabilities_destroyThread_eq hStruct]
  split_ifs with hKnown
  · have hThr : t ≠ invalidThread := by
      obtain ⟨slot, hFind⟩ := Option.isSome_iff_exists.mp hKnown
      exact ne_invalid_of_find hFind
    rw [hForest.revokeAllHeldBy_heldBelow hThr]
    congr 1
    ext i
    simp [hKnown]
  · have hEmpty : {i | (k.threads.find t).isSome ∧ i ∈ k.capabilities.heldBelow t} = ∅ := by
      ext i
      simp [hKnown]
    rw [hEmpty, hForest.without_empty]

/-- An admission takes capabilities away exactly when it is undone. -/
theorem capabilities_threadAdmit_cases (hStruct : k.Structured) (env : Env)
    (creator : ThreadId) (space : CapabilityId) (stack : UInt64) (root : SealedTranslationRoot) :
    ((∀ thread priority, k.admitOps env creator space stack root ≠
        [.create .admitted thread priority, .destroy thread]) ∧
      (k.threadAdmit creator space stack root env.epochs env.translations
        env.executables).1.1.capabilities = k.capabilities) ∨
    ∃ thread priority, k.admitOps env creator space stack root =
        [.create .admitted thread priority, .destroy thread] ∧ thread ≠ invalidThread ∧
      (k.threadAdmit creator space stack root env.epochs env.translations
        env.executables).1.1.capabilities = (k.capabilities.revokeAllHeldBy thread).1 := by
  obtain ⟨ids, ⟨hOps, h⟩ | ⟨t, p, threads, hCreate, ⟨hOps, h⟩ | ⟨hOps, h⟩⟩⟩ :=
    threadAdmit_cases hStruct.same env creator space stack root rfl rfl
  · exact .inl ⟨by simp [hOps], by rw [h]⟩
  all_goals
    have hBefore : Structured { k with threadIdentifiers := ids } := ⟨hStruct.same, hStruct.linked⟩
    have hCaps : ({ k with threadIdentifiers := ids }.createAdmittedThread t p).1.capabilities =
        k.capabilities := congrArg Side.capabilities (side_finishCreation _ t p _)
  · exact .inl ⟨by simp [hOps], by rw [h, hCaps]⟩
  right
  obtain ⟨hThr, -, hIns, -⟩ := createIn_ok hCreate
  refine ⟨t, p, hOps, hThr, ?_⟩
  have hAfter : ({ k with threadIdentifiers := ids }.createAdmittedThread t p).1.Structured :=
    hBefore.step (env, .createAdmittedThread t p)
  have hThrs : ({ k with threadIdentifiers := ids }.createAdmittedThread t p).1.threads = threads :=
    (congrArg Core.threads (core_finishCreation hBefore.same .admitted t p)).trans
      (by simp [core, CoreOp.apply, hCreate])
  rw [h]
  generalize ({ k with threadIdentifiers := ids }.createAdmittedThread t p).1 = made at *
  have hKnown : (made.threads.find t).isSome := by
    rw [find_isSome_iff hAfter.same.distinct, hThrs]
    have hPerm : (threads.slots.filterMap Rendezvous.Slot.key).Perm (t :: _) :=
      SlotTable.keys_insert rfl hIns
    exact hPerm.mem_iff.mpr mem_cons_self
  rw [capabilities_destroyThread_eq hAfter, if_pos hKnown, hCaps]

theorem capabilities_threadAdmit_without (hStruct : k.Structured)
    (hForest : k.capabilities.Forest) (env : Env) (creator : ThreadId) (space : CapabilityId)
    (stack : UInt64) (root : SealedTranslationRoot) :
    (k.threadAdmit creator space stack root env.epochs env.translations
        env.executables).1.1.capabilities =
      k.capabilities.without (k.takenAway env (.threadAdmit creator space stack root)) := by
  obtain ⟨hShape, hSame⟩ | ⟨thread, priority, hShape, hThr, hRevoked⟩ :=
    capabilities_threadAdmit_cases hStruct env creator space stack root
  · have hEmpty : k.takenAway env (.threadAdmit creator space stack root) = ∅ := by
      rw [Set.eq_empty_iff_forall_notMem]
      rintro i ⟨thread, priority, hUndone, -⟩
      exact hShape thread priority hUndone
    rw [hSame, hEmpty, hForest.without_empty]
  · have hTaken : k.takenAway env (.threadAdmit creator space stack root) =
        k.capabilities.heldBelow thread := by
      ext i
      constructor
      · rintro ⟨thread', priority', hShape', hi⟩
        rw [hShape] at hShape'
        cases hShape'
        exact hi
      · intro hi
        exact ⟨thread, priority, hShape, hi⟩
    rw [hRevoked, hTaken, hForest.revokeAllHeldBy_heldBelow hThr]

/-- The calls that can take capabilities away for good. -/
def takesAway : Op → Bool
  | .destroyThread .. | .threadAdmit .. => true
  | .capability (.revoke ..) | .capability (.revokeBound ..)
  | .capability (.revokeAllHeldBy ..) => true
  | _ => false

theorem capabilities_of_takesAway (hStruct : k.Structured) (hForest : k.capabilities.Forest)
    (env : Env) (h : takesAway op = true) :
    (k.step (env, op)).1.capabilities = k.capabilities.without (k.takenAway env op) := by
  cases op with
  | destroyThread thread => exact capabilities_destroyThread_without hStruct hForest thread
  | threadAdmit creator space stack root =>
    exact capabilities_threadAdmit_without hStruct hForest env creator space stack root
  | capability op =>
    cases op with
    | revoke revoker id =>
      show (k.capabilities.revoke revoker id).1 = _
      unfold CapabilityTable.revoke
      split_ifs with hInvalid
      · simp [takenAway, hInvalid, hForest.without_empty]
      · rw [hForest.revokeWith_eq]
        simp [takenAway, hInvalid]
    | revokeBound revoker id =>
      show (k.capabilities.revokeBound revoker id).1 = _
      unfold CapabilityTable.revokeBound
      split_ifs with hInvalid
      · simp only [Bool.not_eq_true'] at hInvalid
        simp [takenAway, hInvalid, hForest.without_empty]
      · simp only [Bool.not_eq_true', Bool.not_eq_false] at hInvalid
        rw [hForest.revokeWith_eq]
        simp [takenAway, hInvalid]
    | revokeAllHeldBy holder =>
      show (k.capabilities.revokeAllHeldBy holder).1 = _
      by_cases hInvalid : holder = invalidThread
      · rw [revokeAllHeldBy, if_pos hInvalid]
        simp [takenAway, hInvalid, hForest.without_empty]
      · rw [hForest.revokeAllHeldBy_heldBelow hInvalid]
        simp [takenAway, hInvalid]
    | _ => cases h
  | _ => cases h

theorem takenAway_of_not (env : Env) (h : takesAway op = false) : k.takenAway env op = ∅ := by
  cases op with
  | capability op => cases op <;> first | rfl | cases h
  | destroyThread | threadAdmit => cases h
  | _ => rfl

end Kernel

namespace System

/-- What every state of a run of kernel calls has. -/
structure Grown (s : System) : Prop where
  structured : s.kernel.Structured
  forest : s.kernel.capabilities.Forest
  length : s.env.epochs.slots.length = maxAddressSpaceEpochs

theorem grown_empty : Grown {} := ⟨structured_empty, forest_empty, rfl⟩

theorem forest_call {s : System} (h : s.kernel.capabilities.Forest) (op : Op) :
    (s.call op).1.kernel.capabilities.Forest := by
  have hKept := side_induction op (k := s.kernel)
    (P := fun side => side.capabilities.Forest) ?_ h s.env
  · exact hKept
  intro side op _ hForest
  cases op with
  | capability op => exact hForest.step op
  | _ => exact hForest

theorem Grown.call {s : System} (h : s.Grown) (op : Op) : (s.call op).1.Grown :=
  ⟨structured_step h.structured (.kernel op), forest_call h.forest op,
    (s.length_step (.kernel op)).trans h.length⟩

end System

open Enml.OsKernel.System

namespace AddressSpaceEpochAuthority

variable {a a' : AddressSpaceEpochAuthority} {i : ℕ} {epoch : AddressSpaceEpoch}

/-- Writing one slot leaves the others in use as they were. -/
theorem inUse_of_set {j : ℕ} {slot : Slot} (hSlots : a'.slots = a.slots.set j slot)
    (h : a'.InUse i identity) :
    a.InUse i identity ∨ i = j ∧ slot.state ≠ .free ∧
      identity = { slot := UInt16.ofNat i, generation := slot.generation } := by
  obtain ⟨found, hCell, hUsed, rfl⟩ := h
  rw [hSlots] at hCell
  rcases eq_or_ne j i with rfl | hne
  · by_cases hj : j < a.slots.length
    · rw [getElem?_set_self hj] at hCell
      cases hCell
      exact .inr ⟨rfl, hUsed, rfl⟩
    · rw [getElem?_eq_none (by simpa using hj)] at hCell
      cases hCell
  · rw [getElem?_set_ne hne] at hCell
    exact .inl ⟨found, hCell, hUsed, rfl⟩

theorem inUse_of_beginRetire (h : (a.beginRetire epoch).1.InUse i identity) :
    a.InUse i identity := by
  obtain ⟨e, hRefused⟩ | ⟨slot, hCell, -, -, hActive, hBegin⟩ := a.beginRetire_cases epoch
  · rwa [hRefused] at h
  rw [hBegin] at h
  rcases inUse_of_set rfl h with hBefore | ⟨rfl, -, rfl⟩
  · exact hBefore
  · exact ⟨slot, hCell, by simp [hActive], rfl⟩

/-- A completed retirement frees the slot and no other. -/
theorem inUse_of_completeRetire {retiring : RetiringAddressSpaceEpoch}
    (hOk : a.completeRetire retiring = (a', .ok ())) (h : a'.InUse i identity) :
    a.InUse i identity ∧ i ≠ retiring.epoch.slot.toNat := by
  obtain ⟨e, hRefused⟩ | ⟨hRetiring, hComplete⟩ := a.completeRetire_cases retiring
  · rw [hRefused] at hOk
    cases hOk
  rw [hComplete] at hOk
  cases hOk
  obtain ⟨found, hCell, hUsed, rfl⟩ := h
  rw [getElem?_modify] at hCell
  by_cases hi : retiring.epoch.slot.toNat = i
  · simp only [if_pos hi, Option.map_eq_map, Option.map_eq_some_iff] at hCell
    obtain ⟨before, -, rfl⟩ := hCell
    exact absurd rfl hUsed
  · simp only [if_neg hi, Option.map_eq_map, Option.map_id_fun', id_eq] at hCell
    exact ⟨⟨found, hCell, hUsed, rfl⟩, fun hSame => hi hSame.symm⟩

theorem inUse_of_acquire (hLen : a.slots.length = maxAddressSpaceEpochs)
    (hOk : a.acquire = (a', .ok epoch)) (h : a'.InUse i identity) :
    a.InUse i identity ∨ identity = epoch.identity ∧ epoch.identity.valid = true := by
  obtain ⟨slot, hCell, -, hValid, -, hSlots⟩ := acquire_ok hLen hOk
  rcases inUse_of_set hSlots h with hBefore | ⟨rfl, -, rfl⟩
  · exact .inl hBefore
  right
  rw [identity_of_valid hValid, UInt16.ofNat_toNat]
  refine ⟨rfl, ?_⟩
  rw [AddressSpaceEpoch.valid, Bool.and_eq_true] at hValid
  exact hValid.1

theorem inUse_of_unwindEpoch (hLen : a.slots.length = maxAddressSpaceEpochs)
    (hOk : a.acquire = (a', .ok epoch)) (h : (unwindEpoch a' epoch).InUse i identity) :
    a.InUse i identity := by
  obtain ⟨slot, hCell, -, hValid, hAsid, hSlots⟩ := acquire_ok hLen hOk
  have hNew : a'.slots[epoch.slot.toNat]? =
      some { generation := epoch.generation, state := .active } := by
    rw [hSlots]
    exact List.getElem?_set_self (List.getElem?_eq_some_iff.mp hCell).1
  have hBegin : a'.beginRetire epoch =
      ({ slots := a'.slots.set epoch.slot.toNat
           { generation := epoch.generation, state := .retiring }
         active_ := a'.active_ - 1
         retiring_ := a'.retiring_ + 1 }, .ok { epoch }) := by
    unfold beginRetire
    rw [hNew]
    simp [hValid, hAsid]
  have hRetiring : retiring (a'.beginRetire epoch).1 { epoch } = true := by
    have hRoom : epoch.slot.toNat < a'.slots.length := (List.getElem?_eq_some_iff.mp hNew).1
    rw [hBegin, retiring, inState]
    simp [hRoom, hValid, hAsid]
  rw [unwindEpoch, hBegin] at h
  rw [hBegin] at hRetiring
  dsimp only at h hRetiring
  obtain ⟨hUsed, hne⟩ := inUse_of_completeRetire
    (by rw [completeRetire, hRetiring]; rfl) h
  rcases inUse_of_set rfl hUsed with hBefore | ⟨hi, -⟩
  · rcases inUse_of_set hSlots hBefore with hBefore | ⟨hi, -⟩
    · exact hBefore
    · exact absurd hi hne
  · exact absurd hi hne

end AddressSpaceEpochAuthority

namespace CapabilityTable

variable {t t' : CapabilityTable} {j : ℕ} {gone : Set ℕ}

theorem Destroys.issue (h : t.Destroys j identity) (slot : Slot) :
    (t.issue slot).1.Destroys j identity := by
  obtain ⟨found, hCell, hLive, hNames⟩ := h
  refine ⟨found, ?_, hLive, hNames⟩
  rcases hIssue : t.issue slot with ⟨t', e | id⟩
  · unfold CapabilityTable.issue at hIssue
    split_ifs at hIssue
    · rw [← congrArg Prod.fst hIssue]
      exact hCell
    split at hIssue
    · simp at hIssue
    · rw [← congrArg Prod.fst hIssue]
      exact hCell
  · obtain ⟨i, free, -, -, hFree, hDead, hSlots, -⟩ := issue_eq_ok hIssue
    have hne : i ≠ j := by
      rintro rfl
      rw [hFree] at hCell
      cases hCell
      rw [hDead] at hLive
      cases hLive
    rw [hSlots, getElem?_set_ne hne]
    exact hCell

theorem Destroys.derive (h : t.Destroys j identity) (id : CapabilityId) (held : Slot → Bool)
    (place : Slot → Slot) (rights : Rights) (transferable : Bool) :
    (t.derive id held place rights transferable).1.Destroys j identity := by
  obtain ⟨e, hRefused⟩ | ⟨_, -, -, -, -, -, hDerive⟩ :=
    Forest.derive_cases (t := t) id held place rights transferable
  · rwa [hRefused]
  · rw [hDerive]
    exact h.issue _

theorem Destroys.without (h : t.Destroys j identity) (hLeft : j ∉ gone) :
    (t.without gone).Destroys j identity := by
  obtain ⟨found, hCell, hLive, hNames⟩ := h
  exact ⟨found, by rwa [getElem?_without_of_notMem t hLeft], hLive, hNames⟩

theorem Destroys.of_without (h : (t.without gone).Destroys j identity) :
    j ∉ gone ∧ t.Destroys j identity := by
  obtain ⟨found, hCell, hLive, hNames⟩ := h
  obtain ⟨hLeft, hBefore⟩ := getElem?_of_without hCell hLive
  exact ⟨hLeft, found, hBefore, hLive, hNames⟩

/-- A space's own capability going takes no other space's with it. -/
theorem Destroys.revoke (hForest : Forest t) (owner : ThreadId) {space : CapabilityId}
    {target : Slot} {retired : AddressSpaceIdentity} (hFind : t.find space = some target)
    (hNames : addressSpaceIdentityOf target.object = retired) (hne : identity ≠ retired)
    (h : t.Destroys j identity) : (t.revoke owner space).1.Destroys j identity := by
  unfold CapabilityTable.revoke
  split_ifs
  · exact h
  rw [hForest.revokeWith_eq]
  apply h.without
  rintro ⟨i, slot, hCell, hLive, hId, -, hBelow⟩
  obtain ⟨-, hMem, hTargetLive, hTargetId⟩ := find_eq_some hFind
  obtain rfl := hForest.slot_eq (mem_of_getElem? hCell) hMem hLive hTargetLive
    (hId.trans hTargetId.symm)
  obtain ⟨found, hFound, -, hFoundNames⟩ := h
  have hObject := hForest.of_below (P := fun s => s.object = slot.object)
    (fun child parent hDerived hPar => hDerived.object.trans hPar) hCell rfl hBelow hFound
  apply hne
  rw [← hFoundNames.identity_eq, hObject, hNames]

end CapabilityTable

namespace System

variable {s : System} {creator : ThreadId}

theorem noOrphan_of_capability (hNone : NoOrphanSpace s) {op : CapabilityOp}
    (hKeeps : takesAway (.capability op) = false) :
    NoOrphanSpace (s.call (.capability op)).1 := by
  intro i identity hUsed
  obtain ⟨j, hDestroys⟩ := hNone i identity hUsed
  refine ⟨j, ?_⟩
  cases op with
  | mint | mintBound =>
    dsimp only [call, step, perform, CapabilityTable.step, Prod.map, mint, mintBound]
    split_ifs
    · exact hDestroys
    · exact hDestroys
    · exact hDestroys.issue _
  | grant | grantBound =>
    dsimp only [call, step, perform, CapabilityTable.step, Prod.map, grant, grantBound]
    split_ifs
    · exact hDestroys
    · exact hDestroys
    · exact hDestroys.derive ..
  | revoke | revokeBound | revokeAllHeldBy => cases hKeeps

/-- The capability minted with a space can destroy it. -/
theorem destroys_mint {t t' : CapabilityTable} {capability : CapabilityId}
    (hValid : identity.valid = true)
    (hMint : t.mint creator (addressSpaceObjectId identity)
      (addressSpaceRightHold ||| addressSpaceRightDestroy ||| addressSpaceRightAdmit) true =
        (t', .ok capability)) : ∃ j, t'.Destroys j identity := by
  unfold mint at hMint
  split_ifs at hMint
  · cases hMint
  · cases hMint
  obtain ⟨i, free, -, -, hFree, -, hSlots, -⟩ := issue_eq_ok hMint
  have hCell := congrArg (fun slots => slots[i]?) hSlots
  rw [List.getElem?_set_self (List.getElem?_eq_some_iff.mp hFree).1] at hCell
  have hRight : (addressSpaceRightHold ||| addressSpaceRightDestroy ||| addressSpaceRightAdmit) &&&
      addressSpaceRightDestroy ≠ 0 := by decide
  exact ⟨i, _, hCell, rfl, names_objectId hValid hRight rfl⟩

theorem destroys_of_mint {t t' : CapabilityTable} {object : ObjectId} {rights : Rights}
    {transferable : Bool} {outcome : Result CapabilityId}
    (hMint : t.mint creator object rights transferable = (t', outcome)) {j : ℕ}
    {identity : AddressSpaceIdentity} (h : t.Destroys j identity) : t'.Destroys j identity := by
  unfold mint at hMint
  split_ifs at hMint
  · cases hMint
    exact h
  · cases hMint
    exact h
  · have hIssued := h.issue { object, rights, holder := creator, transferable }
    rwa [hMint] at hIssued

theorem noOrphan_create (hGrown : s.Grown) (hNone : NoOrphanSpace s) (creator : ThreadId)
    (authority : CapabilityId) :
    NoOrphanSpace (s.call (.addressSpaceCreate creator authority)).1 := by
  intro i identity hUsed
  have hUsed : (s.kernel.addressSpaceCreate creator authority s.env.epochs).1.2.InUse i identity :=
    hUsed
  show ∃ j, (s.kernel.addressSpaceCreate creator authority
    s.env.epochs).1.1.capabilities.Destroys j identity
  unfold addressSpaceCreate at hUsed ⊢
  split at hUsed
  · exact hNone i identity hUsed
  rcases hAcquire : s.env.epochs.acquire with ⟨epochs, e | epoch⟩
  · rw [hAcquire] at hUsed
    obtain ⟨e', hRefused⟩ | ⟨_, _, -, -, -, hTaken⟩ := s.env.epochs.acquire_cases
    · rw [hAcquire] at hRefused
      cases hRefused
      exact hNone i identity hUsed
    · rw [hAcquire] at hTaken
      cases hTaken
  rw [hAcquire] at hUsed
  dsimp only at hUsed ⊢
  rcases hMint : s.kernel.capabilities.mint creator (addressSpaceObjectId epoch.identity)
      (addressSpaceRightHold ||| addressSpaceRightDestroy ||| addressSpaceRightAdmit) true with
    ⟨capabilities, e | capability⟩
  · rw [hMint] at hUsed
    obtain ⟨j, hDestroys⟩ := hNone i identity
      (inUse_of_unwindEpoch hGrown.length hAcquire hUsed)
    exact ⟨j, destroys_of_mint hMint hDestroys⟩
  rw [hMint] at hUsed
  rcases inUse_of_acquire hGrown.length hAcquire hUsed with
    hBefore | ⟨rfl, hValid⟩
  · obtain ⟨j, hDestroys⟩ := hNone i identity hBefore
    exact ⟨j, destroys_of_mint hMint hDestroys⟩
  · exact destroys_mint hValid hMint

theorem noOrphan_beginDestroy (hNone : NoOrphanSpace s) (owner : ThreadId)
    (space : CapabilityId) : NoOrphanSpace (s.call (.addressSpaceBeginDestroy owner space)).1 := by
  intro i identity hUsed
  have hUsed : (s.kernel.addressSpaceBeginDestroy owner space s.env.epochs).1.InUse i identity :=
    hUsed
  apply hNone i identity
  unfold addressSpaceBeginDestroy at hUsed
  split at hUsed
  · exact hUsed
  split at hUsed
  · exact hUsed
  · exact inUse_of_beginRetire hUsed

theorem noOrphan_completeDestroy (hGrown : s.Grown) (hNone : NoOrphanSpace s) (owner : ThreadId)
    (space : CapabilityId) (retiring : RetiringAddressSpaceEpoch) :
    NoOrphanSpace (s.call (.addressSpaceCompleteDestroy owner space retiring)).1 := by
  intro i identity hUsed
  have hUsed : (s.kernel.addressSpaceCompleteDestroy owner space retiring
    s.env.epochs).1.2.InUse i identity := hUsed
  show ∃ j, (s.kernel.addressSpaceCompleteDestroy owner space retiring
    s.env.epochs).1.1.capabilities.Destroys j identity
  unfold addressSpaceCompleteDestroy at hUsed ⊢
  cases hIdentity : addressSpaceIdentityForCapability owner space s.kernel.capabilities
      addressSpaceRightDestroy with
  | error e =>
    rw [hIdentity] at hUsed
    exact hNone i identity hUsed
  | ok retired =>
    rw [hIdentity] at hUsed
    dsimp only at hUsed ⊢
    split at hUsed
    · rename_i hOther
      rw [if_pos hOther]
      exact hNone i identity hUsed
    rename_i hSame
    rw [if_neg hSame]
    obtain ⟨e, hRefused⟩ | ⟨hRetiring, hComplete⟩ := s.env.epochs.completeRetire_cases retiring
    · rw [hRefused] at hUsed ⊢
      exact hNone i identity hUsed
    rcases hDone : s.env.epochs.completeRetire retiring with ⟨epochs, e | ⟨⟩⟩
    · rw [hComplete] at hDone
      cases hDone
    rw [hDone] at hUsed
    dsimp only at hUsed
    have hStill : epochs.InUse i identity := by
      split at hUsed <;> exact hUsed
    obtain ⟨hBefore, hne⟩ := inUse_of_completeRetire hDone hStill
    obtain ⟨j, hDestroys⟩ := hNone i identity hBefore
    obtain ⟨target, hHeld, hNames⟩ := addressSpaceIdentity_ok hIdentity
    have hOther : identity ≠ retired := by
      rintro rfl
      obtain ⟨slot, hCell, -, hName⟩ := hBefore
      have hi := (List.getElem?_eq_some_iff.mp hCell).1
      rw [hGrown.length] at hi
      have hMax : maxAddressSpaceEpochs = 63 := rfl
      have hValid : retiring.epoch.valid = true := by
        rw [AddressSpaceEpochAuthority.retiring, AddressSpaceEpochAuthority.inState] at hRetiring
        split at hRetiring
        · simp only [Bool.and_eq_true] at hRetiring
          exact hRetiring.1.1.1
        · cases hRetiring
      rw [not_not.mp hSame |>.symm, identity_of_valid hValid] at hName
      have hSlot := congrArg (fun n => UInt16.toNat (AddressSpaceIdentity.slot n)) hName
      simp only [UInt16.toNat_ofNat'] at hSlot
      omega
    have hKept := hDestroys.revoke hGrown.forest owner hHeld.1 hNames.identity_eq hOther
    refine ⟨j, ?_⟩
    rcases hRevoke : s.kernel.capabilities.revoke owner space with ⟨capabilities, e | n⟩
    all_goals
      rw [hRevoke] at hKept
      exact hKept

/-- A call that revises no capability leaves them all. -/
theorem capabilities_of_not_revises (h : ∀ done, ¬ op.Revises done) :
    (s.call op).1.kernel.capabilities = s.kernel.capabilities := by
  have hKept := side_induction op (k := s.kernel)
    (P := fun side => side.capabilities = s.kernel.capabilities) ?_ rfl s.env
  · exact hKept
  intro side done hPerformed hSame
  cases done with
  | capability done => exact absurd hPerformed (h done)
  | _ => exact hSame

/-- A call orphans no space exactly if it spares a capability for each. -/
theorem noOrphan_call_iff (hGrown : s.Grown) (hNone : NoOrphanSpace s) (op : Op) :
    NoOrphanSpace (s.call op).1 ↔ s.Spares op := by
  cases hTakes : takesAway op with
  | true =>
    have hCaps : (s.call op).1.kernel.capabilities = _ :=
      capabilities_of_takesAway hGrown.structured hGrown.forest s.env hTakes
    have hEpochs : (s.call op).1.env.epochs = s.env.epochs := by
      cases op with
      | destroyThread | threadAdmit | capability => rfl
      | _ => cases hTakes
    rw [NoOrphanSpace, hCaps, hEpochs]
    constructor
    · intro h i identity hUsed
      obtain ⟨j, hDestroys⟩ := h i identity hUsed
      exact ⟨j, hDestroys.of_without⟩
    · intro h i identity hUsed
      obtain ⟨j, hLeft, hDestroys⟩ := h i identity hUsed
      exact ⟨j, hDestroys.without hLeft⟩
  | false =>
    have hSpares : s.Spares op := by
      intro i identity hUsed
      obtain ⟨j, hDestroys⟩ := hNone i identity hUsed
      refine ⟨j, ?_, hDestroys⟩
      rw [takenAway_of_not s.env hTakes]
      exact Set.notMem_empty j
    refine ⟨fun _ => hSpares, fun _ => ?_⟩
    have hQuiet : (∀ done, ¬ op.Revises done) → (s.call op).1.env.epochs = s.env.epochs →
        NoOrphanSpace (s.call op).1 := by
      intro hRevises hEpochs
      rw [NoOrphanSpace, capabilities_of_not_revises hRevises, hEpochs]
      exact hNone
    cases op with
    | addressSpaceCreate creator authority => exact noOrphan_create hGrown hNone creator authority
    | addressSpaceBeginDestroy owner space => exact noOrphan_beginDestroy hNone owner space
    | addressSpaceCompleteDestroy owner space retiring =>
      exact noOrphan_completeDestroy hGrown hNone owner space retiring
    | capability => exact noOrphan_of_capability hNone hTakes
    | destroyThread | threadAdmit => cases hTakes
    | _ => exact hQuiet (fun _ => id) rfl

end System

theorem noOrphan_empty : NoOrphanSpace {} := by
  rintro i identity ⟨slot, hCell, hUsed, -⟩
  exact absurd (congrArg AddressSpaceEpochAuthority.Slot.state
    (eq_of_mem_replicate (mem_of_getElem? hCell))) hUsed

/-- In a run no space in use is ever without a capability that can destroy it,
exactly if no call takes the last one away. -/
theorem spaces_named_iff (ops : List Op) :
    Run.Always call NoOrphanSpace {} ops ↔ Run.EachStep call System.Spares {} ops :=
  Run.always_iff_eachStep grown_empty (fun _ op h => h.call op) noOrphan_empty
    fun _ op hGrown hNone => noOrphan_call_iff hGrown hNone op

/-- A space is created and its creator destroyed. -/
def orphaningRun : List Op :=
  [.createThread 1 1,
    .capability (.mint 1 addressSpaceAuthorityObject addressSpaceRightCreate true),
   .addressSpaceCreate 1 1, .destroyThread 1]

/-- The space is left active with no capability at all in the table. -/
theorem orphaningRun_leaves_orphan : ¬ NoOrphanSpace (Run.after call {} orphaningRun) := by
  intro hNone
  have hState :
      (Run.after call {} orphaningRun).env.epochs.slots[0]? =
          some { generation := 1, state := .active } ∧
        ∀ slot ∈ (Run.after call {} orphaningRun).kernel.capabilities.slots,
          slot.occupied = false := by
    decide +kernel
  obtain ⟨j, slot, hCell, hLive, -⟩ := hNone 0 _ ⟨_, hState.1, by decide, rfl⟩
  rw [hState.2 slot (mem_of_getElem? hCell)] at hLive
  cases hLive

end Enml.OsKernel
