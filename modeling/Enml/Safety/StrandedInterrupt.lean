import Enml.Invariant.Core

/-! Interrupt sources left pending. A driver has one place for an uncollected
delivery, and a source that becomes pending while that place is taken, or at the
end of its own service, waits for a transition that no call makes. -/
namespace Enml.OsKernel

open Enml.Core SlotTable InterruptTable InterruptDeliveryTable Kernel

variable {driver : ThreadId} {other : ThreadId}

/-- Every attached source has a driver, and every pending one a driver with a
delivery still to collect. -/
def NoneStranded (interrupts : InterruptTable) (deliveries : InterruptDeliveryTable) : Prop :=
  ∀ slot ∈ interrupts.slots, slot.occupied = true →
    slot.owner ≠ invalidThread ∧ (slot.state = .pending → deliveries.armed slot.owner = true)

/-- The source is in service and its driver has a delivery of it to collect,
with at least the assertions given. -/
def PickedUp (k : Kernel) (driver : ThreadId) (source : InterruptSource) (assertions : UInt32) :
    Prop :=
  ∃ slot delivery, k.interrupts.find source = some slot ∧ slot.state = .inService ∧
    k.interruptDeliveries.find driver = some delivery ∧ delivery.source = source ∧
    assertions ≤ delivery.service.assertions

/-- The source is pending and its live driver has nothing to collect. -/
def Kernel.Stranded (k : Kernel) (driver : ThreadId) (source : InterruptSource)
    (slot : InterruptTable.Slot) : Prop :=
  k.tracks driver = true ∧ k.interrupts.find source = some slot ∧ slot.owner = driver ∧
    slot.state = .pending ∧ k.interruptDeliveries.armed driver = false

/-- A pending source whose driver has nothing to collect is picked up by its
next assertion, or by the driver's next completion or collection. -/
def SourcesServed (k : Kernel) : Prop :=
  ∀ driver source slot, k.Stranded driver source slot →
    PickedUp (k.dispatchInterrupt source).1 driver source slot.assertions ∨ (∃ capability,
        PickedUp (k.interruptComplete driver capability).1 driver source slot.assertions) ∨
      PickedUp (k.takeDeliveredService driver).1 driver source slot.assertions

/-- The call leaves a source pending with nothing for its driver to collect: the
driver collects while another of its sources is pending, or completes a source
that asserted during service with nothing left to collect. -/
def Kernel.StrandsSource (k : Kernel) : Op → Prop
  | .takeDeliveredService driver =>
    k.interruptDeliveries.armed driver = true ∧
      ∃ slot ∈ k.interrupts.slots, slot.occupied = true ∧ slot.state = .pending ∧
        slot.owner = driver
  | .interruptComplete driver capability =>
    ∃ source slot, interruptSourceForCapability driver capability k.capabilities = .ok source ∧
      k.interrupts.find source = some slot ∧ slot.owner = driver ∧ slot.state = .inService ∧
      0 < slot.assertions ∧ k.interruptDeliveries.armed driver = false
  | _ => False

theorem not_pickedUp_of_unarmed {k : Kernel} {source : InterruptSource}
    {assertions : UInt32} (h : k.interruptDeliveries.armed driver = false) :
    ¬ PickedUp k driver source assertions := by
  rintro ⟨slot, delivery, -, -, hFound, -⟩
  simp [armed, hFound] at h

namespace Kernel

variable {k : Kernel} {source : InterruptSource} {slot : InterruptTable.Slot}

theorem find_ne_invalid (h : k.interrupts.find source = some slot) :
    source ≠ invalidInterruptSource := by
  rintro rfl
  simp [InterruptTable.find] at h

/-- An assertion of a pending source is folded into its count. -/
theorem dispatch_stranded (h : k.Stranded driver source slot) :
    ¬ PickedUp (k.dispatchInterrupt source).1 driver source slot.assertions := by
  obtain ⟨-, hFind, -, hPending, hUnarmed⟩ := h
  apply not_pickedUp_of_unarmed
  have hDispatch : k.interrupts.dispatch source =
      (k.interrupts.modify source InterruptTable.Slot.recordAssertion,
        .ok { owner := slot.owner, wake := false, coalesced := true }) := by
    unfold InterruptTable.dispatch
    rw [if_neg (find_ne_invalid hFind), hFind]
    simp [hPending]
  unfold dispatchInterrupt
  rw [hDispatch]
  exact hUnarmed

theorem complete_stranded (h : k.Stranded driver source slot) (capability : CapabilityId) :
    ¬ PickedUp (k.interruptComplete driver capability).1 driver source slot.assertions := by
  obtain ⟨-, -, -, -, hUnarmed⟩ := h
  apply not_pickedUp_of_unarmed
  unfold interruptComplete
  split <;> exact hUnarmed

theorem take_stranded (h : k.Stranded driver source slot) :
    ¬ PickedUp (k.takeDeliveredService driver).1 driver source slot.assertions := by
  obtain ⟨-, -, -, -, hUnarmed⟩ := h
  apply not_pickedUp_of_unarmed
  have hNone : k.interruptDeliveries.find driver = none := by
    simpa [armed] using hUnarmed
  unfold takeDeliveredService take
  rw [hNone]
  exact hUnarmed

end Kernel

namespace InterruptTable

variable {t : InterruptTable} {deliveries : InterruptDeliveryTable} {source : InterruptSource}

/-- A rewrite of one slot that keeps its driver and leaves it as covered as it was. -/
theorem noneStranded_modify (h : NoneStranded t deliveries)
    {f : Slot → Slot} (hOwner : ∀ slot, (f slot).owner = slot.owner)
    (hOcc : ∀ slot, (f slot).occupied = slot.occupied)
    (hf : ∀ slot, t.find source = some slot → (f slot).state = .pending →
      deliveries.armed slot.owner = true)
    (hSrc : source ≠ invalidInterruptSource) : NoneStranded (t.modify source f) deliveries := by
  intro slot hMem hLive
  rcases mem_updateFirst hMem with hOld | ⟨before, hFound, rfl⟩
  · exact h slot hOld hLive
  rw [hOwner]
  rw [hOcc] at hLive
  have hLookup : lookup Slot.key source t.slots = some before := hFound
  refine ⟨(h before (mem_of_lookup hLookup).1 hLive).1, hf before ?_⟩
  rw [find, if_neg hSrc]
  exact hFound

variable {slot : Slot}

theorem mem_of_find (h : t.find source = some slot) : slot ∈ t.slots ∧ slot.occupied = true := by
  unfold find at h
  split_ifs at h
  obtain ⟨hMem, hKey⟩ := mem_of_lookup h
  refine ⟨hMem, ?_⟩
  by_contra hFree
  simp [Slot.key, hFree] at hKey

theorem ownedSlot_ok (h : t.ownedSlot driver source = .ok slot) :
    driver ≠ invalidThread ∧ source ≠ invalidInterruptSource ∧ t.find source = some slot ∧
      slot.owner = driver := by
  unfold ownedSlot at h
  split_ifs at h with hDriver hSrc
  split at h
  · cases h
  · split_ifs at h with hOwner
    cases h
    exact ⟨hDriver, hSrc, by assumption, not_not.mp hOwner⟩

theorem noneStranded_attach (h : NoneStranded t deliveries) (driver : ThreadId)
    (source : InterruptSource) : NoneStranded (t.attach driver source).1 deliveries := by
  unfold attach
  split_ifs with hDriver hSrc hTaken
  iterate 3 exact h
  split
  · rename_i hIns
    intro slot hMem hLive
    rcases (mem_insert hIns (by simp [Slot.key, hLive])).mp hMem with hOld | rfl
    · exact h slot hOld hLive
    · exact ⟨hDriver, by intro hPending; cases hPending⟩
  · exact h

theorem noneStranded_detach (h : NoneStranded t deliveries) (driver : ThreadId)
    (source : InterruptSource) : NoneStranded (t.detach driver source).1 deliveries := by
  unfold detach
  split
  · exact h
  intro slot hMem hLive
  rcases mem_updateFirst hMem with hOld | ⟨before, -, rfl⟩
  · exact h slot hOld hLive
  · cases hLive

/-- A completion keeps the sources covered if what it returns to pending still
has a delivery to be collected. -/
theorem noneStranded_endService (h : NoneStranded t deliveries)
    (hAgain : ∀ slot, t.find source = some slot → slot.owner = driver →
      slot.state = .inService → 0 < slot.assertions → deliveries.armed driver = true) :
    NoneStranded (t.endService driver source).1 deliveries := by
  unfold endService
  split
  · exact h
  rename_i slot hOwned
  obtain ⟨-, hSrc, hFind, hOwner⟩ := ownedSlot_ok hOwned
  split_ifs with hService hAssertions
  · exact h
  · refine noneStranded_modify h (fun _ => rfl) (fun _ => rfl) ?_ hSrc
    intro found hFound _
    rw [hFind] at hFound
    cases hFound
    rw [hOwner]
    exact hAgain slot hFind hOwner (not_not.mp hService) hAssertions
  · refine noneStranded_modify h (fun _ => rfl) (fun _ => rfl) ?_ hSrc
    intro found _ hPending
    cases hPending

theorem recordAssertion_frame (slot : Slot) : slot.recordAssertion.owner = slot.owner ∧
    slot.recordAssertion.state = slot.state ∧ slot.recordAssertion.occupied = slot.occupied := by
  unfold Slot.recordAssertion
  split <;> exact ⟨rfl, rfl, rfl⟩

theorem noneStranded_detachAllOwnedBy (h : NoneStranded t deliveries)
    {after : InterruptDeliveryTable} (hDriver : driver ≠ invalidThread)
    (hOthers : ∀ other, other ≠ driver → deliveries.armed other = true →
      after.armed other = true) : NoneStranded (t.detachAllOwnedBy driver).1 after := by
  intro slot hMem hLive
  rw [detachAllOwnedBy, if_neg hDriver] at hMem
  simp only [List.mem_map] at hMem
  obtain ⟨before, hBefore, rfl⟩ := hMem
  split_ifs at hLive ⊢ with hOwned
  obtain ⟨hOwner, hArmed⟩ := h before hBefore hLive
  refine ⟨hOwner, fun hPending => hOthers _ ?_ (hArmed hPending)⟩
  rintro rfl
  exact hOwned (by simp [hLive])

/-- What a dispatch does to the table when it wakes the driver. -/
theorem dispatch_wake {t' : InterruptTable} {taken : Dispatch}
    (h : t.dispatch source = (t', .ok taken)) (hWake : taken.wake = true) :
    source ≠ invalidInterruptSource ∧ ∃ slot, t.find source = some slot ∧ taken.owner = slot.owner ∧
      t' = t.modify source fun s =>
        { s with state := .pending, assertions := 1, saturated := false } := by
  unfold dispatch at h
  split at h
  · cases h
  rename_i hSrc
  refine ⟨hSrc, ?_⟩
  split at h
  · cases h
    cases hWake
  rename_i slot hFind
  split at h
  · cases h
    exact ⟨slot, hFind, rfl, rfl⟩
  · cases h
    cases hWake

/-- A dispatch that wakes nobody makes no source pending. -/
theorem noneStranded_dispatch (h : NoneStranded t deliveries)
    {t' : InterruptTable} {result : Result Dispatch} (hDispatch : t.dispatch source = (t', result))
    (hWake : ∀ taken, result = .ok taken → taken.wake = false) : NoneStranded t' deliveries := by
  unfold dispatch at hDispatch
  split at hDispatch
  · cases hDispatch
    exact h
  rename_i hSrc
  split at hDispatch
  · cases hDispatch
    exact h
  rename_i hFind
  split at hDispatch
  · cases hDispatch
    have := hWake _ rfl
    cases this
  cases hDispatch
  refine noneStranded_modify h (fun s => (recordAssertion_frame s).1)
    (fun s => (recordAssertion_frame s).2.2) ?_ hSrc
  intro found hFound hPending
  rw [(recordAssertion_frame found).2.1] at hPending
  obtain ⟨hMem, hLive⟩ := mem_of_find hFound
  exact (h found hMem hLive).2 hPending

/-- Beginning service right after the wake leaves the source in service, not pending. -/
theorem noneStranded_beginService (h : NoneStranded t deliveries)
    (hSrc : source ≠ invalidInterruptSource) (hFind : t.find source = some slot)
    (hOwner : slot.owner ≠ invalidThread) :
    NoneStranded ((t.modify source fun s =>
      { s with state := .pending, assertions := 1, saturated := false }).beginService
        slot.owner source).1 deliveries := by
  have hKeeps : ∀ s : Slot, s.key = some source → ({ s with
      state := InterruptState.pending, assertions := 1, saturated := false } : Slot).key =
        some source := fun s hs => hs
  have hPending : (t.modify source fun s =>
      { s with state := .pending, assertions := 1, saturated := false }).find source =
        some { slot with state := .pending, assertions := 1, saturated := false } := by
    rw [find, if_neg hSrc] at hFind
    rw [find, if_neg hSrc, modify]
    rw [lookup_modify_self hKeeps, hFind]
    rfl
  have hBegin : ((t.modify source fun s =>
      { s with state := .pending, assertions := 1, saturated := false }).beginService
        slot.owner source).1 =
      t.modify source fun s =>
        { s with state := .inService, assertions := 0, saturated := false } := by
    rw [beginService, ownedSlot, if_neg hOwner, if_neg hSrc, hPending]
    simp only [modify, ne_eq, not_true_eq_false, if_false]
    congr 1
    rw [SlotTable.modify, SlotTable.modify, SlotTable.updateFirst_updateFirst]
    · rfl
    · intro s hs
      exact hs
  rw [hBegin]
  refine noneStranded_modify h (fun _ => rfl) (fun _ => rfl) ?_ hSrc
  intro found _ hState
  cases hState

end InterruptTable

namespace InterruptDeliveryTable

variable {t : InterruptDeliveryTable}

/-- Arming a driver disarms nobody. -/
theorem armed_arm {source : InterruptSource} {service : Service}
    (h : t.armed other = true) : (t.arm driver source service).1.armed other = true := by
  unfold arm
  split_ifs with hValid hArmed
  · exact h
  · exact h
  split
  · rename_i hIns
    rcases eq_or_ne other driver with rfl | hOther
    · exact absurd h hArmed
    unfold armed find at h ⊢
    split_ifs at h ⊢ with hInvalid
    · exact h
    · rwa [lookup_insert_ne (by rfl) hOther hIns]
  · exact h

/-- Clearing one driver disarms no other. -/
theorem armed_clear (hOther : other ≠ driver)
    (h : t.armed other = true) : (t.clear driver).armed other = true := by
  unfold armed find at h ⊢
  split_ifs at h ⊢ with hInvalid
  · exact h
  have hSame : lookup Slot.key other (t.clear driver).slots = lookup Slot.key other t.slots := by
    apply lookup_modify_ne hOther
    intro s _ hs
    cases hs
  rwa [hSame]

theorem armed_release (hOther : other ≠ driver)
    (h : t.armed other = true) : (t.release driver).1.armed other = true := by
  unfold release
  split
  · exact h
  · exact armed_clear hOther h

end InterruptDeliveryTable

namespace Kernel

/-- `NoneStranded` of the two interrupt tables of the kernel. -/
def Covered (k : Kernel) : Prop := NoneStranded k.interrupts k.interruptDeliveries

@[simp] theorem covered_synchronise (k : Kernel) : k.synchronise.Covered ↔ k.Covered := by
  rw [synchronise_eq]
  rfl

@[simp] theorem covered_synchronisePair (k : Kernel) (a b : ThreadId) :
    (k.synchronisePair a b).Covered ↔ k.Covered := by
  rw [synchronisePair_eq]
  rfl

@[simp] theorem covered_synchroniseThread (k : Kernel) (t : ThreadId) :
    (k.synchroniseThread t).Covered ↔ k.Covered := by
  rw [synchroniseThread_eq]
  rfl

@[simp] theorem covered_untrack (k : Kernel) (t : ThreadId) :
    (k.untrack t).Covered ↔ k.Covered := by
  unfold untrack
  split <;> rfl

variable {k : Kernel}

theorem Covered.commitIpc (h : k.Covered) {α : Type}
    (done : (IpcEndpointTable × Rendezvous) × Result α) {after : Kernel → α → Kernel}
    (hAfter : ∀ k value, (after k value).Covered ↔ k.Covered) :
    (k.commitIpc done after).1.Covered := by
  obtain ⟨⟨ipc, threads⟩, result⟩ := done
  cases result with
  | error => exact h
  | ok value => exact (hAfter _ value).mpr h

theorem Covered.finishCreation (h : k.Covered) (t : ThreadId) (p : Priority)
    (created : Rendezvous × Result Unit) : (k.finishCreation t p created).1.Covered := by
  obtain ⟨threads, e | ⟨⟩⟩ := created
  · exact h
  unfold Kernel.finishCreation
  rcases k.scheduler.admitThread t p with ⟨scheduler, e | ⟨⟩⟩
  · exact h
  · exact (covered_synchroniseThread _ t).mpr h

theorem Covered.onContinuations (h : k.Covered) {α : Type} (t : ThreadId)
    (call : IpcContinuationTable → IpcContinuationTable × Result α) :
    (k.onContinuations t call).1.Covered := by
  unfold Kernel.onContinuations
  split <;> exact h

/-- The sources of a destroyed driver go with its delivery. -/
theorem Covered.destroyThread (h : k.Covered) (t : ThreadId) : (k.destroyThread t).1.Covered := by
  unfold Kernel.destroyThread
  dsimp only
  rcases hExit : (k.ipc.releaseThread t k.threads).1.2.exitThread t with ⟨threads, e | n⟩
  · exact h
  rw [covered_synchronise, covered_untrack]
  have hThr : t ≠ invalidThread := by
    rintro rfl
    simp [Rendezvous.exitThread] at hExit
  exact noneStranded_detachAllOwnedBy h hThr
    fun _ hOther => armed_release hOther

theorem Covered.threadAdmit (h : k.Covered) (env : Env) (creator : ThreadId)
    (space : CapabilityId) (stack : UInt64) (root : SealedTranslationRoot) :
    (k.threadAdmit creator space stack root env.epochs env.translations
      env.executables).1.1.Covered := by
  have hCreated : ∀ threadIdentifiers t p,
      ({ k with threadIdentifiers }.createAdmittedThread t p).1.Covered := by
    intro threadIdentifiers t p
    have hIssued : Covered { k with threadIdentifiers } := h
    exact hIssued.finishCreation t p _
  exact threadAdmit_induction (P := Covered) (fun _ => h) hCreated
    (fun _ t p => Covered.destroyThread (hCreated _ t p) t) env creator space stack root

/-- A source that wakes a free driver goes straight into service; one that wakes
a driver with a delivery to collect is covered by that delivery. -/
theorem Covered.dispatchInterrupt (h : k.Covered) (source : InterruptSource) :
    (k.dispatchInterrupt source).1.Covered := by
  unfold Kernel.dispatchInterrupt
  rcases hDispatch : k.interrupts.dispatch source with ⟨interrupts, e | taken⟩
  · refine noneStranded_dispatch h hDispatch ?_
    intro taken hTaken
    cases hTaken
  dsimp only
  cases hWake : taken.wake with
  | false =>
    rw [if_neg (by simp)]
    refine noneStranded_dispatch h hDispatch ?_
    intro other hOther
    cases hOther
    exact hWake
  | true =>
    obtain ⟨hSrc, slot, hFind, hOwner, rfl⟩ := dispatch_wake hDispatch hWake
    obtain ⟨hMem, hLive⟩ := mem_of_find hFind
    have hValid := (h slot hMem hLive).1
    rw [hOwner, if_pos (by simpa using hValid), covered_synchroniseThread]
    unfold beginDelivery
    split_ifs with hArmed
    · refine noneStranded_modify h (fun _ => rfl) (fun _ => rfl) ?_ hSrc
      intro found hFound _
      rw [hFind] at hFound
      cases hFound
      exact hArmed
    · have hBegun := noneStranded_beginService h hSrc hFind hValid
      split
      · rename_i hBegin
        rw [hBegin] at hBegun
        exact hBegun
      rename_i hBegin
      rw [hBegin] at hBegun
      intro found hFound hOcc
      obtain ⟨hFoundOwner, hCovered⟩ := hBegun found hFound hOcc
      exact ⟨hFoundOwner, fun hPending => armed_arm (hCovered hPending)⟩

theorem Covered.interruptComplete (h : k.Covered) {capability : CapabilityId}
    (hCall : ¬ k.StrandsSource (.interruptComplete driver capability)) :
    (k.interruptComplete driver capability).1.Covered := by
  unfold Kernel.interruptComplete
  split
  · exact h
  rename_i source hSrc
  refine noneStranded_endService h ?_
  intro slot hFind hOwner hService hAssertions
  by_contra hArmed
  exact hCall ⟨source, slot, hSrc, hFind, hOwner, hService, hAssertions, by simpa using hArmed⟩

theorem Covered.takeDeliveredService (h : k.Covered)
    (hCall : ¬ k.StrandsSource (.takeDeliveredService driver)) :
    (k.takeDeliveredService driver).1.Covered := by
  unfold Kernel.takeDeliveredService take
  rcases hFound : k.interruptDeliveries.find driver with _ | delivery
  · exact h
  intro slot hMem hLive
  obtain ⟨hOwner, hArmed⟩ := h slot hMem hLive
  refine ⟨hOwner, fun hPending => armed_clear ?_ (hArmed hPending)⟩
  intro hSame
  refine hCall ⟨?_, slot, hMem, hLive, hPending, hSame⟩
  simp [armed, hFound]

theorem Covered.step (h : k.Covered) (env : Env) {op : Op} (hCall : ¬ k.StrandsSource op) :
    (k.step (env, op)).1.Covered := by
  cases op with
  | createThread thread priority | createAdmittedThread thread priority =>
    exact h.finishCreation thread priority _
  | threadAdmit creator space stack root => exact h.threadAdmit env creator space stack root
  | destroyThread thread => exact h.destroyThread thread
  | threadStart | send | receive | reply =>
    dsimp only [Kernel.step, perform, pure, threadStart, Kernel.send, Kernel.receive, Kernel.reply]
    split
    · exact h
    · first
      | rwa [covered_synchroniseThread]
      | rwa [covered_synchronisePair]
  | yield | createIpcEndpoint | ipcTakeReply | ipcTakeReplyBound =>
    dsimp only [Kernel.step, perform, pure, Kernel.yield, createIpcEndpoint, ipcTakeReply,
      ipcTakeReplyBound]
    split <;> exact h
  | retireIpcEndpoint server endpoint =>
    show (k.retireIpcEndpoint server endpoint).1.Covered
    unfold retireIpcEndpoint
    dsimp only
    split
    · exact h
    · rwa [covered_synchronise]
  | ipcSend | ipcSendBound | ipcReplyTransaction | ipcReplyTransactionBound =>
    exact h.commitIpc _ fun k _ => covered_synchronise k
  | ipcReceive | ipcReceiveBound | ipcReply | ipcReplyBound =>
    exact h.commitIpc _ fun k _ => covered_synchronisePair k _ _
  | ipcArmSendContinuation caller | ipcTakeSendContinuation caller
  | ipcCancelSendContinuation caller => exact h.onContinuations caller _
  | ipcArmReceiveContinuation server => exact h.onContinuations server _
  | ipcTakeReceiveContinuation server | ipcCancelReceiveContinuation server =>
    exact h.onContinuations server _
  | ipcExpireOneReceive now =>
    show (k.ipcExpireOneReceive now).1.Covered
    unfold ipcExpireOneReceive
    split
    all_goals split <;> exact h
  | ipcTakeExpiredReceiveContinuation | ipcTakeDeadlineExpiry => exact h
  | interruptAttach driver | interruptDetach driver =>
    dsimp only [Kernel.step, perform, pure, interruptAttach, interruptDetach]
    split
    · exact h
    · first
      | exact noneStranded_attach h driver _
      | exact noneStranded_detach h driver _
  | interruptComplete => exact h.interruptComplete hCall
  | dispatchInterrupt source => exact h.dispatchInterrupt source
  | takeDeliveredService => exact h.takeDeliveredService hCall
  | schedule => exact h
  | addressSpaceCreate creator authority =>
    show (k.addressSpaceCreate creator authority env.epochs).1.1.Covered
    unfold addressSpaceCreate
    split
    · exact h
    split
    · exact h
    split <;> exact h
  | addressSpaceBeginDestroy => exact h
  | addressSpaceCompleteDestroy owner space retiring =>
    show (k.addressSpaceCompleteDestroy owner space retiring env.epochs).1.1.Covered
    unfold addressSpaceCompleteDestroy
    iterate 3
      split
      · exact h
    split <;> exact h
  | memoryForCapability | mapAuthorize | unmapAuthorize | capability => exact h

theorem covered_empty : Covered {} := by
  intro slot hMem hLive
  rw [List.eq_of_mem_replicate hMem] at hLive
  cases hLive

/-- With every pending source covered nothing waits to be picked up. -/
theorem Covered.sourcesServed (h : k.Covered) : SourcesServed k := by
  rintro driver source slot ⟨-, hFind, hOwner, hPending, hUnarmed⟩
  obtain ⟨hMem, hLive⟩ := mem_of_find hFind
  have hArmed := (h slot hMem hLive).2 hPending
  rw [hOwner, hUnarmed] at hArmed
  cases hArmed

end Kernel

/-- In a run in which no driver collects while another of its sources is pending,
nor completes with nothing to collect a source that asserted during service, no
source gets stuck. A source that does get stuck is picked up by nothing: not by
its next assertion, nor by its driver's completions or collections. -/
theorem sources_served_unless_stranded (calls : List (Env × Op)) :
    (Run.EachStep Kernel.step (fun k call => ¬ k.StrandsSource call.2) {} calls →
      Run.Always Kernel.step SourcesServed {} calls) ∧
    Run.Always Kernel.step (fun k => ∀ driver source slot, k.Stranded driver source slot →
      ¬ PickedUp (k.dispatchInterrupt source).1 driver source slot.assertions ∧
      (∀ capability,
        ¬ PickedUp (k.interruptComplete driver capability).1 driver source slot.assertions) ∧
      ¬ PickedUp (k.takeDeliveredService driver).1 driver source slot.assertions) {} calls := by
  constructor
  · intro hEach n
    have hCovered : Run.Always Kernel.step Kernel.Covered {} calls :=
      Run.always_of_step covered_empty
        (fun _ call hk hCall => Kernel.Covered.step hk call.1 hCall) hEach
    exact (hCovered n).sourcesServed
  · intro n driver source slot h
    exact ⟨dispatch_stranded h, complete_stranded h, take_stranded h⟩

/-- Thread 1 drives sources 5 and 6. The second asserts before the delivery of
the first is collected. -/
def strandingRun : List (Env × Op) :=
  [ ({}, .createThread 1 10),
    ({}, .capability (.mint 1 (interruptObjectTag ||| 5) interruptRightAttach false)),
    ({}, .capability (.mint 1 (interruptObjectTag ||| 6) interruptRightAttach false)),
    ({}, .interruptAttach 1 1),
    ({}, .interruptAttach 1 2),
    ({}, .dispatchInterrupt 5),
    ({}, .dispatchInterrupt 6),
    ({}, .takeDeliveredService 1) ]

/-- Source 6 is then pending with nothing for its driver to collect. -/
theorem strandingRun_leaves_source_stuck :
    ¬ Run.Always Kernel.step SourcesServed {} strandingRun := by
  intro h
  have hStranded : (Run.after Kernel.step {} strandingRun).Stranded 1 6
      { source := 6, owner := 1, state := .pending, assertions := 1, occupied := true } := by
    refine ⟨?_, ?_, rfl, rfl, ?_⟩
    all_goals decide +kernel
  obtain hDispatch | ⟨capability, hComplete⟩ | hTake := h.final 1 6 _ hStranded
  · exact dispatch_stranded hStranded hDispatch
  · exact complete_stranded hStranded capability hComplete
  · exact take_stranded hStranded hTake

end Enml.OsKernel
