import Enml.Invariant.Authority
import Enml.Safety.ThreadDeath

/-! The priority an admitted thread is given. It is the priority its creator is
run at, which callers blocked on the creator may have raised above its own. -/
namespace Enml.OsKernel

open IpcEndpointTable Rendezvous List Kernel

variable {t : ThreadId} {state : ThreadState} {p : Priority}

namespace Rendezvous

variable {r r' : Rendezvous} {Q : ThreadId → Priority → Prop} {a b : ThreadId}

/-- Every thread and its base priority are related by `Q`. -/
def All (Q : ThreadId → Priority → Prop) (r : Rendezvous) : Prop :=
  ∀ s ∈ r.slots, s.occupied = true → Q s.thread s.base

/-- A write that touches neither the name of a thread nor its base priority. -/
theorem All.modify (h : r.All Q) {f : Slot → Slot}
    (hf : ∀ s, (f s).occupied = true → s.occupied = true ∧ (f s).thread = s.thread ∧
      (f s).base = s.base) : (r.modify t f).All Q := by
  intro x hx hOcc
  rcases SlotTable.mem_updateFirst hx with hOld | ⟨s, hFind, rfl⟩
  · exact h x hOld hOcc
  · obtain ⟨hUsed, hThr, hBase⟩ := hf s hOcc
    rw [hThr, hBase]
    exact h s (mem_of_find?_eq_some hFind) hUsed

theorem All.result {α : Type} {done : Rendezvous × α} {x : α} (h : done.1.All Q)
    (hDone : done = (r', x)) : r'.All Q := by
  rwa [hDone] at h

theorem All.exitThread (h : r.All Q) : (r.exitThread a).1.All Q := by
  unfold Rendezvous.exitThread
  split
  · exact h
  have hReleased : All Q { r with slots := r.slots.map (Slot.release a) } := by
    intro x hx hOcc
    obtain ⟨s, hs, rfl⟩ := mem_map.mp hx
    unfold Slot.release at hOcc ⊢
    split_ifs at hOcc ⊢ <;> exact h s hs hOcc
  exact hReleased.modify (f := Slot.vacate) nofun

theorem All.startThread (h : r.All Q) : (r.startThread a).1.All Q := by
  unfold Rendezvous.startThread
  repeat' split
  all_goals first | exact h | exact h.modify fun _ h => ⟨h, rfl, rfl⟩

theorem All.blockSend (h : r.All Q) : (r.blockSend a b).1.All Q := by
  unfold Rendezvous.blockSend
  repeat' split
  all_goals first | exact h | exact h.modify fun _ h => ⟨h, rfl, rfl⟩

theorem All.waitReceive (h : r.All Q) : (r.waitReceive a).1.All Q := by
  unfold Rendezvous.waitReceive
  repeat' split
  all_goals first | exact h | exact h.modify fun _ h => ⟨h, rfl, rfl⟩

theorem All.endReceive (h : r.All Q) {w : WakeReason} : (r.endReceive w a).1.All Q := by
  unfold Rendezvous.endReceive
  repeat' split
  all_goals first | exact h | exact h.modify fun _ h => ⟨h, rfl, rfl⟩

theorem All.takeDeadlineExpiry (h : r.All Q) : (r.takeDeadlineExpiry a).1.All Q := by
  unfold Rendezvous.takeDeadlineExpiry
  repeat' split
  all_goals first | exact h | exact h.modify fun _ h => ⟨h, rfl, rfl⟩

theorem All.reply (h : r.All Q) : (r.reply a b).1.All Q := by
  unfold Rendezvous.reply
  repeat' split
  all_goals first | exact h | exact h.modify fun _ h => ⟨h, rfl, rfl⟩

theorem All.deliverWaitingReceiver (h : r.All Q) : (r.deliverWaitingReceiver a b).1.All Q := by
  unfold Rendezvous.deliverWaitingReceiver
  repeat' split
  all_goals first
    | exact h
    | refine All.modify (All.modify h ?_) ?_ <;> exact fun _ h => ⟨h, rfl, rfl⟩

theorem All.acceptSender (h : r.All Q) : (r.acceptSender a b).1.All Q := by
  unfold Rendezvous.acceptSender
  repeat' split
  all_goals first
    | exact h
    | refine All.modify (All.modify h ?_) ?_ <;> exact fun _ h => ⟨h, rfl, rfl⟩

theorem All.cancelCall (h : r.All Q) : (r.cancelCall a b).1.All Q := by
  unfold Rendezvous.cancelCall
  repeat' split
  all_goals first
    | exact h
    | refine All.modify (All.modify h ?_) ?_
      · exact fun _ h => ⟨h, rfl, rfl⟩
      intro s hs
      split_ifs at hs ⊢ <;> exact ⟨hs, rfl, rfl⟩

theorem All.send (h : r.All Q) : (r.send a b).1.All Q := by
  unfold Rendezvous.send
  repeat' split
  all_goals first | exact h.deliverWaitingReceiver | exact h.blockSend

theorem All.receive (h : r.All Q) : (r.receive a).1.All Q := by
  have hCleared : (r.modify a fun s => { s with wake := .none }).All Q :=
    h.modify fun _ h => ⟨h, rfl, rfl⟩
  unfold Rendezvous.receive
  split_ifs
  · exact h
  split
  · exact h
  split
  · exact h
  dsimp only
  split
  · exact hCleared.modify fun _ h => ⟨h, rfl, rfl⟩
  split
  · rename_i slot _
    have hDone := hCleared.acceptSender (a := a) (b := slot.thread)
    split <;> rename_i hEq <;> rwa [hEq] at hDone
  · have hDone := hCleared.waitReceive (a := a)
    split <;> rename_i hEq <;> rwa [hEq] at hDone

theorem All.createIn (h : r.All Q) (hCreate : r.createIn state a p = (r', .ok ()))
    (hNew : r.find a = none → Q a p) :
    r'.All Q := by
  obtain ⟨-, hFind, hIns, -⟩ := createIn_ok hCreate
  intro s hs hOcc
  rcases (SlotTable.mem_insert hIns (by simp [Slot.key, hOcc])).mp hs with hOld | rfl
  · exact h s hOld hOcc
  · exact hNew hFind

theorem All.retire {t t' : IpcEndpointTable} {e : IpcEndpoint} (h : r.All Q)
    (hRetire : t.retire a e r = ((t', r'), .ok ())) : r'.All Q := by
  apply retire_induction hRetire h
  · intro r₁ hCancel
    have hDone := h.endReceive (w := .endpointRetired) (a := a)
    rwa [← cancelReceive, hCancel] at hDone
  · exact fun _ _ _ h => h.cancelCall

theorem All.coreStep {c c' : Core} {op : CoreOp} (h : c.threads.All Q) (hStep : CoreStep c op c')
    (hNew : ∀ state t p, op = .create state t p → c.threads.find t = none → Q t p) :
    c'.threads.All Q := by
  cases hStep with
  | create hCreate => exact h.createIn hCreate (hNew _ _ _ rfl)
  | start hStart  => exact h.startThread.result hStart
  | destroy t =>
    refine All.exitThread ?_
    exact releaseThread_induction _ (P := fun _ r => r.All Q) h
      (fun _ _ _ _ _ h hRetire => h.retire hRetire) fun _ _ => id
  | send hSend  => exact h.send.result hSend
  | receive => exact h.receive
  | reply hReply  => exact h.reply.result hReply
  | retireEndpoint hRetire => exact h.retire hRetire
  | sendTo hSend =>
    obtain ⟨_, _, -, -, -, ⟨-, hSent⟩ | ⟨-, hSent⟩, -⟩ := sendToEndpoint_ok hSend
    · exact h.deliverWaitingReceiver.result hSent
    · exact h.blockSend.result hSent
  | receiveFrom hRecv =>
    obtain ⟨_, _, -, -, -, -, -, ⟨-, _, -, -, rfl⟩ | ⟨-, _, -, -, hTaken⟩ | ⟨-, -, -, hTaken, -⟩⟩ :=
      receiveFromEndpoint_ok hRecv
    · refine All.modify (All.modify h ?_) ?_ <;> exact fun _ h => ⟨h, rfl, rfl⟩
    · exact h.acceptSender.result hTaken
    · exact h.waitReceive.result hTaken
  | replyTo hReply =>
    obtain ⟨_, _, _, -, -, -, -, -, -, -, hReplied, -⟩ := IpcEndpointTable.reply_ok hReply
    exact h.reply.result hReplied
  | expire hExpire => exact h.endReceive.result hExpire
  | takeExpiry => exact h.takeDeadlineExpiry
  | _ => exact h

/-- No caller blocked on the thread is more urgent than the thread itself. -/
def Uninherited (r : Rendezvous) (thread : ThreadId) : Prop :=
  ∀ slot, r.find thread = some slot → ∀ other ∈ r.slots, other.occupied = true →
    other.thread ≠ thread → other.waitingOn thread = true → other.base ≤ slot.base

theorem foldl_raisePriority_le {highest : Priority} (slots : List Slot) :
    slots.foldl (raisePriority t) highest ≤ p ↔ highest ≤ p ∧ ∀ other ∈ slots,
      other.occupied = true → other.thread ≠ t → other.waitingOn t = true → other.base ≤ p := by
  induction slots generalizing highest with
  | nil => simp
  | cons _ _ ih =>
    rw [foldl_cons, ih, forall_mem_cons]
    unfold raisePriority
    grind

theorem inheritedPriority_le_iff {slot : Slot} (hFind : r.find a = some slot) :
    r.inheritedPriority a ≤ slot.base ↔ r.Uninherited a := by
  simp [inheritedPriority, Uninherited, hFind, foldl_raisePriority_le]

theorem effectivePriorityOf_ok (h : r.effectivePriorityOf a = .ok p) :
    ∃ own, r.find a = some own ∧ p = r.inheritedPriority a := by
  unfold effectivePriorityOf at h
  split_ifs at h with hNone
  obtain ⟨own, hOwn⟩ := Option.ne_none_iff_exists'.mp (by simpa using hNone)
  exact ⟨own, hOwn, (Except.ok.inj h).symm⟩

end Rendezvous

namespace Kernel

variable {k : Kernel} {creator : ThreadId} {space : CapabilityId} {stack : UInt64}
  {root : SealedTranslationRoot}

/-- An admitted thread is given the effective priority of its creator. -/
theorem threadAdmit_priority (hStruct : k.Structured) {env : Env}
    {done : Kernel × ProcessTranslationTable} {admission : ThreadAdmission}
    (h : k.threadAdmit creator space stack root env.epochs env.translations env.executables =
      (done, .ok admission)) :
    ∃ p, k.threads.effectivePriorityOf creator = .ok p ∧
      done.1.threads.basePriorityOf admission.thread = .ok p := by
  obtain ⟨_, threadIdentifiers, p, -, hPrio, hCreated⟩ := threadAdmit_success h
  refine ⟨p, hPrio, ?_⟩
  unfold createAdmittedThread Rendezvous.createAdmittedThread at hCreated
  rcases hCreate : k.threads.createIn .admitted admission.thread p with ⟨threads, e | ⟨⟩⟩
  · rw [hCreate, finishCreation_error] at hCreated
    exact nomatch congrArg Prod.snd hCreated
  obtain ⟨scheduler, -, hFinish⟩ :=
    finishCreation_ok (k := { k with threadIdentifiers }) hStruct.same hCreate
  rw [hCreate, hFinish] at hCreated
  rw [← congrArg Prod.fst hCreated, synchroniseThread_eq]
  simp [track, basePriorityOf, find_createIn_self hCreate]

theorem create_mem_admitOps {env : Env}
    (h : .create state t p ∈ k.admitOps env creator space stack root) :
    k.threads.effectivePriorityOf creator = .ok p := by
  have hMem : .create state t p ∈ k.coreOps env (.threadAdmit creator space stack root) := h
  cases performs_of_mem hMem with
  | threadAdmit hPriority => exact hPriority

end Kernel

/-- A kernel with the base priority each thread's creation chain began at. -/
structure Lineage where
  kernel : Kernel := {}
  root : ThreadId → Priority := fun _ => defaultPriority

namespace Lineage

/-- A thread that is admitted continues the chain of its creator, and any other
new thread begins a chain of its own. -/
def rootOf (l : Lineage) (op : Op) (threads : Rendezvous) (t : ThreadId) : Priority :=
  if (l.kernel.threads.find t).isSome then l.root t
  else
    match op with
    | .threadAdmit creator .. => l.root creator
    | _ => ((threads.find t).map Rendezvous.Slot.base).getD defaultPriority

def step (l : Lineage) (call : Env × Op) : Lineage × Outcome :=
  let (kernel, outcome) := l.kernel.step call
  ({ kernel, root := l.rootOf call.2 kernel.threads }, outcome)

/-- No thread is admitted by one that runs above its own priority. -/
def AdmitsUninherited (l : Lineage) (call : Env × Op) : Prop :=
  ∀ creator space stack root, call.2 = .threadAdmit creator space stack root →
    l.kernel.threads.Uninherited creator

def Bounded (l : Lineage) : Prop := l.kernel.threads.All fun t p => p ≤ l.root t

variable {l : Lineage}

theorem Bounded.step (hStruct : l.kernel.Structured) (h : l.Bounded) {call : Env × Op}
    (hCall : l.AdmitsUninherited call) : (l.step call).1.Bounded := by
  obtain ⟨env, op⟩ := call
  let Q := fun t p => (l.kernel.threads.find t).isSome ∧ p ≤ l.root t ∨
    l.kernel.threads.find t = none ∧ ∃ state, .create state t p ∈ l.kernel.coreOps env op
  have hStart : l.kernel.threads.All Q := by
    intro s hs hOcc
    left
    rw [find_of_occupied hStruct.same.distinct hs hOcc]
    exact ⟨rfl, h s hs hOcc⟩
  have hKept : (l.kernel.step (env, op)).1.threads.All Q := by
    refine core_induction hStruct.same env op (P := fun c => c.threads.All Q) hStart
      (fun op' hMem c' hStep => hStart.coreStep hStep ?_)
      (fun c t h => h.coreStep (.destroy t) nofun)
    rintro state t p rfl hFind
    exact .inr ⟨hFind, state, hMem⟩
  intro s hs hOcc
  show s.base ≤ l.rootOf op (l.kernel.step (env, op)).1.threads s.thread
  unfold rootOf
  rcases hKept s hs hOcc with ⟨hOld, hBase⟩ | ⟨hNew, state, hCreate⟩
  · rwa [if_pos hOld]
  have hFind := find_of_occupied (hStruct.step (env, op)).same.distinct hs hOcc
  rw [hNew, hFind, if_neg (by simp)]
  cases op with
  | threadAdmit creator _ _ root =>
    obtain ⟨own, hOwn, hGiven⟩ := effectivePriorityOf_ok
      (create_mem_admitOps hCreate)
    obtain ⟨hThr, hUsed⟩ := thread_of_find hOwn
    rw [hGiven]
    calc l.kernel.threads.inheritedPriority creator
        _ ≤ own.base := (inheritedPriority_le_iff hOwn).mpr (hCall _ _ _ _ rfl)
        _ ≤ l.root own.thread := h own (mem_of_find hOwn).1 hUsed
        _ = l.root creator := by rw [hThr]
  | _ => exact UInt8.le_refl _

/-- An admitted thread is no more urgent than its creator exactly if no caller
blocked on the creator is, and where that holds at every admission of a run no
thread is more urgent than the one its creation chain began at. -/
theorem admitted_priority_iff (calls : List (Env × Op)) :
    Run.Always step (fun l =>
        ∀ creator space stack root done admission, ∀ env : Env,
          l.kernel.threadAdmit creator space stack root env.epochs env.translations
            env.executables = (done, .ok admission) →
          ∃ own given, l.kernel.threads.basePriorityOf creator = .ok own ∧
            done.1.threads.basePriorityOf admission.thread = .ok given ∧
            (given ≤ own ↔ l.kernel.threads.Uninherited creator)) {} calls ∧
      (Run.EachStep step AdmitsUninherited {} calls → Run.Always step Bounded {} calls) := by
  constructor
  · intro n creator space stack root done admission env hAdmit
    have hStruct : Run.Always step (fun l => l.kernel.Structured) {} calls :=
      Run.always_of_invariant structured_empty fun _ call h => h.step call
    obtain ⟨p, hPrio, hGiven⟩ := threadAdmit_priority (hStruct n) hAdmit
    obtain ⟨own, hOwn, rfl⟩ := effectivePriorityOf_ok hPrio
    exact ⟨own.base, _, by rw [basePriorityOf, hOwn], hGiven, inheritedPriority_le_iff hOwn⟩
  · intro hEach n
    have hStart : Bounded {} := by
      intro s hs hOcc
      cases eq_of_mem_replicate hs
      cases hOcc
    have hBoth : Run.Always step (fun l => l.kernel.Structured ∧ l.Bounded) {} calls :=
      Run.always_of_step ⟨structured_empty, hStart⟩
        (fun l call h hCall => ⟨h.1.step call, h.2.step h.1 hCall⟩) hEach
    exact (hBoth n).2

/-- A thread of priority 9 waits on one of priority 1, which then admits a third. -/
def urgentCallerRun : List (Env × Op) :=
  [({}, .createThread 1 1),
   ({}, .capability (.mint 1 addressSpaceAuthorityObject addressSpaceRightCreate true)),
   ({}, .addressSpaceCreate 1 1), ({}, .createThread 2 9), ({}, .send 2 1),
   ({ epochs := ({} : AddressSpaceEpochAuthority).acquire.1
      executables := (({} : ExecutableRegionTable).record ⟨0, 1⟩ 0x400000 0x1000).1 },
    .threadAdmit 1 2 0x7FFF0000 { rootPhysical := 0x1000, entry := 0x400000 })]

/-- The third thread has the priority of the caller and not its creator's. -/
theorem urgentCallerRun_escalates :
    (Run.after step {} urgentCallerRun).kernel.threads.basePriorityOf 1 = .ok 1 ∧
      (Run.after step {} urgentCallerRun).kernel.threads.basePriorityOf 4096 = .ok 9 ∧
      (Run.after step {} urgentCallerRun).root 4096 = 1 ∧
      ¬ (Run.after step {} urgentCallerRun).Bounded := by
  have hGiven : (Run.after step {} urgentCallerRun).kernel.threads.basePriorityOf 4096 = .ok 9 := by
    decide +kernel
  have hRoot : (Run.after step {} urgentCallerRun).root 4096 = 1 := by decide +kernel
  refine ⟨by decide +kernel, hGiven, hRoot, ?_⟩
  intro hBounded
  unfold basePriorityOf at hGiven
  split at hGiven
  · cases hGiven
  rename_i slot hFind
  obtain ⟨hThr, hUsed⟩ := thread_of_find hFind
  have hBase := hBounded slot (mem_of_find hFind).1 hUsed
  rw [hThr, hRoot, Except.ok.inj hGiven] at hBase
  exact absurd hBase (by decide)

end Lineage

end Enml.OsKernel
