import Enml.Lib.Run
import Enml.Invariant.Addresses
import Enml.OsKernel.Preemption

/-! When the coordinator and the scheduler agree on who runs. The scheduler has
recorded its choice before the choice is checked, so a switch that is refused
leaves the two apart; everything else a refused call could touch stays as it
was. -/
namespace Enml.OsKernel

open Enml.Core UserFrameTable SchedulerDeadlineAuthority Scheduler Function Run SlotTable

/-- The refusal of a coordinator that disagrees with the scheduler. -/
def wrongRunningThread : Error := kernelError PreemptionErrors.wrongRunningThread

namespace UserFrameTable

variable {t : UserFrameTable} {thread : ThreadId} {live : ExceptionFrame}

theorem validateCapture_ok_iff :
    t.validateCapture thread live = .ok () ↔
      thread ≠ invalidThread ∧ validEl0Frame live ∧ (t.find thread).isSome := by
  unfold validateCapture
  split
  · simp_all
  · split
    · simp_all
    · split <;> simp_all [Option.isSome_iff_ne_none]

theorem validateRestore_ok_iff :
    t.validateRestore thread = .ok () ↔
      thread ≠ invalidThread ∧ ∃ slot, t.find thread = some slot ∧ validEl0Frame slot.frame := by
  unfold validateRestore
  split
  · simp_all
  · cases hFind : t.find thread with
    | none => simp
    | some => simp_all

theorem validateCapture_ne_wrong (t : UserFrameTable) (thread : ThreadId)
    (live : ExceptionFrame) : t.validateCapture thread live ≠ .error wrongRunningThread := by
  unfold validateCapture
  repeat' split
  all_goals first
    | exact kernelError_ne (by decide)
    | simp

theorem validateRestore_ne_wrong (t : UserFrameTable) (thread : ThreadId) :
    t.validateRestore thread ≠ .error wrongRunningThread := by
  unfold validateRestore
  repeat' split
  all_goals first
    | exact kernelError_ne (by decide)
    | simp

theorem validateRestore_congr {t' : UserFrameTable} (h : t'.find thread = t.find thread) :
    t'.validateRestore thread = t.validateRestore thread := by
  rw [validateRestore, validateRestore, h]

theorem capture_of_valid (h : t.validateCapture thread live = .ok ()) :
    ∃ t', t.capture thread live = (t', .ok ()) ∧
      ∀ other ≠ thread, t'.find other = t.find other := by
  obtain ⟨-, -, hSome⟩ := validateCapture_ok_iff.mp h
  obtain ⟨slot, hFind⟩ := Option.isSome_iff_exists.mp hSome
  refine ⟨_, by rw [capture, h, hFind], ?_⟩
  intro other hNe
  refine lookup_modify_ne hNe ?_
  intro s hs hOther
  exact hNe (Option.some.inj (hOther.symm.trans hs))

theorem restore_of_valid (h : t.validateRestore thread = .ok ()) :
    ∃ frame, t.restore thread live = (frame, .ok ()) := by
  obtain ⟨-, slot, hFind, -⟩ := validateRestore_ok_iff.mp h
  exact ⟨slot.frame, by rw [restore, h, hFind]⟩

variable {t' : UserFrameTable} {frame : ExceptionFrame}

/-- The registers kept for a thread. -/
def frameOf (t : UserFrameTable) (thread : ThreadId) : Option ExceptionFrame :=
  (t.find thread).map Slot.frame

theorem frameOf_admitFrame (t : UserFrameTable) (thread : ThreadId) (frame : ExceptionFrame) :
    (t.admitFrame thread frame).1.frameOf = match (t.admitFrame thread frame).2 with
      | .ok () => update t.frameOf thread (some frame)
      | .error _ => t.frameOf := by
  unfold admitFrame
  iterate 3
    split
    · rfl
  rename_i hKnown
  split
  · rename_i slots hInsert
    have hNone : t.find thread = none := by simpa using hKnown
    funext other
    dsimp only
    rcases eq_or_ne other thread with rfl | hNe
    · rw [update_self, frameOf, find, lookup_insert_self (by rfl) hNone hInsert]
      rfl
    · rw [update_of_ne hNe, frameOf, find, lookup_insert_ne (by rfl) hNe hInsert]
      rfl
  · rfl

theorem frameOf_capture (h : t.capture thread live = (t', .ok ())) :
    t'.frameOf = update t.frameOf thread (some live) := by
  unfold capture at h
  split at h
  · cases h
  split at h
  · cases h
  rename_i slot hFind
  cases h
  funext other
  rcases eq_or_ne other thread with rfl | hNe
  · rw [update_self, frameOf, find, lookup_modify_self, ← find, hFind]
    · rfl
    · exact fun _ => id
  rw [update_of_ne hNe, frameOf, find, lookup_modify_ne hNe]
  · rfl
  · intro s hs hOther
    exact hNe (Option.some.inj (hOther.symm.trans hs))

theorem restore_ok (h : t.restore thread live = (frame, .ok ())) :
    t.frameOf thread = some frame := by
  unfold restore at h
  split at h
  · cases h
  split at h
  · cases h
  rename_i slot hFind
  cases h
  rw [frameOf, hFind]
  rfl

end UserFrameTable

namespace SchedulerDeadlineAuthority

theorem nextGeneration_ne_zero (current : UInt64) : nextGeneration current ≠ 0 := by
  unfold nextGeneration
  split
  · decide
  rename_i h
  intro hZero
  refine h (UInt64.toNat_inj.mp ?_)
  have := congrArg UInt64.toNat hZero
  have hLt := current.toNat_lt
  simp only [UInt64.toNat_add, UInt64.toNat_one, UInt64.toNat_zero] at this
  show current.toNat = 18446744073709551615
  omega

variable {a : SchedulerDeadlineAuthority} {decision : Decision} {now : UInt64}
  {prepared : PreparedSchedulerDeadline}

theorem prepare_ok (h : a.prepare decision now = .ok prepared) :
    prepared.baseGeneration = a.generation ∧
      prepared.deadline.generation = nextGeneration a.generation := by
  unfold prepare at h
  split at h
  · cases h
    exact ⟨rfl, rfl⟩
  split at h
  · cases h
  · cases h
    exact ⟨rfl, rfl⟩

/-- A deadline is refused exactly when it is past the end of the clock. -/
theorem prepare_isOk_iff :
    (∃ prepared, a.prepare decision now = .ok prepared) ↔
      now.toNat + decision.timerNanoseconds.toNat < 2 ^ 64 := by
  have hNow := now.toNat_lt
  unfold prepare
  split
  · rename_i hZero
    simp [hZero, hNow]
  split
  · rename_i hOver
    rw [max_sub_lt_iff] at hOver
    simpa using hOver
  · rename_i hFits
    rw [max_sub_lt_iff] at hFits
    simpa using hFits

theorem prepare_ne_wrong (a : SchedulerDeadlineAuthority) (decision : Decision) (now : UInt64) :
    a.prepare decision now ≠ .error wrongRunningThread := by
  unfold prepare
  repeat' split
  all_goals first
    | exact kernelError_ne (by decide)
    | simp

theorem acceptInterrupt_ne_wrong (a : SchedulerDeadlineAuthority) (delivered : SchedulerDeadline)
    (now : UInt64) : a.acceptInterrupt delivered now ≠ .error wrongRunningThread := by
  unfold acceptInterrupt
  repeat' split
  all_goals first
    | exact kernelError_ne (by decide)
    | simp

/-- A commit succeeds on what was just prepared, and a refused one writes
nothing. -/
theorem commit_cases (a : SchedulerDeadlineAuthority) (prepared : PreparedSchedulerDeadline) :
    a.commit prepared = (a, .error (kernelError SchedulerDeadlineErrors.stalePrepare)) ∨
      a.commit prepared = ({ generation := prepared.deadline.generation,
                             current := prepared.deadline }, .ok prepared.deadline) := by
  unfold commit
  split
  · exact .inl rfl
  · exact .inr rfl

theorem commit_prepared (h : a.prepare decision now = .ok prepared) (hGen : a.generation ≠ 0) :
    a.commit prepared = ({ generation := prepared.deadline.generation,
                           current := prepared.deadline }, .ok prepared.deadline) := by
  obtain ⟨hBase, hNext⟩ := prepare_ok h
  unfold commit
  rw [if_neg]
  simp [PreparedSchedulerDeadline.valid, hBase, hNext, hGen, nextGeneration_ne_zero]

end SchedulerDeadlineAuthority

namespace PreemptionCoordinator

/-- The decision passes every check: there is a thread to run, its address space
is live, both frames are sound and the deadline fits the clock. -/
structure Applicable (c : PreemptionCoordinator) (decision : Decision) (call : SwitchCall)
    (captureCurrent : Bool) : Prop where
  runnable : decision.thread ≠ invalidThread
  translated : ∃ binding, call.translations.resolve decision.thread call.epochs = .ok binding
  captured : captureCurrent → c.running ≠ invalidThread ∧ UserFrameTable.validEl0Frame call.live ∧
      (c.frames.find c.running).isSome
  restored : ∃ slot, c.frames.find decision.thread = some slot ∧
    UserFrameTable.validEl0Frame slot.frame
  representable : call.nowNanoseconds.toNat +
    (narrowDecisionTimer decision call.earliestReceiveDeadline
      call.nowNanoseconds).timerNanoseconds.toNat < 2 ^ 64

variable {c : PreemptionCoordinator} {call : SwitchCall} {captureCurrent : Bool}
  {decision : Decision}

theorem stageCapture_ok_iff :
    c.stageCapture call captureCurrent = .ok () ↔
      (captureCurrent → c.frames.validateCapture c.running call.live = .ok ()) := by
  unfold stageCapture
  split
  · simp_all
  rename_i hCapture
  have hCapture : captureCurrent = true := by simpa using hCapture
  split
  · rename_i hIdle
    simp [hCapture, validateCapture_ok_iff, hIdle]
  · simp [hCapture]

/-- What staging accepts is what is applicable. -/
theorem stage_ok_iff {staged : ProcessTranslationBinding × PreparedSchedulerDeadline} :
    c.stage decision call captureCurrent = .ok staged ↔ decision.thread ≠ invalidThread ∧
      call.translations.resolve decision.thread call.epochs = .ok staged.1 ∧
      (captureCurrent → c.frames.validateCapture c.running call.live = .ok ()) ∧
      c.frames.validateRestore decision.thread = .ok () ∧
      c.deadlines.prepare (narrowDecisionTimer decision call.earliestReceiveDeadline
        call.nowNanoseconds) call.nowNanoseconds = .ok staged.2 := by
  obtain ⟨translation, prepared⟩ := staged
  unfold stage
  split
  · simp_all
  rename_i hThr
  cases hResolve : call.translations.resolve decision.thread call.epochs with
  | error => simp
  | ok =>
    rw [check_eq_ok_iff, check_eq_ok_iff, bind_eq_ok_iff, stageCapture_ok_iff]
    simp only [Except.ok.injEq, Prod.mk.injEq]
    constructor
    · rintro ⟨hCapture, hRestore, _, hPrepare, rfl, rfl⟩
      exact ⟨hThr, rfl, hCapture, hRestore, hPrepare⟩
    · rintro ⟨-, rfl, hCapture, hRestore, hPrepare⟩
      exact ⟨hCapture, hRestore, _, hPrepare, rfl, rfl⟩

theorem applicable_iff :
    c.Applicable decision call captureCurrent ↔
      ∃ staged, c.stage decision call captureCurrent = .ok staged := by
  simp only [stage_ok_iff, validateCapture_ok_iff, validateRestore_ok_iff]
  constructor
  · intro h
    obtain ⟨binding, hBinding⟩ := h.translated
    obtain ⟨prepared, hPrepared⟩ := prepare_isOk_iff.mpr h.representable
    exact ⟨(binding, prepared), h.runnable, hBinding, h.captured, ⟨h.runnable, h.restored⟩,
      hPrepared⟩
  · rintro ⟨staged, hThr, hBinding, hCapture, ⟨-, hRestore⟩, hPrepared⟩
    exact ⟨hThr, ⟨_, hBinding⟩, hCapture, hRestore, prepare_isOk_iff.mp ⟨_, hPrepared⟩⟩

theorem stage_ne_wrong (c : PreemptionCoordinator) (decision : Decision) (call : SwitchCall)
    (captureCurrent : Bool) :
    c.stage decision call captureCurrent ≠ .error wrongRunningThread := by
  unfold stage
  split
  · exact kernelError_ne (by decide)
  split
  · exact kernelError_ne (by decide)
  refine bind_ne_error ?_ fun _ => bind_ne_error ?_ fun _ => bind_ne_error ?_ fun _ => ?_
  · unfold stageCapture
    split
    · simp
    · split
      · exact kernelError_ne (by decide)
      · exact validateCapture_ne_wrong _ _ _
  · exact validateRestore_ne_wrong _ _
  · exact prepare_ne_wrong _ _ _
  · simp

/-- Saving the outgoing thread cannot fail once it is staged, and it leaves the
frame of every other thread alone. -/
theorem capture_of_staged
    (h : captureCurrent → c.frames.validateCapture c.running call.live = .ok ()) :
    ∃ frames, (if captureCurrent then c.frames.capture c.running call.live
        else (c.frames, .ok ())) = (frames, .ok ()) ∧
      ∀ other ≠ c.running, frames.find other = c.frames.find other := by
  cases captureCurrent with
  | false => exact ⟨c.frames, rfl, fun _ _ => rfl⟩
  | true => simpa using capture_of_valid (h rfl)

/-- Past the checks only the deadline commit can refuse, and then nothing has
been written yet. -/
theorem applyDecision_cases (c : PreemptionCoordinator) (decision : Decision) (call : SwitchCall)
    (captureCurrent : Bool) :
    (∃ e, c.applyDecision decision call captureCurrent = ((c, call.live), .error e) ∧
      e ≠ wrongRunningThread ∧
      (c.deadlines.generation ≠ 0 → ¬c.Applicable decision call captureCurrent)) ∨
    ∃ c' live result, c.applyDecision decision call captureCurrent = ((c', live), .ok result) ∧
      c.Applicable decision call captureCurrent ∧ c'.running = decision.thread ∧
      c'.deadlines.generation ≠ 0 := by
  unfold applyDecision
  cases hStage : c.stage decision call captureCurrent with
  | error e =>
    refine .inl ⟨e, rfl, ?_, ?_⟩
    · rintro rfl
      exact stage_ne_wrong c decision call captureCurrent hStage
    intro _ hApplicable
    obtain ⟨staged, hStaged⟩ := applicable_iff.mp hApplicable
    rw [hStaged] at hStage
    cases hStage
  | ok staged =>
    obtain ⟨translation, prepared⟩ := staged
    have hApplicable := applicable_iff.mpr ⟨_, hStage⟩
    obtain ⟨-, -, hCapture, hRestore, hPrepare⟩ := stage_ok_iff.mp hStage
    obtain ⟨-, hNext⟩ := prepare_ok hPrepare
    dsimp only
    rcases c.deadlines.commit_cases prepared with hCommit | hCommit
    · rw [hCommit]
      refine .inl ⟨_, rfl, ?_, ?_⟩
      · intro h
        exact kernelError_ne (α := Unit) (by decide) (congrArg Except.error h)
      · intro hGen
        rw [commit_prepared hPrepare hGen] at hCommit
        cases congrArg Prod.snd hCommit
    · rw [hCommit]
      obtain ⟨frames, hFrames, hOthers⟩ := capture_of_staged hCapture
      rw [hFrames]
      dsimp only
      have hLive : ∃ live, (if (c.running != decision.thread) || c.running == invalidThread then
          frames.restore decision.thread call.live else (call.live, .ok ())) = (live, .ok ()) := by
        split
        · rename_i hSwitch
          refine restore_of_valid ?_
          rwa [validateRestore_congr (hOthers _ ?_)]
          rintro hSame
          simp [← hSame, hApplicable.runnable] at hSwitch
        · exact ⟨_, rfl⟩
      obtain ⟨live, hLive⟩ := hLive
      rw [hLive]
      refine .inr ⟨_, _, _, rfl, hApplicable, rfl, ?_⟩
      rw [hNext]
      exact nextGeneration_ne_zero _

variable {c' : PreemptionCoordinator} {live : ExceptionFrame} {result : PreemptionResult}

/-- A switch writes down the registers of the thread it takes the processor from,
and what it leaves live are the registers kept for the thread it gives it to. -/
theorem applyDecision_frames
    (h : c.applyDecision decision call captureCurrent = ((c', live), .ok result))
    (hIdle : captureCurrent = false → c.running = invalidThread) :
    result.previous = c.running ∧
      c'.frames.frameOf = (if captureCurrent then
        update c.frames.frameOf c.running (some call.live) else c.frames.frameOf) ∧
      c'.frames.frameOf result.next = some live := by
  unfold applyDecision at h
  split at h
  · cases h
  split at h
  · cases h
  split at h
  · cases h
  rename_i frames hCapture
  dsimp only at h
  split at h
  · cases h
  rename_i live' hRestore
  cases h
  have hFrames : frames.frameOf = if captureCurrent then
      update c.frames.frameOf c.running (some call.live) else c.frames.frameOf := by
    split_ifs at hCapture ⊢
    · exact frameOf_capture hCapture
    · cases hCapture
      rfl
  refine ⟨rfl, hFrames, ?_⟩
  show frames.frameOf decision.thread = some live
  split_ifs at hRestore with hSwitch
  · exact restore_ok hRestore
  cases hRestore
  simp only [Bool.or_eq_true, bne_iff_ne, beq_iff_eq, not_or, not_not] at hSwitch
  cases captureCurrent with
  | false => exact absurd (hIdle rfl) hSwitch.2
  | true => rw [hFrames, if_pos rfl, ← hSwitch.1, update_self]

end PreemptionCoordinator

namespace PreemptionSystem

/-- The coordinator and the scheduler name the same running thread. -/
def Agrees (s : PreemptionSystem) : Prop := s.coordinator.running = s.scheduler.running

/-- The deadline generation is never the one an empty proposal is based on. -/
def Armed (s : PreemptionSystem) : Prop := s.coordinator.deadlines.generation ≠ 0

/-- The scheduler's choice is the thread that runs already, or it can be carried
out. -/
def Settled (s : PreemptionSystem) (call : SwitchCall) (captureCurrent : Bool) : Prop :=
  (s.scheduler.choose call.nowNanoseconds).2.thread = s.coordinator.running ∨
    s.coordinator.Applicable (s.scheduler.choose call.nowNanoseconds).2 call captureCurrent

/-- What a step has to meet for the two to go on agreeing: a call that consults
the scheduler is settled, and nobody else takes the running thread away. -/
def KeepsAgreement (s : PreemptionSystem) : PreemptionOperation → Prop
  | .retire thread => s.scheduler.find thread = none ∨ s.scheduler.running ≠ thread
  | .choose now => (s.scheduler.choose now).2.thread = s.coordinator.running
  | .start call => s.coordinator.running ≠ invalidThread ∨ s.Settled call false
  | .reschedule call => s.coordinator.running = invalidThread ∨ s.Settled call true
  | .onTimer delivered call =>
    s.coordinator.deadlines.acceptInterrupt delivered call.nowNanoseconds ≠ .ok () ∨
      s.coordinator.running = invalidThread ∨ s.Settled call true
  | .admitFrame _ _ | .admitThread _ _ | .update _ _ _ | .yieldSlice _ => True

/-- A call that fails has touched neither the live frame nor the coordinator. -/
def Untouched (s : PreemptionSystem) (call : SwitchCall)
    (done : (PreemptionSystem × ExceptionFrame) × Result PreemptionResult) : Prop :=
  ∀ e, done.2 = .error e → done.1.2 = call.live ∧ done.1.1.coordinator = s.coordinator

theorem decide_spec (s : PreemptionSystem) (call : SwitchCall) (captureCurrent : Bool) :
    (s.decide call captureCurrent).2 ≠ .error wrongRunningThread ∧
    s.Untouched call (s.decide call captureCurrent) ∧
    (s.Armed → (s.decide call captureCurrent).1.1.Armed ∧
      ((s.decide call captureCurrent).1.1.Agrees ↔ s.Settled call captureCurrent)) := by
  have hRunning : (s.scheduler.choose call.nowNanoseconds).1.running =
      (s.scheduler.choose call.nowNanoseconds).2.thread := rfl
  rcases s.coordinator.applyDecision_cases (s.scheduler.choose call.nowNanoseconds).2 call
    captureCurrent with ⟨e, hApply, hWrong, hNot⟩ | ⟨c', live, result, hApply, hApplicable,
      hNext, hGen⟩
  · have hDecide : s.decide call captureCurrent =
        (({ scheduler := (s.scheduler.choose call.nowNanoseconds).1,
            coordinator := s.coordinator }, call.live), .error e) := by
      simp only [decide, hApply]
    rw [hDecide]
    refine ⟨fun h => hWrong (Except.error.inj h), fun _ _ => ⟨rfl, rfl⟩, fun hArmed => ⟨hArmed, ?_⟩⟩
    simp [Agrees, Settled, hRunning, hNot hArmed, eq_comm]
  · have hDecide : s.decide call captureCurrent =
        (({ scheduler := (s.scheduler.choose call.nowNanoseconds).1,
            coordinator := c' }, live), .ok result) := by
      simp only [decide, hApply]
    rw [hDecide]
    refine ⟨by simp, ?_, fun _ => ⟨hGen, ?_⟩⟩
    · intro e he
      cases he
    · simp [Agrees, Settled, hRunning, hNext, hApplicable]

theorem untouched_of_refused (s : PreemptionSystem) (call : SwitchCall) (e : Error) :
    s.Untouched call ((s, call.live), .error e) :=
  fun _ _ => ⟨rfl, rfl⟩

theorem start_spec (s : PreemptionSystem) (call : SwitchCall) :
    s.Untouched call (s.start call) ∧
    (s.Armed → (s.start call).1.1.Armed ∧
      (s.Agrees → ((s.start call).1.1.Agrees ↔ s.KeepsAgreement (.start call)))) := by
  obtain ⟨-, hUntouched, hSettled⟩ := s.decide_spec call false
  unfold start
  split
  · rename_i hBusy
    refine ⟨s.untouched_of_refused call _, fun hArmed => ⟨hArmed, fun hAgrees => ?_⟩⟩
    exact iff_of_true hAgrees (.inl hBusy)
  · rename_i hIdle
    refine ⟨hUntouched, fun hArmed => ⟨(hSettled hArmed).1, fun _ => ?_⟩⟩
    simpa [KeepsAgreement, hIdle] using (hSettled hArmed).2

theorem reschedule_spec (s : PreemptionSystem) (call : SwitchCall) :
    s.Untouched call (s.reschedule call) ∧
    (s.Agrees → s.coordinator.running ≠ invalidThread →
      (s.reschedule call).2 ≠ .error wrongRunningThread) ∧
    (s.Armed → (s.reschedule call).1.1.Armed ∧
      (s.Agrees → ((s.reschedule call).1.1.Agrees ↔ s.KeepsAgreement (.reschedule call)))) := by
  obtain ⟨hWrong, hUntouched, hSettled⟩ := s.decide_spec call true
  unfold reschedule
  split
  · rename_i hRefused
    refine ⟨s.untouched_of_refused call _, ?_, ?_⟩
    · intro hAgrees hRunning
      exact absurd hRefused (not_or.mpr ⟨hRunning, not_not.mpr hAgrees.symm⟩)
    · intro hArmed
      refine ⟨hArmed, fun hAgrees => iff_of_true hAgrees (.inl ?_)⟩
      exact hRefused.resolve_right (not_not.mpr hAgrees.symm)
  · rename_i hAcc
    rw [not_or] at hAcc
    refine ⟨hUntouched, fun _ _ => hWrong, fun hArmed => ⟨(hSettled hArmed).1, fun _ => ?_⟩⟩
    simpa [KeepsAgreement, hAcc.1] using (hSettled hArmed).2

theorem onTimer_spec (s : PreemptionSystem) (delivered : SchedulerDeadline) (call : SwitchCall) :
    s.Untouched call (s.onTimer delivered call) ∧
    (s.Agrees → s.coordinator.running ≠ invalidThread →
      (s.onTimer delivered call).2 ≠ .error wrongRunningThread) ∧
    (s.Armed → (s.onTimer delivered call).1.1.Armed ∧ (s.Agrees →
      ((s.onTimer delivered call).1.1.Agrees ↔ s.KeepsAgreement (.onTimer delivered call)))) := by
  unfold onTimer
  cases hAccept : s.coordinator.deadlines.acceptInterrupt delivered call.nowNanoseconds with
  | error e =>
    refine ⟨s.untouched_of_refused call e, ?_, fun hArmed => ⟨hArmed, fun hAgrees => ?_⟩⟩
    · rintro - - hWrong
      rw [Except.error.inj hWrong] at hAccept
      exact acceptInterrupt_ne_wrong _ _ _ hAccept
    · exact iff_of_true hAgrees (.inl (by simp [hAccept]))
  | ok _ =>
    obtain ⟨hUntouched, hWrong, hKeeps⟩ := s.reschedule_spec call
    refine ⟨hUntouched, hWrong, fun hArmed => ?_⟩
    simpa [KeepsAgreement, hAccept] using hKeeps hArmed

end PreemptionSystem

/-- Of the scheduler's operations only `retire` and `choose` write who runs. -/
theorem Scheduler.running_admitThread (s : Scheduler) (thread : ThreadId) (effective : Priority) :
    (s.admitThread thread effective).1.running = s.running := by
  unfold admitThread
  repeat' split
  all_goals rfl

theorem Scheduler.running_update (s : Scheduler) (thread : ThreadId) (runnable : Bool)
    (effective : Priority) : (s.update thread runnable effective).1.running = s.running := by
  unfold update
  repeat' split
  all_goals rfl

theorem Scheduler.running_yieldSlice (s : Scheduler) (thread : ThreadId) :
    (s.yieldSlice thread).1.running = s.running := by
  unfold yieldSlice
  repeat' split
  all_goals rfl

theorem Scheduler.running_retire_iff {s : Scheduler} {thread : ThreadId} :
    (s.retire thread).1.running = s.running ↔ s.find thread = none ∨ s.running ≠ thread := by
  unfold retire
  split
  · rename_i hInvalid
    simp [find, hInvalid]
  rename_i hValid
  cases hFind : s.find thread with
  | none => simp
  | some =>
    by_cases hRunning : s.running = thread
    · simp [hRunning, Ne.symm hValid]
    · simp [hRunning]

namespace PreemptionSystem

/-- A step keeps the agreement exactly when it meets the condition. -/
theorem step_spec (s : PreemptionSystem) (op : PreemptionOperation) (hArmed : s.Armed) :
    (s.step op).1.Armed ∧ (s.Agrees → ((s.step op).1.Agrees ↔ s.KeepsAgreement op)) := by
  cases op with
  | admitFrame => exact ⟨hArmed, fun hAgrees => iff_of_true hAgrees trivial⟩
  | admitThread thread effective =>
    refine ⟨hArmed, fun hAgrees => iff_of_true ?_ trivial⟩
    exact hAgrees.trans (s.scheduler.running_admitThread thread effective).symm
  | update thread runnable effective =>
    refine ⟨hArmed, fun hAgrees => iff_of_true ?_ trivial⟩
    exact hAgrees.trans (s.scheduler.running_update thread runnable effective).symm
  | yieldSlice thread =>
    refine ⟨hArmed, fun hAgrees => iff_of_true ?_ trivial⟩
    exact hAgrees.trans (s.scheduler.running_yieldSlice thread).symm
  | retire thread =>
    refine ⟨hArmed, fun hAgrees => ?_⟩
    have hStep : (s.step (.retire thread)).1.Agrees ↔
        (s.scheduler.retire thread).1.running = s.scheduler.running := by
      show s.coordinator.running = _ ↔ _
      rw [show s.coordinator.running = s.scheduler.running from hAgrees, eq_comm]
      rfl
    exact hStep.trans running_retire_iff
  | choose => exact ⟨hArmed, fun _ => eq_comm⟩
  | start call => exact (s.start_spec call).2 hArmed
  | reschedule call => exact (s.reschedule_spec call).2.2 hArmed
  | onTimer delivered call => exact (s.onTimer_spec delivered call).2.2 hArmed

/-- From power on, the coordinator and the scheduler agree throughout a run
exactly when every step of it meets the condition; a running thread is then
never refused as the wrong one. A call that fails leaves the live frame, the
saved frames and the deadline as they were, in any state. -/
theorem refused_switch_agreement (ops : List PreemptionOperation) :
    (Run.Always step Agrees {} ops ↔ Run.EachStep step KeepsAgreement {} ops) ∧
    (Run.EachStep step KeepsAgreement {} ops →
      ∀ n delivered call, (after step {} (ops.take n)).coordinator.running ≠ invalidThread →
        ((after step {} (ops.take n)).reschedule call).2 ≠ .error wrongRunningThread ∧
        ((after step {} (ops.take n)).onTimer delivered call).2 ≠ .error wrongRunningThread) ∧
    ∀ (s : PreemptionSystem) delivered call, s.Untouched call (s.start call) ∧
      s.Untouched call (s.reschedule call) ∧ s.Untouched call (s.onTimer delivered call) := by
  have hIff : Run.Always step Agrees {} ops ↔ Run.EachStep step KeepsAgreement {} ops := by
    refine always_iff_eachStep (W := Armed) ?_ ?_ ?_ ?_
    · show (1 : UInt64) ≠ 0
      decide
    · intro s op hArmed
      exact (s.step_spec op hArmed).1
    · rfl
    · intro s op hArmed hAgrees
      exact (s.step_spec op hArmed).2 hAgrees
  refine ⟨hIff, ?_, ?_⟩
  · intro hEach n delivered call hRunning
    have hAgrees := hIff.mpr hEach n
    exact ⟨(reschedule_spec _ call).2.1 hAgrees hRunning,
      (onTimer_spec _ delivered call).2.1 hAgrees hRunning⟩
  · intro s delivered call
    exact ⟨(s.start_spec call).1, (s.reschedule_spec call).1, (s.onTimer_spec delivered call).1⟩

/-- One thread with an address space and a frame. It starts, blocks, and the
scheduler then has nobody to run. -/
def idleRun : List PreemptionOperation :=
  let (epochs, _) := ({} : AddressSpaceEpochAuthority).acquire
  let epoch : AddressSpaceEpoch := { slot := 0, generation := 1, asid := 1 }
  let (translations, _) :=
    ({} : ProcessTranslationTable).bind 1 epoch { rootPhysical := 0x1000, entry := 1 } epochs
  let live : ExceptionFrame := { elrEl1 := 0x1000, spEl0 := 0x8000 }
  let call : SwitchCall := { translations, epochs, live }
  [.admitThread 1 4, .admitFrame 1 live, .start call, .update 1 false 4, .reschedule call]

/-- The idle reschedule leaves the two apart, and when the thread can run again
every reschedule is refused as one of the wrong thread. -/
theorem idle_reschedule_disagrees :
    (after step {} (idleRun.take 4)).Agrees ∧
    (after step {} idleRun).coordinator.running = 1 ∧
    (after step {} idleRun).scheduler.running = invalidThread ∧
    ∀ call, ((after step {} (idleRun ++ [.update 1 true 4])).reschedule call).2 =
      .error wrongRunningThread := by
  refine ⟨?_, by decide +kernel, by decide +kernel, ?_⟩
  · show (after step {} (idleRun.take 4)).coordinator.running =
      (after step {} (idleRun.take 4)).scheduler.running
    decide +kernel
  · intro call
    have hApart : (after step {} (idleRun ++ [.update 1 true 4])).scheduler.running ≠
        (after step {} (idleRun ++ [.update 1 true 4])).coordinator.running := by
      decide +kernel
    rw [reschedule, if_pos (.inr hApart)]
    rfl

/-- What one call does to the registers of the threads, as far as its caller can
tell: a thread starts with those it was admitted with, and leaves behind those
that were live when the processor was taken from it. -/
def recordFrames (kept : ThreadId → Option ExceptionFrame) :
    PreemptionOperation × PreemptionOutcome → ThreadId → Option ExceptionFrame
  | (.admitFrame thread initial, .done (.ok ())) => update kept thread (some initial)
  | (.reschedule call, .applied _ (.ok result)) | (.onTimer _ call, .applied _ (.ok result)) =>
    update kept result.previous (some call.live)
  | _ => kept

/-- The registers each thread had when it last ran, or was admitted. -/
def lastFrames (ops : List PreemptionOperation) : ThreadId → Option ExceptionFrame :=
  ((history step {} ops).map Prod.snd).foldl recordFrames fun _ => none

variable {s s' : PreemptionSystem} {call : SwitchCall} {captureCurrent : Bool}
  {live : ExceptionFrame} {result : PreemptionResult}

theorem decide_frames (h : s.decide call captureCurrent = ((s', live), .ok result))
    (hIdle : captureCurrent = false → s.coordinator.running = invalidThread) :
    s'.coordinator.frames.frameOf = (if captureCurrent then
        update s.coordinator.frames.frameOf result.previous (some call.live)
      else s.coordinator.frames.frameOf) ∧
      s'.coordinator.frames.frameOf result.next = some live := by
  unfold PreemptionSystem.decide at h
  rcases hApply : s.coordinator.applyDecision (s.scheduler.choose call.nowNanoseconds).2 call
    captureCurrent with ⟨⟨c', live'⟩, result'⟩
  simp only [hApply] at h
  cases h
  obtain ⟨hPrevious, hFrames, hNext⟩ := PreemptionCoordinator.applyDecision_frames hApply hIdle
  rw [hPrevious]
  exact ⟨hFrames, hNext⟩

theorem reschedule_frames (h : s.reschedule call = ((s', live), .ok result)) :
    s'.coordinator.frames.frameOf =
      update s.coordinator.frames.frameOf result.previous (some call.live) ∧
      s'.coordinator.frames.frameOf result.next = some live := by
  unfold reschedule at h
  split at h
  · cases h
  · exact decide_frames h (by simp)

/-- The kept registers are what can be seen of them, and a switch has left those
of the thread that runs live. -/
def Recorded (s : PreemptionSystem) (op : PreemptionOperation) : Prop :=
  (s.step op).1.coordinator.frames.frameOf =
      recordFrames s.coordinator.frames.frameOf (op, (s.step op).2) ∧
    ∀ live result, (s.step op).2 = .applied live (.ok result) →
      (s.step op).1.coordinator.frames.frameOf result.next = some live

/-- A call that switches, once it is known what it does when it succeeds. -/
theorem frameOf_switching {op : PreemptionOperation}
    {done : (PreemptionSystem × ExceptionFrame) × Result PreemptionResult}
    (hStep : s.step op = switching done) (hUntouched : s.Untouched call done)
    (hError : ∀ kept live e, recordFrames kept (op, .applied live (.error e)) = kept)
    (hDone : ∀ s' live result, done = ((s', live), .ok result) → s'.coordinator.frames.frameOf =
        recordFrames s.coordinator.frames.frameOf (op, .applied live (.ok result)) ∧
      s'.coordinator.frames.frameOf result.next = some live) :
    s.Recorded op := by
  rw [Recorded, hStep]
  rcases done with ⟨⟨s', live⟩, e | result⟩
  · refine ⟨?_, by simp [switching]⟩
    show s'.coordinator.frames.frameOf = recordFrames _ (op, .applied live (.error e))
    rw [hError, (hUntouched e rfl).2]
  obtain ⟨hFrames, hNext⟩ := hDone s' live result rfl
  refine ⟨hFrames, ?_⟩
  rintro _ _ ⟨⟩
  exact hNext

/-- One step of the frame table, and of what can be seen of it. -/
theorem recorded (s : PreemptionSystem) (op : PreemptionOperation) : s.Recorded op := by
  cases op with
  | admitThread | retire | update | yieldSlice | choose => exact ⟨rfl, by simp [step, onScheduler]⟩
  | admitFrame thread initial =>
    have hAdmit := s.coordinator.frames.frameOf_admitFrame thread initial
    refine ⟨hAdmit.trans ?_, by simp [step]⟩
    show _ = recordFrames _ (_, .done (s.coordinator.frames.admitFrame thread initial).2)
    cases (s.coordinator.frames.admitFrame thread initial).2 <;> rfl
  | start call =>
    refine frameOf_switching rfl (s.start_spec call).1 (fun _ _ _ => rfl) ?_
    intro s' live result hStart
    unfold start at hStart
    split at hStart
    · cases hStart
    · rename_i hRunning
      exact decide_frames hStart fun _ => not_not.mp hRunning
  | reschedule call =>
    exact frameOf_switching rfl (s.reschedule_spec call).1 (fun _ _ _ => rfl)
      fun _ _ _ => reschedule_frames
  | onTimer delivered call =>
    refine frameOf_switching rfl (s.onTimer_spec delivered call).1 (fun _ _ _ => rfl) ?_
    intro s' live result hDone
    unfold onTimer at hDone
    split at hDone
    · cases hDone
    · exact reschedule_frames hDone

/-- Over every run, whatever the threads and the scheduler do in between: the
frame table holds for each thread what it was admitted with or what it had when
it last gave the processor up, and a call that switches leaves exactly that live
for the thread it switches to. -/
theorem resumes_with_last_frame (ops : List PreemptionOperation) :
    (after step {} ops).coordinator.frames.frameOf = lastFrames ops ∧
    ∀ op live result, ((after step {} ops).step op).2 = .applied live (.ok result) →
      lastFrames (ops ++ [op]) result.next = some live := by
  have hFrames : ∀ ops : List PreemptionOperation,
      (after step {} ops).coordinator.frames.frameOf = lastFrames ops := fun ops =>
    view_after (v := fun s : PreemptionSystem => s.coordinator.frames.frameOf)
      (fun s op => (s.recorded op).1) {} ops
  refine ⟨hFrames ops, ?_⟩
  intro op live result hLive
  rw [← hFrames, after_append]
  exact (recorded _ op).2 live result hLive

end PreemptionSystem

end Enml.OsKernel
