import Enml.OsKernel.Scheduler
import Enml.OsKernel.ThreadAdmission
import Enml.OsKernel.UserFrames

/-! `PreemptionCoordinator`: carrying a scheduling decision out on the processor.
The decision has to pass the translation table, both saved frames and the
deadline authority; what it passes is then committed as one switch. -/
namespace Enml.OsKernel

open Enml.Core

namespace SchedulerDeadlineErrors
def overflow : UInt32 := 100
def stale : UInt32 := 101
def early : UInt32 := 102
def inactive : UInt32 := 103
def stalePrepare : UInt32 := 104
end SchedulerDeadlineErrors

open SchedulerDeadlineErrors

/-- An armed timer, named by its generation. -/
structure SchedulerDeadline where
  generation : UInt64 := 0
  absoluteNanoseconds : UInt64 := 0
  active : Bool := false
  deriving DecidableEq

/-- A proposal. Nothing is armed until it is committed. -/
structure PreparedSchedulerDeadline where
  deadline : SchedulerDeadline := {}
  baseGeneration : UInt64 := 0
  deriving DecidableEq

def PreparedSchedulerDeadline.valid (p : PreparedSchedulerDeadline) : Bool :=
  p.baseGeneration != 0 && p.deadline.generation != 0

/-- Bring the timer of a decision forward to an earlier wakeup. A wakeup that
has passed becomes the shortest wait, since zero would mean no timer. -/
def narrowDecisionTimer (decision : Decision) (earliestAbsolute nowNanoseconds : UInt64) :
    Decision :=
  if earliestAbsolute = 0 then decision
  else
    let remaining : UInt64 :=
      if earliestAbsolute ≤ nowNanoseconds then 1 else earliestAbsolute - nowNanoseconds
    if decision.timerNanoseconds = 0 ∨ remaining < decision.timerNanoseconds then
      { decision with timerNanoseconds := remaining }
    else decision

structure SchedulerDeadlineAuthority where
  generation : UInt64 := 1
  current : SchedulerDeadline := {}

namespace SchedulerDeadlineAuthority

def nextGeneration (current : UInt64) : UInt64 :=
  if current = 0xFFFFFFFFFFFFFFFF then 1 else current + 1

def prepare (a : SchedulerDeadlineAuthority) (decision : Decision) (nowNanoseconds : UInt64) :
    Result PreparedSchedulerDeadline :=
  let generation := nextGeneration a.generation
  if decision.timerNanoseconds = 0 then
    .ok { deadline := { generation, active := false }, baseGeneration := a.generation }
  else if 0xFFFFFFFFFFFFFFFF - nowNanoseconds < decision.timerNanoseconds then
    .error (kernelError overflow)
  else
    .ok { deadline := { generation
                        absoluteNanoseconds := nowNanoseconds + decision.timerNanoseconds
                        active := true }
          baseGeneration := a.generation }

def commit (a : SchedulerDeadlineAuthority) (prepared : PreparedSchedulerDeadline) :
    SchedulerDeadlineAuthority × Result SchedulerDeadline :=
  if !prepared.valid || prepared.baseGeneration != a.generation ||
      prepared.deadline.generation != nextGeneration a.generation then
    (a, .error (kernelError stalePrepare))
  else
    ({ generation := prepared.deadline.generation, current := prepared.deadline },
      .ok prepared.deadline)

def acceptInterrupt (a : SchedulerDeadlineAuthority) (delivered : SchedulerDeadline)
    (nowNanoseconds : UInt64) : Result Unit :=
  if !a.current.active then .error (kernelError inactive)
  else if !delivered.active || delivered.generation != a.current.generation ||
      delivered.absoluteNanoseconds != a.current.absoluteNanoseconds then
    .error (kernelError stale)
  else if nowNanoseconds < a.current.absoluteNanoseconds then
    .error (kernelError early)
  else .ok ()

end SchedulerDeadlineAuthority

namespace PreemptionErrors
def noRunnableThread : UInt32 := 120
def runningThreadMissing : UInt32 := 121
def wrongRunningThread : UInt32 := 122
def translationUnavailable : UInt32 := 123
end PreemptionErrors

open PreemptionErrors

structure PreemptionResult where
  previous : ThreadId := invalidThread
  next : ThreadId := invalidThread
  deadline : SchedulerDeadline := {}
  translation : ProcessTranslationBinding := {}
  switched : Bool := false
  preempted : Bool := false

/-- What every switching call is given beside the scheduler. -/
structure SwitchCall where
  translations : ProcessTranslationTable := {}
  epochs : AddressSpaceEpochAuthority := {}
  nowNanoseconds : UInt64 := 0
  live : ExceptionFrame := {}
  earliestReceiveDeadline : UInt64 := 0

structure PreemptionCoordinator where
  frames : UserFrameTable := {}
  deadlines : SchedulerDeadlineAuthority := {}
  running : ThreadId := invalidThread

namespace PreemptionCoordinator

def admitFrame (c : PreemptionCoordinator) (thread : ThreadId) (initial : ExceptionFrame) :
    PreemptionCoordinator × Result Unit :=
  let (frames, result) := c.frames.admitFrame thread initial
  ({ c with frames }, result)

/-- The check on the thread that gives the processor up. -/
def stageCapture (c : PreemptionCoordinator) (call : SwitchCall) (captureCurrent : Bool) :
    Result Unit :=
  if !captureCurrent then .ok ()
  else if c.running = invalidThread then
    .error (kernelError runningThreadMissing)
  else c.frames.validateCapture c.running call.live

/-- The checks of `applyDecision`, in the order it makes them. Nothing is
written. -/
def stage (c : PreemptionCoordinator) (decision : Decision) (call : SwitchCall)
    (captureCurrent : Bool) : Result (ProcessTranslationBinding × PreparedSchedulerDeadline) :=
  if decision.thread = invalidThread then
    .error (kernelError noRunnableThread)
  else
    match call.translations.resolve decision.thread call.epochs with
    | .error _ => .error (kernelError translationUnavailable)
    | .ok translation => do
        c.stageCapture call captureCurrent
        c.frames.validateRestore decision.thread
        let prepared ← c.deadlines.prepare
          (narrowDecisionTimer decision call.earliestReceiveDeadline call.nowNanoseconds)
          call.nowNanoseconds
        .ok (translation, prepared)

/-- `apply_decision`. The pair is the coordinator and the live frame, which a
call that fails late would leave half written. -/
def applyDecision (c : PreemptionCoordinator) (decision : Decision) (call : SwitchCall)
    (captureCurrent : Bool) : (PreemptionCoordinator × ExceptionFrame) × Result PreemptionResult :=
  match c.stage decision call captureCurrent with
  | .error e => ((c, call.live), .error e)
  | .ok (translation, prepared) =>
    match c.deadlines.commit prepared with
    | (deadlines, .error e) => (({ c with deadlines }, call.live), .error e)
    | (deadlines, .ok deadline) =>
      match (if captureCurrent then c.frames.capture c.running call.live
        else (c.frames, .ok ())) with
      | (frames, .error e) => (({ c with deadlines, frames }, call.live), .error e)
      | (frames, .ok ()) =>
        let switched := c.running != decision.thread
        match (if switched || c.running == invalidThread then
            frames.restore decision.thread call.live
          else (call.live, .ok ())) with
        | (live, .error e) => (({ c with deadlines, frames }, live), .error e)
        | (live, .ok ()) =>
          (({ frames, deadlines, running := decision.thread }, live),
            .ok { previous := c.running, next := decision.thread, deadline,
                  translation, switched, preempted := decision.preempted })

end PreemptionCoordinator

/-- A coordinator and the scheduler it is driven by. -/
structure PreemptionSystem where
  scheduler : Scheduler := {}
  coordinator : PreemptionCoordinator := {}

namespace PreemptionSystem

/-- Consult the scheduler, which records its choice, and carry the choice out. -/
def decide (s : PreemptionSystem) (call : SwitchCall) (captureCurrent : Bool) :
    (PreemptionSystem × ExceptionFrame) × Result PreemptionResult :=
  let (scheduler, decision) := s.scheduler.choose call.nowNanoseconds
  let ((coordinator, live), result) := s.coordinator.applyDecision decision call captureCurrent
  (({ scheduler, coordinator }, live), result)

def start (s : PreemptionSystem) (call : SwitchCall) :
    (PreemptionSystem × ExceptionFrame) × Result PreemptionResult :=
  if s.coordinator.running ≠ invalidThread then
    ((s, call.live), .error (kernelError wrongRunningThread))
  else s.decide call false

def reschedule (s : PreemptionSystem) (call : SwitchCall) :
    (PreemptionSystem × ExceptionFrame) × Result PreemptionResult :=
  if s.coordinator.running = invalidThread ∨ s.scheduler.running ≠ s.coordinator.running then
    ((s, call.live), .error (kernelError wrongRunningThread))
  else s.decide call true

def onTimer (s : PreemptionSystem) (delivered : SchedulerDeadline) (call : SwitchCall) :
    (PreemptionSystem × ExceptionFrame) × Result PreemptionResult :=
  match s.coordinator.deadlines.acceptInterrupt delivered call.nowNanoseconds with
  | .error e => ((s, call.live), .error e)
  | .ok () => s.reschedule call

end PreemptionSystem

/-- One call on the coordinator, or one on the scheduler by anybody else. -/
inductive PreemptionOperation where
  | admitFrame (thread : ThreadId) (initial : ExceptionFrame)
  | admitThread (thread : ThreadId) (effective : Priority)
  | retire (thread : ThreadId)
  | update (thread : ThreadId) (runnable : Bool) (effective : Priority)
  | yieldSlice (thread : ThreadId)
  | choose (nowNanoseconds : UInt64)
  | start (call : SwitchCall)
  | reschedule (call : SwitchCall)
  | onTimer (delivered : SchedulerDeadline) (call : SwitchCall)

inductive PreemptionOutcome where
  | done (result : Result Unit)
  | decided (decision : Decision)
  | applied (live : ExceptionFrame) (result : Result PreemptionResult)

namespace PreemptionSystem

def onScheduler (s : PreemptionSystem) (done : Scheduler × Result Unit) :
    PreemptionSystem × PreemptionOutcome :=
  ({ s with scheduler := done.1 }, .done done.2)

def switching (done : (PreemptionSystem × ExceptionFrame) × Result PreemptionResult) :
    PreemptionSystem × PreemptionOutcome :=
  (done.1.1, .applied done.1.2 done.2)

def step (s : PreemptionSystem) : PreemptionOperation → PreemptionSystem × PreemptionOutcome
  | .admitFrame thread initial =>
    let (coordinator, result) := s.coordinator.admitFrame thread initial
    ({ s with coordinator }, .done result)
  | .admitThread thread effective => s.onScheduler (s.scheduler.admitThread thread effective)
  | .retire thread => s.onScheduler (s.scheduler.retire thread)
  | .update thread runnable effective =>
    s.onScheduler (s.scheduler.update thread runnable effective)
  | .yieldSlice thread => s.onScheduler (s.scheduler.yieldSlice thread)
  | .choose nowNanoseconds =>
    let (scheduler, decision) := s.scheduler.choose nowNanoseconds
    ({ s with scheduler }, .decided decision)
  | .start call => switching (s.start call)
  | .reschedule call => switching (s.reschedule call)
  | .onTimer delivered call => switching (s.onTimer delivered call)

end PreemptionSystem

end Enml.OsKernel
