import Enml.OsKernel.Rendezvous

/-! `Scheduler`: strict priority, then round robin, with slices charged from
monotonic time. Runnability and priority are a cache of what the rendezvous
says; only `update` and `admitThread` write them. -/
namespace Enml.OsKernel

open Enml.Core

def defaultSliceNanoseconds : UInt64 := 2000000

namespace SchedulerErrors
def invalidThreadId : UInt32 := 1
def unknownThread : UInt32 := 2
def threadExists : UInt32 := 3
def threadLimit : UInt32 := 4
end SchedulerErrors

open SchedulerErrors

/-- Whom to run, and when to ask again. -/
structure Decision where
  thread : ThreadId := invalidThread
  timerNanoseconds : UInt64 := 0
  preempted : Bool := false
  deriving DecidableEq

/-- A thread as the scheduler sees it. -/
structure Scheduler.Slot where
  thread : ThreadId := invalidThread
  effective : Priority := defaultPriority
  runnable : Bool := true
  remaining : UInt64 := defaultSliceNanoseconds
  sequence : UInt64 := 0
  occupied : Bool := false

def Scheduler.Slot.key (s : Scheduler.Slot) : Option ThreadId :=
  if s.occupied then some s.thread else none

/-- Who runs, and what is left of each slice. -/
structure Scheduler where
  slots : List Scheduler.Slot := List.replicate maxThreads {}
  occupied : Nat := 0
  running : ThreadId := invalidThread
  lastDecision : UInt64 := 0
  haveDecided : Bool := false
  nextSequence : UInt64 := 1

namespace Scheduler

def find (s : Scheduler) (thread : ThreadId) : Option Slot :=
  if thread = invalidThread then none else SlotTable.lookup Slot.key thread s.slots

def modify (s : Scheduler) (thread : ThreadId) (f : Slot → Slot) : Scheduler :=
  { s with slots := SlotTable.modify Slot.key thread f s.slots }

def admitThread (s : Scheduler) (thread : ThreadId) (effective : Priority) :
    Scheduler × Result Unit :=
  if thread = invalidThread then (s, .error (kernelError invalidThreadId))
  else if (s.find thread).isSome then (s, .error (kernelError threadExists))
  else
    match SlotTable.insert Slot.key
        { thread, effective, runnable := true, remaining := defaultSliceNanoseconds,
          sequence := s.nextSequence, occupied := true } s.slots with
    | some slots =>
      ({ s with slots, occupied := s.occupied + 1, nextSequence := s.nextSequence + 1 }, .ok ())
    | none => (s, .error (kernelError threadLimit))

def retire (s : Scheduler) (thread : ThreadId) : Scheduler × Result Unit :=
  if thread = invalidThread then (s, .error (kernelError invalidThreadId))
  else
    match s.find thread with
    | none => (s, .error (kernelError unknownThread))
    | some _ =>
      ({ s with
          slots := SlotTable.modify Slot.key thread (fun _ => {}) s.slots
          occupied := s.occupied - 1
          running := if s.running = thread then invalidThread else s.running }, .ok ())

def update (s : Scheduler) (thread : ThreadId) (runnable : Bool) (effective : Priority) :
    Scheduler × Result Unit :=
  if thread = invalidThread then (s, .error (kernelError invalidThreadId))
  else
    match s.find thread with
    | none => (s, .error (kernelError unknownThread))
    | some _ => (s.modify thread fun slot => { slot with runnable, effective }, .ok ())

def yieldSlice (s : Scheduler) (thread : ThreadId) : Scheduler × Result Unit :=
  if thread = invalidThread then (s, .error (kernelError invalidThreadId))
  else
    match s.find thread with
    | none => (s, .error (kernelError unknownThread))
    | some _ => (s.modify thread fun slot => { slot with remaining := 0 }, .ok ())

/-- Charge the running thread. A clock that goes backwards charges nothing. -/
def charge (s : Scheduler) (now : UInt64) : Scheduler :=
  if s.haveDecided && s.running != invalidThread then
    let elapsed : UInt64 := if s.lastDecision ≤ now then now - s.lastDecision else 0
    s.modify s.running fun current =>
      { current with
        remaining := if current.remaining ≤ elapsed then 0 else current.remaining - elapsed }
  else s

/-- Refill spent slices in table order, each behind all earlier positions. -/
def replenish : List Slot → UInt64 → List Slot × UInt64
  | [], sequence => ([], sequence)
  | slot :: rest, sequence =>
    if !slot.occupied || slot.remaining != 0 then
      let (rest, next) := replenish rest sequence
      (slot :: rest, next)
    else
      let (rest, next) := replenish rest (sequence + 1)
      ({ slot with remaining := defaultSliceNanoseconds, sequence := sequence } :: rest, next)

def prefer (chosen : Option Slot) (slot : Slot) : Option Slot :=
  if !slot.occupied || !slot.runnable then chosen
  else
    match chosen with
    | none => some slot
    | some best =>
      if best.effective < slot.effective then some slot
      else if slot.effective = best.effective ∧ slot.sequence < best.sequence then some slot
      else some best

/-- Another runnable thread competes at the chosen thread's priority. -/
def contended (slots : List Slot) (chosen : Slot) : Bool :=
  slots.any fun slot => slot.occupied && slot.runnable && slot.thread != chosen.thread &&
    slot.effective == chosen.effective

def choose (s : Scheduler) (now : UInt64) : Scheduler × Decision :=
  let s := s.charge now
  let (slots, nextSequence) := replenish s.slots s.nextSequence
  let s := { s with slots, nextSequence }
  let chosen := slots.foldl prefer none
  let next := match chosen with
    | none => invalidThread
    | some slot => slot.thread
  let preempted :=
    if s.running ≠ invalidThread ∧ s.running ≠ next then
      match s.find s.running with
      | none => false
      | some before => before.runnable
    else false
  let timer := match chosen with
    | none => 0
    | some slot => if contended slots slot then slot.remaining else 0
  ({ s with running := next, lastDecision := now, haveDecided := true },
    { thread := next, timerNanoseconds := timer, preempted })

end Scheduler

end Enml.OsKernel
