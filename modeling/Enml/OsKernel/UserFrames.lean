import Enml.OsKernel.Rendezvous

/-! The exception frame of a trapped thread and `UserFrameTable`, which keeps
the frame of every thread that is not running. -/
namespace Enml.OsKernel

open Enml.Core

/-- The integer registers saved on entry to the kernel. -/
structure ExceptionFrame where
  x : Vector UInt64 31 := Vector.replicate 31 0
  spEl0 : UInt64 := 0
  elrEl1 : UInt64 := 0
  spsrEl1 : UInt64 := 0
  esrEl1 : UInt64 := 0
  farEl1 : UInt64 := 0

namespace UserFrameErrors
def invalidThread : UInt32 := 110
def duplicateThread : UInt32 := 111
def unknownThread : UInt32 := 112
def exhausted : UInt32 := 113
def invalidEl0Frame : UInt32 := 114
end UserFrameErrors

open UserFrameErrors

structure UserFrameTable.Slot where
  thread : ThreadId := invalidThread
  frame : ExceptionFrame := {}
  occupied : Bool := false

def UserFrameTable.Slot.key (s : UserFrameTable.Slot) : Option ThreadId :=
  if s.occupied then some s.thread else none

structure UserFrameTable where
  slots : List UserFrameTable.Slot := List.replicate maxThreads {}
  occupied : Nat := 0

namespace UserFrameTable

def find (t : UserFrameTable) (thread : ThreadId) : Option Slot :=
  SlotTable.lookup Slot.key thread t.slots

/-- `SPSR.M[3:0]` is zero for EL0; any other value would resume elsewhere. -/
def validEl0Frame (frame : ExceptionFrame) : Bool :=
  frame.spsrEl1 &&& 0xF == 0 && frame.elrEl1 != 0 && frame.spEl0 != 0

/-- `admit` in the source. -/
def admitFrame (t : UserFrameTable) (thread : ThreadId) (initial : ExceptionFrame) :
    UserFrameTable × Result Unit :=
  if thread = OsKernel.invalidThread then
    (t, .error (kernelError UserFrameErrors.invalidThread))
  else if !validEl0Frame initial then
    (t, .error (kernelError invalidEl0Frame))
  else if (t.find thread).isSome then
    (t, .error (kernelError duplicateThread))
  else
    match SlotTable.insert Slot.key { thread, frame := initial, occupied := true } t.slots with
    | some slots => ({ slots, occupied := t.occupied + 1 }, .ok ())
    | none => (t, .error (kernelError exhausted))

def validateCapture (t : UserFrameTable) (thread : ThreadId) (live : ExceptionFrame) :
    Result Unit :=
  if thread = OsKernel.invalidThread then .error (kernelError UserFrameErrors.invalidThread)
  else if !validEl0Frame live then .error (kernelError invalidEl0Frame)
  else if (t.find thread).isNone then .error (kernelError unknownThread)
  else .ok ()

def validateRestore (t : UserFrameTable) (thread : ThreadId) : Result Unit :=
  if thread = OsKernel.invalidThread then .error (kernelError UserFrameErrors.invalidThread)
  else
    match t.find thread with
    | none => .error (kernelError unknownThread)
    | some slot =>
      if !validEl0Frame slot.frame then .error (kernelError invalidEl0Frame)
      else .ok ()

/-- Save the live registers of a thread that gives the processor up. -/
def capture (t : UserFrameTable) (thread : ThreadId) (live : ExceptionFrame) :
    UserFrameTable × Result Unit :=
  match t.validateCapture thread live with
  | .error e => (t, .error e)
  | .ok () =>
    match t.find thread with
    | none => (t, .error (kernelError unknownThread))
    | some _ =>
      let slots := SlotTable.modify Slot.key thread
        (fun slot => { slot with frame := live }) t.slots
      ({ t with slots }, .ok ())

/-- Load the saved registers of a thread over the live ones. -/
def restore (t : UserFrameTable) (thread : ThreadId) (live : ExceptionFrame) :
    ExceptionFrame × Result Unit :=
  match t.validateRestore thread with
  | .error e => (live, .error e)
  | .ok () =>
    match t.find thread with
    | none => (live, .error (kernelError unknownThread))
    | some slot => (slot.frame, .ok ())

def retire (t : UserFrameTable) (thread : ThreadId) : UserFrameTable × Result Unit :=
  match t.find thread with
  | none => (t, .error (kernelError unknownThread))
  | some _ =>
    ({ slots := SlotTable.modify Slot.key thread (fun _ => {}) t.slots
       occupied := t.occupied - 1 }, .ok ())

end UserFrameTable

end Enml.OsKernel
