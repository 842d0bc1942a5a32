import Enml.Core.Result
import Enml.Lib.Run

/-! The unlock authority of the shell. It is handed a classification and an
opaque tag and answers with a disposition, a release time and a one-shot
directive to destroy the protected key domain. -/
namespace Enml.OsShell

open Enml.Core

namespace Errors
def invalidCredentialClass : UInt32 := 20
def invalidCredentialTag : UInt32 := 21
def unlockTimeReversed : UInt32 := 22
def invalidErasureThreshold : UInt32 := 23
def invalidDomainPresence : UInt32 := 26
end Errors

open Errors

def shellError (code : UInt32) : Error := makeError .shell code

def uniformUnlockNanoseconds : UInt64 := 750000000
def iterationWindowNanoseconds : UInt64 := 300000000000
def iterationLockNanoseconds : UInt64 := 1800000000000
def attemptsBeforeBackoff : UInt32 := 5
def initialBackoffNanoseconds : UInt64 := 30000000000
def maximumBackoffNanoseconds : UInt64 := 3600000000000
def defaultErasureThreshold : UInt32 := 10
def minimumErasureThreshold : UInt32 := 5
def maximumErasureThreshold : UInt32 := 20
def maximumCountedAttempts : UInt32 := 1024

/-- Like the other enumerations of this interface it may arrive with a value
outside its enumerators; all of those are treated alike. -/
inductive PlatformErasure where
  | effaceable | bestEffort | unrecognised
  deriving DecidableEq

/-- What the verifier makes of a credential. -/
inductive CredentialClass where
  | nominal | duress | invalid | unrecognised
  deriving DecidableEq

inductive DomainPresence where
  | present | absent | unrecognised
  deriving DecidableEq

def validPlatformErasure (value : PlatformErasure) : Bool := value != .unrecognised

def validCredentialClass (value : CredentialClass) : Bool := value != .unrecognised

def validDomainPresence (value : DomainPresence) : Bool := value != .unrecognised

abbrev CredentialTag := UInt64

def invalidCredentialTagValue : CredentialTag := 0

inductive UnlockDisposition where
  | granted | refused | locked
  deriving DecidableEq

/-- What a submission comes to. -/
structure UnlockOutcome where
  disposition : UnlockDisposition := .refused
  destroyProtectedDomain : Bool := false
  releaseAtNanoseconds : UInt64 := 0
  acceptingAgainAtNanoseconds : UInt64 := 0
  deriving DecidableEq

structure PersistedUnlockState where
  invalidAttempts : UInt32 := 0
  erasureEnabled : Bool := false
  erasureChoiceMade : Bool := false
  erasureThreshold : UInt32 := defaultErasureThreshold

/-- The attempts so far, and what they have led to. -/
structure UnlockAuthority where
  lastValidTag : CredentialTag := invalidCredentialTagValue
  lastValidAt : UInt64 := 0
  haveValidHistory : Bool := false
  invalidAttempts : UInt32 := 0
  lockedUntil : UInt64 := 0
  lastSubmit : UInt64 := 0
  destroyed : Bool := false
  erasure : PlatformErasure := .bestEffort
  erasureEnabled : Bool := false
  erasureChosen : Bool := false
  erasureThreshold : UInt32 := defaultErasureThreshold

def laterOf (a b : UInt64) : UInt64 := if b < a then a else b

namespace UnlockAuthority

/-- The constructor. An unrecognised platform degrades to the weaker claim. -/
def create (erasure : PlatformErasure) : UnlockAuthority :=
  { erasure := if validPlatformErasure erasure then erasure else .bestEffort }

def persistedState (a : UnlockAuthority) : PersistedUnlockState where
  invalidAttempts := a.invalidAttempts
  erasureEnabled := a.erasureEnabled
  erasureChoiceMade := a.erasureChosen
  erasureThreshold := a.erasureThreshold

def thresholdInBounds (threshold : UInt32) : Bool :=
  !(decide (threshold < minimumErasureThreshold) || decide (maximumErasureThreshold < threshold))

def restore (a : UnlockAuthority) (state : PersistedUnlockState) (presence : DomainPresence) :
    UnlockAuthority × Result Unit :=
  if !validDomainPresence presence then (a, .error (shellError invalidDomainPresence))
  else if state.erasureEnabled && !thresholdInBounds state.erasureThreshold then
    (a, .error (shellError invalidErasureThreshold))
  else if state.erasureEnabled && !state.erasureChoiceMade then
    (a, .error (shellError invalidErasureThreshold))
  else
    ({ a with
        invalidAttempts := state.invalidAttempts
        destroyed := presence == .absent
        erasureEnabled := state.erasureEnabled
        erasureChosen := state.erasureChoiceMade
        erasureThreshold := state.erasureThreshold }, .ok ())

def forgetAfterDestruction (a : UnlockAuthority) : UnlockAuthority :=
  { a with
    destroyed := true
    erasureEnabled := false
    erasureChosen := false
    erasureThreshold := defaultErasureThreshold
    invalidAttempts := 0 }

def configureErasure (a : UnlockAuthority) (enabled : Bool) (threshold : UInt32) :
    UnlockAuthority × Result Unit :=
  if enabled && !thresholdInBounds threshold then
    (a, .error (shellError invalidErasureThreshold))
  else
    ({ a with
        erasureEnabled := enabled
        erasureChosen := true
        erasureThreshold := if enabled then threshold else a.erasureThreshold }, .ok ())

def noteEnrollment (a : UnlockAuthority) : UnlockAuthority :=
  { a with
    lastValidTag := invalidCredentialTagValue
    lastValidAt := 0
    haveValidHistory := false }

/-- The doubling loop, with the turns it has left. -/
def doubled : Nat → UInt64 → UInt64
  | 0, backoff => if maximumBackoffNanoseconds < backoff then maximumBackoffNanoseconds else backoff
  | steps + 1, backoff =>
    if maximumBackoffNanoseconds / 2 ≤ backoff then maximumBackoffNanoseconds
    else doubled steps (backoff * 2)

def backoffFor (invalidAttempts : UInt32) : UInt64 :=
  if invalidAttempts < attemptsBeforeBackoff then 0
  else doubled (invalidAttempts - attemptsBeforeBackoff).toNat initialBackoffNanoseconds

/-- The count that one more invalid attempt leads to. -/
def counted (invalidAttempts : UInt32) : UInt32 :=
  if invalidAttempts < maximumCountedAttempts then invalidAttempts + 1 else invalidAttempts

/-- The invalid branch of `submit`. -/
def submitInvalid (a : UnlockAuthority) (now releaseAt : UInt64) :
    UnlockAuthority × UnlockOutcome :=
  let a := { a with invalidAttempts := counted a.invalidAttempts }
  let backoff := backoffFor a.invalidAttempts
  let a := if backoff ≠ 0 then { a with lockedUntil := now + backoff } else a
  let reached := a.erasureEnabled && decide (a.erasureThreshold ≤ a.invalidAttempts)
  let erase := reached && !a.destroyed
  let a := if erase then a.forgetAfterDestruction else a
  if reached then
    ({ a with lockedUntil := 0, invalidAttempts := 0 }, ⟨.granted, erase, releaseAt, releaseAt⟩)
  else (a, ⟨.refused, false, releaseAt, laterOf releaseAt a.lockedUntil⟩)

def withinWindow (a : UnlockAuthority) (now : UInt64) : Bool :=
  a.haveValidHistory && decide (now - a.lastValidAt ≤ iterationWindowNanoseconds)

/-- The rest of `submit`, for a credential that is one of the user's own. -/
def submitValid (a : UnlockAuthority) (now releaseAt : UInt64) (classification : CredentialClass)
    (tag : CredentialTag) : UnlockAuthority × UnlockOutcome :=
  let destroy := classification == .duress && !a.destroyed
  let a := if destroy then a.forgetAfterDestruction else a
  let iterated := a.withinWindow now && tag != a.lastValidTag
  let a := { a with
    lastValidTag := tag, lastValidAt := now, haveValidHistory := true, invalidAttempts := 0 }
  if iterated then
    let a := { a with lockedUntil := now + iterationLockNanoseconds }
    (a, ⟨.locked, destroy, releaseAt, laterOf releaseAt a.lockedUntil⟩)
  else (a, ⟨.granted, destroy, releaseAt, releaseAt⟩)

def submit (a : UnlockAuthority) (now : UInt64) (classification : CredentialClass)
    (tag : CredentialTag) : UnlockAuthority × Result UnlockOutcome :=
  if !validCredentialClass classification then
    (a, .error (shellError invalidCredentialClass))
  else if (classification != .invalid) == (tag == invalidCredentialTagValue) then
    (a, .error (shellError invalidCredentialTag))
  else if now < a.lastSubmit then (a, .error (shellError unlockTimeReversed))
  else
    let a := { a with lastSubmit := now }
    let releaseAt := now + uniformUnlockNanoseconds
    if now < a.lockedUntil then
      (a, .ok ⟨.locked, false, releaseAt, laterOf releaseAt a.lockedUntil⟩)
    else if classification = .invalid then
      let (a, outcome) := a.submitInvalid now releaseAt
      (a, .ok outcome)
    else
      let (a, outcome) := a.submitValid now releaseAt classification tag
      (a, .ok outcome)

end UnlockAuthority

/-- What can happen to an authority. A restart builds a new one from the record
the old one wrote; a reload restores that record in place. -/
inductive UnlockOp where
  | submit (now : UInt64) (classification : CredentialClass) (tag : CredentialTag)
  | configureErasure (enabled : Bool) (threshold : UInt32)
  | noteEnrollment
  | restart (erasure : PlatformErasure) (presence : DomainPresence)
  | reload (presence : DomainPresence)

inductive UnlockReply where
  | submitted (result : Result UnlockOutcome)
  | done (result : Result Unit)
  deriving DecidableEq

def UnlockAuthority.step (a : UnlockAuthority) : UnlockOp → UnlockAuthority × UnlockReply
  | .submit now classification tag =>
    let (a, result) := a.submit now classification tag
    (a, .submitted result)
  | .configureErasure enabled threshold =>
    let (a, result) := a.configureErasure enabled threshold
    (a, .done result)
  | .noteEnrollment => (a.noteEnrollment, .done (.ok ()))
  | .restart erasure presence =>
    let (a, result) := (UnlockAuthority.create erasure).restore a.persistedState presence
    (a, .done result)
  | .reload presence =>
    let (a, result) := a.restore a.persistedState presence
    (a, .done result)

end Enml.OsShell
