import Enml.Core.Result
import Enml.Lib.SlotTable

/-! `attestation`: which attestations the device may sign in an epoch. An
unlinkable one is granted once to a verifier; a linked one says that it is. -/
namespace Enml.OsBoot

open Enml.Core

def maxTrackedVerifiers : Nat := 32

abbrev AttestationEpoch := UInt64
def invalidEpoch : AttestationEpoch := 0

abbrev VerifierTag := UInt64
def invalidVerifier : VerifierTag := 0

namespace AttestationErrors
def invalidEpochId : UInt32 := 1
def invalidVerifierTag : UInt32 := 2
def unknownLinkage : UInt32 := 3
def wouldDeanonymize : UInt32 := 4
def epochRegressed : UInt32 := 5
def verifierLimit : UInt32 := 6
end AttestationErrors

open AttestationErrors

def attestationError (code : UInt32) : Error := makeError .security code

/-- All values outside the two enumerators are treated alike. -/
inductive LinkagePolicy where
  | unlinkable | userLinked | unrecognised
  deriving DecidableEq

def validLinkage (value : LinkagePolicy) : Bool := value != .unrecognised

structure AttestationGrant where
  epoch : AttestationEpoch := invalidEpoch
  verifier : VerifierTag := invalidVerifier
  linkage : LinkagePolicy := .unlinkable
  revealsContinuity : Bool := false

structure AttestationRecord where
  verifier : VerifierTag := invalidVerifier
  linkage : LinkagePolicy := .unlinkable
  occupied : Bool := false

def AttestationRecord.key (record : AttestationRecord) : Option VerifierTag :=
  if record.occupied then some record.verifier else none

structure AttestationPolicy where
  records : List AttestationRecord := .replicate maxTrackedVerifiers {}
  occupied : Nat := 0
  epoch : AttestationEpoch := invalidEpoch

namespace AttestationPolicy

def find (policy : AttestationPolicy) (verifier : VerifierTag) : Option AttestationRecord :=
  if verifier = invalidVerifier then none
  else SlotTable.lookup AttestationRecord.key verifier policy.records

def beginEpoch (policy : AttestationPolicy) (epoch : AttestationEpoch) :
    AttestationPolicy × Result Unit :=
  if epoch = invalidEpoch then (policy, .error (attestationError invalidEpochId))
  else if epoch ≤ policy.epoch then
    (policy, .error (attestationError epochRegressed))
  else
    ({ records := policy.records.map fun _ => {}, occupied := 0, epoch }, .ok ())

def authorise (policy : AttestationPolicy) (verifier : VerifierTag) (linkage : LinkagePolicy) :
    AttestationPolicy × Result AttestationGrant :=
  if policy.epoch = invalidEpoch then
    (policy, .error (attestationError invalidEpochId))
  else if verifier = invalidVerifier then
    (policy, .error (attestationError invalidVerifierTag))
  else if !validLinkage linkage then
    (policy, .error (attestationError unknownLinkage))
  else
    match policy.find verifier with
    | some existing =>
      if linkage = .unlinkable then
        (policy, .error (attestationError wouldDeanonymize))
      else if existing.linkage = .unlinkable then
        (policy, .error (attestationError wouldDeanonymize))
      else (policy, .ok ⟨policy.epoch, verifier, linkage, true⟩)
    | none =>
      match SlotTable.insert AttestationRecord.key ⟨verifier, linkage, true⟩ policy.records with
      | none => (policy, .error (attestationError verifierLimit))
      | some records =>
        ({ policy with records, occupied := policy.occupied + 1 },
          .ok ⟨policy.epoch, verifier, linkage, linkage == .userLinked⟩)

end AttestationPolicy

inductive AttestationOp where
  | beginEpoch (epoch : AttestationEpoch)
  | authorise (verifier : VerifierTag) (linkage : LinkagePolicy)

inductive AttestationReply where
  | began (result : Result Unit)
  | authorised (result : Result AttestationGrant)

/-- The grant a reply hands out. -/
def AttestationReply.grant : AttestationReply → Option AttestationGrant
  | .authorised (.ok grant) => some grant
  | _ => none

def AttestationReply.Refused : AttestationReply → Prop
  | .began (.error _) | .authorised (.error _) => True
  | _ => False

def AttestationPolicy.step (policy : AttestationPolicy) :
    AttestationOp → AttestationPolicy × AttestationReply
  | .beginEpoch epoch => ((policy.beginEpoch epoch).1, .began (policy.beginEpoch epoch).2)
  | .authorise verifier linkage =>
    ((policy.authorise verifier linkage).1, .authorised (policy.authorise verifier linkage).2)

end Enml.OsBoot
