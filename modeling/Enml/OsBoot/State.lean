import Enml.Core.Bytes
import Enml.Lib.Records
import Enml.Lib.Run

/-! Verified boot state: the evidence a completed boot chain hands to the system,
as a record of a header of 32 bytes and up to eight stage measurements of 40
bytes. The parser reads the record and checks that what it says is coherent; the
builder assembles one in early boot. -/
namespace Enml.OsBoot

open Enml.Core

def bootStateMagic : List UInt8 := [0x45, 0x42, 0x53, 0x31]
def bootStateVersionV1 : UInt16 := 1
def bootStateHeaderBytesV1 : UInt16 := 32
def bootStageRecordBytesV1 : UInt16 := 40
def sha256DigestBytes : Nat := 32
def maxBootStages : Nat := 8

namespace Errors
def malformedRecord : UInt32 := 1
def unsupportedVersion : UInt32 := 2
def reservedNotZero : UInt32 := 3
def unknownLifecycle : UInt32 := 4
def unknownVerification : UInt32 := 5
def unknownStageKind : UInt32 := 6
def unknownDigestAlgorithm : UInt32 := 7
def tooManyStages : UInt32 := 8
def duplicateStage : UInt32 := 9
def trailingBytes : UInt32 := 10
def incoherentState : UInt32 := 11
def unknownCapability : UInt32 := 12
def unsupportedClaim : UInt32 := 13
end Errors

open Errors

def bootError (code : UInt32) : Error := makeError .security code

inductive LifecycleState where
  | open | closed
  deriving DecidableEq

inductive VerificationResult where
  | failed | verified
  deriving DecidableEq

inductive BootStageKind where
  | firstStage | bootloader | kernel | configuration | rootFilesystem
  deriving DecidableEq

inductive DigestAlgorithm where
  | sha256
  deriving DecidableEq

def LifecycleState.raw : LifecycleState → UInt8
  | .open => 1
  | .closed => 2

def VerificationResult.raw : VerificationResult → UInt8
  | .failed => 1
  | .verified => 2

def BootStageKind.raw : BootStageKind → UInt16
  | .firstStage => 1
  | .bootloader => 2
  | .kernel => 3
  | .configuration => 4
  | .rootFilesystem => 5

def DigestAlgorithm.raw : DigestAlgorithm → UInt8
  | .sha256 => 1

inductive PlatformCapability where
  | immutableFirstStage | rootOfTrustMeasurement | rootOfTrustStorage | rootOfTrustReporting
  | monotonicCounter

def PlatformCapability.raw : PlatformCapability → UInt32
  | .immutableFirstStage => 0x1
  | .rootOfTrustMeasurement => 0x2
  | .rootOfTrustStorage => 0x4
  | .rootOfTrustReporting => 0x8
  | .monotonicCounter => 0x10

def knownPlatformCapabilities : UInt32 :=
  PlatformCapability.immutableFirstStage.raw ||| PlatformCapability.rootOfTrustMeasurement.raw |||
    PlatformCapability.rootOfTrustStorage.raw ||| PlatformCapability.rootOfTrustReporting.raw |||
    PlatformCapability.monotonicCounter.raw

/-- `valid_lifecycle` and the cast that follows it. -/
def validLifecycle (raw : UInt8) : Result LifecycleState :=
  if raw = LifecycleState.open.raw then .ok .open
  else if raw = LifecycleState.closed.raw then .ok .closed
  else .error (bootError unknownLifecycle)

def validVerification (raw : UInt8) : Result VerificationResult :=
  if raw = VerificationResult.failed.raw then .ok .failed
  else if raw = VerificationResult.verified.raw then .ok .verified
  else .error (bootError unknownVerification)

/-- The raw kinds are an interval, and each value in it is a kind. -/
def validStageKind (raw : UInt16) : Result BootStageKind :=
  if BootStageKind.firstStage.raw ≤ raw ∧ raw ≤ BootStageKind.rootFilesystem.raw then
    if raw = BootStageKind.firstStage.raw then .ok .firstStage
    else if raw = BootStageKind.bootloader.raw then .ok .bootloader
    else if raw = BootStageKind.kernel.raw then .ok .kernel
    else if raw = BootStageKind.configuration.raw then .ok .configuration
    else .ok .rootFilesystem
  else .error (bootError unknownStageKind)

def validDigestAlgorithm (raw : UInt8) : Result DigestAlgorithm :=
  if raw = DigestAlgorithm.sha256.raw then .ok .sha256
  else .error (bootError unknownDigestAlgorithm)

/-- The digest of one stage. -/
structure BootStageMeasurement where
  kind : BootStageKind := .firstStage
  algorithm : DigestAlgorithm := .sha256
  digest : Vector UInt8 sha256DigestBytes := Vector.replicate sha256DigestBytes 0
  deriving DecidableEq

/-- The default state is an unverified one. -/
structure BootStateV1 where
  lifecycle : LifecycleState := .open
  verification : VerificationResult := .failed
  securityVersion : UInt64 := 0
  capabilities : UInt32 := 0
  stageCount : Nat := 0
  stages : Vector BootStageMeasurement maxBootStages := Vector.replicate maxBootStages {}
  deriving DecidableEq

namespace BootStateV1

def used (state : BootStateV1) : List BootStageMeasurement :=
  state.stages.toList.take state.stageCount

def provides (state : BootStateV1) (capability : PlatformCapability) : Bool :=
  state.capabilities &&& capability.raw != 0

def stageOfKind (state : BootStateV1) (kind : BootStageKind) : Result BootStageMeasurement :=
  match state.used.find? fun measurement => measurement.kind == kind with
  | some measurement => .ok measurement
  | none => .error (bootError malformedRecord)

end BootStateV1

def requiredClosedStages : List BootStageKind :=
  [.firstStage, .bootloader, .kernel, .configuration, .rootFilesystem]

def encodedSize (stageCount : Nat) : Nat :=
  bootStateHeaderBytesV1.toNat + stageCount * bootStageRecordBytesV1.toNat

/-- One turn of the loop over the stages. `earlier` holds the stages read so
far. -/
def parseStage (encoded : List UInt8) (earlier : List BootStageMeasurement) (base : Nat) :
    Result BootStageMeasurement := do
  let kind ← validStageKind (readU16Le encoded (base + 0))
  let algorithm ← validDigestAlgorithm (spanByte encoded (base + 2))
  ensure (spanByte encoded (base + 3) == 0 && readU32Le encoded (base + 4) == 0)
    (bootError reservedNotZero)
  let digest := Vector.ofFn fun i : Fin sha256DigestBytes => spanByte encoded (base + 8 + i)
  ensure (!earlier.any fun other => other.kind == kind) (bootError duplicateStage)
  .ok { kind, algorithm, digest }

def parseStages (encoded : List UInt8) (stageCount : Nat) : Result (List BootStageMeasurement) :=
  Records.readAll bootStageRecordBytesV1.toNat (parseStage encoded)
    (fun earlier measurement => earlier ++ [measurement]) stageCount bootStateHeaderBytesV1.toNat []

/-- The array of a state, filled from the front. -/
def fillStages (stages : List BootStageMeasurement) : Vector BootStageMeasurement maxBootStages :=
  Vector.ofFn fun i => stages.getD i {}

/-- What a verified state has to show. -/
def checkVerified (state : BootStateV1) : Result Unit :=
  if state.verification = .verified then do
    ensure (state.stageCount != 0) (bootError incoherentState)
    if state.lifecycle = .closed then do
      ensure (requiredClosedStages.all fun required => (state.stageOfKind required).isOk)
        (bootError incoherentState)
      ensure (state.provides .immutableFirstStage) (bootError unsupportedClaim)
    else .ok ()
  else .ok ()

/-- The checks on the record as a whole, once it has been read. -/
def checkCoherence (state : BootStateV1) : Result Unit := do
  checkVerified state
  ensure (!(state.securityVersion != 0 && !state.provides .monotonicCounter))
    (bootError unsupportedClaim)

def parseBootStateV1 (encoded : List UInt8) : Result BootStateV1 := do
  ensure (decide (bootStateHeaderBytesV1.toNat ≤ encoded.length))
    (bootError malformedRecord)
  ensure ((List.range bootStateMagic.length).all fun i =>
    spanByte encoded (0 + i) == spanByte bootStateMagic i) (bootError malformedRecord)
  ensure (readU16Le encoded 4 == bootStateHeaderBytesV1) (bootError malformedRecord)
  ensure (readU16Le encoded 6 == bootStateVersionV1) (bootError unsupportedVersion)
  ensure (readU16Le encoded 10 == 0 && readU16Le encoded 22 == 0 && readU32Le encoded 28 == 0)
    (bootError reservedNotZero)
  let lifecycle ← validLifecycle (spanByte encoded 8)
  let verification ← validVerification (spanByte encoded 9)
  let stageCount := (readU16Le encoded 20).toNat
  ensure (decide (stageCount ≤ maxBootStages)) (bootError tooManyStages)
  ensure (encoded.length == encodedSize stageCount) (bootError trailingBytes)
  let securityVersion := readU64Le encoded 12
  let capabilities := readU32Le encoded 24
  ensure (capabilities &&& ~~~knownPlatformCapabilities == 0) (bootError unknownCapability)
  let stages ← parseStages encoded stageCount
  let state : BootStateV1 :=
    { lifecycle, verification, securityVersion, capabilities, stageCount,
      stages := fillStages stages }
  checkCoherence state
  .ok state

def writeStage (output : List UInt8) (base : Nat) (measurement : BootStageMeasurement) :
    List UInt8 :=
  let output := writeU16Le output (base + 0) measurement.kind.raw
  let output := output.set (base + 2) measurement.algorithm.raw
  storeSpan output (base + 8) sha256DigestBytes fun i => spanByte measurement.digest.toList i

/-- The body that the two encoders share: the caller's buffer after the call, and
the number of bytes used. -/
def encodeRecord (output : List UInt8) (lifecycle : LifecycleState)
    (verification : VerificationResult) (securityVersion : UInt64) (capabilities : UInt32)
    (stages : List BootStageMeasurement) (stageCount : Nat) : List UInt8 × Result Nat :=
  let total := encodedSize stageCount
  if output.length < total then (output, .error (bootError malformedRecord))
  else
    let output := storeSpan output 0 total fun _ => 0
    let output := storeSpan output 0 bootStateMagic.length fun i => spanByte bootStateMagic i
    let output := writeU16Le output 4 bootStateHeaderBytesV1
    let output := writeU16Le output 6 bootStateVersionV1
    let output := output.set 8 lifecycle.raw
    let output := output.set 9 verification.raw
    let output := writeU64Le output 12 securityVersion
    let output := writeU32Le output 24 capabilities
    let output := writeU16Le output 20 (UInt16.ofNat stageCount)
    let output := Records.writeAll bootStageRecordBytesV1.toNat writeStage output
      bootStateHeaderBytesV1.toNat (stages.take stageCount)
    (output, .ok total)

/-- The stages are read through `stage`, which does not fail below the count. -/
def encodeBootStateV1 (state : BootStateV1) (output : List UInt8) : List UInt8 × Result Nat :=
  encodeRecord output state.lifecycle state.verification state.securityVersion state.capabilities
    state.stages.toList state.stageCount

structure BootStateBuilder where
  lifecycle : LifecycleState := .open
  verification : VerificationResult := .failed
  securityVersion : UInt64 := 0
  capabilities : UInt32 := 0
  stageCount : Nat := 0
  stages : Vector BootStageMeasurement maxBootStages := Vector.replicate maxBootStages {}

namespace BootStateBuilder

def used (b : BootStateBuilder) : List BootStageMeasurement := b.stages.toList.take b.stageCount

/-- The kind and the algorithm arrive as raw numbers, which the call checks. -/
def addStage (b : BootStateBuilder) (kind : UInt16) (algorithm : UInt8) (digest : List UInt8) :
    BootStateBuilder × Result Unit :=
  if maxBootStages ≤ b.stageCount then (b, .error (bootError tooManyStages))
  else if digest.length ≠ sha256DigestBytes then (b, .error (bootError malformedRecord))
  else
    match validStageKind kind, validDigestAlgorithm algorithm with
    | .error e, _ => (b, .error e)
    | .ok _, .error e => (b, .error e)
    | .ok kind, .ok algorithm =>
      if b.used.any fun other => other.kind == kind then
        (b, .error (bootError duplicateStage))
      else
        let digest := Vector.ofFn fun i : Fin sha256DigestBytes => spanByte digest i
        ({ b with
            stages := b.stages.setIfInBounds b.stageCount { kind, algorithm, digest }
            stageCount := b.stageCount + 1 }, .ok ())

def encode (b : BootStateBuilder) (output : List UInt8) : List UInt8 × Result Nat :=
  encodeRecord output b.lifecycle b.verification b.securityVersion b.capabilities b.stages.toList
    b.stageCount

end BootStateBuilder

/-- The calls early boot makes. -/
inductive BuilderCall where
  | addStage (kind : UInt16) (algorithm : UInt8) (digest : List UInt8)
  | setLifecycle (lifecycle : LifecycleState)
  | setVerification (result : VerificationResult)
  | setSecurityVersion (version : UInt64)
  | setCapabilities (capabilities : UInt32)

def BootStateBuilder.step (b : BootStateBuilder) : BuilderCall → BootStateBuilder × Result Unit
  | .addStage kind algorithm digest => b.addStage kind algorithm digest
  | .setLifecycle lifecycle => ({ b with lifecycle }, .ok ())
  | .setVerification verification => ({ b with verification }, .ok ())
  | .setSecurityVersion securityVersion => ({ b with securityVersion }, .ok ())
  | .setCapabilities capabilities => ({ b with capabilities }, .ok ())

end Enml.OsBoot
