import Enml.Core.Bytes
import Enml.Lib.Records
import Enml.Lib.Run

/-! Device access policy: the registers a device-facing component may touch, as a
record of a header of 32 bytes and up to four register windows of 24 bytes. The
parser reads hostile bytes, the builder assembles a record from outside. -/
namespace Enml.OsDevice

open Enml.Core

def deviceAccessMagic : List UInt8 := [0x45, 0x44, 0x41, 0x31]
def deviceAccessVersionV1 : UInt16 := 1
def deviceAccessHeaderBytesV1 : UInt16 := 32
def mmioGrantBytesV1 : UInt16 := 24
def maxMmioGrants : Nat := 4
def maxDeviceAccessBytes : Nat :=
  deviceAccessHeaderBytesV1.toNat + maxMmioGrants * mmioGrantBytesV1.toNat

namespace Errors
def malformedRecord : UInt32 := 1
def unsupportedVersion : UInt32 := 2
def reservedNotZero : UInt32 := 3
def unknownDomain : UInt32 := 4
def unknownDmaCapability : UInt32 := 5
def unknownAccessMode : UInt32 := 6
def tooManyGrants : UInt32 := 7
def emptyGrant : UInt32 := 8
def grantOverflow : UInt32 := 9
def grantsNotCanonical : UInt32 := 10
def trailingBytes : UInt32 := 11
def unconfinedIsolation : UInt32 := 12
end Errors

open Errors

def deviceError (code : UInt32) : Error := makeError .security code

inductive ExecutionDomain where
  | kernelResident | isolatedUser
  deriving DecidableEq

inductive DmaCapability where
  | none | iommuConfined | unconfined
  deriving DecidableEq

inductive AccessMode where
  | readOnly | readWrite
  deriving DecidableEq

def ExecutionDomain.raw : ExecutionDomain → UInt8
  | .kernelResident => 1
  | .isolatedUser => 2

def DmaCapability.raw : DmaCapability → UInt8
  | .none => 1
  | .iommuConfined => 2
  | .unconfined => 3

def AccessMode.raw : AccessMode → UInt8
  | .readOnly => 1
  | .readWrite => 2

/-- `valid_domain` and the cast that follows it. -/
def validDomain (raw : UInt8) : Result ExecutionDomain :=
  if raw = ExecutionDomain.kernelResident.raw then .ok .kernelResident
  else if raw = ExecutionDomain.isolatedUser.raw then .ok .isolatedUser
  else .error (deviceError unknownDomain)

def validDma (raw : UInt8) : Result DmaCapability :=
  if raw = DmaCapability.none.raw then .ok .none
  else if raw = DmaCapability.iommuConfined.raw then .ok .iommuConfined
  else if raw = DmaCapability.unconfined.raw then .ok .unconfined
  else .error (deviceError unknownDmaCapability)

def validAccess (raw : UInt8) : Result AccessMode :=
  if raw = AccessMode.readOnly.raw then .ok .readOnly
  else if raw = AccessMode.readWrite.raw then .ok .readWrite
  else .error (deviceError unknownAccessMode)

/-- A range of device registers a driver may touch. -/
structure MmioGrant where
  base : UInt64 := 0
  length : UInt64 := 0
  access : AccessMode := .readOnly
  deriving DecidableEq

/-- A policy that nothing has been read into grants nothing. -/
structure DeviceAccessPolicyV1 where
  domain : ExecutionDomain := .isolatedUser
  dma : DmaCapability := .none
  grantCount : Nat := 0
  grants : Vector MmioGrant maxMmioGrants := Vector.replicate maxMmioGrants {}
  deriving DecidableEq

def DeviceAccessPolicyV1.used (policy : DeviceAccessPolicyV1) : List MmioGrant :=
  policy.grants.toList.take policy.grantCount

def grantWraps (base length : UInt64) : Bool := decide (0xFFFFFFFFFFFFFFFF - base < length)

def encodedSize (grantCount : Nat) : Nat :=
  deviceAccessHeaderBytesV1.toNat + grantCount * mmioGrantBytesV1.toNat

/-- Whether a range falls inside one granted window, in the mode asked for. -/
def DeviceAccessPolicyV1.permits (policy : DeviceAccessPolicyV1) (base length : UInt64)
    (mode : AccessMode) : Bool :=
  if length == 0 || grantWraps base length then false
  else
    policy.used.any fun granted =>
      !(mode == .readWrite && granted.access != .readWrite) &&
      !(decide (base < granted.base) || decide (granted.length < length)) &&
      decide (base - granted.base ≤ granted.length - length)

/-- One turn of the loop over the grants. `previous` is the end of the grant
before, if there was one. -/
def parseGrant (encoded : List UInt8) (previous : Option UInt64) (record : Nat) :
    Result MmioGrant := do
  ensure ((List.range 7).all fun byte => spanByte encoded (record + 17 + byte) == 0)
    (deviceError reservedNotZero)
  let access ← validAccess (spanByte encoded (record + 16))
  let base := readU64Le encoded (record + 0)
  let length := readU64Le encoded (record + 8)
  ensure (length != 0) (deviceError emptyGrant)
  ensure (!grantWraps base length) (deviceError grantOverflow)
  ensure (!previous.any fun previousEnd => decide (base < previousEnd))
    (deviceError grantsNotCanonical)
  .ok { base, length, access }

/-- The end of a grant, kept for the one after it. -/
def MmioGrant.finish (grant : MmioGrant) : UInt64 := grant.base + grant.length

def parseGrants (encoded : List UInt8) (grantCount : Nat) : Result (List MmioGrant) :=
  Records.readAll mmioGrantBytesV1.toNat (parseGrant encoded) (fun _ grant => some grant.finish)
    grantCount deviceAccessHeaderBytesV1.toNat none

/-- The array of a policy, filled from the front. -/
def fillGrants (grants : List MmioGrant) : Vector MmioGrant maxMmioGrants :=
  Vector.ofFn fun i => grants.getD i {}

def parseDeviceAccessV1 (encoded : List UInt8) : Result DeviceAccessPolicyV1 := do
  ensure (!(decide (encoded.length < deviceAccessHeaderBytesV1.toNat) ||
    decide (maxDeviceAccessBytes < encoded.length))) (deviceError malformedRecord)
  ensure ((List.range deviceAccessMagic.length).all fun i =>
    spanByte encoded (0 + i) == spanByte deviceAccessMagic i) (deviceError malformedRecord)
  ensure (readU16Le encoded 4 == deviceAccessVersionV1) (deviceError unsupportedVersion)
  ensure (readU16Le encoded 6 == deviceAccessHeaderBytesV1) (deviceError malformedRecord)
  ensure (readU32Le encoded 16 == 0 && readU32Le encoded 20 == 0 && readU64Le encoded 24 == 0)
    (deviceError reservedNotZero)
  let grantCount := (readU16Le encoded 14).toNat
  ensure (decide (grantCount ≤ maxMmioGrants)) (deviceError tooManyGrants)
  let expected := encodedSize grantCount
  ensure ((readU32Le encoded 8).toNat == expected) (deviceError malformedRecord)
  ensure (encoded.length == expected) (deviceError trailingBytes)
  let domain ← validDomain (spanByte encoded 12)
  let dma ← validDma (spanByte encoded 13)
  let grants ← parseGrants encoded grantCount
  ensure (!(domain == .isolatedUser && dma == .unconfined))
    (deviceError unconfinedIsolation)
  .ok { domain, dma, grantCount, grants := fillGrants grants }

def writeHeader (output : List UInt8) (domain : ExecutionDomain) (dma : DmaCapability)
    (grantCount : Nat) : List UInt8 :=
  let output := storeSpan output 0 deviceAccessMagic.length fun i => spanByte deviceAccessMagic i
  let output := writeU16Le output 4 deviceAccessVersionV1
  let output := writeU16Le output 6 deviceAccessHeaderBytesV1
  let output := writeU32Le output 8 (UInt32.ofNat (encodedSize grantCount))
  let output := output.set 12 domain.raw
  let output := output.set 13 dma.raw
  writeU16Le output 14 (UInt16.ofNat grantCount)

def writeGrant (output : List UInt8) (record : Nat) (grant : MmioGrant) : List UInt8 :=
  let output := writeU64Le output (record + 0) grant.base
  let output := writeU64Le output (record + 8) grant.length
  output.set (record + 16) grant.access.raw

/-- The caller's buffer after the call, and the number of bytes used. -/
def encodeCommon (output : List UInt8) (domain : ExecutionDomain) (dma : DmaCapability)
    (grants : Vector MmioGrant maxMmioGrants) (grantCount : Nat) : List UInt8 × Result Nat :=
  let total := encodedSize grantCount
  if output.length < total then (output, .error (deviceError malformedRecord))
  else
    let output := storeSpan output 0 total fun _ => 0
    let output := writeHeader output domain dma grantCount
    let output := Records.writeAll mmioGrantBytesV1.toNat writeGrant output
      deviceAccessHeaderBytesV1.toNat (grants.toList.take grantCount)
    (output, .ok total)

def encodeDeviceAccessV1 (policy : DeviceAccessPolicyV1) (output : List UInt8) :
    List UInt8 × Result Nat :=
  encodeCommon output policy.domain policy.dma (fillGrants policy.used) policy.grantCount

structure DeviceAccessPolicyBuilder where
  domain : ExecutionDomain := .isolatedUser
  dma : DmaCapability := .none
  grantCount : Nat := 0
  grants : Vector MmioGrant maxMmioGrants := Vector.replicate maxMmioGrants {}

namespace DeviceAccessPolicyBuilder

def used (b : DeviceAccessPolicyBuilder) : List MmioGrant := b.grants.toList.take b.grantCount

def addGrant (b : DeviceAccessPolicyBuilder) (base length : UInt64) (access : AccessMode) :
    DeviceAccessPolicyBuilder × Result Unit :=
  if maxMmioGrants ≤ b.grantCount then (b, .error (deviceError tooManyGrants))
  else if length = 0 then (b, .error (deviceError emptyGrant))
  else if grantWraps base length then (b, .error (deviceError grantOverflow))
  else
    let previous := b.grants.toList.getD (b.grantCount - 1) {}
    if b.grantCount ≠ 0 ∧ base < previous.base + previous.length then
      (b, .error (deviceError grantsNotCanonical))
    else
      ({ b with
          grants := b.grants.setIfInBounds b.grantCount { base, length, access }
          grantCount := b.grantCount + 1 }, .ok ())

def encode (b : DeviceAccessPolicyBuilder) (output : List UInt8) : List UInt8 × Result Nat :=
  encodeCommon output b.domain b.dma b.grants b.grantCount

end DeviceAccessPolicyBuilder

/-- The calls a producer makes. -/
inductive BuilderCall where
  | setDomain (domain : ExecutionDomain)
  | setDma (dma : DmaCapability)
  | addGrant (base length : UInt64) (access : AccessMode)

def DeviceAccessPolicyBuilder.step (b : DeviceAccessPolicyBuilder) :
    BuilderCall → DeviceAccessPolicyBuilder × Result Unit
  | .setDomain domain => ({ b with domain }, .ok ())
  | .setDma dma => ({ b with dma }, .ok ())
  | .addGrant base length access => b.addGrant base length access

end Enml.OsDevice
