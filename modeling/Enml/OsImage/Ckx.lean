import Enml.Core.Result

/-! The `.ckx` image: a plan for an address space, as a header of 32 bytes and a
table of regions of 56 bytes each. `parseCkx` reads hostile bytes; `buildCkx`
encodes a plan and accepts only what the parser accepts. -/
namespace Enml.OsImage

open Enml.Core

def ckxMagicBytes : Nat := 4
def ckxHeaderBytes : Nat := 32
def ckxRegionBytes : Nat := 56
def ckxDigestBytes : Nat := 32
def maxCkxRegions : Nat := 16
def ckxFormatVersion1 : UInt16 := 1
def ckxPageBytes : UInt64 := 4096

def ckxMagic : List UInt8 := [0x43, 0x4B, 0x58, 0]

namespace CkxErrors
def truncated : UInt32 := 1
def badMagic : UInt32 := 2
def unsupportedVersion : UInt32 := 3
def reservedNotZero : UInt32 := 4
def regionCount : UInt32 := 5
def regionRange : UInt32 := 6
def regionOverlap : UInt32 := 7
def invalidEntry : UInt32 := 8
def invalidPermissions : UInt32 := 9
def invalidDisclosure : UInt32 := 10
def invalidAuthority : UInt32 := 11
def entryNotExecutable : UInt32 := 12
def invalidContent : UInt32 := 13
def anonymousExecutable : UInt32 := 14
end CkxErrors

open CkxErrors

def ckxError (code : UInt32) : Error := makeError .image code

/-- Refuse with `code` unless the condition holds. -/
def require (condition : Bool) (code : UInt32) : Result Unit :=
  if condition then .ok () else .error (ckxError code)

inductive CkxPermissions where
  | read | readWrite | readExecute
  deriving DecidableEq

inductive CkxDisclosure where
  | paged | sealed
  deriving DecidableEq

inductive CkxContent where
  | anonymous | named
  deriving DecidableEq

def CkxPermissions.raw : CkxPermissions → UInt8
  | .read => 1
  | .readWrite => 2
  | .readExecute => 3

def CkxDisclosure.raw : CkxDisclosure → UInt8
  | .paged => 1
  | .sealed => 2

def CkxContent.raw : CkxContent → UInt8
  | .anonymous => 1
  | .named => 2

/-- `valid_permissions` and the cast that follows it. -/
def validPermissions (raw : UInt8) : Result CkxPermissions :=
  if raw = CkxPermissions.read.raw then .ok .read
  else if raw = CkxPermissions.readWrite.raw then .ok .readWrite
  else if raw = CkxPermissions.readExecute.raw then .ok .readExecute
  else .error (ckxError invalidPermissions)

def validDisclosure (raw : UInt8) : Result CkxDisclosure :=
  if raw = CkxDisclosure.paged.raw then .ok .paged
  else if raw = CkxDisclosure.sealed.raw then .ok .sealed
  else .error (ckxError invalidDisclosure)

def validContent (raw : UInt8) : Result CkxContent :=
  if raw = CkxContent.anonymous.raw then .ok .anonymous
  else if raw = CkxContent.named.raw then .ok .named
  else .error (ckxError invalidContent)

namespace CkxAuthority
def unprivileged : UInt64 := 0x1
def processControl : UInt64 := 0x2
def memoryControl : UInt64 := 0x4
def interruptControl : UInt64 := 0x8
def capabilityControl : UInt64 := 0x10
def all : UInt64 :=
  unprivileged ||| processControl ||| memoryControl ||| interruptControl ||| capabilityControl
end CkxAuthority

/-- A region of a program image. -/
structure CkxRegion where
  virtualAddress : UInt64 := 0
  length : UInt64 := 0
  permissions : CkxPermissions := .read
  disclosure : CkxDisclosure := .paged
  content : CkxContent := .anonymous
  digest : Vector UInt8 ckxDigestBytes := Vector.replicate ckxDigestBytes 0
  deriving DecidableEq

/-- A parsed image: its entry and its regions. -/
structure CkxImage where
  formatVersion : UInt16 := 0
  entry : UInt64 := 0
  authorityCeiling : UInt64 := 0
  regions : Vector CkxRegion maxCkxRegions := Vector.replicate maxCkxRegions {}
  regionCount : Nat := 0
  deriving DecidableEq

def CkxImage.used (image : CkxImage) : List CkxRegion := image.regions.toList.take image.regionCount

def ckxEncodedBytes (regionCount : Nat) : Nat := ckxHeaderBytes + regionCount * ckxRegionBytes

def maxCkxEncodedBytes : Nat := ckxHeaderBytes + maxCkxRegions * ckxRegionBytes

/-- The byte at an offset. Every read is inside the span once its length has
been checked. -/
def byteAt (bytes : List UInt8) (offset : Nat) : UInt8 := bytes.getD offset 0

def readU16 (bytes : List UInt8) (offset : Nat) : UInt16 :=
  (byteAt bytes offset).toUInt16 ||| ((byteAt bytes (offset + 1)).toUInt16 <<< 8)

def readU64 (bytes : List UInt8) (offset : Nat) : UInt64 :=
  (List.range 8).foldl
    (fun value i => value ||| ((byteAt bytes (offset + i)).toUInt64 <<< UInt64.ofNat (8 * i))) 0

def zeroRange (bytes : List UInt8) (offset length : Nat) : Bool :=
  (List.range length).all fun i => byteAt bytes (offset + i) == 0

/-- Store `value i` at `offset + i`, for `i` from zero. -/
def storeBytes (out : List UInt8) (offset count : Nat) (value : Nat → UInt8) : List UInt8 :=
  (List.range count).foldl (fun out i => out.set (offset + i) (value i)) out

def writeU16 (out : List UInt8) (offset : Nat) (value : UInt16) : List UInt8 :=
  (out.set offset (value &&& 0xFF).toUInt8).set (offset + 1) ((value >>> 8) &&& 0xFF).toUInt8

def writeU64 (out : List UInt8) (offset : Nat) (value : UInt64) : List UInt8 :=
  storeBytes out offset 8 fun i => ((value >>> UInt64.ofNat (8 * i)) &&& 0xFF).toUInt8

def rangeWithin (base length limit : Nat) : Bool :=
  if length = 0 then false
  else if limit < base then false
  else decide (length ≤ limit - base)

def rangesOverlap (aBase aLength bBase bLength : UInt64) : Bool :=
  if aLength = 0 ∨ bLength = 0 then false
  else
    let aLast := aBase + (aLength - 1)
    let bLast := bBase + (bLength - 1)
    decide (aBase ≤ bLast) && decide (bBase ≤ aLast)

def level1Span : UInt64 := (1 : UInt64) <<< 30
def level2Span : UInt64 := (1 : UInt64) <<< 21

/-- How many spans the range touches. -/
def spansTouched (base length span : UInt64) : UInt64 :=
  if length = 0 then 0
  else
    let first := base / span
    let last := (base + (length - 1)) / span
    last - first + 1

def CkxRegion.pages (region : CkxRegion) : UInt64 := region.length / ckxPageBytes

structure CkxConstructionCost where
  backingPages : UInt64 := 0
  tablePages : UInt64 := 0

/-- The tables are charged region by region, so a table two regions share is
charged twice. -/
def aarch64ConstructionCost (image : CkxImage) : CkxConstructionCost :=
  let (backingPages, level2Tables, level3Tables) :=
    image.used.foldl (fun (backingPages, level2Tables, level3Tables) region =>
      (backingPages + region.pages,
        level2Tables + spansTouched region.virtualAddress region.length level1Span,
        level3Tables + spansTouched region.virtualAddress region.length level2Span)) (0, 0, 0)
  { backingPages, tablePages := 1 + level2Tables + level3Tables }

/-- One turn of the table loop. `previous` holds the regions accepted so far, so
its length is the index. -/
def parseRegion (bytes : List UInt8) (previous : List CkxRegion) : Result CkxRegion := do
  let base := ckxHeaderBytes + previous.length * ckxRegionBytes
  let virtualAddress := readU64 bytes (base + 0)
  let length := readU64 bytes (base + 8)
  let permissions ← validPermissions (byteAt bytes (base + 16))
  let disclosure ← validDisclosure (byteAt bytes (base + 17))
  let content ← validContent (byteAt bytes (base + 18))
  require (zeroRange bytes (base + 19) 5) reservedNotZero
  let digest := Vector.ofFn fun i : Fin ckxDigestBytes => byteAt bytes (base + 24 + i)
  require (!(length == 0 || length % ckxPageBytes != 0 || virtualAddress % ckxPageBytes != 0 ||
    decide (0xFFFFFFFFFFFFFFFF - (length - 1) < virtualAddress))) regionRange
  require ((content == .anonymous) == digest.all (· == 0)) invalidContent
  require (!(permissions == .readExecute && content != .named)) anonymousExecutable
  require (previous.all fun other =>
    !rangesOverlap virtualAddress length other.virtualAddress other.length)
    regionOverlap
  .ok { virtualAddress, length, permissions, disclosure, content, digest }

def parseRegions (bytes : List UInt8) : Nat → List CkxRegion → Result (List CkxRegion)
  | 0, previous => .ok previous
  | remaining + 1, previous => do
      let region ← parseRegion bytes previous
      parseRegions bytes remaining (previous ++ [region])

/-- The array of the image, filled from the front. -/
def fillRegions (regions : List CkxRegion) : Vector CkxRegion maxCkxRegions :=
  Vector.ofFn fun i => regions.getD i {}

def entryIsExecutable (entry : UInt64) (regions : List CkxRegion) : Bool :=
  regions.any fun region => region.permissions == .readExecute &&
    decide (region.virtualAddress ≤ entry) && decide (entry - region.virtualAddress < region.length)

def parseCkx (bytes : List UInt8) : Result CkxImage := do
  require (decide (ckxHeaderBytes ≤ bytes.length)) truncated
  require ((List.range ckxMagicBytes).all fun i => byteAt bytes i == byteAt ckxMagic i)
    badMagic
  let formatVersion := readU16 bytes 4
  require (formatVersion == ckxFormatVersion1) unsupportedVersion
  let declaredRegions := readU16 bytes 6
  require (!(declaredRegions == 0 || decide (maxCkxRegions < declaredRegions.toNat)))
    regionCount
  let regionCount := declaredRegions.toNat
  let entry := readU64 bytes 8
  let authorityCeiling := readU64 bytes 16
  require (zeroRange bytes 24 8) reservedNotZero
  require (!(authorityCeiling == 0 || authorityCeiling &&& ~~~CkxAuthority.all != 0))
    invalidAuthority
  require (!(entry == 0 || entry &&& 0x3 != 0)) invalidEntry
  require (rangeWithin ckxHeaderBytes (regionCount * ckxRegionBytes) bytes.length)
    truncated
  let regions ← parseRegions bytes regionCount []
  require (entryIsExecutable entry regions) entryNotExecutable
  .ok { formatVersion, entry, authorityCeiling, regions := fillRegions regions, regionCount }

def writeRegion (out : List UInt8) (index : Nat) (region : CkxRegion) : List UInt8 :=
  let base := ckxHeaderBytes + index * ckxRegionBytes
  let out := writeU64 out (base + 0) region.virtualAddress
  let out := writeU64 out (base + 8) region.length
  let out := out.set (base + 16) region.permissions.raw
  let out := out.set (base + 17) region.disclosure.raw
  let out := out.set (base + 18) region.content.raw
  storeBytes out (base + 24) ckxDigestBytes fun i => region.digest.toList.getD i 0

def writeRegions (out : List UInt8) : Nat → List CkxRegion → List UInt8
  | _, [] => out
  | index, region :: rest => writeRegions (writeRegion out index region) (index + 1) rest

/-- The caller's buffer after the call, and the number of bytes used. What was
written is parsed before it is reported. -/
def buildCkx (image : CkxImage) (out : List UInt8) : List UInt8 × Result Nat :=
  if image.regionCount = 0 ∨ maxCkxRegions < image.regionCount then
    (out, .error (ckxError regionCount))
  else
    let needed := ckxEncodedBytes image.regionCount
    if out.length < needed then (out, .error (ckxError truncated))
    else
      let out := storeBytes out 0 needed fun _ => 0
      let out := storeBytes out 0 ckxMagicBytes fun i => byteAt ckxMagic i
      let out := writeU16 out 4 ckxFormatVersion1
      let out := writeU16 out 6 (UInt16.ofNat image.regionCount)
      let out := writeU64 out 8 image.entry
      let out := writeU64 out 16 image.authorityCeiling
      let out := writeRegions out 0 image.used
      match parseCkx (out.take needed) with
      | .error e => (out, .error e)
      | .ok _ => (out, .ok needed)

end Enml.OsImage
