import Enml.Core.Bytes
import Enml.Lib.Records
import Enml.OsPackage.Registry

/-! The manifest of a package: a header, the package identifier and the entry point,
the permissions it asks for and its files. -/
namespace Enml.OsPackage

open Enml.Core

def packageManifestMagicV1 : UInt32 := 0x314B5045

def packageManifestVersionV1 : UInt16 := 1

def packageManifestHeaderSizeV1 : UInt16 := 24

def maxPackageManifestBytes : Nat := 64 * 1024

def maxManifestPathBytes : Nat := 256

def maxManifestPathSegmentBytes : Nat := 64

def maxManifestFiles : Nat := 128

def maxRequestedPermissions : Nat := 32

def m1MaxDeclaredPackageBytes : UInt64 := 512 * 1024 * 1024

namespace ManifestErrors
def truncated : UInt32 := 100
def invalidMagic : UInt32 := 101
def unsupportedVersion : UInt32 := 102
def invalidHeader : UInt32 := 103
def invalidSize : UInt32 := 104
def invalidReserved : UInt32 := 105
def invalidPath : UInt32 := 106
def duplicatePath : UInt32 := 107
def invalidFileFlags : UInt32 := 108
def invalidPermission : UInt32 := 109
def duplicatePermission : UInt32 := 110
def missingEntryPoint : UInt32 := 111
def entryPointNotExecutable : UInt32 := 112
def declaredContentTooLarge : UInt32 := 113
def trailingData : UInt32 := 114
end ManifestErrors

open ManifestErrors

def manifestError (code : UInt32) : Error := makeError .package code

def asciiAlpha (value : UInt8) : Bool :=
  (decide (97 ≤ value) && decide (value ≤ 122)) || (decide (65 ≤ value) && decide (value ≤ 90))

def pathCharacterAllowed (value : UInt8) : Bool :=
  asciiAlpha value || asciiDigit value || value == 46 || value == 45 || value == 95

/-- The names `.` and `..` are not segments. -/
def segmentAllowed (segment : List UInt8) : Bool :=
  !segment.isEmpty && decide (segment.length ≤ maxManifestPathSegmentBytes) &&
    segment != [46] && segment != [46, 46]

/-- The rest of a path, `segment` being what the last segment has so far. -/
def manifestPathRest (segment : List UInt8) : List UInt8 → Bool
  | [] => segmentAllowed segment
  | value :: rest =>
    if value = 47 then segmentAllowed segment && manifestPathRest [] rest
    else pathCharacterAllowed value && manifestPathRest (segment ++ [value]) rest

def manifestPathText (text : List UInt8) : Bool :=
  !text.isEmpty && decide (text.length ≤ maxManifestPathBytes) && text.head? != some 47 &&
    text.getLast? != some 47 && manifestPathRest [] text

/-- Only `parse` makes a path that is not empty. -/
structure ManifestPath where
  text : List UInt8 := []
  parsed : text = [] ∨ manifestPathText text = true := by exact .inl rfl
  deriving DecidableEq

namespace ManifestPath

def valid (path : ManifestPath) : Bool := !path.text.isEmpty

def parse (text : List UInt8) : Result ManifestPath :=
  if h : manifestPathText text = true then .ok { text, parsed := .inr h }
  else .error (manifestError invalidPath)

end ManifestPath

def manifestFileFlagExecutable : UInt16 := 1

def manifestFileKnownFlags : UInt16 := manifestFileFlagExecutable

/-- A file as the manifest declares it. -/
structure ManifestFileRecord where
  path : ManifestPath := {}
  declaredSize : UInt64 := 0
  flags : UInt16 := 0

def ManifestFileRecord.executable (f : ManifestFileRecord) : Bool :=
  f.flags &&& manifestFileFlagExecutable != 0

/-- The two arrays with as much of them as is in use. -/
structure AnalyzedPackageManifest where
  packageId : PackageId := {}
  entryPoint : ManifestPath := {}
  files : List ManifestFileRecord := []
  requestedPermissions : List UInt32 := []
  declaredContentBytes : UInt64 := 0

/-- What ends an analysis early: an error it returns, or a read outside the bytes it
was given. -/
inductive Fault where
  | error (e : Error)
  | outside

abbrev Analysis := Except Fault

def require (condition : Bool) (code : UInt32) : Analysis Unit :=
  if condition then .ok () else .error (.error (manifestError code))

/-- Return the error of a parser that is called. -/
def Analysis.parsed {α : Type} : Result α → Analysis α
  | .ok a => .ok a
  | .error e => .error (.error e)

namespace Reader

def byteAt (rest : List UInt8) (offset : Nat) : Analysis UInt8 :=
  match rest[offset]? with
  | some value => .ok value
  | none => .error .outside

def readText (size : Nat) (rest : List UInt8) : Analysis (List UInt8 × List UInt8) :=
  if rest.length < size then .error (.error (manifestError truncated))
  else do
    let text ← (List.range size).mapM (byteAt rest)
    .ok (text, rest.drop size)

def readU16 (rest : List UInt8) : Analysis (UInt16 × List UInt8) := do
  let (field, rest) ← readText 2 rest
  .ok (readU16Le field 0, rest)

def readU32 (rest : List UInt8) : Analysis (UInt32 × List UInt8) := do
  let (field, rest) ← readText 4 rest
  .ok (readU32Le field 0, rest)

def readU64 (rest : List UInt8) : Analysis (UInt64 × List UInt8) := do
  let (field, rest) ← readText 8 rest
  .ok (readU64Le field 0, rest)

end Reader

open Reader

namespace PackageManifestAnalyzer

def readPermission (previous : UInt32) (rest : List UInt8) : Analysis (UInt32 × List UInt8) := do
  let (permission, rest) ← readU32 rest
  require (!(permission == 0 || decide (permission < previous))) invalidPermission
  require (permission != previous) duplicatePermission
  .ok (permission, rest)

structure FileState where
  files : List ManifestFileRecord := []
  declaredContentBytes : UInt64 := 0
  entryPointFound : Bool := false

/-- What the loop over the files keeps of one more file. -/
def FileState.record (entryPoint : ManifestPath) (s : FileState) (file : ManifestFileRecord) :
    FileState where
  files := s.files ++ [file]
  declaredContentBytes := s.declaredContentBytes + file.declaredSize
  entryPointFound := s.entryPointFound || file.path == entryPoint

def readFile (entryPoint : ManifestPath) (s : FileState) (rest : List UInt8) :
    Analysis (ManifestFileRecord × List UInt8) := do
  let (pathSize, rest) ← readU16 rest
  let (flags, rest) ← readU16 rest
  let (declaredSize, rest) ← readU64 rest
  require (!(pathSize == 0 || decide (maxManifestPathBytes < pathSize.toNat)))
    invalidPath
  require (flags &&& ~~~manifestFileKnownFlags == 0) invalidFileFlags
  let (pathText, rest) ← readText pathSize.toNat rest
  let path ← .parsed (ManifestPath.parse pathText)
  require (!(s.files.any fun prior => prior.path == path)) duplicatePath
  require (!(decide (m1MaxDeclaredPackageBytes < declaredSize) ||
      decide (m1MaxDeclaredPackageBytes - declaredSize < s.declaredContentBytes)))
    declaredContentTooLarge
  let file : ManifestFileRecord := { path, declaredSize, flags }
  require (!(path == entryPoint && !file.executable)) entryPointNotExecutable
  .ok (file, rest)

def analyze (bytes : List UInt8) : Analysis AnalyzedPackageManifest := do
  require (decide (packageManifestHeaderSizeV1.toNat ≤ bytes.length)) truncated
  require (decide (bytes.length ≤ maxPackageManifestBytes)) invalidSize
  let (magic, rest) ← readU32 bytes
  let (version, rest) ← readU16 rest
  let (headerSize, rest) ← readU16 rest
  let (totalSize, rest) ← readU32 rest
  let (packageIdSize, rest) ← readU16 rest
  let (entryPointSize, rest) ← readU16 rest
  let (fileCount, rest) ← readU16 rest
  let (permissionCount, rest) ← readU16 rest
  let (reserved, rest) ← readU32 rest
  require (magic == packageManifestMagicV1) invalidMagic
  require (version == packageManifestVersionV1) unsupportedVersion
  require (headerSize == packageManifestHeaderSizeV1) invalidHeader
  require (totalSize.toNat == bytes.length) invalidSize
  require (reserved == 0) invalidReserved
  require (!(packageIdSize == 0 || decide (maxPackageIdBytes < packageIdSize.toNat) ||
      entryPointSize == 0 || decide (maxManifestPathBytes < entryPointSize.toNat) ||
      fileCount == 0 || decide (maxManifestFiles < fileCount.toNat) ||
      decide (maxRequestedPermissions < permissionCount.toNat)))
    invalidSize
  let (packageIdText, rest) ← readText packageIdSize.toNat rest
  let (entryPointText, rest) ← readText entryPointSize.toNat rest
  let packageId ← .parsed (PackageId.parse packageIdText)
  let entryPoint ← .parsed (ManifestPath.parse entryPointText)
  let (requestedPermissions, rest) ←
    Records.takeAll readPermission (fun _ permission => permission) permissionCount.toNat 0 rest
  let (files, rest) ←
    Records.takeAll (readFile entryPoint) (FileState.record entryPoint) fileCount.toNat {} rest
  let s := files.foldl (FileState.record entryPoint) {}
  require s.entryPointFound missingEntryPoint
  require rest.isEmpty trailingData
  .ok { packageId, entryPoint, files := s.files, requestedPermissions,
        declaredContentBytes := s.declaredContentBytes }

end PackageManifestAnalyzer

end Enml.OsPackage
