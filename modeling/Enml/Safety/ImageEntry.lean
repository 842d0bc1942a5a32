import Enml.Safety.CkxEncoding
import Enml.Safety.ExecutableRegion

/-! An image and the kernel that runs it. The plan names an entry; the kernel is
never told one and starts a thread at the base of the space's executable region,
of which it allows one. The two agree exactly for a table with one row of code
whose address is the entry, and the parser asks for less than that. -/
namespace Enml.OsImage

open Enml.Core Enml.OsKernel ExecutableRegionTable CkxRegion List Kernel CkxPermissions

def CkxPermissions.toMap : CkxPermissions → MapPermissions
  | .read => .read
  | .readWrite => .readWrite
  | .readExecute => .readExecute

def CkxRegion.isCode (region : CkxRegion) : Bool := region.permissions == .readExecute

def CkxImage.code (image : CkxImage) : List CkxRegion := image.used.filter isCode

/-- One region of code, and it starts at the entry. -/
def CkxImage.StartsAtCode (image : CkxImage) : Prop :=
  ∃ code, image.code = [code] ∧ code.virtualAddress = image.entry

/-- The rows of the table marked as code. -/
def codeRows (bytes : List UInt8) : List Nat :=
  (range (readU16 bytes 6).toNat).filter fun row =>
    byteAt bytes (rowOffset row + 16) == readExecute.raw

/-- One row is marked as code, and its address field repeats the header's entry. -/
def OneCodeRow (bytes : List UInt8) : Prop :=
  ∃ row, codeRows bytes = [row] ∧ readU64 bytes (rowOffset row) = readU64 bytes 8

/-- A loader about to map an image: it holds a space in which nothing is
executable yet, and a capability over the memory for each region. -/
structure Loading where
  kernel : Kernel
  epochs : AddressSpaceEpochAuthority
  grants : MemoryGrantAuthority
  executables : ExecutableRegionTable
  caller : ThreadId
  space : CapabilityId
  backing : CkxRegion → CapabilityId
  identity : AddressSpaceIdentity
  hSpace : addressSpaceIdentityForCapability caller space kernel.capabilities
    addressSpaceRightHold = .ok identity
  hFresh : executables.find identity = none

namespace Loading

/-- The map call for one region, and the record the kernel makes of code. -/
def mapRegion (l : Loading) (executables : ExecutableRegionTable) (region : CkxRegion) :
    Result ExecutableRegionTable := do
  let authorized ← l.kernel.mapAuthorize l.caller
    { space := l.space, virtualAddress := region.virtualAddress, backing := l.backing region
      permissions := region.permissions.toMap } l.epochs l.grants executables
  if authorized.permissions = .readExecute then
    match executables.record authorized.space authorized.virtualBase authorized.length with
    | (executables, .ok ()) => .ok executables
    | (_, .error e) => .error e
  else .ok executables

/-- The regions in the order given, up to the first refusal. -/
def mapRegions (l : Loading) : ExecutableRegionTable → List CkxRegion → Result ExecutableRegionTable
  | executables, [] => .ok executables
  | executables, region :: rest => do
      let executables ← l.mapRegion executables region
      l.mapRegions executables rest

def load (l : Loading) (image : CkxImage) : Result ExecutableRegionTable :=
  l.mapRegions l.executables image.used

/-- The refusal of the rule that a space has one executable region. -/
def ruleRefusal : Error := kernelError ExecutableRegionErrors.alreadyExecutable

/-- The kernel runs what the plan says: the rule refuses no region, and once the
regions are mapped a thread admitted into the space starts at the plan's entry. -/
structure Agrees (l : Loading) (image : CkxImage) : Prop where
  unrefused : l.load image ≠ .error ruleRefusal
  derived : ∀ executables, l.load image = .ok executables →
    ∃ region, executables.regionFor l.identity = .ok region ∧ region.base = image.entry
  admitted : ∀ executables, l.load image = .ok executables →
    ∀ creator space stack root translations done admission,
      addressSpaceIdentityForCapability creator space l.kernel.capabilities
          addressSpaceRightAdmit = .ok l.identity →
        l.kernel.threadAdmit creator space stack root l.epochs translations executables =
            (done, .ok admission) →
          admission.entry = image.entry

/-- Nothing but the rule stands in the way: the space is live, the record has
room, each region has its memory, and none ends at the top of the space. -/
structure Unobstructed (l : Loading) (image : CkxImage) : Prop where
  live : ∃ epoch, l.epochs.resolve l.identity = .ok epoch
  room : ∃ slot ∈ l.executables.regions, slot.key = none
  backed : ∀ region ∈ image.used, ∃ grant,
    l.kernel.memoryForCapability l.caller (l.backing region) memoryRightMap l.grants = .ok grant ∧
      grant.length = region.length
  below : ∀ region ∈ image.used, region.length ≤ 0xFFFFFFFFFFFFFFFF - region.virtualAddress

end Loading

open Loading

theorem describe_ne_rule {t : CapabilityTable} {capability : CapabilityId}
    (h : capability ≠ invalidCapability) : t.describe capability ≠ .error ruleRefusal := by
  unfold CapabilityTable.describe
  rw [if_neg h]
  split
  · exact kernelError_ne (by decide)
  · nofun

theorem resolve_ne_rule (epochs : AddressSpaceEpochAuthority) (identity : AddressSpaceIdentity) :
    epochs.resolve identity ≠ .error ruleRefusal := by
  unfold AddressSpaceEpochAuthority.resolve
  split
  · split
    · nofun
    · exact kernelError_ne (by decide)
  · exact kernelError_ne (by decide)

theorem memoryForCapability_ne_rule (k : Kernel) (holder : ThreadId) (capability : CapabilityId)
    (required : Rights) (grants : MemoryGrantAuthority) :
    k.memoryForCapability holder capability required grants ≠ .error ruleRefusal := by
  unfold memoryForCapability
  split
  · exact kernelError_ne (by decide)
  rename_i hNamed
  rw [not_or] at hNamed
  split
  · exact kernelError_ne (by decide)
  split
  · rename_i hDescribe
    intro h
    cases h
    exact describe_ne_rule hNamed.2 hDescribe
  split
  · exact kernelError_ne (by decide)
  unfold MemoryGrantAuthority.resolve
  split
  · exact kernelError_ne (by decide)
  · nofun

namespace Loading

variable {l : Loading} {t t' : ExecutableRegionTable} {region : CkxRegion} {e : Error}

theorem identity_valid (l : Loading) : l.identity.valid = true := by
  obtain ⟨slot, -, hNames⟩ := addressSpaceIdentity_ok l.hSpace
  exact hNames.valid

theorem wouldRefuse_eq (l : Loading) (t : ExecutableRegionTable) :
    t.wouldRefuse l.identity = (t.find l.identity).isSome := by
  simp [wouldRefuse, l.identity_valid]

theorem toMap_eq_readExecute : region.permissions.toMap = .readExecute ↔ region.isCode = true := by
  cases h : region.permissions <;> simp [toMap, isCode, h]

/-- A region of data leaves the record as it is; a region of code is recorded,
and only where nothing was. -/
theorem mapRegion_ok (h : l.mapRegion t region = .ok t') :
    (region.isCode = false ∧ t' = t) ∨
      (region.isCode = true ∧ t.find l.identity = none ∧ ∃ length, t'.find l.identity =
        some { space := l.identity, base := region.virtualAddress, length }) := by
  rw [mapRegion, bind_eq_ok_iff] at h
  obtain ⟨authorized, hAuth, h⟩ := h
  obtain ⟨hSpace, hBase, hPerms, hRefuses⟩ := mapAuthorize_fields hAuth
  rw [l.hSpace] at hSpace
  obtain hSpace := Except.ok.inj hSpace
  split at h
  · rename_i hExec
    split at h
    · rename_i hRec
      cases h
      have hFree := find_of_not_wouldRefuse (hRefuses hExec)
      rw [hPerms] at hExec
      have hFound := (find_record hRec).1
      rw [← hSpace] at hFree hFound
      refine .inr ⟨toMap_eq_readExecute.mp hExec, hFree, authorized.length, ?_⟩
      rw [hFound, hBase]
    · cases h
  · rename_i hData
    cases h
    rw [hPerms, toMap_eq_readExecute, Bool.not_eq_true] at hData
    exact .inl ⟨hData, rfl⟩

theorem authorize_ne_rule {request : MapSyscall} (hSpace : request.space = l.space)
    (hAllowed : ¬ (request.permissions = .readExecute ∧ t.wouldRefuse l.identity = true)) :
    l.kernel.mapAuthorize l.caller request l.epochs l.grants t ≠ .error ruleRefusal := by
  unfold mapAuthorize
  rw [hSpace, l.hSpace]
  change (l.epochs.resolve l.identity >>= _) ≠ _
  refine bind_ne_error (resolve_ne_rule _ _) fun _ => ?_
  refine bind_ne_error (memoryForCapability_ne_rule _ _ _ _ _) fun backing => ?_
  rw [if_neg hAllowed]
  split
  · exact kernelError_ne (by decide)
  · nofun

theorem record_ne_rule {base length : UInt64} {recorded : ExecutableRegionTable}
    (hFree : t.find l.identity = none) (h : t.record l.identity base length = (recorded, .error e))
    :
    e ≠ ruleRefusal := by
  unfold record at h
  rw [hFree] at h
  split at h
  · cases h
    decide
  simp only [Option.isSome_none, Bool.false_eq_true, if_false] at h
  split at h
  · cases h
  · cases h
    decide

/-- The rule refuses code only in a space that has some. -/
theorem mapRegion_ne_rule (hFree : region.isCode = true → t.find l.identity = none) :
    l.mapRegion t region ≠ .error ruleRefusal := by
  have hAllowed :
      ¬ (region.permissions.toMap = .readExecute ∧ t.wouldRefuse l.identity = true) := by
    rintro ⟨hCode, hRefuse⟩
    rw [l.wouldRefuse_eq, hFree (toMap_eq_readExecute.mp hCode)] at hRefuse
    cases hRefuse
  intro h
  unfold mapRegion at h
  cases hAuth : l.kernel.mapAuthorize l.caller
      { space := l.space, virtualAddress := region.virtualAddress, backing := l.backing region
        permissions := region.permissions.toMap } l.epochs l.grants t with
  | error e =>
    rw [hAuth] at h
    cases h
    exact authorize_ne_rule rfl hAllowed hAuth
  | ok authorized =>
    obtain ⟨hSpace, -, hPerms, -⟩ := mapAuthorize_fields hAuth
    rw [l.hSpace] at hSpace
    obtain hSpace := Except.ok.inj hSpace
    rw [hAuth] at h
    simp only [bind, Except.bind, ← hSpace] at h
    split at h
    · rename_i hExec
      rw [hPerms, toMap_eq_readExecute] at hExec
      split at h
      · cases h
      · rename_i hRec
        cases h
        exact record_ne_rule (hFree hExec) hRec rfl
    · cases h

section Backed

variable {image : CkxImage}

/-- With nothing else in the way the authorization is decided by the rule. -/
theorem authorize_of_unobstructed (h : l.Unobstructed image) (hMem : region ∈ image.used) :
    ∃ physicalBase, l.kernel.mapAuthorize l.caller
        { space := l.space, virtualAddress := region.virtualAddress, backing := l.backing region
          permissions := region.permissions.toMap } l.epochs l.grants t =
      if region.isCode = true ∧ (t.find l.identity).isSome = true then .error ruleRefusal
      else .ok { space := l.identity, virtualBase := region.virtualAddress, physicalBase
                 length := region.length, permissions := region.permissions.toMap } := by
  obtain ⟨epoch, hEpoch⟩ := h.live
  obtain ⟨grant, hGrant, hLen⟩ := h.backed region hMem
  refine ⟨grant.physicalBase, ?_⟩
  unfold mapAuthorize
  simp only [l.hSpace, hEpoch, hGrant, bind, Except.bind, hLen, l.wouldRefuse_eq,
    toMap_eq_readExecute, UInt64.not_lt.mpr (h.below region hMem), if_false]
  rfl

/-- A second region of code is refused by the rule. -/
theorem mapRegion_refused (h : l.Unobstructed image) (hMem : region ∈ image.used)
    (hCode : region.isCode = true) (hTaken : t.find l.identity ≠ none) :
    l.mapRegion t region = .error ruleRefusal := by
  obtain ⟨physicalBase, hAuthorize⟩ := authorize_of_unobstructed (t := t) h hMem
  rw [if_pos ⟨hCode, Option.isSome_iff_ne_none.mpr hTaken⟩] at hAuthorize
  unfold mapRegion
  rw [hAuthorize]
  rfl

theorem record_of_room (base : UInt64) {length : UInt64} (hLen : length ≠ 0)
    (hFree : t.find l.identity = none) (hRoom : ∃ slot ∈ t.regions, slot.key = none) :
    ∃ recorded, t.record l.identity base length = (recorded, .ok ()) := by
  obtain ⟨slot, hSlot, hKey⟩ := hRoom
  unfold record
  rw [l.identity_valid, hFree]
  simp only [Bool.not_true, Bool.false_or, beq_iff_eq, hLen, Option.isSome_none,
    Bool.false_eq_true, if_false]
  cases hIns : SlotTable.insert ExecutableRegion.key
      { space := l.identity, base, length } t.regions with
  | none => exact absurd hKey (SlotTable.insert_eq_none_iff.mp hIns slot hSlot)
  | some regions => exact ⟨_, rfl⟩

theorem mapRegion_maps (h : l.Unobstructed image) (hMem : region ∈ image.used)
    (hLen : region.length ≠ 0)
    (hFree : region.isCode = true →
      t.find l.identity = none ∧ ∃ slot ∈ t.regions, slot.key = none) :
    ∃ t', l.mapRegion t region = .ok t' := by
  obtain ⟨physicalBase, hAuthorize⟩ := authorize_of_unobstructed (t := t) h hMem
  unfold mapRegion
  cases hCode : region.isCode with
  | false =>
    rw [if_neg (by simp [hCode])] at hAuthorize
    have hData : region.permissions.toMap ≠ .readExecute := by simp [toMap_eq_readExecute, hCode]
    rw [hAuthorize]
    simp only [bind, Except.bind, if_neg hData]
    exact ⟨t, rfl⟩
  | true =>
    obtain ⟨hNone, hRoom⟩ := hFree hCode
    rw [if_neg (by simp [hNone])] at hAuthorize
    obtain ⟨recorded, hRec⟩ := record_of_room region.virtualAddress hLen hNone
      hRoom
    rw [hAuthorize]
    simp only [bind, Except.bind, if_pos (toMap_eq_readExecute.mpr hCode), hRec]
    exact ⟨recorded, rfl⟩

end Backed

variable {regions : List CkxRegion} {rest : List CkxRegion}

theorem filter_cons_of_data (h : region.isCode = false) :
    (region :: rest).filter isCode = rest.filter isCode := by
  simp [h]

theorem filter_cons_of_code (h : region.isCode = true) :
    (region :: rest).filter isCode = region :: rest.filter isCode := by
  simp [h]

/-- A table that is mapped to its end has at most one region of code, and that
region is what the space then has on record. -/
theorem mapRegions_ok (h : l.mapRegions t regions = .ok t') :
    (regions.filter isCode = [] ∧ t' = t) ∨
      ∃ code, regions.filter isCode = [code] ∧ t.find l.identity = none ∧
        ∃ length, t'.find l.identity =
          some { space := l.identity, base := code.virtualAddress, length } := by
  induction regions generalizing t with
  | nil =>
    cases h
    exact .inl ⟨rfl, rfl⟩
  | cons region _ ih =>
    rw [mapRegions, bind_eq_ok_iff] at h
    obtain ⟨next, hNext, hRest⟩ := h
    rcases mapRegion_ok hNext with ⟨hData, rfl⟩ | ⟨hCode, hFree, length, hFound⟩
    · rw [filter_cons_of_data hData]
      exact ih hRest
    rw [filter_cons_of_code hCode]
    rcases ih hRest with ⟨hNone, rfl⟩ | ⟨-, -, hUnused, -⟩
    · exact .inr ⟨region, by rw [hNone], hFree, length, hFound⟩
    · rw [hFound] at hUnused
      cases hUnused

theorem mapRegions_ne_rule (hOne : (regions.filter isCode).length ≤ 1)
    (hFree : regions.filter isCode ≠ [] → t.find l.identity = none) :
    l.mapRegions t regions ≠ .error ruleRefusal := by
  induction regions generalizing t with
  | nil => nofun
  | cons region _ ih =>
    have hHead : l.mapRegion t region ≠ .error ruleRefusal := by
      refine mapRegion_ne_rule fun hCode => hFree ?_
      rw [filter_cons_of_code hCode]
      nofun
    cases hNext : l.mapRegion t region with
    | error =>
      rw [mapRegions, hNext]
      rwa [hNext] at hHead
    | ok =>
      rw [mapRegions, hNext]
      rcases mapRegion_ok hNext with ⟨hData, rfl⟩ | ⟨hCode, -⟩
      · rw [filter_cons_of_data hData] at hOne hFree
        exact ih hOne hFree
      · rw [filter_cons_of_code hCode, length_cons] at hOne
        have hNone := eq_nil_of_length_eq_zero (Nat.le_zero.mp (Nat.le_of_succ_le_succ hOne))
        exact ih (by simp [hNone]) fun hSome => absurd hNone hSome

section Backed

variable {image : CkxImage}

/-- Only the rule can refuse a region. The record needs room while the space has
no region in it. -/
theorem mapRegion_error (h : l.Unobstructed image) (hMem : region ∈ image.used)
    (hLen : region.length ≠ 0)
    (hRoom : t.find l.identity = none → ∃ slot ∈ t.regions, slot.key = none)
    (hErr : l.mapRegion t region = .error e) : e = ruleRefusal := by
  by_cases hRule : region.isCode = true ∧ t.find l.identity ≠ none
  · rw [mapRegion_refused h hMem hRule.1 hRule.2] at hErr
    exact (Except.error.inj hErr).symm
  rw [not_and, not_not] at hRule
  obtain ⟨next, hNext⟩ := mapRegion_maps h hMem hLen fun hCode =>
    ⟨hRule hCode, hRoom (hRule hCode)⟩
  rw [hNext] at hErr
  cases hErr

theorem mapRegions_error (h : l.Unobstructed image) (hUsed : ∀ r ∈ regions, r ∈ image.used)
    (hLengths : ∀ r ∈ regions, r.length ≠ 0)
    (hRoom : t.find l.identity = none → ∃ slot ∈ t.regions, slot.key = none)
    (hErr : l.mapRegions t regions = .error e) : e = ruleRefusal := by
  induction regions generalizing t with
  | nil => cases hErr
  | cons region _ ih =>
    have hMem := hUsed region mem_cons_self
    have hLen := hLengths region mem_cons_self
    rw [mapRegions] at hErr
    cases hNext : l.mapRegion t region with
    | error =>
      rw [hNext] at hErr
      cases hErr
      exact mapRegion_error h hMem hLen hRoom hNext
    | ok =>
      rw [hNext] at hErr
      refine ih (fun r hr => hUsed r (mem_cons_of_mem _ hr))
        (fun r hr => hLengths r (mem_cons_of_mem _ hr)) ?_ hErr
      rcases mapRegion_ok hNext with ⟨-, rfl⟩ | ⟨-, -, length, hFound⟩
      · exact hRoom
      · intro hFree
        rw [hFound] at hFree
        cases hFree

end Backed

variable {image : CkxImage}

theorem Agrees.of_startsAtCode (h : image.StartsAtCode) : l.Agrees image := by
  obtain ⟨code, hCode, hEntry⟩ := h
  have hFound : ∀ executables, l.load image = .ok executables → ∃ length,
      executables.find l.identity = some { space := l.identity, base := image.entry, length } := by
    intro executables hLoad
    rcases mapRegions_ok hLoad with ⟨hNone, -⟩ | ⟨found, hOnly, -, length, hFound⟩
    · rw [← CkxImage.code, hCode] at hNone
      cases hNone
    · rw [← CkxImage.code, hCode] at hOnly
      cases hOnly
      exact ⟨length, hEntry ▸ hFound⟩
  constructor
  · refine mapRegions_ne_rule ?_ fun _ => l.hFresh
    rw [← CkxImage.code, hCode, length_singleton]
  · intro executables hLoad
    obtain ⟨length, hFound⟩ := hFound executables hLoad
    refine ⟨{ space := l.identity, base := image.entry, length }, ?_, rfl⟩
    simp [regionFor, l.identity_valid, hFound]
  intro executables hLoad creator space stack root translations done admission hId hAdmit
  obtain ⟨length, hFound⟩ := hFound executables hLoad
  obtain ⟨region, hRegion, hStart⟩ := threadAdmit_entry hAdmit hId
  rw [hFound] at hRegion
  cases hRegion
  exact hStart

theorem startsAtCode_of_agrees (hSome : image.code ≠ [])
    (hLengths : ∀ region ∈ image.used, region.length ≠ 0) (hClear : l.Unobstructed image)
    (h : l.Agrees image) : image.StartsAtCode := by
  cases hLoad : l.load image with
  | error =>
    have hRule := mapRegions_error hClear (fun _ hr => hr) hLengths (fun _ => hClear.room) hLoad
    exact absurd (hRule ▸ hLoad) h.unrefused
  | ok executables =>
    rcases mapRegions_ok hLoad with ⟨hNone, -⟩ | ⟨code, hOnly, -, length, hFound⟩
    · exact absurd hNone hSome
    obtain ⟨region, hRegion, hEntry⟩ := h.derived executables hLoad
    simp only [regionFor, l.identity_valid, Bool.not_true,
      Bool.false_eq_true, if_false, hFound] at hRegion
    cases hRegion
    exact ⟨code, hOnly, hEntry⟩

end Loading

variable {bytes : List UInt8} {image : CkxImage}

theorem CkxImage.Accepted.getD_accepted (h : image.Accepted bytes) {row : Nat}
    (hRow : row < (readU16 bytes 6).toNat) : (image.used.getD row {}).Accepted bytes row := by
  rw [← h.count] at hRow
  refine h.rows row _ ?_
  simp [hRow]

/-- The regions of code are what the rows marked as code were read into. -/
theorem code_eq_map (h : image.Accepted bytes) :
    image.code = (codeRows bytes).map fun row => image.used.getD row {} := by
  have hUsed : image.used = (range image.used.length).map fun row => image.used.getD row {} := by
    refine ext_getElem (by simp) fun row hRow _ => ?_
    simp [hRow]
  rw [CkxImage.code, hUsed, filter_map, ← hUsed, h.count, codeRows]
  congr 1
  refine filter_congr fun row hRow => ?_
  rw [← (h.getD_accepted (mem_range.mp hRow)).permissions, Bool.eq_iff_iff]
  simp only [Function.comp_apply, isCode, beq_iff_eq]
  exact ⟨fun hSame => by rw [hSame], raw_inj⟩

theorem startsAtCode_iff (h : image.Accepted bytes) : image.StartsAtCode ↔ OneCodeRow bytes := by
  have hAddr : ∀ row ∈ codeRows bytes,
      (image.used.getD row {}).virtualAddress = readU64 bytes (rowOffset row) := by
    intro row hMem
    exact (h.getD_accepted (mem_range.mp (mem_filter.mp hMem).1)).address
  rw [CkxImage.StartsAtCode, OneCodeRow, code_eq_map h, h.entry]
  constructor
  · rintro ⟨code, hCode, hEntry⟩
    obtain ⟨row, hRows, rfl⟩ := map_eq_singleton_iff.mp hCode
    refine ⟨row, hRows, ?_⟩
    rw [← hAddr row (by simp [hRows]), hEntry]
  · rintro ⟨row, hRows, hEntry⟩
    refine ⟨image.used.getD row {}, by rw [hRows, map_singleton], ?_⟩
    rw [hAddr row (by simp [hRows]), hEntry]

theorem code_ne_nil (h : image.Accepted bytes) : image.code ≠ [] := by
  obtain ⟨region, hMem, hRegion⟩ := any_eq_true.mp h.executable
  simp only [Bool.and_eq_true] at hRegion
  exact ne_nil_of_mem (mem_filter.mpr ⟨hMem, hRegion.1.1⟩)

/-- The parser and the kernel agree on what runs exactly for a table with one row
of code that starts at the entry. For such a table no loader is refused by the
rule and every thread starts at the entry; for any other, a loader that nothing
else stops is refused by the rule or finds the space starting elsewhere. -/
theorem plan_runs_at_entry_iff (h : parseCkx bytes = .ok image) :
    (image.StartsAtCode ↔ OneCodeRow bytes) ∧ (OneCodeRow bytes → ∀ l : Loading, l.Agrees image) ∧
      ∀ l : Loading, l.Unobstructed image → (l.Agrees image ↔ OneCodeRow bytes) := by
  have hAcc := accepted_of_parse h
  have hIff := startsAtCode_iff hAcc
  have hLengths : ∀ region ∈ image.used, region.length ≠ 0 := by
    intro region hMem
    obtain ⟨row, hRow⟩ := hAcc.region hMem
    exact hRow.length_ne
  have hAgrees : OneCodeRow bytes → ∀ l : Loading, l.Agrees image := fun hRow _ =>
    Loading.Agrees.of_startsAtCode (hIff.mpr hRow)
  refine ⟨hIff, hAgrees, fun l hClear => ⟨fun hAgree => ?_, fun hRow => hAgrees hRow l⟩⟩
  exact hIff.mp (startsAtCode_of_agrees (code_ne_nil hAcc) hLengths hClear hAgree)

/-- A plan made of code: two pages at each address. -/
def codePlan (entry : UInt64) (addresses : List UInt64) : CkxImage where
  formatVersion := 1
  entry := entry
  authorityCeiling := CkxAuthority.unprivileged
  regions := fillRegions (addresses.map fun virtualAddress =>
    { virtualAddress, length := 0x2000, permissions := .readExecute, content := .named
      digest := Vector.replicate ckxDigestBytes 0xA1 })
  regionCount := addresses.length

/-- A loader with a space of its own and two grants of two pages. -/
def codeLoading : Loading where
  kernel :=
    { capabilities := ((((({} : CapabilityTable).mint 1 (addressSpaceObjectId ⟨0, 1⟩)
        (addressSpaceRightHold ||| addressSpaceRightDestroy ||| addressSpaceRightAdmit) true).1.mint
        1 (memoryGrantObjectId ⟨0, 1⟩) memoryRightMap true).1.mint
        1 (memoryGrantObjectId ⟨1, 1⟩) memoryRightMap true).1) }
  epochs := ({} : AddressSpaceEpochAuthority).acquire.1
  grants := ((({} : MemoryGrantAuthority).create 0x40000000 0x2000).1.create 0x50000000 0x2000).1
  executables := {}
  caller := 1
  space := 1
  backing region := if region.virtualAddress = 0x10000000 then 2 else 3
  identity := ⟨0, 1⟩
  hSpace := by decide +kernel
  hFresh := by decide +kernel

theorem codeLoading_unobstructed {image : CkxImage}
    (hLengths : ∀ region ∈ image.used, region.length = 0x2000)
    (hBelow : ∀ region ∈ image.used, region.length ≤ 0xFFFFFFFFFFFFFFFF - region.virtualAddress) :
    codeLoading.Unobstructed image := by
  refine ⟨⟨⟨0, 1, 1⟩, by decide +kernel⟩, ⟨{}, by decide +kernel, by decide⟩, ?_, hBelow⟩
  intro region hMem
  have hFirst : codeLoading.kernel.memoryForCapability 1 2 memoryRightMap codeLoading.grants =
      .ok { identity := ⟨0, 1⟩, physicalBase := 0x40000000, length := 0x2000 } := by decide +kernel
  have hSnd : codeLoading.kernel.memoryForCapability 1 3 memoryRightMap codeLoading.grants =
      .ok { identity := ⟨1, 1⟩, physicalBase := 0x50000000, length := 0x2000 } := by decide +kernel
  rw [hLengths region hMem]
  by_cases hAddr : region.virtualAddress = 0x10000000
  · exact ⟨_, by simpa [codeLoading, hAddr] using hFirst, rfl⟩
  · exact ⟨_, by simpa [codeLoading, hAddr] using hSnd, rfl⟩

/-- An accepted plan whose entry is the base of its code is run as planned. -/
theorem flat_plan_runs_at_entry :
    parseCkx (encode (codePlan 0x10000000 [0x10000000])) = .ok (codePlan 0x10000000 [0x10000000]) ∧
      codeLoading.Unobstructed (codePlan 0x10000000 [0x10000000]) ∧
      codeLoading.Agrees (codePlan 0x10000000 [0x10000000]) := by
  have hParse : parseCkx (encode (codePlan 0x10000000 [0x10000000])) =
      .ok (codePlan 0x10000000 [0x10000000]) := by decide +kernel
  have hClear : codeLoading.Unobstructed (codePlan 0x10000000 [0x10000000]) :=
    codeLoading_unobstructed (by decide +kernel) (by decide +kernel)
  refine ⟨hParse, hClear, ((plan_runs_at_entry_iff hParse).2.2 codeLoading hClear).mpr ?_⟩
  exact ⟨0, by decide +kernel, by decide +kernel⟩

/-- Two plans the parser accepts and the kernel does not run as planned: an entry
past the base of the code, and a second region of code. -/
theorem accepted_plans_not_run :
    (parseCkx (encode (codePlan 0x10000040 [0x10000000])) = .ok (codePlan 0x10000040 [0x10000000]) ∧
      codeLoading.Unobstructed (codePlan 0x10000040 [0x10000000]) ∧
      ∃ executables region, codeLoading.load (codePlan 0x10000040 [0x10000000]) = .ok executables ∧
        executables.regionFor codeLoading.identity = .ok region ∧ region.base ≠ 0x10000040) ∧
    (parseCkx (encode (codePlan 0x10000000 [0x10000000, 0x10100000])) =
        .ok (codePlan 0x10000000 [0x10000000, 0x10100000]) ∧
      codeLoading.Unobstructed (codePlan 0x10000000 [0x10000000, 0x10100000]) ∧
      codeLoading.load (codePlan 0x10000000 [0x10000000, 0x10100000]) =
        .error ruleRefusal) := by
  refine ⟨⟨by decide +kernel, ?_, ?_⟩, by decide +kernel, ?_, by decide +kernel⟩
  · exact codeLoading_unobstructed (by decide +kernel) (by decide +kernel)
  · refine ⟨(codeLoading.executables.record ⟨0, 1⟩ 0x10000000 0x2000).1,
      { space := ⟨0, 1⟩, base := 0x10000000, length := 0x2000 }, ?_, ?_, ?_⟩
    · decide +kernel
    · decide +kernel
    · decide
  · exact codeLoading_unobstructed (by decide +kernel) (by decide +kernel)

end Enml.OsImage
