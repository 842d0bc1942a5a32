import Enml.Invariant.Authority
import Enml.Invariant.Mapping
import Enml.OsKernel.Platform

/-! What a step of the platform does to the mapping tables and to the record of
executable regions: nothing, one change of a machine operation, one mapping
added or removed on the kernel's authority, or the teardown of a space. -/
namespace Enml.OsKernel

open Enml.Core

section Tables

variable {ι : Type} [DecidableEq ι]

namespace MappingTables

variable {t t' : MappingTables ι} {i : ι}

/-- Changes one after another. -/
def Changes (Maps : ι → MapRequest → Prop)
    (Retires : ι → NativeMapping → NativePhysicalMapping ι → Prop) :
    MappingTables ι → MappingTables ι → Prop :=
  Relation.ReflTransGen (Change Maps Retires)

/-- What a teardown of `i` may do: retire mappings of `i`. -/
def Tearing (i : ι) : MappingTables ι → MappingTables ι → Prop :=
  Changes (fun _ _ => False) fun j _ _ => j = i

theorem Change.mono {Maps Maps' : ι → MapRequest → Prop}
    {Retires Retires' : ι → NativeMapping → NativePhysicalMapping ι → Prop}
    (h : Change Maps Retires t t') (hMaps : ∀ i r, Maps i r → Maps' i r)
    (hRetires : ∀ i m e, Retires i m e → Retires' i m e) : Change Maps' Retires' t t' := by
  cases h with
  | same hSame => exact .same hSame
  | mapped i r hAllowed hAdmits hSpace hOthers hLedger hResv =>
    exact .mapped i r (hMaps i r hAllowed) hAdmits hSpace hOthers hLedger hResv
  | retired i m e hAllowed hRecs hSpace hOthers hLedger hResv =>
    exact .retired i m e (hRetires i m e hAllowed) hRecs hSpace hOthers hLedger hResv
  | reserved v hAdmits hSpaces hLedger hResv => exact .reserved v hAdmits hSpaces hLedger hResv
  | released hSpaces hLedger hResv => exact .released hSpaces hLedger hResv

theorem Tearing.spaces_ne (h : Tearing i t t') {j : ι} (hj : j ≠ i) : t'.spaces j = t.spaces j := by
  induction h with
  | refl => rfl
  | tail _ hChange ih =>
    rw [← ih]
    cases hChange with
    | same hSame => rw [hSame]
    | mapped k r hMaps => exact hMaps.elim
    | retired k m e hRetires hRecs hSpace hOthers =>
      subst hRetires
      exact hOthers j hj
    | reserved v hAdmits hSpaces => rw [hSpaces]
    | released hSpaces => rw [hSpaces]

theorem Tearing.subperm (h : Tearing i t t') (j : ι) : (t'.spaces j).Subperm (t.spaces j) := by
  induction h with
  | refl => exact List.Subperm.refl _
  | tail _ hChange ih =>
    refine List.Subperm.trans ?_ ih
    cases hChange with
    | same hSame => rw [hSame]
    | mapped k r hMaps => exact hMaps.elim
    | retired k m e hRetires hRecs hSpace hOthers =>
      rcases eq_or_ne j k with rfl | hj
      · exact hSpace.subperm_left.mpr (List.sublist_cons_self m _).subperm
      · rw [hOthers j hj]
    | reserved v hAdmits hSpaces => rw [hSpaces]
    | released hSpaces => rw [hSpaces]

end MappingTables

namespace Machine

theorem releaseMappings_tearing (i : ι) (turns : Nat) (m : Machine ι) :
    MappingTables.Tearing i m.tables (releaseMappings i turns m).1.tables := by
  induction turns generalizing m with
  | zero => exact .refl
  | succ turns ih =>
    unfold releaseMappings
    split
    · split
      all_goals exact .refl
    rename_i mapping _
    have hUnmap : MappingTables.Change (fun _ _ => False) (fun j _ _ => j = i) m.tables
        (m.machineUnmap i mapping.virtualBase mapping.length).1.tables :=
      machineUnmap_change fun _ _ _ _ => rfl
    split
    · rename_i m' hDone
      rw [hDone] at hUnmap
      exact .trans (.single hUnmap) (ih m')
    · exact .single hUnmap

theorem releaseReserved_tearing (i : ι) (turns : Nat) (m : Machine ι) :
    MappingTables.Tearing i m.tables (releaseReserved i turns m).1.tables := by
  induction turns generalizing m with
  | zero => exact .refl
  | succ turns ih =>
    unfold releaseReserved
    split
    · split
      all_goals exact .refl
    rename_i v _
    have hRelease : MappingTables.Change (fun _ _ => False) (fun j _ _ => j = i) _ _ :=
      releaseOneReservation_change
        (m.setMemory (m.physical.memory.zeroRange v.physicalBase v.length)) i v.physicalBase
        v.length
    dsimp only
    split
    · rename_i m' e hDone
      rw [hDone] at hRelease
      exact .single hRelease
    · rename_i m' hDone
      rw [hDone] at hRelease
      exact .trans (.single hRelease) (ih m')

theorem releaseAddressSpace_tearing (m : Machine ι) (i : ι) (retiring : RetiringAddressSpaceEpoch) :
    MappingTables.Tearing i m.tables (m.releaseAddressSpace i retiring).1.tables := by
  have hMappings := releaseMappings_tearing i (maxNativeMappings + 1) m
  unfold releaseAddressSpace
  split
  · exact .refl
  split
  · exact .refl
  split
  · rename_i m₁ hDone
    rw [hDone] at hMappings
    have hResv := releaseReserved_tearing i (maxNativePhysicalReservations + 1) m₁
    split
    · rename_i m₂ e hFreed
      rw [hFreed] at hResv
      exact hMappings.trans hResv
    rename_i m₂ hFreed
    rw [hFreed] at hResv
    split
    · exact hMappings.trans hResv
    · exact (hMappings.trans hResv).tail (unbind_change m₂ i)
  · exact hMappings

end Machine

end Tables

namespace Kernel

variable {k : Kernel} {caller : ThreadId} {epochs : AddressSpaceEpochAuthority}
  {grants : MemoryGrantAuthority} {executables : ExecutableRegionTable} {request : MapSyscall}
  {authorized : MapAuthorization}

/-- An authorized map is of the caller's space at the caller's address, with the
permissions asked for, and of no code where there is some. -/
theorem mapAuthorize_fields
    (h : k.mapAuthorize caller request epochs grants executables = .ok authorized) :
    addressSpaceIdentityForCapability caller request.space k.capabilities
        addressSpaceRightHold = .ok authorized.space ∧
      authorized.virtualBase = request.virtualAddress ∧
      authorized.permissions = request.permissions ∧
      (authorized.permissions = .readExecute →
        executables.wouldRefuse authorized.space = false) := by
  obtain ⟨identity, epoch, backing, hId, hResolve, hBack⟩ := authorize_ok h
  unfold mapAuthorize at h
  simp only [hId, hResolve, hBack, bind, Except.bind] at h
  split at h
  · cases h
  rename_i hAllowed
  split at h
  · cases h
  cases h
  rw [not_and] at hAllowed
  exact ⟨hId, rfl, rfl, fun hExec => by simpa using hAllowed hExec⟩

/-- An authorized unmap names the caller's address and the grant's length, and
never the base of the executable region. -/
theorem unmapAuthorize_fields {request : UnmapSyscall} {authorized : UnmapAuthorization}
    (h : k.unmapAuthorize caller request epochs grants executables = .ok authorized) :
    ∃ backing, k.memoryForCapability caller request.backing memoryRightMap grants = .ok backing ∧
      authorized.virtualBase = request.virtualAddress ∧ authorized.length = backing.length ∧
      regionAt executables authorized.space request.virtualAddress = false := by
  obtain ⟨identity, epoch, backing, hId, hResolve, hBack⟩ := authorize_ok h
  unfold unmapAuthorize at h
  simp only [hId, hResolve, hBack, bind, Except.bind] at h
  split at h
  · cases h
  rename_i hRegion
  split at h
  · cases h
  cases h
  exact ⟨backing, hBack, rfl, rfl, by simpa using hRegion⟩

/-- A thread is admitted at the base of the space's executable region. -/
theorem threadAdmit_entry {space : CapabilityId} {stack : UInt64} {root : SealedTranslationRoot}
    {translations : ProcessTranslationTable} {done : Kernel × ProcessTranslationTable}
    {admission : ThreadAdmission} {identity : AddressSpaceIdentity}
    (h : k.threadAdmit caller space stack root epochs translations executables =
      (done, .ok admission))
    (hId : addressSpaceIdentityForCapability caller space k.capabilities
      addressSpaceRightAdmit = .ok identity) :
    ∃ region, executables.find identity = some region ∧ admission.entry = region.base := by
  obtain ⟨_, _, _, hCheck, -, -⟩ := threadAdmit_success h
  obtain ⟨_, _, region, hSame, -, hRegion, hEntry⟩ := admissionCheck_ok hCheck
  rw [hId] at hSame
  cases hSame
  unfold ExecutableRegionTable.regionFor at hRegion
  split at hRegion
  · cases hRegion
  split at hRegion
  · cases hRegion
  rename_i hFound
  cases hRegion
  exact ⟨region, hFound, hEntry⟩

end Kernel

theorem System.executables_step (s : System) (op : SystemOp) :
    (s.step op).1.env.executables = s.env.executables := by
  cases op with
  | kernel op => cases op <;> rfl
  | acquireEpoch | beginRetire | completeRetire | createGrant | revokeGrant => rfl

/-- The machine request of an authorized map. -/
def MapAuthorization.request (a : MapAuthorization) : MapRequest :=
  { virtualBase := a.virtualBase, physicalBase := a.physicalBase, length := a.length
    permissions := a.permissions.toMachine, userAccessible := true, backing := true }

namespace Platform

variable {p : Platform}

/-- The record after a map: untouched by data, and by code either extended or,
where it refuses, the last thing before the kernel halts. -/
def Recorded (p : Platform) (authorized : MapAuthorization) (p' : Platform) : Prop :=
  (authorized.permissions ≠ .readExecute ∧ p'.system.env.executables = p.system.env.executables) ∨
    authorized.permissions = .readExecute ∧
      (p.system.env.executables.record authorized.space authorized.virtualBase
          authorized.length = (p'.system.env.executables, .ok ()) ∨
        p'.system.env.executables = p.system.env.executables ∧ p'.machine.halted = true)

/-- The steps of a platform that has not halted. -/
inductive Stepped (p p' : Platform) : PlatformOp → Prop
  | quiet {op : PlatformOp} (hTables : p'.machine.tables = p.machine.tables)
      (hExecutables : p'.system.env.executables = p.system.env.executables) : Stepped p p' op
  | prepared (op : { op : MachineOp AddressSpaceIdentity // op.preparatory = true })
      (hChange : MappingTables.Change (fun i r => op.1.request = some (i, r)) (fun _ _ _ => False)
        p.machine.tables p'.machine.tables)
      (hExecutables : p'.system.env.executables = p.system.env.executables) :
      Stepped p p' (.machine op)
  | mapped {caller : ThreadId} {request : MapSyscall} (authorized : MapAuthorization)
      (hAuth : p.system.kernel.mapAuthorize caller request p.system.env.epochs
        p.system.env.grants p.system.env.executables = .ok authorized)
      (hMapped : p.machine.Mapped authorized.space authorized.request p'.machine)
      (hRecorded : p.Recorded authorized p') : Stepped p p' (.map caller request)
  | unmapped {caller : ThreadId} {request : UnmapSyscall} (authorized : UnmapAuthorization)
      (mapping : NativeMapping) (e : NativePhysicalMapping AddressSpaceIdentity)
      (hAuth : p.system.kernel.unmapAuthorize caller request p.system.env.epochs
        p.system.env.grants p.system.env.executables = .ok authorized)
      (hUnmapped : p.machine.Unmapped authorized.space authorized.virtualBase authorized.length
        mapping e p'.machine)
      (hExecutables : p'.system.env.executables = p.system.env.executables) :
      Stepped p p' (.unmap caller request)
  | released {space : AddressSpaceIdentity} {retiring : RetiringAddressSpaceEpoch}
      (hTearing : MappingTables.Tearing space p.machine.tables p'.machine.tables)
      (hExecutables : p'.system.env.executables = p.system.env.executables) :
      Stepped p p' (.release space retiring)

theorem step_of_halted (h : p.machine.halted = true) (op : PlatformOp) :
    p.step op = (p, .call none) := by
  unfold step
  rw [if_pos h]

theorem record_error {t t' : ExecutableRegionTable} {space : AddressSpaceIdentity}
    {base length : UInt64} {e : Error} (h : t.record space base length = (t', .error e)) :
    t' = t := by
  unfold ExecutableRegionTable.record at h
  split at h
  · cases h
    rfl
  split at h
  · cases h
    rfl
  split at h
  · cases h
  · cases h
    rfl

theorem recordExecutable_cases (p : Platform) (authorized : MapAuthorization) :
    (p.recordExecutable authorized).1.machine.tables = p.machine.tables ∧
      (p.system.env.executables.record authorized.space authorized.virtualBase
          authorized.length = ((p.recordExecutable authorized).1.system.env.executables, .ok ()) ∨
        (p.recordExecutable authorized).1.system.env.executables = p.system.env.executables ∧
          (p.recordExecutable authorized).1.machine.halted = true) := by
  unfold recordExecutable
  split
  · rename_i executables e hRec
    exact ⟨rfl, .inr ⟨record_error hRec, rfl⟩⟩
  · rename_i hRec
    exact ⟨rfl, .inl hRec⟩

theorem mapCall_stepped (p : Platform) (caller : ThreadId) (request : MapSyscall) :
    p.Stepped (p.mapCall caller request).1 (.map caller request) := by
  unfold mapCall
  split
  · exact .quiet rfl rfl
  rename_i authorized hAuth
  unfold performMap
  split
  · exact .quiet rfl rfl
  split
  · rename_i machine hMap
    rcases Machine.mapImpl_cases hMap with ⟨-, hNot⟩ | ⟨-, hMapped⟩
    · exact absurd rfl hNot
    split
    · rename_i hExec
      obtain ⟨hTables, hRec⟩ := recordExecutable_cases { p with machine } authorized
      refine .mapped authorized hAuth ?_ (.inr ⟨hExec, hRec⟩)
      obtain ⟨hAdmits, hSpace, hOthers, hLedger, hResv⟩ := hMapped
      refine ⟨hAdmits, ?_, ?_, ?_, ?_⟩
      · rw [hTables]
        exact hSpace
      · rw [hTables]
        exact hOthers
      · rw [hTables]
        exact hLedger
      · rw [hTables]
        exact hResv
    · rename_i hData
      exact .mapped authorized hAuth hMapped (.inl ⟨hData, rfl⟩)
  · rename_i hNot hMap
    rcases Machine.mapImpl_cases hMap with ⟨hSame, -⟩ | ⟨hOk, -⟩
    · exact .quiet hSame rfl
    · subst hOk
      exact absurd rfl hNot

theorem unmapCall_stepped (p : Platform) (caller : ThreadId) (request : UnmapSyscall) :
    p.Stepped (p.unmapCall caller request).1 (.unmap caller request) := by
  unfold unmapCall
  split
  · exact .quiet rfl rfl
  rename_i authorized hAuth
  unfold performUnmap
  split
  · exact .quiet rfl rfl
  rcases Machine.machineUnmap_cases
      (Prod.eta (p.machine.machineUnmap authorized.space authorized.virtualBase
        authorized.length)).symm with ⟨hSame, -⟩ | ⟨-, mapping, e, hUnmapped⟩
  · exact .quiet hSame rfl
  · exact .unmapped authorized mapping e hAuth hUnmapped rfl

theorem prepared_change (m : Machine AddressSpaceIdentity)
    (op : { op : MachineOp AddressSpaceIdentity // op.preparatory = true }) :
    MappingTables.Change (fun i r => op.1.request = some (i, r)) (fun _ _ _ => False) m.tables
      (m.perform op.1).1.tables := by
  apply (m.perform_change op.1).mono
  · intro i r hReq
    exact hReq
  rintro i mapping e ⟨⟨virtualBase, length, hRetires, -⟩, -⟩
  have hPrepares := op.2
  rcases hRetires with hOp | hOp
  all_goals
    rw [hOp] at hPrepares
    cases hPrepares

theorem step_stepped (hAwake : p.machine.halted = false) (op : PlatformOp) :
    p.Stepped (p.step op).1 op := by
  unfold step
  rw [if_neg (by simp [hAwake])]
  cases op with
  | system op => exact .quiet rfl (p.system.executables_step op)
  | machine op => exact .prepared op (prepared_change p.machine op) rfl
  | map caller request => exact p.mapCall_stepped caller request
  | unmap caller request => exact p.unmapCall_stepped caller request
  | release space retiring =>
    exact .released (p.machine.releaseAddressSpace_tearing space retiring) rfl

end Platform

end Enml.OsKernel
