import Enml.Safety.ForeignUnmap

/-! The executable region of a space. The record is consulted before a map of
code and an unmap, and it is written after the mapping exists; what follows is
that a space has at most one mapping of code for EL0, that it is the recorded
one, and that only the teardown of the space takes it away. -/
namespace Enml.OsKernel

open NativeMapping ExecutableRegion SlotTable List ExecutableRegionTable

def NativeMapping.userCode (m : NativeMapping) : Bool :=
  m.userAccessible && m.permissions.executable

namespace Platform

/-- The mappings of a space that EL0 may execute. -/
def codeOf (p : Platform) (i : AddressSpaceIdentity) : List NativeMapping :=
  (p.machine.spaces i).mappings.entries.filter userCode

/-- No other mapping of the space shares an address with its code. -/
def CodeApart (p : Platform) (i : AddressSpaceIdentity) : Prop :=
  ∀ code others, (p.machine.spaces i).mappings.entries.Perm (code :: others) →
    code.userCode = true → ∀ m ∈ others, ∀ address,
      ¬ (code.CoversVirtual address ∧ m.CoversVirtual address)

/-- The recorded region is mapped as code. -/
def RegionMapped (p : Platform) (i : AddressSpaceIdentity) : Prop :=
  ∀ region, p.system.env.executables.find i = some region →
    ∃ code ∈ p.codeOf i, code.virtualBase = region.base ∧ code.length = region.length

/-- A thread admitted into the space starts at the base of its code. -/
def AdmitsAtCode (p : Platform) (i : AddressSpaceIdentity) : Prop :=
  ∀ creator space stack root done admission,
    addressSpaceIdentityForCapability creator space p.system.kernel.capabilities
        addressSpaceRightAdmit = .ok i →
      p.system.kernel.threadAdmit creator space stack root p.system.env.epochs
          p.system.env.translations p.system.env.executables = (done, .ok admission) →
        ∃ code ∈ p.codeOf i, admission.entry = code.virtualBase

/-- What a run keeps: a space has one mapping of code at most, and the region
recorded for the space is where it is. -/
structure CodeRecorded (p : Platform) : Prop where
  one : ∀ i, (p.codeOf i).length ≤ 1
  recorded : p.machine.halted = false → ∀ i, ∀ code ∈ p.codeOf i,
    ∃ region, p.system.env.executables.find i = some region ∧
      region.base = code.virtualBase ∧ region.length = code.length

theorem mem_codeOf {p : Platform} {i : AddressSpaceIdentity} {m : NativeMapping} :
    m ∈ p.codeOf i ↔ m ∈ p.machine.tables.spaces i ∧ m.userCode = true :=
  mem_filter

end Platform

open Platform

namespace ExecutableRegionTable

variable {t t' : ExecutableRegionTable} {space : AddressSpaceIdentity} {base length : UInt64}

theorem find_of_not_wouldRefuse (h : t.wouldRefuse space = false) : t.find space = none := by
  simp only [wouldRefuse, Bool.or_eq_false_iff] at h
  simpa using h.2

variable {region : ExecutableRegion}

theorem valid_of_find (h : t.find space = some region) : space.valid = true := by
  obtain ⟨-, hKey⟩ := mem_of_lookup h
  unfold ExecutableRegion.key at hKey
  split at hKey
  · rename_i hValid
    cases hKey
    simp only [valid, Bool.and_eq_true] at hValid
    exact hValid.1
  · cases hKey

/-- A region that is recorded is found, and no other space's answer changes. -/
theorem find_record (h : t.record space base length = (t', .ok ())) :
    t'.find space = some { space, base, length } ∧ ∀ i, i ≠ space → t'.find i = t.find i := by
  unfold record at h
  split at h
  · cases h
  rename_i hValid
  split at h
  · cases h
  rename_i hNone
  split at h
  · rename_i hIns
    cases h
    have hKey : key { space, base, length } = some space := by
      simp only [Bool.or_eq_true, not_or] at hValid
      simp only [ExecutableRegion.key, ExecutableRegion.valid]
      simp_all
    refine ⟨lookup_insert_self hKey ?_ hIns, ?_⟩
    · simpa [find] using hNone
    · intro i hi
      exact lookup_insert_ne hKey hi hIns
  · cases h

theorem regionAt_of_find (h : t.find space = some region) :
    Kernel.regionAt t space region.base = true := by
  simp [Kernel.regionAt, regionFor, valid_of_find h, h]

end ExecutableRegionTable

namespace Platform

variable {p p' : Platform} {op : PlatformOp} {i : AddressSpaceIdentity}

/-- The kernel image's own mappings are never code for EL0. -/
theorem userCode_of_preparatory {op : MachineOp AddressSpaceIdentity} (h : op.preparatory = true)
    {r : MapRequest} (hReq : op.request = some (i, r)) : r.toMapping.userCode = false := by
  cases op with
  | map | mapKernelStack | mapUserStack =>
    cases hReq
    rfl
  | mapUser | mapUserBacking => cases h
  | _ => cases hReq

theorem userCode_request (authorized : MapAuthorization) :
    authorized.request.toMapping.userCode = decide (authorized.permissions = .readExecute) := by
  cases h : authorized.permissions with
  | read | readWrite | readExecute =>
    simp [userCode, MapAuthorization.request, MapRequest.toMapping, h,
      MapPermissions.toMachine, MachinePermissions.executable]

theorem perm_codeOf_of_data {m : NativeMapping} (hData : m.userCode = false)
    (h : (p'.machine.tables.spaces i).Perm (m :: p.machine.tables.spaces i)) :
    (p'.codeOf i).Perm (p.codeOf i) := by
  have hFiltered := h.filter userCode
  rwa [filter_cons_of_neg (by simp [hData])] at hFiltered

theorem codeOf_congr (h : p'.machine.tables.spaces i = p.machine.tables.spaces i) :
    p'.codeOf i = p.codeOf i :=
  congrArg (List.filter userCode) h

/-- The kernel image's operations leave every space's code as it is. -/
theorem codeOf_prepared {op : { op : MachineOp AddressSpaceIdentity // op.preparatory = true }}
    (h : MappingTables.Change (fun i r => op.1.request = some (i, r)) (fun _ _ _ => False)
      p.machine.tables p'.machine.tables) (i : AddressSpaceIdentity) :
    (p'.codeOf i).Perm (p.codeOf i) := by
  cases h with
  | same hSame => exact .of_eq (codeOf_congr (by rw [hSame]))
  | mapped j _ hReq _ hSpace hOthers =>
    rcases eq_or_ne i j with rfl | hi
    · exact perm_codeOf_of_data (userCode_of_preparatory op.2 hReq) hSpace
    · exact .of_eq (codeOf_congr (hOthers i hi))
  | retired j m e hRetires => exact hRetires.elim
  | reserved _ _ hSpaces | released hSpaces => exact .of_eq (codeOf_congr (by rw [hSpaces]))

/-- What a step does to the code of one space: nothing, the one map of code it
ever has, or its teardown. -/
inductive CodeStep (p p' : Platform) (op : PlatformOp) (i : AddressSpaceIdentity) : Prop
  | kept (hCode : (p'.codeOf i).Perm (p.codeOf i))
      (hFind : p'.system.env.executables.find i = p.system.env.executables.find i)
  | loaded (code : NativeMapping) (hNone : p.codeOf i = []) (hCode : p'.codeOf i = [code])
      (hRec : p'.system.env.executables.find i = none ∧ p'.machine.halted = true ∨
        p'.system.env.executables.find i =
          some { space := i, base := code.virtualBase, length := code.length })
  | torn (retiring : RetiringAddressSpaceEpoch) (hOp : op = .release i retiring)
      (hCode : (p'.codeOf i).Subperm (p.codeOf i))
      (hFind : p'.system.env.executables.find i = p.system.env.executables.find i)

theorem codeOf_mapped (h : p.CodeRecorded) (hAwake : p.machine.halted = false) {caller : ThreadId}
    {request : MapSyscall} {authorized : MapAuthorization}
    (hAuth : p.system.kernel.mapAuthorize caller request p.system.env.epochs
      p.system.env.grants p.system.env.executables = .ok authorized)
    (hMapped : p.machine.Mapped authorized.space authorized.request p'.machine)
    (hRecorded : p.Recorded authorized p') (i : AddressSpaceIdentity) : CodeStep p p' op i := by
  rcases hRecorded with ⟨hData, hSame⟩ | ⟨hExec, hRec⟩
  · refine .kept ?_ (by rw [hSame])
    rcases eq_or_ne i authorized.space with rfl | hi
    · exact perm_codeOf_of_data (by simp [userCode_request, hData]) hMapped.space
    · exact .of_eq (codeOf_congr (hMapped.others i hi))
  rcases eq_or_ne i authorized.space with rfl | hi
  · have hFree := find_of_not_wouldRefuse ((Kernel.mapAuthorize_fields hAuth).2.2.2 hExec)
    -- nothing is recorded, so there is no code yet
    have hNone : p.codeOf authorized.space = [] := by
      apply eq_nil_iff_forall_not_mem.mpr
      intro code hCode
      obtain ⟨region, hFound, -⟩ := h.recorded hAwake _ code hCode
      rw [hFree] at hFound
      cases hFound
    refine .loaded authorized.request.toMapping hNone ?_ ?_
    · have hFiltered := hMapped.space.filter userCode
      rw [filter_cons_of_pos (by simp [userCode_request, hExec])] at hFiltered
      have hOld : (p.machine.tables.spaces authorized.space).filter userCode = [] := hNone
      rw [hOld] at hFiltered
      exact perm_singleton.mp hFiltered
    · rcases hRec with hRec | ⟨hSame, hHalted⟩
      · exact .inr (find_record hRec).1
      · exact .inl ⟨by rw [hSame, hFree], hHalted⟩
  · refine .kept (.of_eq (codeOf_congr (hMapped.others i hi))) ?_
    rcases hRec with hRec | ⟨hSame, -⟩
    · exact (find_record hRec).2 i hi
    · rw [hSame]

/-- The mapping an authorized unmap removes is not code: the code is where the
record says, and the authorization refuses that address. -/
theorem codeOf_unmapped (h : p.CodeRecorded) (hAwake : p.machine.halted = false)
    {caller : ThreadId} {request : UnmapSyscall} {authorized : UnmapAuthorization}
    {mapping : NativeMapping} {e : NativePhysicalMapping AddressSpaceIdentity}
    (hAuth : p.system.kernel.unmapAuthorize caller request p.system.env.epochs
      p.system.env.grants p.system.env.executables = .ok authorized)
    (hUnmap : p.machine.Unmapped authorized.space authorized.virtualBase authorized.length
      mapping e p'.machine) (i : AddressSpaceIdentity) : (p'.codeOf i).Perm (p.codeOf i) := by
  rcases eq_or_ne i authorized.space with rfl | hi
  · obtain ⟨backing, -, hBase, -, hRegion⟩ := Kernel.unmapAuthorize_fields hAuth
    have hFound := List.find?_some (NativeAddressSpaceState.exactMapping_ok hUnmap.exact)
    simp only [Bool.and_eq_true, beq_iff_eq] at hFound
    have hAt : mapping.virtualBase = request.virtualAddress := by rw [hFound.1.2, hBase]
    have hData : mapping.userCode = false := by
      by_contra hCode
      rw [Bool.not_eq_false] at hCode
      have hMem : mapping ∈ p.codeOf authorized.space :=
        mem_codeOf.mpr ⟨hUnmap.space.mem_iff.mpr mem_cons_self, hCode⟩
      obtain ⟨region, hRecorded, hSame, -⟩ := h.recorded hAwake _ mapping hMem
      have hRefused := regionAt_of_find hRecorded
      rw [hSame, hAt, hRegion] at hRefused
      cases hRefused
    exact (perm_codeOf_of_data hData hUnmap.space).symm
  · exact .of_eq (codeOf_congr (hUnmap.others i hi))

theorem codeStep (h : p.CodeRecorded) (hAwake : p.machine.halted = false)
    (hStep : p.Stepped p' op) (i : AddressSpaceIdentity) : CodeStep p p' op i := by
  cases hStep with
  | quiet hTables hExecutables =>
    exact .kept (.of_eq (codeOf_congr (by rw [hTables]))) (by rw [hExecutables])
  | prepared _ hChange hExecutables =>
    exact .kept (codeOf_prepared hChange i) (by rw [hExecutables])
  | mapped _ hAuth hMapped hRecorded => exact codeOf_mapped h hAwake hAuth hMapped hRecorded i
  | unmapped _ _ _ hAuth hUnmap hExecutables =>
    exact .kept (codeOf_unmapped h hAwake hAuth hUnmap i) (by rw [hExecutables])
  | @released space retiring hTearing hExecutables =>
    rcases eq_or_ne i space with rfl | hi
    · exact .torn retiring rfl ((hTearing.subperm i).filter _) (by rw [hExecutables])
    · exact .kept (.of_eq (codeOf_congr (hTearing.spaces_ne hi))) (by rw [hExecutables])

theorem CodeRecorded.stepped (h : p.CodeRecorded) (hAwake : p.machine.halted = false)
    (hStep : p.Stepped p' op) : p'.CodeRecorded := by
  constructor
  · intro i
    cases codeStep h hAwake hStep i with
    | kept hCode => exact hCode.length_eq ▸ h.one i
    | loaded _ _ hCode => simp [hCode]
    | torn _ _ hCode => exact hCode.length_le.trans (h.one i)
  · intro hAwake' i code hMem
    cases codeStep h hAwake hStep i with
    | kept hCode hFind =>
      rw [hFind]
      exact h.recorded hAwake i code (hCode.mem_iff.mp hMem)
    | loaded _ _ hCode hRec =>
      rw [hCode, mem_singleton] at hMem
      subst hMem
      rcases hRec with ⟨-, hHalted⟩ | hFound
      · rw [hAwake'] at hHalted
        cases hHalted
      · exact ⟨_, hFound, rfl, rfl⟩
    | torn _ _ hCode hFind =>
      rw [hFind]
      exact h.recorded hAwake i code (hCode.subset hMem)

theorem CodeRecorded.step (h : p.CodeRecorded) (op : PlatformOp) : (p.step op).1.CodeRecorded := by
  cases hHalted : p.machine.halted with
  | true =>
    rw [step_of_halted hHalted]
    exact h
  | false => exact h.stepped hHalted (step_stepped hHalted op)

/-- Short of a teardown of the space, a step keeps its code. -/
theorem CodeRecorded.mem_codeOf_step (h : p.CodeRecorded)
    (hOp : ∀ retiring, op ≠ .release i retiring) {code : NativeMapping}
    (hCode : code ∈ p.codeOf i) :
    code ∈ (p.step op).1.codeOf i := by
  cases hHalted : p.machine.halted with
  | true =>
    rw [step_of_halted hHalted]
    exact hCode
  | false =>
    cases codeStep h hHalted (step_stepped hHalted op) i with
    | kept hKept => exact hKept.mem_iff.mpr hCode
    | loaded _ hNone =>
      rw [hNone] at hCode
      cases hCode
    | torn retiring hRelease => exact absurd hRelease (hOp retiring)

theorem CodeRecorded.regionMapped_step (h : p.CodeRecorded)
    (hOp : ∀ retiring, op ≠ .release i retiring) (hMapped : p.RegionMapped i) :
    (p.step op).1.RegionMapped i := by
  cases hHalted : p.machine.halted with
  | true =>
    rw [step_of_halted hHalted]
    exact hMapped
  | false =>
    intro region hRegion
    cases codeStep h hHalted (step_stepped hHalted op) i with
    | kept hKept hFind =>
      rw [hFind] at hRegion
      obtain ⟨code, hCode, hExtent⟩ := hMapped region hRegion
      exact ⟨code, hKept.mem_iff.mpr hCode, hExtent⟩
    | loaded loaded _ hCode hRec =>
      rcases hRec with ⟨hFree, -⟩ | hFound
      · rw [hFree] at hRegion
        cases hRegion
      · rw [hFound] at hRegion
        cases hRegion
        exact ⟨loaded, by rw [hCode, mem_singleton], rfl, rfl⟩
    | torn retiring hRelease => exact absurd hRelease (hOp retiring)

theorem codeRecorded_fresh (physical : Physical) : (fresh physical).CodeRecorded := by
  have hNone : ∀ i, (fresh physical).codeOf i = [] := by
    intro i
    simp [codeOf, fresh, Machine.fresh, NativeAddressSpaceState.entries,
      SlotTable.entries_replicate, NativeMapping.key]
  constructor
  · intro i
    simp [hNone i]
  · intro _ i code hCode
    rw [hNone i] at hCode
    cases hCode

theorem regionMapped_fresh (physical : Physical) (i : AddressSpaceIdentity) :
    (fresh physical).RegionMapped i := by
  intro region hRegion
  obtain ⟨hMem, hKey⟩ := mem_of_lookup hRegion
  cases eq_of_mem_replicate hMem
  cases hKey

theorem codeApart_of_consistent (h : p.machine.tables.Consistent) (i : AddressSpaceIdentity) :
    p.CodeApart i := by
  intro code others hPerm _ m hm address
  exact h.apart_of_perm hPerm hm address

theorem admitsAtCode_of_regionMapped (h : p.RegionMapped i) : p.AdmitsAtCode i := by
  intro creator space stack root done admission hId hAdmit
  obtain ⟨region, hFound, hEntry⟩ := Kernel.threadAdmit_entry hAdmit hId
  obtain ⟨code, hCode, hBase, -⟩ := h region hFound
  exact ⟨code, hCode, hEntry.trans hBase.symm⟩

/-- A space has at most one mapping that EL0 may execute, and nothing overlaps
it. Until the space is torn down that mapping stays as it was made, the recorded
region is that mapping, and every thread admitted into the space starts at its
base. -/
theorem executable_region_fixed (physical : Physical) (ops : List PlatformOp)
    (i : AddressSpaceIdentity) :
    Run.Always step (fun p => (p.codeOf i).length ≤ 1 ∧ p.CodeApart i) (fresh physical) ops ∧
      ∀ n, (∀ retiring, PlatformOp.release i retiring ∉ ops.take n) →
        (Run.after step (fresh physical) (ops.take n)).RegionMapped i ∧
        (Run.after step (fresh physical) (ops.take n)).AdmitsAtCode i ∧
        ∀ m ≤ n, ∀ code ∈ (Run.after step (fresh physical) (ops.take m)).codeOf i,
          code ∈ (Run.after step (fresh physical) (ops.take n)).codeOf i := by
  have hRecorded : Run.Always step CodeRecorded (fresh physical) ops :=
    Run.always_of_invariant (codeRecorded_fresh physical) fun _ op h => h.step op
  have hConsist := platform_consistent physical ops
  refine ⟨fun n => ⟨(hRecorded n).one i, codeApart_of_consistent (hConsist n) i⟩, ?_⟩
  intro n hNone
  have hPermitted : ∀ op ∈ ops.take n, ∀ retiring, op ≠ PlatformOp.release i retiring := by
    intro op hOp retiring hRelease
    exact hNone retiring (hRelease ▸ hOp)
  have hMapped : (Run.after step (fresh physical) (ops.take n)).RegionMapped i :=
    Run.stable_of_permitted hRecorded (fun _ _ h hMapped hOp => h.regionMapped_step hOp hMapped)
      (Nat.zero_le n) hPermitted (regionMapped_fresh physical i)
  refine ⟨hMapped, admitsAtCode_of_regionMapped hMapped, ?_⟩
  intro m hm code hCode
  exact Run.stable_of_permitted (P := fun p => code ∈ p.codeOf i) hRecorded
    (fun _ _ h hMem hOp => h.mem_codeOf_step hOp hMem) hm hPermitted hCode

end Platform

end Enml.OsKernel
