import Enml.Safety.ConstructionBudget

/-! What a mapping call leaves behind. Once its checks have passed it installs
all pages of the range, unless the builder takes no pages of its kind at all;
the kernel then stops at the first of them. -/
namespace Enml.OsKernel

open Enml.Core RadixTable NativeAddressSpaceState MapRequest

variable {ι : Type} [DecidableEq ι]

namespace Machine

variable {m : Machine ι} {op : MachineOp ι} {i : ι} {r : MapRequest}

/-- The check a stack mapping makes of the page below it. The other mapping
calls have none. -/
def guardCheck (m : Machine ι) : MachineOp ι → Result Unit
  | .mapKernelStack i virtualBase _ _ | .mapUserStack i virtualBase _ _ =>
    (m.spaces i).mappings.requireGuardPage (m.spaces i).builder m.physical.memory virtualBase
  | _ => .ok ()

/-- Everything `map_impl` checks before it writes the first leaf. -/
structure PassesChecks (m : Machine ι) (i : ι) (r : MapRequest) : Prop where
  tables : (m.spaces i).mappings.mapCheck i m.ledger r = .ok ()
  cell : (SlotTable.insert NativeMapping.key r.toMapping (m.spaces i).mappings.mappings).isSome
  entry : (SlotTable.insert NativePhysicalMapping.key (r.toPhysicalMapping i)
    m.ledger.mappings).isSome
  budget : requiredTablePages r.virtualBase (pageCount r.length) ≤
    (m.spaces i).builder.remainingTablePages m.physical
  vacant : requireUnmapped (m.spaces i).builder m.physical.memory r.virtualBase
    MachineErrors.alreadyMapped (List.range (pageCount r.length)) = .ok ()

/-- The checks pass, but the builder is in no state to take the pages, or they
are executable device memory, which has no descriptor. -/
def StopsInstalling (m : Machine ι) (op : MachineOp ι) (i : ι) (r : MapRequest) : Prop :=
  m.guardCheck op = .ok () ∧ m.PassesChecks i r ∧
    (r.installable (m.spaces i).builder ≠ .ok () ∨ r.describable = false)

/-- The whole range is mapped, out of at most the table pages asked for. -/
structure MapsWhole (m : Machine ι) (i : ι) (r : MapRequest) (m' : Machine ι) : Prop where
  mapped : m.Mapped i r m'
  leaves : ∀ page < pageCount r.length, m'.leaf i (pageAt r.virtualBase page) = r.leaf page ∧
    r.leaf page &&& Descriptor.valid ≠ 0
  spent : ∃ id, (m.spaces i).builder.arena = some id ∧ (m.physical.arenas id).pages.length ≤
    (m'.physical.arenas id).pages.length + requiredTablePages r.virtualBase (pageCount r.length)

/-- Success and the whole range, or a refusal that changes nothing. -/
def AllOrNothing (m : Machine ι) (op : MachineOp ι) (i : ι) (r : MapRequest) : Prop :=
  (m.step op).2 = some (.ok ()) ∧ m.MapsWhole i r (m.step op).1 ∨
    ∃ e, m.step op = (m, some (.error e))

omit [DecidableEq ι] in
theorem backing_of_request (h : op.request = some (i, r)) :
    r.backing = true → r.userAccessible = true := by
  cases op <;> simp [MachineOp.request] at h <;> rw [← h.2] <;> simp

/-- A mapping call is the check of the guard page and `map_impl`. -/
theorem step_request (hAwake : m.halted = false) (h : op.request = some (i, r)) :
    m.step op = match m.guardCheck op with
      | .error e => (m, some (.error e))
      | .ok () => m.mapImpl i r := by
  rw [step, hAwake]
  cases op with
  | map | mapUser | mapUserBacking | mapKernelStack | mapUserStack =>
    simp only [MachineOp.request, Option.some.injEq, Prod.mk.injEq] at h
    obtain ⟨rfl, rfl⟩ := h
    rfl
  | _ => cases h

/-- A map that is not stopped is refused as it stands or installs the range. -/
theorem mapImpl_allOrNothing (h : m.Walked) (hBack : r.backing = true → r.userAccessible = true)
    (hGoes : (m.mapImpl i r).2 ≠ none) :
    (m.mapImpl i r).2 = some (.ok ()) ∧ m.MapsWhole i r (m.mapImpl i r).1 ∨
      ∃ e, m.mapImpl i r = (m, some (.error e)) := by
  have hCases := mapImpl_cases (Prod.eta (m.mapImpl i r)).symm
  rcases hMap : (m.spaces i).mappings.mapImpl i m.ledger (m.spaces i).builder m.physical r with
    ⟨⟨s, ledger, p⟩, result⟩
  have hInstalled := mapImpl_installed h.laid (roots_of_root h.proper)
    hBack hMap
  have hTables := NativeAddressSpaceState.mapImpl_cases hMap
  unfold mapImpl at hCases hGoes ⊢
  rw [hMap] at hCases hGoes ⊢
  rcases hInstalled with ⟨rfl, hNot, -⟩ | ⟨rfl, -, hDesc, id, hArena, hPages, hSpent⟩
  · rcases hTables with ⟨rfl, rfl, -⟩ | ⟨hOk, -⟩
    · obtain ⟨e, rfl⟩ : ∃ e, result = some (.error e) := by
        rcases result with _ | e | ⟨⟩
        · exact absurd rfl hGoes
        · exact ⟨e, rfl⟩
        · exact absurd rfl hNot
      refine .inr ⟨e, ?_⟩
      simp only [setMappings, Function.update_eq_self, Option.isNone_some, Bool.or_false]
    · exact absurd hOk hNot
  · rcases hCases with ⟨-, hNot⟩ | ⟨-, hMapped⟩
    · exact absurd rfl hNot
    have hRoots := (sameBuilders_setMappings m i s).roots
    obtain ⟨hPhys, -⟩ := (rangeValid_iff r).mp hMapped.admits.range
    refine .inl ⟨rfl, hMapped, fun page hPage => ?_, id, hArena, hSpent⟩
    refine ⟨?_, (leaf_bits hPhys hPage hDesc).1⟩
    have hSet := hPages.leaves.set page (List.mem_range.mpr hPage)
    rwa [← hRoots] at hSet

theorem mapImpl_stops_iff (h : m.Walked) (hBack : r.backing = true → r.userAccessible = true) :
    (m.mapImpl i r).2 = none ↔ m.PassesChecks i r ∧
      (r.installable (m.spaces i).builder ≠ .ok () ∨ r.describable = false) := by
  change ((m.spaces i).mappings.mapImpl i m.ledger (m.spaces i).builder m.physical r).2 = none ↔ _
  constructor
  · intro hNone
    have hRefused : r.installable (m.spaces i).builder ≠ .ok () ∨ r.describable = false := by
      rcases mapImpl_installed h.laid (roots_of_root h.proper) hBack
        (Prod.eta _).symm with ⟨-, -, hStops⟩ | ⟨hOk, -⟩
      · exact hStops hNone
      · rw [hNone] at hOk
        cases hOk
    refine ⟨?_, hRefused⟩
    unfold NativeAddressSpaceState.mapImpl at hNone
    split at hNone
    · cases hNone
    rename_i hTables
    split at hNone
    swap
    · cases hNone
    rename_i hCell hEntry
    dsimp only at hNone
    split at hNone
    · cases hNone
    rename_i hBudget
    split at hNone
    · cases hNone
    rename_i hVacant
    exact ⟨hTables, by simp [hCell], by simp [hEntry], Nat.not_lt.mp hBudget, hVacant⟩
  · rintro ⟨hChecks, hStops⟩
    obtain ⟨mappings, hCell⟩ := Option.isSome_iff_exists.mp hChecks.cell
    obtain ⟨entries, hEntry⟩ := Option.isSome_iff_exists.mp hChecks.entry
    have hAdmits := mapCheck_ok (t := m.tables) hChecks.tables rfl rfl rfl
    obtain ⟨-, -, hLen, hPos, -⟩ := (rangeValid_iff r).mp hAdmits.range
    obtain ⟨n, hn⟩ : ∃ n, pageCount r.length = n + 1 := by
      refine ⟨pageCount r.length - 1, ?_⟩
      rw [pageCount_eq]
      omega
    have hFirst := requireUnmapped_iff.mp hChecks.vacant 0 (by simp [hn])
    have hFails : r.installPages (m.spaces i).builder (0 :: (List.range n).map Nat.succ)
        m.physical = (m.physical, false) :=
      installPages_fails hBack
        (EarlyStage1Builder.checkAddress_of_mapped hFirst) hStops
    rw [← List.range_succ_eq_map, ← hn] at hFails
    rw [NativeAddressSpaceState.mapImpl, hChecks.tables]
    simp only [hCell, hEntry, if_neg (Nat.not_lt.mpr hChecks.budget), hChecks.vacant, hFails]

/-- In every state of a run, and for every mapping call on it, the call maps the
whole range or is refused without effect exactly when the builder takes the
pages or some check refuses the call first. -/
theorem mapping_whole_or_refused_iff {physical : Physical} {ops : List (MachineOp ι)}
    (hPages : physical.DistinctPages)
    (hOps : Run.EachStep step KeepsPages (fresh ι physical) ops)
    (hAwake : (Run.after step (fresh ι physical) ops).halted = false)
    (hReq : op.request = some (i, r)) :
    (Run.after step (fresh ι physical) ops).AllOrNothing op i r ↔
      ¬ (Run.after step (fresh ι physical) ops).StopsInstalling op i r := by
  have hWalked := (walked_run hPages hOps).final
  have hBack := backing_of_request hReq
  generalize Run.after step (fresh ι physical) ops = m at *
  unfold AllOrNothing StopsInstalling
  rw [step_request hAwake hReq]
  cases hGuard : m.guardCheck op with
  | error => simp
  | ok =>
    dsimp only
    rw [← mapImpl_stops_iff hWalked hBack]
    constructor
    · rintro (⟨hOk, -⟩ | ⟨e, hErr⟩) ⟨-, hNone⟩
      · rw [hNone] at hOk
        cases hOk
      · rw [hErr] at hNone
        cases hNone
    · intro hGoes
      exact mapImpl_allOrNothing hWalked hBack fun hNone => hGoes ⟨rfl, hNone⟩

/-- A space with one mapping and two table pages left. -/
def stockedRun : List (MachineOp Nat) :=
  .create 1 0 .lower :: ([0x100000, 0x101000, 0x102000, 0x103000, 0x104000].map
    (.donateTablePage 1 0) ++
      [.initializeTranslationRoot 1, .mapUser 1 0x400000 0x800000 0x2000 .readWrite])

/-- With pages in stock the next map succeeds whole. -/
theorem stockedRun_maps_whole :
    (Run.after step (fresh Nat {}) stockedRun).AllOrNothing
      (.mapUser 1 0x600000 0xA00000 0x1000 .read) 1
      { virtualBase := 0x600000, physicalBase := 0xA00000, length := 0x1000, permissions := .read
        userAccessible := true } := by
  refine (mapping_whole_or_refused_iff Physical.distinctPages_empty
    (keepsPages_stocked _ _ (by decide) (by simp)) (by decide +kernel) rfl).mpr ?_
  rintro ⟨-, -, hRefused | hBlank⟩
  · exact hRefused (by decide +kernel)
  · cases hBlank

/-- Once the root is sealed the same call passes its checks and stops the
kernel, and before that so does a map of executable device memory. -/
theorem mapping_stops_the_kernel :
    (Run.after step (fresh Nat {}) (stockedRun ++ [.sealRoot 1])).halted = false ∧
      ((Run.after step (fresh Nat {}) (stockedRun ++ [.sealRoot 1])).step
        (.mapUser 1 0x600000 0xA00000 0x1000 .read)).2 = none ∧
      ((Run.after step (fresh Nat {}) stockedRun).step
        (.map 1 0x600000 0xA00000 0x1000 .readExecute .device false)).2 = none := by
  decide +kernel

end Machine

end Enml.OsKernel
