import Enml.Safety.MapOutcome

/-! The page below a stack. The calls that map a stack require it to be free,
and nothing keeps it free afterwards but the requests themselves. -/
namespace Enml.OsKernel

open RadixTable NativeAddressSpaceState List MachineOp

variable {ι : Type} [DecidableEq ι]

def NativeMapping.isStack (a : NativeMapping) : Bool := a.kernelStack || a.userStack

/-- The addresses of the page below the mapping, if there is one. -/
def NativeMapping.Below (a : NativeMapping) (address : Nat) : Prop :=
  address < a.virtualBase.toNat ∧ a.virtualBase.toNat ≤ address + 4096

namespace Machine

variable {m : Machine ι} {op : MachineOp ι} {i : ι} {r : MapRequest}

/-- No mapping covers the page below a stack of its space. -/
def GuardsFree (m : Machine ι) : Prop :=
  ∀ i, ∀ a ∈ m.tables.spaces i, a.isStack = true → ∀ address, a.Below address →
    ∀ b ∈ m.tables.spaces i, ¬ b.CoversVirtual address

/-- The request stays off the pages below the stacks of its space, and a plain
map that is flagged as a stack goes above a page that is free. -/
def SparesGuards (m : Machine ι) (op : MachineOp ι) : Prop :=
  ∀ i r, op.request = some (i, r) →
    (∀ a ∈ m.tables.spaces i, a.isStack = true → ∀ address, a.Below address →
      ¬ r.toMapping.CoversVirtual address) ∧
    ∀ virtualBase physicalBase length permissions kind,
      op = .map i virtualBase physicalBase length permissions kind true →
        ∀ address, r.toMapping.Below address → ∀ b ∈ m.tables.spaces i, ¬ b.CoversVirtual address

/-- What `require_guard_page` lets pass has a free page below it. -/
theorem free_of_requireGuardPage (hConsist : m.tables.Consistent) {virtualBase : UInt64}
    (h : (m.spaces i).mappings.requireGuardPage (m.spaces i).builder m.physical.memory virtualBase =
      .ok ()) {address : Nat} (hAbove : address < virtualBase.toNat)
    (hNear : virtualBase.toNat ≤ address + 4096) {b : NativeMapping}
    (hb : b ∈ m.tables.spaces i) : ¬ b.CoversVirtual address := by
  unfold requireGuardPage at h
  have hPage : architecturalPageSize.toNat = 4096 := rfl
  dsimp only at h
  split_ifs at h with hLow hOverlap hUnbound
  all_goals
    rw [UInt64.lt_iff_toNat_lt, hPage, not_lt] at hLow
    have hGuard : (virtualBase - architecturalPageSize).toNat = virtualBase.toNat - 4096 :=
      UInt64.toNat_sub_of_le _ _ (UInt64.le_iff_toNat_le.mpr hLow)
    have hBound := virtualBase.toNat_lt
    have hRange := (hConsist.range i b hb).2.lt (by norm_num)
    obtain ⟨hMem, hOcc⟩ := mem_entries.mp hb
    rintro ⟨hLeft, hRight⟩
    refine hOverlap (any_eq_true.mpr ⟨b, hMem, ?_⟩)
    rw [hOcc, Bool.true_and, overlaps_iff hRange (by rw [hGuard, hPage]; omega), hGuard, hPage]
    omega

theorem guardsFree_step (h : m.GuardsFree) (hConsist : m.tables.Consistent)
    (hOp : m.SparesGuards op) : (m.step op).1.GuardsFree := by
  by_cases hAwake : m.halted = false
  swap
  · rwa [step, if_pos (by simpa using hAwake)]
  have hStack : ∀ i r, op.request = some (i, r) → m.guardCheck op = .ok () →
      r.toMapping.isStack = true → ∀ address, r.toMapping.Below address →
        ∀ b ∈ m.tables.spaces i, ¬ b.CoversVirtual address := by
    intro i r hReq hGuard hStack address hBelow b hb
    have hPlain := (hOp i r hReq).2
    cases op with
    | map _ _ _ _ _ _ kernelStack =>
      simp only [request, Option.some.injEq, Prod.mk.injEq] at hReq
      obtain ⟨rfl, rfl⟩ := hReq
      obtain rfl : kernelStack = true := by
        simpa [NativeMapping.isStack, MapRequest.toMapping] using hStack
      exact hPlain _ _ _ _ _ rfl address hBelow b hb
    | mapKernelStack | mapUserStack =>
      simp only [request, Option.some.injEq, Prod.mk.injEq] at hReq
      obtain ⟨rfl, rfl⟩ := hReq
      exact free_of_requireGuardPage hConsist hGuard hBelow.1 hBelow.2 hb
    | mapUser | mapUserBacking =>
      simp only [request, Option.some.injEq, Prod.mk.injEq] at hReq
      obtain ⟨rfl, rfl⟩ := hReq
      cases hStack
    | _ => cases hReq
  rcases m.step_change op with hSame | ⟨i, r, hReq, -, hSpace, hOthers, -, -⟩ |
    ⟨i, taken, e, -, -, hSpace, hOthers, -, -⟩ | ⟨v, -, hSpaces, -, -⟩ | ⟨hSpaces, -, -⟩
  · rwa [GuardsFree, hSame]
  · cases hGuard : m.guardCheck op with
    | error => rwa [step_request hAwake hReq, hGuard]
    | ok =>
      intro j a ha hA address hBelow b hb
      rcases eq_or_ne j i with rfl | hj
      · rcases mem_cons.mp (hSpace.mem_iff.mp ha) with rfl | hOld <;>
          rcases mem_cons.mp (hSpace.mem_iff.mp hb) with rfl | hOldB
        · exact fun hCovers => absurd hBelow.1 (not_lt.mpr hCovers.1)
        · exact hStack j r hReq hGuard hA address hBelow b hOldB
        · exact (hOp j r hReq).1 a hOld hA address hBelow
        · exact h j a hOld hA address hBelow b hOldB
      · rw [hOthers j hj] at ha hb
        exact h j a ha hA address hBelow b hb
  · intro j a ha hA address hBelow b hb
    rcases eq_or_ne j i with rfl | hj
    · exact h j a (hSpace.mem_iff.mpr (mem_cons_of_mem _ ha)) hA address hBelow b
        (hSpace.mem_iff.mpr (mem_cons_of_mem _ hb))
    · rw [hOthers j hj] at ha hb
      exact h j a ha hA address hBelow b hb
  all_goals rwa [GuardsFree, hSpaces]

/-- In a run whose requests all stay off the guard pages, the page below every
stack is covered by no mapping and has no valid leaf, in every state. -/
theorem stacks_keep_guard_pages {physical : Physical} {ops : List (MachineOp ι)}
    (hPages : physical.DistinctPages)
    (hOps : Run.EachStep step KeepsPages (fresh ι physical) ops)
    (hSpares : Run.EachStep step SparesGuards (fresh ι physical) ops) :
    Run.Always step (fun m => ∀ i, ∀ a ∈ (m.spaces i).mappings.entries, a.isStack = true →
        (∀ address, a.Below address →
          ∀ b ∈ (m.spaces i).mappings.entries, ¬ b.CoversVirtual address) ∧
        ∀ guard : UInt64, guard.toNat + 4096 = a.virtualBase.toNat → m.translation i guard = none)
      (fresh ι physical) ops := by
  have hConsist := consistent_run physical ops
  have hGuards : Run.Always step (fun m : Machine ι => m.tables.Consistent ∧ m.GuardsFree)
      (fresh ι physical) ops := by
    refine Run.always_of_step ⟨tables_fresh physical, ?_⟩ ?_ hSpares
    · intro i a ha
      have hNone : (fresh ι physical).tables.spaces i = [] := by
        simp [tables, fresh, entries, SlotTable.entries_replicate, NativeMapping.key]
      rw [hNone] at ha
      cases ha
    · rintro m op ⟨hConsist, hFree⟩ hOp
      exact ⟨hConsist.change (m.step_change op), guardsFree_step hFree hConsist hOp⟩
  intro n i a ha hStack
  have hWalked := walked_run hPages hOps n
  have hFree := (hGuards n).2 i a ha hStack
  refine ⟨hFree, fun guard hGuard => ?_⟩
  obtain ⟨hAligned, -, hPos, hBound⟩ := (hWalked.consistent.range i a ha).2
  exact hWalked.translation_absent (hWalked.absent i guard (by omega) (by omega)
    (hFree guard.toNat ⟨by omega, by omega⟩))

/-- A space that maps one stack. -/
def stackRun : List (MachineOp Nat) :=
  mappingRun.take 5 ++ [.mapUserStack 1 0x410000 0x900000 0x1000]

def mappedStack : NativeMapping :=
  { virtualBase := 0x410000, physicalBase := 0x900000, length := 0x1000, permissions := .readWrite
    userStack := true, userAccessible := true, occupied := true }

/-- The page below the one stack of this run stays unmapped. -/
theorem stackRun_keeps_guard_page :
    (Run.after step (fresh Nat {}) stackRun).translation 1 0x40F000 = none := by
  have hOps : Run.EachStep step KeepsPages (fresh Nat {}) stackRun :=
    keepsPages_stocked [0x100000, 0x101000, 0x102000] _ (by decide) (by simp)
  have hEmpty : (Run.after step (fresh Nat {}) (stackRun.take 5)).tables.spaces 1 = [] := by
    decide +kernel
  have hSpares : Run.EachStep step SparesGuards (fresh Nat {}) stackRun := by
    intro n op hOp i r hReq
    rcases n with _ | _ | _ | _ | _ | _ | n
    iterate 5
      cases hOp
      cases hReq
    · cases hOp
      obtain ⟨rfl, rfl⟩ : 1 = i ∧ _ = r := by simpa [request] using hReq
      simp [hEmpty]
    · cases hOp
  exact (((stacks_keep_guard_pages Physical.distinctPages_empty hOps hSpares).final 1 mappedStack
    (by decide +kernel) rfl).2 0x40F000 (by decide))

/-- The page below the stack is mapped after it, by a call like any other. -/
def coveringRun : List (MachineOp Nat) :=
  stackRun ++ [.donateTablePage 1 0 0x103000, .donateTablePage 1 0 0x104000,
    .mapUser 1 0x40F000 0xA00000 0x1000 .readWrite]

/-- The page below the stack is mapped while the stack still stands. -/
theorem coveringRun_maps_guard_page :
    mappedStack ∈ ((Run.after step (fresh Nat {}) coveringRun).spaces 1).mappings.entries ∧
      (Run.after step (fresh Nat {}) coveringRun).translation 1 0x40F000 ≠ none := by
  decide +kernel

end Machine

end Enml.OsKernel
