import Enml.Invariant.Platform
import Enml.Safety.WriteExecute

/-! What an authorized unmap takes away. The authorization carries the length of
the caller's grant and not the memory the grant is over, so the mapping it finds
is the one at the address with that length, whoever's memory it maps. -/
namespace Enml.OsKernel

open List

theorem MappingTables.Consistent.tearing {t t' : MappingTables AddressSpaceIdentity}
    {i : AddressSpaceIdentity} (h : t.Consistent) (hTearing : MappingTables.Tearing i t t') :
    t'.Consistent := by
  induction hTearing with
  | refl => exact h
  | tail _ hChange ih => exact ih.change hChange

namespace Platform

/-- A kernel and a machine on which nothing has been set up. -/
def fresh (physical : Physical) : Platform := { machine := Machine.fresh _ physical }

variable {p : Platform}

theorem Stepped.consistent {p' : Platform} {op : PlatformOp} (hStep : p.Stepped p' op)
    (h : p.machine.tables.Consistent) : p'.machine.tables.Consistent := by
  cases hStep with
  | quiet hTables => exact hTables ▸ h
  | prepared _ hChange => exact h.change hChange
  | mapped _ _ hMapped => exact h.mapped hMapped.admits hMapped.space hMapped.others hMapped.ledger
  | unmapped _ _ _ _ hUnmapped =>
    have hChange : MappingTables.Change (fun _ _ => False) (fun _ _ _ => True) _ _ :=
      hUnmapped.change trivial
    exact h.change hChange
  | released hTearing => exact h.tearing hTearing

theorem consistent_step (h : p.machine.tables.Consistent) (op : PlatformOp) :
    (p.step op).1.machine.tables.Consistent := by
  cases hHalted : p.machine.halted with
  | true =>
    rw [step_of_halted hHalted]
    exact h
  | false => exact (step_stepped hHalted op).consistent h

theorem platform_consistent (physical : Physical) (ops : List PlatformOp) :
    Run.Always Platform.step (fun p => p.machine.tables.Consistent) (fresh physical) ops :=
  Run.always_of_invariant (Machine.tables_fresh physical) fun _ op h => consistent_step h op

/-- The space has a mapping at the address, of the grant's length, of memory
that is not the grant's. -/
def MapsForeign (p : Platform) (space : AddressSpaceIdentity) (address : UInt64)
    (grant : MemoryGrant) : Prop :=
  ∃ mapping ∈ (p.machine.spaces space).mappings.entries,
    mapping.virtualBase = address ∧ mapping.length = grant.length ∧
      mapping.physicalBase ≠ grant.physicalBase

/-- What the unmap takes out of the space is a mapping of exactly the grant's
memory. -/
def RemovesGranted (p : Platform) (authorized : UnmapAuthorization) (grant : MemoryGrant) : Prop :=
  ∃ mapping : NativeMapping, (p.machine.spaces authorized.space).mappings.entries.Perm
      (mapping :: ((p.performUnmap authorized).1.machine.spaces
        authorized.space).mappings.entries) ∧
      mapping.physicalBase = grant.physicalBase ∧ mapping.length = grant.length

/-- An unmap the kernel authorizes and the machine performs removes the grant's
own memory exactly when nothing else is mapped there with the grant's length. -/
def UnmapsByLength (p : Platform) : Prop :=
  ∀ caller request authorized grant,
    p.system.kernel.unmapAuthorize caller request p.system.env.epochs p.system.env.grants
        p.system.env.executables = .ok authorized →
      p.system.kernel.memoryForCapability caller request.backing memoryRightMap
          p.system.env.grants = .ok grant →
        (p.performUnmap authorized).2 = some (.ok ()) → (p.RemovesGranted authorized grant ↔
            ¬ p.MapsForeign authorized.space request.virtualAddress grant)

theorem performUnmap_unmapped {authorized : UnmapAuthorization}
    (h : (p.performUnmap authorized).2 = some (.ok ())) :
    ∃ mapping e, p.machine.Unmapped authorized.space authorized.virtualBase authorized.length
      mapping e (p.performUnmap authorized).1.machine := by
  unfold performUnmap at h ⊢
  split
  · rename_i hBound
    rw [if_pos hBound] at h
    cases h
  rename_i hBound
  rw [if_neg hBound] at h
  rcases Machine.machineUnmap_cases
      (Prod.eta (p.machine.machineUnmap authorized.space authorized.virtualBase
        authorized.length)).symm with ⟨-, hNot⟩ | ⟨-, hDone⟩
  · exact absurd h hNot
  · exact hDone

theorem unmapsByLength_of_consistent (h : p.machine.tables.Consistent) : p.UnmapsByLength := by
  intro caller request authorized grant hAuth hGrant hDone
  obtain ⟨backing, hBack, hBase, hLen, -⟩ := Kernel.unmapAuthorize_fields hAuth
  rw [hGrant] at hBack
  cases hBack
  obtain ⟨mapping, e, hUnmapped⟩ := performUnmap_unmapped hDone
  have hFound := List.find?_some (NativeAddressSpaceState.exactMapping_ok hUnmapped.exact)
  simp only [Bool.and_eq_true, beq_iff_eq] at hFound
  obtain ⟨⟨-, hAt⟩, hLong⟩ := hFound
  rw [hBase] at hAt
  rw [hLen] at hLong
  have hMem : mapping ∈ p.machine.tables.spaces authorized.space :=
    hUnmapped.space.mem_iff.mpr mem_cons_self
  constructor
  · rintro ⟨removed, hPerm, hPhys, -⟩ ⟨other, hOther, hOtherBase, hOtherLen, hForeign⟩
    have hSame : removed = mapping := by
      have hHeads : (removed :: (p.performUnmap authorized).1.machine.tables.spaces
          authorized.space).Perm (mapping :: (p.performUnmap authorized).1.machine.tables.spaces
            authorized.space) := hPerm.symm.trans hUnmapped.space
      have hCnt := hHeads.count_eq removed
      by_contra hNe
      rw [count_cons_self, count_cons_of_ne (Ne.symm hNe)] at hCnt
      omega
    have hOne : other = mapping := by
      refine h.eq_of_covers hOther hMem (h.covers_base hOther) ?_
      rw [hOtherBase, ← hAt]
      exact h.covers_base hMem
    rw [hOne, ← hSame] at hForeign
    exact hForeign hPhys
  · intro hNone
    refine ⟨mapping, hUnmapped.space, ?_, hLong⟩
    by_contra hForeign
    exact hNone ⟨mapping, hMem, hAt, hLong, hForeign⟩

/-- In every state of every run. -/
theorem unmap_removes_granted_unless_foreign (physical : Physical) (ops : List PlatformOp) :
    Run.Always Platform.step UnmapsByLength (fresh physical) ops := by
  intro n
  exact unmapsByLength_of_consistent (platform_consistent physical ops n)

/-- A space of thread 1 that maps memory granted to thread 1. Thread 2 holds the
space too, and a grant of the same length over other memory. -/
def sharedSpaceRun : List PlatformOp :=
  [ .system (.kernel (.createThread 1 1)), .system (.kernel (.createThread 2 1)),
    .system (.kernel (.capability
      (.mint 1 addressSpaceAuthorityObject addressSpaceRightCreate false))),
    .system (.kernel (.addressSpaceCreate 1 1)),
    .system (.createGrant 0x800000 0x1000),
    .system (.createGrant 0x900000 0x1000),
    .system (.kernel (.capability
      (.mint 1 (memoryGrantObjectId { slot := 0, generation := 1 }) memoryRightMap false))),
    .system (.kernel (.capability
      (.mint 2 (memoryGrantObjectId { slot := 1, generation := 1 }) memoryRightMap false))),
    .system (.kernel (.capability (.grant 1 2 2 addressSpaceRightHold false))),
    .machine ⟨.create { slot := 0, generation := 1 } 0 .lower, rfl⟩,
    .machine ⟨.donateTablePage { slot := 0, generation := 1 } 0 0x100000, rfl⟩,
    .machine ⟨.donateTablePage { slot := 0, generation := 1 } 0 0x101000, rfl⟩,
    .machine ⟨.donateTablePage { slot := 0, generation := 1 } 0 0x102000, rfl⟩,
    .machine ⟨.initializeTranslationRoot { slot := 0, generation := 1 }, rfl⟩,
    .map 1 { space := 2, virtualAddress := 0x400000, backing := 3, permissions := .read } ]

/-- Every unmap that is authorized and performed takes away the memory of the
grant it names. -/
def UnmapsOnlyGranted (p : Platform) : Prop :=
  ∀ caller request authorized grant,
    p.system.kernel.unmapAuthorize caller request p.system.env.epochs p.system.env.grants
        p.system.env.executables = .ok authorized →
      p.system.kernel.memoryForCapability caller request.backing memoryRightMap
          p.system.env.grants = .ok grant →
        (p.performUnmap authorized).2 = some (.ok ()) → p.RemovesGranted authorized grant

/-- Thread 2 unmaps what thread 1 mapped, naming its own grant. -/
theorem sharedSpaceRun_unmaps_foreign :
    ¬ Run.Always Platform.step UnmapsOnlyGranted (fresh {}) sharedSpaceRun := by
  intro h
  have hUnmap := h.final 2 { space := 5, virtualAddress := 0x400000, backing := 4 }
    { space := { slot := 0, generation := 1 }, virtualBase := 0x400000, length := 0x1000 }
    { identity := { slot := 1, generation := 1 }, physicalBase := 0x900000, length := 0x1000 }
    (by decide +kernel) (by decide +kernel) (by decide +kernel)
  obtain ⟨mapping, hPerm, hPhys, -⟩ := hUnmap
  dsimp only at hPerm hPhys
  have hBefore : ∀ m ∈ ((Run.after Platform.step (fresh {}) sharedSpaceRun).machine.spaces
      { slot := 0, generation := 1 }).mappings.entries, m.physicalBase = 0x800000 := by
    decide +kernel
  have hOther := hBefore mapping (hPerm.mem_iff.mpr mem_cons_self)
  rw [hOther] at hPhys
  exact absurd hPhys (by decide)

end Platform

end Enml.OsKernel
