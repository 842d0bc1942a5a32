import Mathlib.Data.List.Pairwise
import Enml.Invariant.Mapping

/-! Write-exclusive-execute over all spaces that share a ledger. The checks are
made against the ledger; that they hold of the spaces' own tables rests on the
two recording the same ranges with the same permissions, counted with
repetition. -/
namespace Enml.OsKernel

open NativePhysicalMapping List NativeMapping

variable {ι : Type} [DecidableEq ι]

def NativeMapping.CoversPhysical (m : NativeMapping) (address : Nat) : Prop :=
  m.physicalBase.toNat ≤ address ∧ address < m.physicalBase.toNat + m.length.toNat

def NativeMapping.CoversVirtual (m : NativeMapping) (address : Nat) : Prop :=
  m.virtualBase.toNat ≤ address ∧ address < m.virtualBase.toNat + m.length.toNat

/-- No physical address is in a writable mapping of some space and in an
executable mapping of some space. -/
def Machine.WriteExecuteExclusive (m : Machine ι) : Prop :=
  ∀ i j a b, a ∈ (m.spaces i).mappings.entries → b ∈ (m.spaces j).mappings.entries →
    a.permissions.writable = true → b.permissions.executable = true →
      ∀ address, ¬ (a.CoversPhysical address ∧ b.CoversPhysical address)

/-- No virtual address is in two mappings of one space. -/
def Machine.VirtuallyDisjoint (m : Machine ι) : Prop :=
  ∀ i, (m.spaces i).mappings.entries.Pairwise fun a b =>
    ∀ address, ¬ (a.CoversVirtual address ∧ b.CoversVirtual address)

/-- What `retire_unmapped` compares. -/
def NativeMapping.extent (m : NativeMapping) : UInt64 × UInt64 × MachinePermissions :=
  (m.physicalBase, m.length, m.permissions)

def NativePhysicalMapping.extent (e : NativePhysicalMapping ι) :
    UInt64 × UInt64 × MachinePermissions :=
  (e.physicalBase, e.length, e.permissions)

namespace MappingTables

/-- The ledger's entries for one space. -/
def ledgerOf (t : MappingTables ι) (i : ι) : List (NativePhysicalMapping ι) :=
  t.ledger.filter fun e => e.owner == some i

structure Consistent (t : MappingTables ι) : Prop where
  agree : ∀ i, ((t.ledgerOf i).map NativePhysicalMapping.extent).Perm
    ((t.spaces i).map NativeMapping.extent)
  range : ∀ i, ∀ m ∈ t.spaces i,
    RangeWithin (2 ^ 48) m.physicalBase m.length ∧ RangeWithin (2 ^ 39) m.virtualBase m.length
  ledgerRange : ∀ e ∈ t.ledger, RangeWithin (2 ^ 48) e.physicalBase e.length
  exclusive : ∀ e ∈ t.ledger, ∀ f ∈ t.ledger, e.permissions.writable = true →
    f.permissions.executable = true →
      overlaps e.physicalBase e.length f.physicalBase f.length = false
  apart : ∀ i, (t.spaces i).Pairwise fun a b =>
    overlaps a.virtualBase a.length b.virtualBase b.length = false

end MappingTables

theorem overlaps_comm (a la b lb : UInt64) : overlaps a la b lb = overlaps b lb a la := by
  rw [overlaps, overlaps, Bool.and_comm]

theorem not_writable_executable (p : MachinePermissions) (hWrite : p.writable = true)
    (hExecute : p.executable = true) : False := by
  cases p with
  | read => cases hWrite
  | readWrite => cases hExecute
  | readExecute => cases hWrite

theorem NativePhysicalMapping.records_iff (e : NativePhysicalMapping ι) (i : ι)
    (m : NativeMapping) : e.records i m = true ↔ e.owner = some i ∧ e.extent = m.extent := by
  simp only [records, extent, NativeMapping.extent, Bool.and_eq_true, beq_iff_eq, Prod.mk.injEq]
  tauto

namespace MappingTables

variable {t t' : MappingTables ι} {i : ι}
  {e : NativePhysicalMapping ι} {rest : List (NativePhysicalMapping ι)}

theorem ledgerOf_cons_self (hOwner : e.owner = some i) (h : t'.ledger.Perm (e :: rest)) :
    (t'.ledgerOf i).Perm (e :: rest.filter fun e => e.owner == some i) := by
  have hFiltered := h.filter fun e => e.owner == some i
  rwa [filter_cons_of_pos (by simp [hOwner])] at hFiltered

theorem ledgerOf_cons_ne {j : ι} (hj : j ≠ i) (hOwner : e.owner = some i)
    (h : t'.ledger.Perm (e :: rest)) :
    (t'.ledgerOf j).Perm (rest.filter fun e => e.owner == some j) := by
  have hFiltered := h.filter fun e => e.owner == some j
  rwa [filter_cons_of_neg (by simp [hOwner, Ne.symm hj])] at hFiltered

theorem Consistent.mapped (h : t.Consistent) {r : MapRequest} (hAdmits : t.Admits i r)
    (hSpace : (t'.spaces i).Perm (r.toMapping :: t.spaces i))
    (hOthers : ∀ j, j ≠ i → t'.spaces j = t.spaces j)
    (hLedger : t'.ledger.Perm (r.toPhysicalMapping i :: t.ledger)) : t'.Consistent := by
  have hRange := (MapRequest.rangeValid_iff r).mp hAdmits.range
  refine ⟨?_, ?_, ?_, ?_, ?_⟩
  · intro j
    rcases eq_or_ne j i with rfl | hj
    · have hNew := (ledgerOf_cons_self (i := j) rfl hLedger).map NativePhysicalMapping.extent
      refine hNew.trans (List.Perm.trans ?_ (hSpace.map NativeMapping.extent).symm)
      exact (h.agree j).cons _
    · rw [hOthers j hj]
      exact ((ledgerOf_cons_ne hj rfl hLedger).map _).trans (h.agree j)
  · intro j m hm
    rcases eq_or_ne j i with rfl | hj
    · rcases mem_cons.mp (hSpace.mem_iff.mp hm) with rfl | hOld
      · exact hRange
      · exact h.range j m hOld
    · rw [hOthers j hj] at hm
      exact h.range j m hm
  · intro e he
    rcases mem_cons.mp (hLedger.mem_iff.mp he) with rfl | hOld
    · exact hRange.1
    · exact h.ledgerRange e hOld
  · intro e he f hf hWrite hExecute
    by_contra hOverlap
    rw [Bool.not_eq_false] at hOverlap
    rcases mem_cons.mp (hLedger.mem_iff.mp he) with rfl | hOldE
    · rcases mem_cons.mp (hLedger.mem_iff.mp hf) with rfl | hOldF
      · exact not_writable_executable _ hWrite hExecute
      · rw [overlaps_comm] at hOverlap
        exact (hAdmits.exclusive f hOldF hOverlap).2 ⟨hExecute, hWrite⟩
    rcases mem_cons.mp (hLedger.mem_iff.mp hf) with rfl | hOldF
    · exact (hAdmits.exclusive e hOldE hOverlap).1 ⟨hWrite, hExecute⟩
    · rw [h.exclusive e hOldE f hOldF hWrite hExecute] at hOverlap
      cases hOverlap
  · intro j
    rcases eq_or_ne j i with rfl | hj
    · rw [hSpace.pairwise_iff (fun {_ _} hxy => by rwa [overlaps_comm]), pairwise_cons]
      refine ⟨?_, h.apart j⟩
      intro m hm
      rw [overlaps_comm]
      exact hAdmits.apart m hm
    · rw [hOthers j hj]
      exact h.apart j

variable {m : NativeMapping}

/-- Removing a mapping together with an entry that records it. -/
theorem Consistent.retired (h : t.Consistent) (hRecs : e.records i m = true)
    (hSpace : (t.spaces i).Perm (m :: t'.spaces i))
    (hOthers : ∀ j, j ≠ i → t'.spaces j = t.spaces j) (hLedger : t.ledger.Perm (e :: t'.ledger)) :
    t'.Consistent := by
  obtain ⟨hOwner, hExtent⟩ := (e.records_iff i m).mp hRecs
  have hSub : ∀ f ∈ t'.ledger, f ∈ t.ledger := fun f hf =>
    hLedger.mem_iff.mpr (mem_cons_of_mem e hf)
  have hSubSpace : ∀ j, ∀ n ∈ t'.spaces j, n ∈ t.spaces j := by
    intro j n hn
    rcases eq_or_ne j i with rfl | hj
    · exact hSpace.mem_iff.mpr (mem_cons_of_mem m hn)
    · rwa [hOthers j hj] at hn
  refine ⟨?_, ?_, ?_, ?_, ?_⟩
  · intro j
    rcases eq_or_ne j i with rfl | hj
    · have hOld := (ledgerOf_cons_self hOwner hLedger).map NativePhysicalMapping.extent
      have hBoth := hOld.symm.trans ((h.agree j).trans (hSpace.map NativeMapping.extent))
      rw [map_cons, map_cons, hExtent] at hBoth
      exact hBoth.cons_inv
    · have hOld := (ledgerOf_cons_ne hj hOwner hLedger).map NativePhysicalMapping.extent
      rw [hOthers j hj]
      exact hOld.symm.trans (h.agree j)
  · intro j n hn
    exact h.range j n (hSubSpace j n hn)
  · intro f hf
    exact h.ledgerRange f (hSub f hf)
  · intro f hf g hg
    exact h.exclusive f (hSub f hf) g (hSub g hg)
  · intro j
    rcases eq_or_ne j i with rfl | hj
    · have hAll := h.apart j
      rw [hSpace.pairwise_iff (fun {_ _} hxy => by rwa [overlaps_comm]), pairwise_cons] at hAll
      exact hAll.2
    · rw [hOthers j hj]
      exact h.apart j

theorem Consistent.change {Maps : ι → MapRequest → Prop}
    {Retires : ι → NativeMapping → NativePhysicalMapping ι → Prop}
    (h : t.Consistent) (hChange : Change Maps Retires t t') : t'.Consistent := by
  cases hChange with
  | same hSame => exact hSame ▸ h
  | mapped _ _ _ hAdmits hSpace hOthers hLedger => exact h.mapped hAdmits hSpace hOthers hLedger
  | retired _ _ _ _ hRecs hSpace hOthers hLedger => exact h.retired hRecs hSpace hOthers hLedger
  | reserved _ _ hSpaces hLedger | released hSpaces hLedger =>
    refine ⟨?_, hSpaces ▸ h.range, hLedger ▸ h.ledgerRange, hLedger ▸ h.exclusive,
      hSpaces ▸ h.apart⟩
    rw [show t'.ledgerOf = t.ledgerOf by funext i; simp only [ledgerOf, hLedger], hSpaces]
    exact h.agree

/-- Every mapping of a space is recorded under that space. -/
theorem Consistent.exists_entry (h : t.Consistent) (hm : m ∈ t.spaces i) :
    ∃ e ∈ t.ledger, e.owner = some i ∧ e.extent = m.extent := by
  have hMem := (h.agree i).mem_iff.mpr (mem_map_of_mem hm)
  obtain ⟨e, he, hExtent⟩ := mem_map.mp hMem
  obtain ⟨hLedger, hOwner⟩ := mem_filter.mp he
  exact ⟨e, hLedger, by simpa using hOwner, hExtent⟩

variable {a : NativeMapping}

/-- Mappings that do not overlap share no address. -/
theorem Consistent.apart_of_overlaps (h : t.Consistent) {b : NativeMapping} (ha : a ∈ t.spaces i)
    (hb : b ∈ t.spaces i)
    (hApart : overlaps a.virtualBase a.length b.virtualBase b.length = false) (address : Nat) :
    ¬ (a.CoversVirtual address ∧ b.CoversVirtual address) := by
  rintro ⟨hCoversA, hCoversB⟩
  have hRangeA := (h.range i a ha).2.lt (by norm_num)
  have hRangeB := (h.range i b hb).2.lt (by norm_num)
  rw [← Bool.not_eq_true, overlaps_iff hRangeA hRangeB] at hApart
  simp only [NativeMapping.CoversVirtual] at hCoversA hCoversB
  omega

/-- Two mappings of a space that share an address are one. -/
theorem Consistent.eq_of_covers (h : t.Consistent) {b : NativeMapping} (ha : a ∈ t.spaces i)
    (hb : b ∈ t.spaces i) {address : Nat} (hCoversA : a.CoversVirtual address)
    (hCoversB : b.CoversVirtual address) : a = b := by
  by_contra hNe
  have hSymm : Std.Symm fun x y : NativeMapping =>
      overlaps x.virtualBase x.length y.virtualBase y.length = false :=
    ⟨fun x y hxy => by rwa [overlaps_comm]⟩
  exact h.apart_of_overlaps ha hb ((h.apart i).forall ha hb hNe) address ⟨hCoversA, hCoversB⟩

/-- Taking one mapping out leaves none that shares an address with it. -/
theorem Consistent.apart_of_perm (h : t.Consistent) {others : List NativeMapping}
    (hPerm : (t.spaces i).Perm (m :: others)) (ha : a ∈ others) (address : Nat) :
    ¬ (m.CoversVirtual address ∧ a.CoversVirtual address) := by
  have hSplit : (m :: others).Pairwise fun a b =>
      overlaps a.virtualBase a.length b.virtualBase b.length = false :=
    (hPerm.pairwise_iff (fun {_ _} hxy => by rwa [overlaps_comm])).mp (h.apart i)
  exact h.apart_of_overlaps (hPerm.mem_iff.mpr mem_cons_self)
    (hPerm.mem_iff.mpr (mem_cons_of_mem m ha)) ((pairwise_cons.mp hSplit).1 a ha) address

/-- A mapping covers its own base. -/
theorem Consistent.covers_base (h : t.Consistent) (ha : a ∈ t.spaces i) :
    a.CoversVirtual a.virtualBase.toNat := by
  have hPos := (h.range i a ha).2.2.2.1
  exact ⟨Nat.le_refl _, by omega⟩

end MappingTables

namespace Machine

/-- A machine on which no space has been set up, over any memory and arenas. -/
def fresh (ι : Type) (physical : Physical) : Machine ι := { physical }

omit [DecidableEq ι] in
theorem spaces_fresh (physical : Physical) (i : ι) : (fresh ι physical).tables.spaces i = [] := by
  simp [tables, fresh, NativeAddressSpaceState.entries, SlotTable.entries_replicate,
    NativeMapping.key]

theorem tables_fresh (physical : Physical) : (fresh ι physical).tables.Consistent := by
  have hLedger : (fresh ι physical).tables.ledger = [] := by
    simp [tables, fresh, NativePhysicalLedger.entries, SlotTable.entries_replicate,
      NativePhysicalMapping.key]
  refine ⟨?_, ?_, ?_, ?_, ?_⟩
  · intro i
    rw [MappingTables.ledgerOf, spaces_fresh, hLedger]
    rfl
  · intro i m hm
    rw [spaces_fresh] at hm
    cases hm
  · intro e he
    rw [hLedger] at he
    cases he
  · intro e he
    rw [hLedger] at he
    cases he
  · intro i
    rw [spaces_fresh]
    exact List.Pairwise.nil

/-- The mappings are consistent in every state of a run. -/
theorem consistent_run (physical : Physical) (ops : List (MachineOp ι)) :
    Run.Always Machine.step (fun m => m.tables.Consistent) (fresh ι physical) ops :=
  Run.always_of_invariant (tables_fresh physical) fun m op h => h.change (m.step_change op)

/-- In no state of a run is a physical address writable in one space and
executable in the same or another, nor a virtual address mapped twice in one
space. -/
theorem write_execute_exclusion (physical : Physical) (ops : List (MachineOp ι)) :
    Run.Always Machine.step (fun m => m.WriteExecuteExclusive ∧ m.VirtuallyDisjoint)
      (fresh ι physical) ops := by
  intro n
  have hConsist := consistent_run physical ops n
  constructor
  · rintro i j a b ha hb hWrite hExecute address ⟨hCoverA, hCoverB⟩
    obtain ⟨e, he, -, hExtentA⟩ := hConsist.exists_entry (i := i) ha
    obtain ⟨f, hf, -, hExtentB⟩ := hConsist.exists_entry (i := j) hb
    simp only [NativePhysicalMapping.extent, NativeMapping.extent, Prod.mk.injEq]
      at hExtentA hExtentB
    obtain ⟨hBaseA, hLenA, hPermsA⟩ := hExtentA
    obtain ⟨hBaseB, hLenB, hPermsB⟩ := hExtentB
    have hApart := hConsist.exclusive e he f hf (hPermsA ▸ hWrite)
      (hPermsB ▸ hExecute)
    have hRangeA := (hConsist.ledgerRange e he).lt (by norm_num)
    have hRangeB := (hConsist.ledgerRange f hf).lt (by norm_num)
    rw [← Bool.not_eq_true, overlaps_iff hRangeA hRangeB, hBaseA, hLenA, hBaseB, hLenB] at hApart
    simp only [NativeMapping.CoversPhysical] at hCoverA hCoverB
    omega
  · intro i
    refine (hConsist.apart i).imp_of_mem ?_
    intro a b ha hb hApart
    exact hConsist.apart_of_overlaps ha hb hApart

end Machine

end Enml.OsKernel
