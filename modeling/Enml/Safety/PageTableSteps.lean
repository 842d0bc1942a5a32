import Enml.Invariant.PageLoops
import Enml.Safety.WriteExecute

/-! What each operation of the machine layer does to the page tables. Tables are
linked as they are needed and never given back, so the argument is about the
leaves: an operation changes the leaves of the pages whose mapping it adds or
removes, in the one space it is about, and no others. -/
namespace Enml.OsKernel

open Function Physical

open Enml.Core RadixTable NativeAddressSpaceState EarlyStage1Builder List NativePhysicalLedger

variable {ι : Type} [DecidableEq ι]

/-- The pages the arenas start with: each in one arena once, aligned and within
the physical address size. -/
structure Physical.DistinctPages (p : Physical) : Prop where
  nodup : ∀ id, (p.arenas id).pages.Nodup
  apart : ∀ id id', id ≠ id' → ∀ q ∈ (p.arenas id).pages, q ∉ (p.arenas id').pages
  aligned : ∀ id, ∀ q ∈ (p.arenas id).pages, stage1PhysicalAddress q = true

/-- Arenas that start empty. -/
theorem Physical.distinctPages_empty : Physical.DistinctPages {} := by
  refine ⟨?_, ?_, ?_⟩
  · intro id
    show ({} : EarlyPageArena).pages.Nodup
    exact nodup_nil
  · intro id id' _ q hq
    change q ∈ ({} : EarlyPageArena).pages at hq
    cases hq
  · intro id q hq
    change q ∈ ({} : EarlyPageArena).pages at hq
    cases hq

/-- A builder has a root only once it has been started, and an arena from then
on. -/
def EarlyStage1Builder.Proper (b : EarlyStage1Builder) : Prop :=
  (b.lifecycle = .uninitialized → b.root = 0) ∧ (b.lifecycle ≠ .uninitialized → b.arena ≠ none)

namespace Machine

variable {i : ι} {length va virtualBase : UInt64} {s : NativeAddressSpaceState} {r : MapRequest}
  {mapping : NativeMapping}

/-- The roots of the spaces that have one. -/
def roots (m : Machine ι) (i : ι) : Option UInt64 :=
  if (m.spaces i).builder.lifecycle = .uninitialized then none else some (m.spaces i).builder.root

/-- The leaf of an address in a space, zero where a table is missing. -/
def leaf (m : Machine ι) (i : ι) (va : UInt64) : UInt64 := leafOf m.physical.memory m.roots i va

/-- A page an arena accepts is in no arena yet and holds no live table. The
ledger refuses a page that is reserved, but a reservation can be released while
its page is still in use. -/
def KeepsPages (m : Machine ι) (op : MachineOp ι) : Prop :=
  ∀ i arena page, op = .donateTablePage i arena page →
    (m.donateTablePage i arena page).2 = .ok () → ¬ m.physical.Supplied m.roots page

/-- What a run keeps. -/
structure Walked (m : Machine ι) : Prop where
  consistent : m.tables.Consistent
  laid : m.physical.Laid m.roots
  hosts : ∀ i, m.tables.spaces i ≠ [] → (m.spaces i).builder.Hosts m.roots i
  proper : ∀ i, (m.spaces i).builder.Proper
  unbound : ∀ i, (m.spaces i).mappings.bound = false → m.tables.spaces i = []
  absent : ∀ i va, va.toNat % 4096 = 0 → va.toNat < 2 ^ 39 →
    (∀ a ∈ m.tables.spaces i, ¬ a.CoversVirtual va.toNat) → m.leaf i va = 0

/-- What a step does to the leaves of the mappings there are after it: those of
a new mapping are its descriptors, and of the others a bare clear takes one. -/
def LeavesKept (m : Machine ι) (op : MachineOp ι) (m' : Machine ι) : Prop :=
  ∀ i a va, a ∈ m'.tables.spaces i → va.toNat % 4096 = 0 → a.CoversVirtual va.toNat →
    (a ∈ m.tables.spaces i ∧
        (m'.leaf i va = m.leaf i va ∨ op = .clearLeaf i va ∧ m'.leaf i va = 0)) ∨
      m'.leaf i va = a.descriptor va ∧ a.descriptor va &&& Descriptor.valid ≠ 0

structure Advance (m : Machine ι) (op : MachineOp ι) (m' : Machine ι) : Prop where
  walked : m'.Walked
  leaves : m.LeavesKept op m'

variable {m m' : Machine ι} {op : MachineOp ι}

omit [DecidableEq ι] in
theorem roots_of_root (h : ∀ i, (m.spaces i).builder.Proper) (hRoot : (m.spaces i).builder.root ≠ 0)
    : m.roots i = some (m.spaces i).builder.root := by
  rw [roots, if_neg]
  intro hNone
  exact hRoot ((h i).1 hNone)

/-- The parts of a builder the tables depend on. -/
def SameBuilders (m m' : Machine ι) : Prop :=
  ∀ i, (m'.spaces i).builder.root = (m.spaces i).builder.root ∧
    (m'.spaces i).builder.region = (m.spaces i).builder.region ∧
    ((m'.spaces i).builder.lifecycle = .uninitialized ↔
      (m.spaces i).builder.lifecycle = .uninitialized) ∧
    (m'.spaces i).builder.arena = (m.spaces i).builder.arena

omit [DecidableEq ι] in
theorem SameBuilders.roots (h : m.SameBuilders m') : m'.roots = m.roots := by
  funext i
  obtain ⟨hRoot, -, hLife, -⟩ := h i
  rw [Machine.roots, Machine.roots, hRoot]
  by_cases hNone : (m.spaces i).builder.lifecycle = .uninitialized
  · rw [if_pos hNone, if_pos (hLife.mpr hNone)]
  · rw [if_neg hNone, if_neg (fun hNew => hNone (hLife.mp hNew))]

omit [DecidableEq ι] in
theorem SameBuilders.proper (h : m.SameBuilders m') (hProper : (m.spaces i).builder.Proper) :
    (m'.spaces i).builder.Proper := by
  obtain ⟨hRoot, -, hLife, hArena⟩ := h i
  constructor
  · intro hNone
    exact hRoot.trans (hProper.1 (hLife.mp hNone))
  · intro hStarted
    rw [hArena]
    exact hProper.2 fun hNone => hStarted (hLife.mpr hNone)

/-- Steps that leave memory, tables and mappings alone. -/
theorem Walked.frame (h : m.Walked) (hPhys : m'.physical = m.physical)
    (hBuilders : m.SameBuilders m') (hSpaces : m'.tables.spaces = m.tables.spaces)
    (hBound : ∀ i, (m'.spaces i).mappings.bound = false →
      (m.spaces i).mappings.bound = false ∨ m.tables.spaces i = [])
    (hConsist : m'.tables.Consistent) : Advance m op m' := by
  have hRoots := hBuilders.roots
  have hLeaf : ∀ i va, m'.leaf i va = m.leaf i va := by
    intro i va
    rw [leaf, leaf, hPhys, hRoots]
  constructor
  · refine ⟨hConsist, ?_, ?_, ?_, ?_, ?_⟩
    · rw [hPhys, hRoots]
      exact h.laid
    · intro i hSome
      obtain ⟨hRoot, hRegion, -⟩ := hBuilders i
      obtain ⟨hRooted, hNonzero, hLower⟩ := h.hosts i (hSpaces ▸ hSome)
      exact ⟨by rw [hRoots, hRoot]; exact hRooted, by rw [hRoot]; exact hNonzero,
        by rw [hRegion]; exact hLower⟩
    · intro i
      exact hBuilders.proper (h.proper i)
    · intro i hUnbound
      rw [hSpaces]
      rcases hBound i hUnbound with hOld | hEmpty
      · exact h.unbound i hOld
      · exact hEmpty
    · intro i va ha hb hNone
      rw [hLeaf]
      exact h.absent i va ha hb (hSpaces ▸ hNone)
  · intro i a va ha _ _
    rw [hSpaces] at ha
    exact .inl ⟨ha, .inl (hLeaf i va)⟩

/-- A machine that is left as it is. -/
theorem Walked.unmoved (h : m.Walked) : Advance m op m :=
  h.frame rfl (fun _ => ⟨rfl, rfl, Iff.rfl, rfl⟩) rfl (fun _ hUnbound => .inl hUnbound)
    h.consistent

/-- Preparing a space neither maps nor retires anything. -/
theorem Walked.consistent_of_prepared (h : m.Walked)
    (hChange : MappingTables.Change (fun _ _ => False) (fun _ _ _ => False) m.tables m'.tables) :
    m'.tables.Consistent :=
  h.consistent.change hChange

/-- Reserving a range, and releasing one or all, leave the mappings alone. -/
theorem reserve_advance (h : m.Walked) (i : ι) (physicalBase length : UInt64)
    (kind : PhysicalReservationKind) :
    Advance m op (m.reservePhysical i physicalBase length kind).1 ∧
      Advance m op (m.releaseOneReservation i physicalBase length).1 ∧
      Advance m op (m.releaseReservations i).1 := by
  have hLedger : ∀ {ledger : NativePhysicalLedger ι},
      ({ m with ledger } : Machine ι).tables.Consistent → Advance m op { m with ledger } :=
    h.frame rfl (fun _ => ⟨rfl, rfl, Iff.rfl, rfl⟩) rfl fun _ hUnbound => .inl hUnbound
  refine ⟨hLedger ?_, hLedger ?_, hLedger ?_⟩
  · exact h.consistent_of_prepared (m.reservePhysical_change i physicalBase length kind)
  · exact h.consistent_of_prepared (m.releaseOneReservation_change i physicalBase length)
  · exact h.consistent_of_prepared (m.releaseReservations_change i)

/-- An arena that accepts a page has it on top. -/
theorem donate_cases (a : EarlyPageArena) (page : UInt64) :
    (∃ e, a.donate page = (a, .error e)) ∨
      ∃ a', a.donate page = (a', .ok ()) ∧ a'.pages = page :: a.pages ∧
        stage1PhysicalAddress page = true := by
  unfold EarlyPageArena.donate
  split
  · exact .inl ⟨_, rfl⟩
  rename_i hAddr
  iterate 3
    split
    · exact .inl ⟨_, rfl⟩
  refine .inr ⟨_, rfl, rfl, ?_⟩
  simp only [Bool.or_eq_true, not_or, Bool.not_eq_true', Bool.not_eq_false] at hAddr
  exact hAddr.1.2

theorem donateTablePage_advance (h : m.Walked) (i : ι) (arena : ArenaId) (page : UInt64)
    (hNew : (m.donateTablePage i arena page).2 = .ok () → ¬ m.physical.Supplied m.roots page) :
    Advance m op (m.donateTablePage i arena page).1 := by
  have hReserve : Advance m op _ :=
    (reserve_advance h i page architecturalPageSize .kernelPrivate).1
  unfold donateTablePage at hNew ⊢
  split
  · rename_i m₁ e hDone
    rw [hDone] at hReserve
    exact hReserve
  rename_i m₁ hDone
  rw [hDone] at hNew hReserve
  obtain ⟨hWalked, hKept⟩ := hReserve
  have hFirst : (m.reservePhysical i page architecturalPageSize .kernelPrivate).1 = m₁ := by
    rw [hDone]
  have hSame : m.physical.Supplied m.roots page ↔ m₁.physical.Supplied m₁.roots page := by
    rw [← hFirst]
    exact Iff.rfl
  dsimp only at hNew ⊢
  rcases donate_cases (m₁.physical.arenas arena) page with ⟨e, hFail⟩ | ⟨a', hGiven, hPages, hOk⟩
  · rw [hFail]
    rw [update_eq_self]
    exact ⟨hWalked, hKept⟩
  rw [hGiven] at hNew ⊢
  have hFresh : ¬ m₁.physical.Supplied m₁.roots page := fun hUsed => hNew rfl (hSame.mpr hUsed)
  exact ⟨⟨hWalked.consistent, hWalked.laid.donate hOk hFresh hPages, hWalked.hosts,
    hWalked.proper, hWalked.unbound, hWalked.absent⟩, hKept⟩

/-- A space that is not bound has no mappings, and gets a builder without a root. -/
theorem createAddressSpace_advance (h : m.Walked) (i : ι) (arena : ArenaId)
    (region : Stage1Region) :
    Advance m op (m.createAddressSpace i arena region).1 := by
  have hConsist := h.consistent_of_prepared (m.createAddressSpace_change i arena region)
  unfold createAddressSpace at hConsist ⊢
  unfold NativeAddressSpaceState.bind at hConsist ⊢
  cases hBound : (m.spaces i).mappings.bound with
  | true => exact h.unmoved
  | false =>
    rw [hBound] at hConsist
    simp only [Bool.false_eq_true, if_false] at hConsist ⊢
    have hEmpty := h.unbound i hBound
    let space : MachineAddressSpace :=
      { mappings := { (m.spaces i).mappings with bound := true }
        builder := { arena := some arena, region } }
    have hTables : ({ m with spaces := update m.spaces i space } : Machine ι).tables =
        m.tables := tables_update m i rfl
    have hRoots : ({ m with spaces := update m.spaces i space } : Machine ι).roots =
        update m.roots i none := by
      funext k
      rcases eq_or_ne k i with rfl | hk
      · simp [roots, space]
      · simp [roots, update_of_ne hk]
    have hLeaf : ∀ k va, ({ m with spaces := update m.spaces i space } :
        Machine ι).leaf k va = if k = i then 0 else m.leaf k va := by
      intro k va
      rw [leaf, hRoots]
      exact entry_drop k (leafPath va) (index3 va)
    refine ⟨⟨hConsist, ?_, ?_, ?_, ?_, ?_⟩, ?_⟩
    · rw [hRoots]
      exact h.laid.drop i
    · intro k hSome
      rw [hTables] at hSome
      have hk : k ≠ i := by
        rintro rfl
        exact hSome hEmpty
      obtain ⟨hRooted, hNonzero, hLower⟩ := h.hosts k hSome
      rw [hRoots]
      simp only [update_of_ne hk]
      refine ⟨?_, hNonzero, hLower⟩
      rw [update_of_ne hk]
      exact hRooted
    · intro k
      rcases eq_or_ne k i with rfl | hk
      · simp [EarlyStage1Builder.Proper]
      · simp only [update_of_ne hk]
        exact h.proper k
    · intro k hUnbound
      rw [hTables]
      rcases eq_or_ne k i with rfl | hk
      · exact hEmpty
      · simp only [update_of_ne hk] at hUnbound
        exact h.unbound k hUnbound
    · intro k va ha hb hNone
      rw [hTables] at hNone
      rw [hLeaf]
      split
      · rfl
      · exact h.absent k va ha hb hNone
    · intro k a va ha _ _
      rw [hTables] at ha
      refine .inl ⟨ha, .inl ?_⟩
      rw [hLeaf, if_neg]
      rintro rfl
      rw [hEmpty] at ha
      cases ha

/-- A root is made once, from a new page. -/
theorem initializeRoot_cases (b : EarlyStage1Builder) (p : Physical) :
    (∃ e, b.initializeRoot p = ((b, p), .error e)) ∨ ∃ id page p', b.initializeRoot p =
          (({ b with root := page, lifecycle := .building }, p'), .ok page) ∧
        p.Taken id page p' ∧ b.lifecycle = .uninitialized ∧ b.arena = some id := by
  unfold initializeRoot
  split
  · exact .inl ⟨_, rfl⟩
  rename_i hValid
  split
  · exact .inl ⟨_, rfl⟩
  rename_i hOnce
  cases hArena : b.arena with
  | none => simp [hArena] at hValid
  | some id =>
    rcases allocateTable_cases hArena p with ⟨-, e, hFail⟩ |
      ⟨page, p', hTake, hTaken⟩
    · rw [hFail]
      exact .inl ⟨e, rfl⟩
    rw [hTake]
    refine .inr ⟨id, page, p', rfl, hTaken, ?_, rfl⟩
    by_contra hStarted
    exact hOnce (.inr hStarted)

theorem initializeTranslationRoot_advance (h : m.Walked) (i : ι) :
    Advance m op (m.initializeTranslationRoot i).1 := by
  have hConsist := h.consistent_of_prepared (m.initializeTranslationRoot_change i)
  unfold initializeTranslationRoot at hConsist ⊢
  split
  · exact h.unmoved
  rename_i hBound
  rw [if_neg hBound] at hConsist
  rcases initializeRoot_cases (m.spaces i).builder m.physical with ⟨e, hFail⟩ |
    ⟨id, page, p', hDone, hTaken, hFirst, hArena⟩
  · rw [hFail]
    dsimp only [setBuilder]
    rw [update_eq_self]
    exact h.unmoved
  rw [hDone] at hConsist ⊢
  have hNone : m.roots i = none := by rw [roots, if_pos hFirst]
  let m' : Machine ι :=
    { m.setBuilder i { (m.spaces i).builder with root := page, lifecycle := .building } with
      physical := p' }
  have hTables : m'.tables = m.tables := tables_update m i rfl
  have hRoots : m'.roots = update m.roots i (some page) := by
    funext k
    rcases eq_or_ne k i with rfl | hk
    · simp [roots, m', setBuilder]
    · simp [roots, m', setBuilder, update_of_ne hk]
  have hLeaf : ∀ k va, m'.leaf k va = m.leaf k va := by
    intro k va
    rw [leaf, hRoots]
    exact hTaken.leafOf_root h.laid hNone k va
  have hOther : ∀ k, k ≠ i → (m'.spaces k).builder = (m.spaces k).builder := by
    intro k hk
    simp [m', setBuilder, update_of_ne hk]
  have hMappings : ∀ k, (m'.spaces k).mappings = (m.spaces k).mappings := by
    intro k
    rcases eq_or_ne k i with rfl | hk
    · simp [m', setBuilder]
    · simp [m', setBuilder, update_of_ne hk]
  refine ⟨⟨hConsist, ?_, ?_, ?_, ?_, ?_⟩, ?_⟩
  · rw [hRoots]
    exact hTaken.laid_root h.laid hNone
  · intro k hSome
    rw [hTables] at hSome
    obtain ⟨hRooted, hNonzero, hLower⟩ := h.hosts k hSome
    have hk : k ≠ i := by
      rintro rfl
      rw [hNone] at hRooted
      cases hRooted
    rw [hRoots, hOther k hk]
    refine ⟨?_, hNonzero, hLower⟩
    rw [update_of_ne hk]
    exact hRooted
  · intro k
    rcases eq_or_ne k i with rfl | hk
    · simp [setBuilder, EarlyStage1Builder.Proper, hArena]
    · rw [hOther k hk]
      exact h.proper k
  · intro k hUnbound
    rw [hTables]
    rw [hMappings k] at hUnbound
    exact h.unbound k hUnbound
  · intro k va ha hb hAbsent
    rw [hTables] at hAbsent
    rw [hLeaf]
    exact h.absent k va ha hb hAbsent
  · intro k a va ha _ _
    rw [hTables] at ha
    exact .inl ⟨ha, .inl (hLeaf k va)⟩

/-- Sealing and retiring a root leave it where it is. -/
theorem onBuilder_advance (h : m.Walked) (i : ι)
    {call : EarlyStage1Builder → EarlyStage1Builder × Result Unit}
    (hCall : ∀ b, (call b).1.root = b.root ∧ (call b).1.region = b.region ∧
      ((call b).1.lifecycle = .uninitialized ↔ b.lifecycle = .uninitialized) ∧
      (call b).1.arena = b.arena) :
    Advance m op (m.onBuilder i call).1 := by
  have hTables : (m.onBuilder i call).1.tables = m.tables := tables_update m i rfl
  refine h.frame rfl ?_ (by rw [hTables]) ?_ (by rw [hTables]; exact h.consistent)
  · intro k
    rcases eq_or_ne k i with rfl | hk
    · simpa [onBuilder, setBuilder] using hCall (m.spaces k).builder
    · simp [onBuilder, setBuilder, update_of_ne hk]
  intro k hUnbound
  refine .inl ?_
  rcases eq_or_ne k i with rfl | hk
  · simpa [onBuilder, setBuilder] using hUnbound
  · simpa [onBuilder, setBuilder, update_of_ne hk] using hUnbound

theorem sealRoot_keeps (b : EarlyStage1Builder) :
    b.sealRoot.1.root = b.root ∧ b.sealRoot.1.region = b.region ∧
      (b.sealRoot.1.lifecycle = .uninitialized ↔ b.lifecycle = .uninitialized) ∧
      b.sealRoot.1.arena = b.arena := by
  unfold sealRoot
  iterate 3
    split
    · exact ⟨rfl, rfl, Iff.rfl, rfl⟩
  · rename_i hBuilding
    simp only [not_or, not_not] at hBuilding
    exact ⟨rfl, rfl, by simp [hBuilding.1], rfl⟩

theorem beginRetire_keeps (b : EarlyStage1Builder) :
    b.beginRetire.1.root = b.root ∧ b.beginRetire.1.region = b.region ∧
      (b.beginRetire.1.lifecycle = .uninitialized ↔ b.lifecycle = .uninitialized) ∧
      b.beginRetire.1.arena = b.arena := by
  unfold beginRetire
  split
  · exact ⟨rfl, rfl, Iff.rfl, rfl⟩
  split
  · exact ⟨rfl, rfl, Iff.rfl, rfl⟩
  · rename_i hSealed
    rw [not_not] at hSealed
    exact ⟨rfl, rfl, by simp [hSealed], rfl⟩

/-- A space is unbound only when the ledger, and so the space itself, has
nothing left of it. -/
theorem unbind_advance (h : m.Walked) (i : ι) : Advance m op (m.unbind i).1 := by
  have hConsist := h.consistent_of_prepared (m.unbind_change i)
  have hCells : ((m.spaces i).mappings.unbind i m.ledger).1.mappings =
      (m.spaces i).mappings.mappings := by
    unfold NativeAddressSpaceState.unbind
    split_ifs <;> rfl
  have hTables : (m.unbind i).1.tables = m.tables := tables_update m i hCells
  refine h.frame rfl ?_ (by rw [hTables]) ?_ hConsist
  · intro k
    rcases eq_or_ne k i with rfl | hk
    · simp [unbind, setMappings]
    · simp [unbind, setMappings, update_of_ne hk]
  intro k hUnbound
  rcases eq_or_ne k i with rfl | hk
  swap
  · left
    simpa [unbind, setMappings, update_of_ne hk] using hUnbound
  cases hBound : (m.spaces k).mappings.bound with
  | false => exact .inl rfl
  | true =>
    right
    have hLedger : m.tables.ledgerOf k = [] := by
      apply filter_eq_nil_iff.mpr
      intro e he hOwner
      obtain ⟨hMem, hOcc⟩ := mem_entries.mp he
      have hDone : ((m.spaces k).mappings.unbind k m.ledger).1.bound = false := by
        simpa [unbind, setMappings] using hUnbound
      unfold NativeAddressSpaceState.unbind at hDone
      have hOwned : (m.ledger.mappings.any fun e => e.occupied && e.owner == some k) = true :=
        List.any_eq_true.mpr ⟨e, hMem, by simp_all⟩
      rw [hBound, hOwned] at hDone
      simp only [Bool.not_true, Bool.false_eq_true, if_false, if_true] at hDone
      split at hDone
      all_goals
        rw [hBound] at hDone
        cases hDone
    have hAgree := h.consistent.agree k
    rw [hLedger, map_nil] at hAgree
    exact map_eq_nil_iff.mp hAgree.nil_eq.symm

theorem bound_mapImpl (s : NativeAddressSpaceState) (i : ι) (ledger : NativePhysicalLedger ι)
    (b : EarlyStage1Builder) (p : Physical) (r : MapRequest) :
    (s.mapImpl i ledger b p r).1.1.bound = s.bound := by
  unfold NativeAddressSpaceState.mapImpl
  split
  · rfl
  split
  · dsimp only
    split
    · rfl
    split
    · rfl
    split
    all_goals rfl
  · rfl

theorem sameBuilders_setMappings (m : Machine ι) (i : ι) (s : NativeAddressSpaceState) :
    m.SameBuilders (m.setMappings i s) := by
  intro k
  rcases eq_or_ne k i with rfl | hk
  · simp [setMappings]
  · simp [setMappings, update_of_ne hk]

theorem bound_setMappings (m : Machine ι) (i : ι) (hBound : s.bound = (m.spaces i).mappings.bound)
    (k : ι) :
    ((m.setMappings i s).spaces k).mappings.bound = (m.spaces k).mappings.bound := by
  rcases eq_or_ne k i with rfl | hk
  · simp [setMappings, hBound]
  · simp [setMappings, update_of_ne hk]

omit [DecidableEq ι] in
/-- A mapping of the lower region covers addresses of it only. -/
theorem lower_of_covers {a : NativeMapping} (hRange : RangeWithin (2 ^ 39) a.virtualBase a.length)
    (h : a.CoversVirtual va.toNat) :
    va.toNat < 2 ^ 39 := by
  obtain ⟨-, -, -, hWithin⟩ := hRange
  exact h.2.trans_le hWithin

/-- What a step that changes one space's mappings leaves alone. -/
structure Local (m m' : Machine ι) : Prop where
  builders : m.SameBuilders m'
  bounds : ∀ i, (m'.spaces i).mappings.bound = (m.spaces i).mappings.bound
  laid : m'.physical.Laid m.roots

/-- The rest of the invariant follows once it is known which spaces have mappings
and what the leaves are. -/
theorem Local.advance (hLocal : m.Local m') (h : m.Walked) (hConsist : m'.tables.Consistent)
    (hHosts : ∀ i, m'.tables.spaces i ≠ [] → (m.spaces i).builder.Hosts m.roots i)
    (hUnbound : ∀ i, (m.spaces i).mappings.bound = false → m'.tables.spaces i = [])
    (hAbsent : ∀ i va, va.toNat % 4096 = 0 → va.toNat < 2 ^ 39 →
      (∀ a ∈ m'.tables.spaces i, ¬ a.CoversVirtual va.toNat) → m'.leaf i va = 0)
    (hLeaves : m.LeavesKept op m') : Advance m op m' := by
  have hRoots := hLocal.builders.roots
  refine ⟨⟨hConsist, ?_, ?_, ?_, ?_, hAbsent⟩, hLeaves⟩
  · rw [hRoots]
    exact hLocal.laid
  · intro i hSome
    obtain ⟨hRoot, hRegion, -⟩ := hLocal.builders i
    obtain ⟨hRooted, hNonzero, hLower⟩ := hHosts i hSome
    exact ⟨by rw [hRoots, hRoot]; exact hRooted, by rw [hRoot]; exact hNonzero,
      by rw [hRegion]; exact hLower⟩
  · intro i
    exact hLocal.builders.proper (h.proper i)
  · intro i hOff
    exact hUnbound i ((hLocal.bounds i).symm.trans hOff)

/-- A mapping was added and its pages installed. -/
theorem Mapped.advance {id : ArenaId} (hMapped : m.Mapped i r m')
    (h : m.Walked) (hLocal : m.Local m') (hConsist : m'.tables.Consistent)
    (hHosts : (m.spaces i).builder.Hosts m.roots i) (hBound : (m.spaces i).mappings.bound = true)
    (hDesc : r.describable = true)
    (hPages : r.InstalledPages m.physical m.roots id i (range (pageCount r.length))
      m'.physical) : Advance m op m' := by
  obtain ⟨hPhys, hVirtual⟩ := (MapRequest.rangeValid_iff r).mp hMapped.admits.range
  have hRoots := hLocal.builders.roots
  have hOutside : ∀ k va, va.toNat % 4096 = 0 → va.toNat < 2 ^ 39 →
      (k = i → ¬ r.toMapping.CoversVirtual va.toNat) → m'.leaf k va = m.leaf k va := by
    intro k va ha hb hNot
    rw [leaf, hRoots]
    apply hPages.leaves.kept k va ha hb
    intro hk page hPage hSame
    apply hNot hk
    exact (exists_pageAt_iff hVirtual (by norm_num) ha).mp ⟨page, mem_range.mp hPage, hSame⟩
  have hMem : ∀ k, ∀ a ∈ m.tables.spaces k, a ∈ m'.tables.spaces k := by
    intro k a ha
    rcases eq_or_ne k i with rfl | hk
    · exact hMapped.space.mem_iff.mpr (mem_cons_of_mem _ ha)
    · rwa [hMapped.others k hk]
  refine hLocal.advance h hConsist ?_ ?_ ?_ ?_
  · intro k hSome
    rcases eq_or_ne k i with rfl | hk
    · exact hHosts
    · exact h.hosts k (hMapped.others k hk ▸ hSome)
  · intro k hUnbound
    rcases eq_or_ne k i with rfl | hk
    · rw [hBound] at hUnbound
      cases hUnbound
    · exact (hMapped.others k hk).trans (h.unbound k hUnbound)
  · intro k va ha hb hNone
    rw [hOutside k va ha hb]
    · exact h.absent k va ha hb fun a hOld => hNone a (hMem k a hOld)
    · rintro rfl
      exact hNone _ (hMapped.space.mem_iff.mpr mem_cons_self)
  · intro k a va hNew ha hCovers
    have hb := lower_of_covers (hConsist.range k a hNew).2 hCovers
    rcases eq_or_ne k i with rfl | hk
    · rcases mem_cons.mp (hMapped.space.mem_iff.mp hNew) with rfl | hOld
      · right
        obtain ⟨page, hPage, rfl⟩ := (exists_pageAt_iff hVirtual (by norm_num) ha).mpr hCovers
        rw [leaf, hRoots, ← r.leaf_eq_descriptor page]
        exact ⟨hPages.leaves.set page (mem_range.mpr hPage),
          (MapRequest.leaf_bits hPhys hPage hDesc).1⟩
      · refine .inl ⟨hOld, .inl (hOutside k va ha hb ?_)⟩
        intro _ hBoth
        exact hConsist.apart_of_perm hMapped.space hOld va.toNat ⟨hBoth, hCovers⟩
    · refine .inl ⟨by rwa [hMapped.others k hk] at hNew, .inl (hOutside k va ha hb ?_)⟩
      intro hSame
      exact absurd hSame hk

theorem mapImpl_advance (h : m.Walked) (i : ι)
    (hBack : r.backing = true → r.userAccessible = true) :
    Advance m op (m.mapImpl i r).1 := by
  have hChange : MappingTables.Change (fun _ _ => True) (fun _ _ _ => False) m.tables
      (m.mapImpl i r).1.tables := m.mapImpl_change trivial
  have hConsist := h.consistent.change hChange
  have hBound := bound_mapImpl (m.spaces i).mappings i m.ledger (m.spaces i).builder m.physical r
  have hCases := mapImpl_cases (Prod.eta (m.mapImpl i r)).symm
  rcases hMap : (m.spaces i).mappings.mapImpl i m.ledger (m.spaces i).builder m.physical r with
    ⟨⟨s', ledger', p'⟩, result⟩
  have hInstalled := mapImpl_installed h.laid
    (roots_of_root h.proper) hBack hMap
  unfold mapImpl at hConsist hCases ⊢
  rw [hMap] at hConsist hCases hBound ⊢
  have hBuilders := sameBuilders_setMappings m i s'
  have hBounds := bound_setMappings m i hBound
  rcases hInstalled with ⟨rfl, hNot, -⟩ | ⟨rfl, hHosts, hDesc, id, -, hPages, -⟩
  · rcases hCases with ⟨hTables, -⟩ | ⟨hOk, -⟩
    · refine h.frame rfl hBuilders (by rw [hTables]) ?_ hConsist
      intro k hUnbound
      exact .inl ((hBounds k).symm.trans hUnbound)
    · exact absurd hOk hNot
  rcases hCases with ⟨-, hNot⟩ | ⟨-, hMapped⟩
  · exact absurd rfl hNot
  have hOn : (m.spaces i).mappings.bound = true := by
    rcases NativeAddressSpaceState.mapImpl_cases hMap with ⟨-, -, hNot⟩ | ⟨-, hCheck, -⟩
    · exact absurd rfl hNot
    by_contra hOff
    rw [Bool.not_eq_true] at hOff
    unfold mapCheck at hCheck
    rw [hOff] at hCheck
    cases hCheck
  exact hMapped.advance h ⟨hBuilders, hBounds, hPages.laid⟩ hConsist hHosts hOn hDesc hPages

theorem mapStack_advance (h : m.Walked) (i : ι)
    (hBack : r.backing = true → r.userAccessible = true) :
    Advance m op (m.mapStack i r).1 := by
  unfold mapStack
  split
  · exact h.unmoved
  · exact mapImpl_advance h i hBack

/-- A mapping was removed whose leaves are all clear. -/
theorem Unmapped.advance
    {e : NativePhysicalMapping ι} (hUnmap : m.Unmapped i virtualBase length mapping e m')
    (h : m.Walked) (hLocal : m.Local m')
    (hCleared : ∀ va, va.toNat % 4096 = 0 → mapping.CoversVirtual va.toNat → m'.leaf i va = 0)
    (hKept : ∀ k va, va.toNat % 4096 = 0 → va.toNat < 2 ^ 39 →
      (k = i → ¬ mapping.CoversVirtual va.toNat) → m'.leaf k va = m.leaf k va) :
    Advance m op m' := by
  have hChange : MappingTables.Change (fun _ _ => False) (fun _ _ _ => True) m.tables m'.tables :=
    hUnmap.change trivial
  have hConsist := h.consistent.change hChange
  have hSub : ∀ k, ∀ a ∈ m'.tables.spaces k, a ∈ m.tables.spaces k := by
    intro k a ha
    rcases eq_or_ne k i with rfl | hk
    · exact hUnmap.space.mem_iff.mpr (mem_cons_of_mem _ ha)
    · rwa [hUnmap.others k hk] at ha
  refine hLocal.advance h hConsist ?_ ?_ ?_ ?_
  · intro k hSome
    apply h.hosts k
    obtain ⟨a, ha⟩ := exists_mem_of_ne_nil _ hSome
    exact ne_nil_of_mem (hSub k a ha)
  · intro k hUnbound
    apply eq_nil_iff_forall_not_mem.mpr
    intro a ha
    have hOld := hSub k a ha
    rw [h.unbound k hUnbound] at hOld
    cases hOld
  · intro k va ha hb hNone
    by_cases hGone : k = i ∧ mapping.CoversVirtual va.toNat
    · obtain ⟨rfl, hCovers⟩ := hGone
      exact hCleared va ha hCovers
    rw [hKept k va ha hb fun hk hCovers => hGone ⟨hk, hCovers⟩]
    apply h.absent k va ha hb
    intro a hOld hCovers
    rcases eq_or_ne k i with rfl | hk
    · rcases mem_cons.mp (hUnmap.space.mem_iff.mp hOld) with rfl | hLeft
      · exact hGone ⟨rfl, hCovers⟩
      · exact hNone a hLeft hCovers
    · exact hNone a (by rwa [hUnmap.others k hk]) hCovers
  · intro k a va hLeft ha hCovers
    have hOld := hSub k a hLeft
    have hb := lower_of_covers (h.consistent.range k a hOld).2 hCovers
    refine .inl ⟨hOld, .inl (hKept k va ha hb ?_)⟩
    rintro rfl hBoth
    exact h.consistent.apart_of_perm hUnmap.space hLeft va.toNat ⟨hBoth, hCovers⟩

theorem clearLeaf_advance (h : m.Walked) (i : ι) (va : UInt64) :
    Advance m (.clearLeaf i va) (m.clearLeaf i va).1 := by
  have hRoot : (m.spaces i).builder.lifecycle ≠ .uninitialized →
      m.roots i = some (m.spaces i).builder.root := fun hStarted => by rw [roots, if_neg hStarted]
  unfold clearLeaf
  rcases unmapPage_cases h.laid hRoot va with
    ⟨e, hFail⟩ | ⟨mem', hDone, hCleared, hCheck⟩
  · rw [hFail]
    exact h.unmoved
  rw [hDone]
  have hLocal : m.Local (m.setMemory mem') :=
    ⟨fun _ => ⟨rfl, rfl, Iff.rfl, rfl⟩, fun _ => rfl, hCleared.laid⟩
  refine hLocal.advance h h.consistent h.hosts h.unbound ?_ ?_
  · intro k va' ha hb hNone
    show leafOf mem' m.roots k va' = 0
    rw [hCleared.leaves]
    split
    · rfl
    · exact h.absent k va' ha hb hNone
  · intro k a va' hMem ha hCovers
    have hLeaf : (m.setMemory mem').leaf k va' = _ := hCleared.leaves k va'
    rw [hLeaf]
    refine .inl ⟨hMem, ?_⟩
    split
    · rename_i hHere
      obtain ⟨rfl, hPath, hIdx⟩ := hHere
      right
      have hHosts := h.hosts k (ne_nil_of_mem hMem)
      have hb := lower_of_covers (h.consistent.range k a hMem).2 hCovers
      obtain ⟨-, hAligned, hAccepts⟩ := checkAddress_ok hCheck
      rw [acceptsVirtualAddress, hHosts.lower] at hAccepts
      have hSame := eq_of_indices ha hAligned hb ((stage1VirtualAddress_iff va).mp hAccepts) hPath
        hIdx
      rw [hSame]
      exact ⟨rfl, rfl⟩
    · exact .inl rfl

/-- A mapping is retired exactly when the ledger has it and no page of it is
mapped. -/
theorem retireUnmapped_ok_iff {ledger : NativePhysicalLedger ι} {b : EarlyStage1Builder}
    {mem : Memory} (hExact : s.exactMapping virtualBase length = .ok mapping)
    (hLedger : ∃ e ∈ ledger.entries, e.records i mapping = true) :
    (s.retireUnmapped i ledger b mem virtualBase length).2 = .ok () ↔
      ∀ page < pageCount mapping.length,
        b.mapped mem (pageAt mapping.virtualBase page) = .ok false := by
  obtain ⟨e, he, hRecs⟩ := hLedger
  obtain ⟨hMem, hOcc⟩ := mem_entries.mp he
  have hFound : ledger.mappings.find? (fun e => e.occupied && e.owner == some i &&
      e.physicalBase == mapping.physicalBase && e.length == mapping.length &&
        e.permissions == mapping.permissions) ≠ none := by
    rw [ne_eq, find?_eq_none]
    intro hNone
    apply hNone e hMem
    simpa [NativePhysicalMapping.records, hOcc, Bool.and_assoc] using hRecs
  unfold NativeAddressSpaceState.retireUnmapped
  rw [hExact]
  dsimp only
  rw [if_neg hFound]
  have hCheck : requireUnmapped b mem mapping.virtualBase MachineErrors.mappingLedgerInconsistent
      (range (pageCount mapping.length)) = .ok () ↔ _ := requireUnmapped_iff
  simp only [mem_range] at hCheck
  rw [← hCheck]
  cases requireUnmapped b mem mapping.virtualBase MachineErrors.mappingLedgerInconsistent
    (range (pageCount mapping.length)) with
  | error e => simp
  | ok _ => simp

theorem bound_retireUnmapped (s : NativeAddressSpaceState) (i : ι) (ledger : NativePhysicalLedger ι)
    (b : EarlyStage1Builder) (mem : Memory) (virtualBase length : UInt64) :
    (s.retireUnmapped i ledger b mem virtualBase length).1.1.bound = s.bound := by
  unfold NativeAddressSpaceState.retireUnmapped
  split
  · rfl
  dsimp only
  split
  · rfl
  split
  all_goals rfl

omit [DecidableEq ι] in
/-- A leaf without the valid bit is zero. -/
theorem leaf_eq_zero_of_invalid (h : m.physical.Laid m.roots)
    (hInvalid : m.leaf i va &&& Descriptor.valid = 0) : m.leaf i va = 0 := by
  rcases h.tables.leaves i (leafPath va) (index3 va) rfl with hZero | ⟨hValid, -⟩
  · exact hZero
  · exact absurd hInvalid hValid

omit [DecidableEq ι] in
theorem exactMapping_mem (h : (m.spaces i).mappings.exactMapping virtualBase length = .ok mapping) :
    mapping ∈ m.tables.spaces i ∧ mapping.virtualBase = virtualBase ∧ mapping.length = length := by
  have hFound := exactMapping_ok h
  have hFields := find?_some hFound
  simp only [Bool.and_eq_true, beq_iff_eq] at hFields
  exact ⟨mem_entries.mpr ⟨mem_of_find?_eq_some hFound, hFields.1.1⟩, hFields.1.2, hFields.2⟩

theorem Walked.exists_records (h : m.Walked) (hMem : mapping ∈ m.tables.spaces i) :
    ∃ e ∈ m.ledger.entries, e.records i mapping = true := by
  obtain ⟨e, he, hOwner, hExtent⟩ := h.consistent.exists_entry hMem
  exact ⟨e, he, (e.records_iff i mapping).mpr ⟨hOwner, hExtent⟩⟩

/-- Retiring alone: the leaves were clear already. -/
theorem retireUnmapped_advance (h : m.Walked) (i : ι) (virtualBase length : UInt64) :
    Advance m op (m.retireUnmapped i virtualBase length).1 := by
  have hCases := retireUnmapped_cases (Prod.eta (m.retireUnmapped i virtualBase length)).symm
  have hBound := bound_retireUnmapped (m.spaces i).mappings i m.ledger (m.spaces i).builder
    m.physical.memory virtualBase length
  have hBuilders : m.SameBuilders (m.retireUnmapped i virtualBase length).1 :=
    sameBuilders_setMappings m i _
  have hBounds := bound_setMappings m i hBound
  rcases hCases with ⟨hTables, -⟩ | ⟨hOk, mapping, e, hUnmap⟩
  · refine h.frame rfl hBuilders (by rw [hTables]) ?_ (by rw [hTables]; exact h.consistent)
    intro k hUnbound
    exact .inl ((hBounds k).symm.trans hUnbound)
  have hLocal : m.Local (m.retireUnmapped i virtualBase length).1 :=
    ⟨hBuilders, hBounds, h.laid⟩
  have hLeaf : ∀ k va, (m.retireUnmapped i virtualBase length).1.leaf k va = m.leaf k va := by
    intro k va
    rw [leaf, hBuilders.roots]
    rfl
  obtain ⟨hMem, -, -⟩ := exactMapping_mem hUnmap.exact
  have hHosts := h.hosts i (ne_nil_of_mem hMem)
  have hVirtual := (h.consistent.range i mapping hMem).2
  refine hUnmap.advance h hLocal ?_ (fun k va _ _ _ => hLeaf k va)
  intro va ha hCovers
  rw [hLeaf]
  apply leaf_eq_zero_of_invalid h.laid
  obtain ⟨page, hPage, rfl⟩ := (exists_pageAt_iff hVirtual (by norm_num) ha).mpr hCovers
  have hClear := (retireUnmapped_ok_iff hUnmap.exact (h.exists_records hMem)).mp hOk page hPage
  rw [mapped_eq h.laid.tables hHosts.rooted
    (checkAddress_of_mapped hClear)] at hClear
  rw [leaf]
  simpa using hClear

/-- Once every page has been seen to be mapped, clearing them and retiring the
mapping cannot fail. -/
theorem machineUnmap_advance (h : m.Walked) (i : ι) (virtualBase length : UInt64) :
    Advance m op (m.machineUnmap i virtualBase length).1 := by
  unfold machineUnmap
  iterate 3
    split
    · exact h.unmoved
  rename_i mapping hExact
  split
  · exact h.unmoved
  rename_i hSealed
  dsimp only
  split
  · exact h.unmoved
  rename_i hMappedPages
  obtain ⟨hMem, rfl, rfl⟩ := exactMapping_mem hExact
  have hHosts := h.hosts i (ne_nil_of_mem hMem)
  have hVirtual := (h.consistent.range i mapping hMem).2
  have hMapped := requireMapped_ok hMappedPages
  have hCheck : ∀ page ∈ range (pageCount mapping.length),
      (m.spaces i).builder.checkAddress (pageAt mapping.virtualBase page) = .ok () :=
    fun page hPage => checkAddress_of_mapped (hMapped page hPage)
  have hLife : (m.spaces i).builder.lifecycle = .building ∨
      (m.spaces i).builder.lifecycle = .retiring := by
    cases hState : (m.spaces i).builder.lifecycle with
    | uninitialized => exact absurd ((h.proper i).1 hState) hHosts.nonzero
    | building => exact .inl rfl
    | «sealed» => exact absurd hState hSealed
    | retiring => exact .inr rfl
  obtain ⟨mem', hClear, hLaid, hLeaves⟩ := clearPages_ok hHosts.rooted hLife
    hVirtual (fun page hPage => mem_range.mp hPage) nodup_range hCheck h.laid
    (by
      intro page hPage
      have hFound := hMapped page hPage
      rw [mapped_eq h.laid.tables hHosts.rooted (hCheck page hPage)] at hFound
      simpa using hFound)
  rw [hClear]
  dsimp only
  -- what is cleared reads as unmapped, so the retirement goes through
  have hRetired : ((m.setMemory mem').retireUnmapped i mapping.virtualBase mapping.length).2 =
      .ok () := by
    refine (retireUnmapped_ok_iff hExact (h.exists_records hMem)).mpr ?_
    intro page hPage
    have hZero := hLeaves.set page (mem_range.mpr hPage)
    show (m.spaces i).builder.mapped mem' (pageAt mapping.virtualBase page) = .ok false
    rw [mapped_eq hLaid.tables hHosts.rooted
      (hCheck page (mem_range.mpr hPage)), hZero]
    rfl
  rcases hDone : (m.setMemory mem').retireUnmapped i mapping.virtualBase mapping.length with
    ⟨m', result⟩
  rw [hDone] at hRetired
  cases hRetired
  rcases retireUnmapped_cases hDone with ⟨-, e, hErr⟩ | ⟨-, mapping', e, hUnmap⟩
  · cases hErr
  have hFirst :
      ((m.setMemory mem').retireUnmapped i mapping.virtualBase mapping.length).1 = m' := by
    rw [hDone]
  have hBuilders : m.SameBuilders m' := by
    rw [← hFirst]
    exact sameBuilders_setMappings m i _
  have hBounds : ∀ k, (m'.spaces k).mappings.bound = (m.spaces k).mappings.bound := by
    rw [← hFirst]
    exact bound_setMappings m i (bound_retireUnmapped (m.spaces i).mappings i m.ledger
      (m.spaces i).builder mem' mapping.virtualBase mapping.length)
  have hMemory : m'.physical = { m.physical with memory := mem' } := by
    rw [← hFirst]
    rfl
  have hRemoved : m.Unmapped i mapping.virtualBase mapping.length mapping' e m' :=
    ⟨hUnmap.exact, hUnmap.found, hUnmap.space, hUnmap.others, hUnmap.ledger, hUnmap.reserved⟩
  have hOne : mapping' = mapping := by
    have hBoth := hRemoved.exact.symm.trans hExact
    cases hBoth
    rfl
  have hLeaf : ∀ k va, m'.leaf k va = leafOf mem' m.roots k va := by
    intro k va
    rw [leaf, hBuilders.roots, hMemory]
  refine hRemoved.advance h ⟨hBuilders, hBounds, ?_⟩ ?_ ?_
  · rw [hMemory]
    exact hLaid
  · rw [hOne]
    intro va ha hCovers
    obtain ⟨page, hPage, rfl⟩ := (exists_pageAt_iff hVirtual (by norm_num) ha).mpr hCovers
    rw [hLeaf]
    exact hLeaves.set page (mem_range.mpr hPage)
  · rw [hOne]
    intro k va ha hb hNot
    rw [hLeaf]
    apply hLeaves.kept k va ha hb
    intro hk page hPage hAt
    apply hNot hk
    exact (exists_pageAt_iff hVirtual (by norm_num) ha).mp ⟨page, mem_range.mp hPage, hAt⟩

theorem step_advance (h : m.Walked) (hOp : m.KeepsPages op) : Advance m op (m.step op).1 := by
  unfold step
  split
  · exact h.unmoved
  cases op with
  | create space arena region => exact createAddressSpace_advance h space arena region
  | donateTablePage space arena page =>
    exact donateTablePage_advance h space arena page (hOp space arena page rfl)
  | initializeTranslationRoot space => exact initializeTranslationRoot_advance h space
  | sealRoot space => exact onBuilder_advance h space sealRoot_keeps
  | beginRetire space => exact onBuilder_advance h space beginRetire_keeps
  | reservePhysical space physicalBase length kind =>
    exact (reserve_advance h space physicalBase length kind).1
  | map space | mapUser space | mapUserBacking space => exact mapImpl_advance h space (by simp)
  | mapKernelStack space | mapUserStack space => exact mapStack_advance h space (by simp)
  | unmap space virtualBase length => exact machineUnmap_advance h space virtualBase length
  | clearLeaf space virtualAddress => exact clearLeaf_advance h space virtualAddress
  | retireUnmapped space virtualBase length =>
    exact retireUnmapped_advance h space virtualBase length
  | releaseOneReservation space physicalBase length =>
    exact (reserve_advance h space physicalBase length .kernelPrivate).2.1
  | releaseReservations space => exact (reserve_advance h space 0 0 .kernelPrivate).2.2
  | unbind space => exact unbind_advance h space

theorem walked_fresh {physical : Physical} (h : physical.DistinctPages) :
    (fresh ι physical).Walked := by
  have hNone : ∀ (i : ι) (s : List (Fin 512)),
      table stage1Format physical.memory (fresh ι physical).roots i s = none := by
    intro i s
    induction s with
    | nil => rfl
    | cons c s ih => rw [table, ih, Option.bind_none]
  have hEntry : ∀ (i : ι) (s : List (Fin 512)) (c : Fin 512),
      entry stage1Format physical.memory (fresh ι physical).roots i s c = 0 :=
    fun i s c => entry_of_none (hNone i s) c
  refine ⟨tables_fresh physical, ⟨⟨⟨?_, ?_, ?_⟩, ?_⟩, h.nodup, h.apart, ?_⟩, ?_, ?_, ?_, ?_⟩
  · intro i s p _ hTbl
    exact absurd ((hNone i s).symm.trans hTbl) (by simp)
  · intro i s k u p _ _ hTbl _
    exact absurd ((hNone i s).symm.trans hTbl) (by simp)
  · intro i s c _
    exact .inl (hEntry i s c)
  · intro i s c _
    exact .inl (hEntry i s c)
  · intro id q hq
    refine ⟨h.aligned id q hq, ?_⟩
    intro i s _ hTbl
    exact absurd ((hNone i s).symm.trans hTbl) (by simp)
  · intro i hSome
    exact absurd (spaces_fresh _ i) hSome
  · intro i
    exact ⟨fun _ => rfl, fun hStarted => absurd rfl hStarted⟩
  · intro i _
    exact spaces_fresh _ i
  · intro i va _ _ _
    exact hEntry i (leafPath va) (index3 va)

end Machine

end Enml.OsKernel
