import Enml.Invariant.TableBudget
import Enml.Safety.CkxEncoding
import Enml.Safety.PageTableRefinement

/-! The budget a loader works out from an image is enough to build its space. A
map takes no more table pages than it asks for beforehand, and the budget has
that number for every region, so the regions may be mapped in any order. -/
namespace Enml.OsKernel

open Enml.Core RadixTable List EarlyPageArena NativeAddressSpaceState SlotTable EarlyStage1Builder

variable {ι : Type} [DecidableEq ι]

/-- The request that `map_user` makes of its arguments. -/
def userRequest (virtualBase physicalBase length : UInt64) (permissions : MachinePermissions) :
    MapRequest :=
  { virtualBase, physicalBase, length, permissions, userAccessible := true }

def MapRequest.IsUser (r : MapRequest) : Prop :=
  r = userRequest r.virtualBase r.physicalBase r.length r.permissions

namespace Machine

variable {pages : Nat}

/-- The space has a root of the lower region that still takes mappings, and its
arena has so many pages for the tables of those to come. -/
structure Building (m : Machine ι) (i : ι) (arena : ArenaId) (pages : Nat) : Prop where
  walked : m.Walked
  awake : m.halted = false
  bound : (m.spaces i).mappings.bound = true
  supply : (m.spaces i).builder.arena = some arena
  lifecycle : (m.spaces i).builder.lifecycle = .building
  lower : (m.spaces i).builder.region = .lower
  enough : pages ≤ (m.physical.arenas arena).pages.length

variable {m : Machine ι} {i : ι} {arena : ArenaId} {r : MapRequest} {rest : Nat}

theorem builder_mapImpl (m : Machine ι) (i : ι) (r : MapRequest) :
    ((m.mapImpl i r).1.spaces i).builder = (m.spaces i).builder := by
  simp [mapImpl, setMappings]

theorem bound_mapImpl_self (m : Machine ι) (i : ι) (r : MapRequest) :
    ((m.mapImpl i r).1.spaces i).mappings.bound = (m.spaces i).mappings.bound := by
  simp [mapImpl, setMappings, bound_mapImpl]

theorem Building.remaining (h : m.Building i arena pages) :
    pages ≤ (m.spaces i).builder.remainingTablePages m.physical := by
  rw [remainingTablePages, h.supply]
  exact h.enough.trans_eq (length_pages _)

theorem Building.installable (h : m.Building i arena pages) (hBack : r.backing = false) :
    r.installable (m.spaces i).builder = .ok () := by
  simp [MapRequest.installable, hBack, requireBuilding, h.lifecycle, h.lower]

theorem Building.rooted (h : m.Building i arena pages) :
    m.roots i = some (m.spaces i).builder.root := by
  rw [roots, if_neg]
  rw [h.lifecycle]
  rintro ⟨⟩

/-- A map spends what it asks for at most, and leaves the rest. -/
theorem Building.mapImpl
    (h : m.Building i arena (requiredTablePages r.virtualBase (pageCount r.length) + rest))
    (hUser : r.userAccessible = true) (hBack : r.backing = false) :
    (m.mapImpl i r).1.Building i arena rest := by
  have hNoBack : r.backing = true → r.userAccessible = true := fun _ => hUser
  have hWalked : Advance m (.unbind i) (m.mapImpl i r).1 :=
    mapImpl_advance h.walked i hNoBack
  have hEnough := h.enough
  rcases hMap : (m.spaces i).mappings.mapImpl i m.ledger (m.spaces i).builder m.physical r with
    ⟨⟨s', ledger', p'⟩, result⟩
  have hPhys : (m.mapImpl i r).1.physical = p' := by rw [Machine.mapImpl, hMap]
  have hHalted : (m.mapImpl i r).1.halted = result.isNone := by
    rw [Machine.mapImpl, hMap]
    simp [h.awake]
  have hCases := mapImpl_installed h.walked.laid
    (fun _ => h.rooted) hNoBack hMap
  refine ⟨hWalked.walked, ?_, ?_, ?_, ?_, ?_, ?_⟩
  · rw [hHalted, Option.isNone_eq_false_iff, Option.isSome_iff_ne_none]
    rcases hCases with ⟨-, -, hStopped⟩ | ⟨rfl, -⟩
    · intro hNone
      rcases hStopped hNone with hRefused | hIndescribable
      · exact hRefused (h.installable hBack)
      · simp [MapRequest.describable, hUser] at hIndescribable
    · rintro ⟨⟩
  · rw [bound_mapImpl_self, h.bound]
  · rw [builder_mapImpl, h.supply]
  · rw [builder_mapImpl, h.lifecycle]
  · rw [builder_mapImpl, h.lower]
  · rw [hPhys]
    rcases hCases with ⟨rfl, -⟩ | ⟨-, -, -, id, hSupply, -, hSpent⟩
    · omega
    · rw [h.supply, Option.some.injEq] at hSupply
      rw [← hSupply] at hSpent
      omega

/-- The pages of a range nothing overlaps have no leaf. -/
theorem leaf_free (h : m.Walked) (hAdmits : m.tables.Admits i r) {page : Nat}
    (hPage : page < pageCount r.length) :
    leafOf m.physical.memory m.roots i (pageAt r.virtualBase page) &&& Descriptor.valid = 0 := by
  obtain ⟨-, hVirtual⟩ := (MapRequest.rangeValid_iff r).mp hAdmits.range
  obtain ⟨ha, hb⟩ := pageAt_within hVirtual (by norm_num) hPage
  have hInside := (exists_pageAt_iff hVirtual (by norm_num) ha).mp ⟨page, hPage, rfl⟩
  have hAbsent : m.leaf i (pageAt r.virtualBase page) = 0 := by
    refine h.absent i _ ha hb fun a hMem hCovers => ?_
    have hApart := hAdmits.apart a hMem
    rw [← Bool.not_eq_true, overlaps_iff ((h.consistent.range i a hMem).2.lt (by norm_num))
      (hVirtual.lt (by norm_num))] at hApart
    exact hApart ⟨hCovers.1.trans_lt hInside.2, hInside.1.trans_lt hCovers.2⟩
  rw [leaf] at hAbsent
  rw [hAbsent]
  rfl

/-- With pages for its tables a map the tables admit ends well. -/
theorem Building.mapImpl_ok
    (h : m.Building i arena (requiredTablePages r.virtualBase (pageCount r.length) + rest))
    (hRoot : (m.spaces i).builder.root ≠ 0) (hUser : r.userAccessible = true)
    (hBack : r.backing = false) (hStack : r.userStack = false) (hAdmits : m.tables.Admits i r)
    (hLocal : (m.tables.spaces i).length < (m.spaces i).mappings.mappings.length)
    (hGlobal : m.tables.ledger.length < m.ledger.mappings.length) :
    (m.mapImpl i r).2 = some (.ok ()) := by
  have hDone := NativeAddressSpaceState.mapImpl_ok (s := (m.spaces i).mappings) (i := i)
    h.walked.laid ⟨h.rooted, hRoot, h.lower⟩
    h.supply (fun _ => hUser) (h.installable hBack) (by simp [MapRequest.describable, hUser])
    (mapCheck_of_admits hAdmits h.bound hStack rfl rfl rfl) ?_ ?_ ?_
    (fun page hPage => leaf_free h.walked hAdmits hPage)
  · rw [Machine.mapImpl]
    exact hDone
  · exact insert_isSome_of_entries hLocal
  · exact insert_isSome_of_entries hGlobal
  · rw [← length_pages]
    exact (Nat.le_add_right _ _).trans h.enough

/-- A space as it is created, with an arena that has so many pages. -/
structure Prepared (m : Machine ι) (i : ι) (arena : ArenaId) (pages : Nat) : Prop where
  awake : m.halted = false
  bound : (m.spaces i).mappings.bound = true
  builder : (m.spaces i).builder = { arena := some arena, region := .lower }
  exact : (m.physical.arenas arena).remainingPages = pages

theorem valid_of_pages {a : EarlyPageArena} (h : a.pages ≠ []) : a.valid = true := by
  rw [valid, Bool.or_eq_true]
  by_cases hBump : a.bumpValid = true
  · exact .inl hBump
  · right
    rw [pages, bumpPages, if_neg hBump, append_nil] at h
    simpa using h

theorem initializeRoot_ok {b : EarlyStage1Builder} {p : Physical} {id : ArenaId}
    (hArena : b.arena = some id) (hRoot : b.root = 0) (hFirst : b.lifecycle = .uninitialized)
    (hPages : (p.arenas id).pages ≠ []) :
    ∃ page p', b.initializeRoot p =
        (({ b with root := page, lifecycle := .building }, p'), .ok page) ∧ p.Taken id page p' := by
  rcases allocateTable_cases hArena p with ⟨hNone, -⟩ | ⟨page, p', hTake, hTaken⟩
  · exact absurd hNone hPages
  refine ⟨page, p', ?_, hTaken⟩
  rw [initializeRoot, if_neg, if_neg, hTake]
  · simp [hRoot, hFirst]
  · simp [hArena, valid_of_pages hPages]

/-- What taking the root leaves alone. -/
structure Rooted (m : Machine ι) (i : ι) (arena : ArenaId) (m' : Machine ι) : Prop where
  tables : m'.tables = m.tables
  mappings : (m'.spaces i).mappings = (m.spaces i).mappings
  ledger : m'.ledger = m.ledger
  root : (m'.spaces i).builder.root ∈ (m.physical.arenas arena).pages

theorem Prepared.initializeTranslationRoot (h : m.Prepared i arena (1 + pages))
    (hWalked : m.Walked) :
    ∃ m', m.step (.initializeTranslationRoot i) = (m', some (.ok ())) ∧
      m'.Building i arena pages ∧ m.Rooted i arena m' := by
  have hLen := length_pages (m.physical.arenas arena)
  rw [h.exact] at hLen
  have hSome : (m.physical.arenas arena).pages ≠ [] := by
    intro hNone
    rw [hNone, length_nil] at hLen
    omega
  obtain ⟨page, p', hInitialize, hTaken⟩ := initializeRoot_ok (b := (m.spaces i).builder)
    (by rw [h.builder]) (by rw [h.builder]) (by rw [h.builder]) hSome
  have hAdvance : Advance m (.unbind i) (m.initializeTranslationRoot i).1 :=
    initializeTranslationRoot_advance hWalked i
  have hStep : m.step (.initializeTranslationRoot i) =
      ({ m.setBuilder i { (m.spaces i).builder with root := page, lifecycle := .building } with
        physical := p' }, some (.ok ())) := by
    simp only [step, h.awake, Bool.false_eq_true, if_false, perform, answered,
      Machine.initializeTranslationRoot, h.bound, Bool.not_true, hInitialize]
    rfl
  have hWalked' : (m.step (.initializeTranslationRoot i)).1.Walked := by
    simp only [step, h.awake, Bool.false_eq_true, if_false, perform, answered]
    exact hAdvance.walked
  rw [hStep] at hWalked'
  refine ⟨_, hStep, ⟨hWalked', h.awake, ?_, ?_, ?_, ?_, ?_⟩, ?_, ?_, rfl, ?_⟩
  · simp [setBuilder, h.bound]
  · simp [setBuilder, h.builder]
  · simp [setBuilder]
  · simp [setBuilder, h.builder]
  · rw [hTaken.pages, length_cons] at hLen
    show pages ≤ (p'.arenas arena).pages.length
    omega
  · exact tables_update m i rfl
  · simp [setBuilder]
  · rw [hTaken.pages]
    simp [setBuilder]

/-- Ranges for EL0 backed by memory of their own, which nothing else maps or
reserves, with a cell for each in the space and in the ledger. -/
structure Furnishes (m : Machine ι) (i : ι) (requests : List MapRequest) : Prop where
  range : ∀ r ∈ requests, r.rangeValid = true
  clear : ∀ r ∈ requests, ∀ a ∈ m.tables.spaces i,
    overlaps a.virtualBase a.length r.virtualBase r.length = false
  virtualApart : requests.Pairwise fun a b =>
    overlaps a.virtualBase a.length b.virtualBase b.length = false
  physicalApart : requests.Pairwise fun a b =>
    overlaps a.physicalBase a.length b.physicalBase b.length = false
  unmapped : ∀ r ∈ requests, ∀ e ∈ m.tables.ledger,
    overlaps e.physicalBase e.length r.physicalBase r.length = false
  unreserved : ∀ r ∈ requests, ∀ v ∈ m.tables.reservations,
    overlaps v.physicalBase v.length r.physicalBase r.length = false
  cells : (m.tables.spaces i).length + requests.length ≤ (m.spaces i).mappings.mappings.length
  ledgerCells : m.tables.ledger.length + requests.length ≤ m.ledger.mappings.length

theorem length_mapImpl (s : NativeAddressSpaceState) (i : ι) (ledger : NativePhysicalLedger ι)
    (b : EarlyStage1Builder) (p : Physical) (r : MapRequest) :
    (s.mapImpl i ledger b p r).1.1.mappings.length = s.mappings.length ∧
      (s.mapImpl i ledger b p r).1.2.1.mappings.length = ledger.mappings.length := by
  unfold NativeAddressSpaceState.mapImpl
  split
  · exact ⟨rfl, rfl⟩
  split
  · rename_i hLocal hGlobal
    dsimp only
    iterate 3
      split
      · exact ⟨rfl, rfl⟩
    · exact ⟨length_insert hLocal, length_insert hGlobal⟩
  · exact ⟨rfl, rfl⟩

variable {requests : List MapRequest}

theorem Furnishes.admits (h : m.Furnishes i (r :: requests))
    (hUser : r.IsUser) : m.tables.Admits i r := by
  have hMem : r ∈ r :: requests := mem_cons_self
  refine ⟨h.range r hMem, ?_, h.clear r hMem, ?_, ?_⟩
  · intro _
    rw [hUser]
    rfl
  · intro e he hOverlap
    rw [h.unmapped r hMem e he] at hOverlap
    cases hOverlap
  · intro v hv hOverlap
    rw [h.unreserved r hMem v hv] at hOverlap
    cases hOverlap

/-- After one map the remaining ranges are furnished as they were. -/
theorem Furnishes.mapped {m' : Machine ι}
    (h : m.Furnishes i (r :: requests)) (hMapped : m.Mapped i r m')
    (hCells : (m'.spaces i).mappings.mappings.length = (m.spaces i).mappings.mappings.length)
    (hLedgerCells : m'.ledger.mappings.length = m.ledger.mappings.length) :
    m'.Furnishes i requests := by
  have hIn : ∀ q ∈ requests, q ∈ r :: requests := fun q hq => mem_cons_of_mem _ hq
  obtain ⟨hVirtual, hVirtualRest⟩ := pairwise_cons.mp h.virtualApart
  obtain ⟨hPhys, hPhysRest⟩ := pairwise_cons.mp h.physicalApart
  have hSpaceLen := hMapped.space.length_eq
  have hLedgerLen := hMapped.ledger.length_eq
  have hRoom := h.cells
  have hLedgerRoom := h.ledgerCells
  rw [length_cons] at hSpaceLen hLedgerLen hRoom hLedgerRoom
  refine ⟨fun q hq => h.range q (hIn q hq), ?_, hVirtualRest, hPhysRest, ?_, ?_, by omega,
    by omega⟩
  · intro q hq a ha
    rcases mem_cons.mp (hMapped.space.mem_iff.mp ha) with rfl | hOld
    · exact hVirtual q hq
    · exact h.clear q (hIn q hq) a hOld
  · intro q hq e he
    rcases mem_cons.mp (hMapped.ledger.mem_iff.mp he) with rfl | hOld
    · exact hPhys q hq
    · exact h.unmapped q (hIn q hq) e hOld
  · intro q hq v hv
    rw [hMapped.reserved] at hv
    exact h.unreserved q (hIn q hq) v hv

def mapOp (i : ι) (r : MapRequest) : MachineOp ι :=
  .mapUser i r.virtualBase r.physicalBase r.length r.permissions

theorem step_mapOp (hAwake : m.halted = false) (hUser : r.IsUser) :
    m.step (mapOp i r) = m.mapImpl i r := by
  rw [step, hAwake, hUser]
  rfl

/-- The table pages the requests ask for, one after another. -/
def demand (requests : List MapRequest) : Nat :=
  (requests.map fun r => requiredTablePages r.virtualBase (pageCount r.length)).sum

theorem Building.step (h : m.Building i arena (demand (r :: requests)))
    (hUser : r.IsUser) : (m.step (mapOp i r)).1.Building i arena (demand requests) := by
  rw [step_mapOp h.awake hUser]
  refine Building.mapImpl h ?_ ?_
  all_goals
    rw [hUser]
    rfl

/-- Every request finds the pages it asks for. -/
theorem Building.budget (h : m.Building i arena (demand requests))
    (hUser : ∀ r ∈ requests, r.IsUser) {n : Nat} (hr : requests[n]? = some r) :
    requiredTablePages r.virtualBase (pageCount r.length) ≤
      ((Run.after Machine.step m ((requests.take n).map (mapOp i))).spaces
        i).builder.remainingTablePages
        (Run.after Machine.step m ((requests.take n).map (mapOp i))).physical := by
  induction requests generalizing m n with
  | nil => cases hr
  | cons first _ ih =>
    cases n with
    | zero =>
      cases hr
      exact (Nat.le_add_right _ _).trans h.remaining
    | succ =>
      exact ih (h.step (hUser first mem_cons_self))
        (fun q hq => hUser q (mem_cons_of_mem _ hq)) hr

/-- Requests with memory of their own are all granted. -/
theorem Building.granted (h : m.Building i arena (demand requests))
    (hRoot : (m.spaces i).builder.root ≠ 0) (hUser : ∀ r ∈ requests, r.IsUser)
    (hFurnishes : m.Furnishes i requests) {n : Nat} (hr : requests[n]? = some r) :
    ((Run.after Machine.step m ((requests.take n).map (mapOp i))).step (mapOp i r)).2 =
      some (.ok ()) := by
  induction requests generalizing m n with
  | nil => cases hr
  | cons first _ ih =>
    have hFirst := hUser first mem_cons_self
    have hCells := hFurnishes.cells
    have hLedgerCells := hFurnishes.ledgerCells
    rw [length_cons] at hCells hLedgerCells
    have hGranted : (m.mapImpl i first).2 = some (.ok ()) := by
      refine Building.mapImpl_ok h hRoot ?_ ?_ ?_ (hFurnishes.admits hFirst) (by omega) (by omega)
      all_goals
        rw [hFirst]
        rfl
    cases n with
    | zero =>
      cases hr
      show (m.step (mapOp i r)).2 = _
      rw [step_mapOp h.awake hFirst, hGranted]
    | succ =>
      have hNext := h.step hFirst
      have hLen := length_mapImpl (m.spaces i).mappings i m.ledger (m.spaces i).builder
        m.physical first
      refine ih (m := (m.step (mapOp i first)).1) hNext ?_
        (fun q hq => hUser q (mem_cons_of_mem _ hq)) ?_ hr
      · rw [step_mapOp h.awake hFirst, builder_mapImpl]
        exact hRoot
      rw [step_mapOp h.awake hFirst]
      rcases mapImpl_cases (Prod.eta (m.mapImpl i first)).symm with ⟨-, hNot⟩ | ⟨-, hMapped⟩
      · exact absurd hGranted hNot
      · refine hFurnishes.mapped hMapped ?_ hLen.2
        simpa [Machine.mapImpl, setMappings] using hLen.1

end Machine

end Enml.OsKernel

namespace Enml.OsImage

open Enml.Core Enml.OsKernel

variable {ι : Type} [DecidableEq ι]

/-- The permissions of the format are the machine layer's. -/
def CkxPermissions.toMachine : CkxPermissions → MachinePermissions
  | .read => .read
  | .readWrite => .readWrite
  | .readExecute => .readExecute

/-- The map of one region onto the memory chosen for it. -/
def CkxRegion.mapUser (i : ι) (backing : CkxRegion → UInt64) (region : CkxRegion) : MachineOp ι :=
  .mapUser i region.virtualAddress (backing region) region.length region.permissions.toMachine

/-- Every region lies below the user limit. -/
def CkxImage.Lower (image : CkxImage) : Prop :=
  ∀ region ∈ image.used, region.virtualAddress.toNat + region.length.toNat ≤ 2 ^ 39

/-- The memory chosen for the regions: each its own, mapped and reserved by
nothing, with a cell for each region in the space and in the ledger. Page zero
stands for no root, so it is not one of the table pages. -/
structure Backs (m : Machine ι) (i : ι) (arena : ArenaId) (backing : CkxRegion → UInt64)
    (image : CkxImage) : Prop where
  range : ∀ region ∈ image.used, physicalRangeValid (backing region) region.length = true
  apart : image.used.Pairwise fun a b => overlaps (backing a) a.length (backing b) b.length = false
  unmapped : ∀ region ∈ image.used, ∀ e ∈ m.ledger.entries,
    overlaps e.physicalBase e.length (backing region) region.length = false
  unreserved : ∀ region ∈ image.used, ∀ v ∈ m.ledger.reserves,
    overlaps v.physicalBase v.length (backing region) region.length = false
  cells : image.used.length ≤ (m.spaces i).mappings.mappings.length
  ledgerCells : m.ledger.entries.length + image.used.length ≤ m.ledger.mappings.length
  root : 0 ∉ (m.physical.arenas arena).pages

variable {bytes : List UInt8} {image : CkxImage} {region : CkxRegion}

theorem CkxImage.Accepted.rangeWithin (h : image.Accepted bytes) (hLower : image.Lower)
    (hMem : region ∈ image.used) :
    RangeWithin (2 ^ 39) region.virtualAddress region.length := by
  obtain ⟨row, hRow⟩ := h.region hMem
  obtain ⟨hBase, hLen, hPos, -⟩ := hRow.range
  exact ⟨hBase, hLen, hPos, hLower region hMem⟩

/-- Regions the parser found apart are apart for the kernel. -/
theorem overlaps_of_apart {a b : CkxRegion} (h : a.Apart b)
    (ha : RangeWithin (2 ^ 39) a.virtualAddress a.length)
    (hb : RangeWithin (2 ^ 39) b.virtualAddress b.length) :
    overlaps a.virtualAddress a.length b.virtualAddress b.length = false := by
  have hLast : ∀ {base length : UInt64}, RangeWithin (2 ^ 39) base length →
      length ≠ 0 ∧ (base + (length - 1)).toNat = base.toNat + (length.toNat - 1) := by
    intro base length hRange
    obtain ⟨-, -, hPos, hWithin⟩ := hRange
    have hLess : (length - 1).toNat = length.toNat - 1 :=
      UInt64.toNat_sub_of_le _ _ (UInt64.le_iff_toNat_le.mpr hPos)
    constructor
    · rintro rfl
      exact absurd hPos (by decide)
    · rw [UInt64.toNat_add, hLess]
      omega
  obtain ⟨hSomeA, hLastA⟩ := hLast ha
  obtain ⟨hSomeB, hLastB⟩ := hLast hb
  rw [CkxRegion.Apart, rangesOverlap, if_neg (by simp [hSomeA, hSomeB])] at h
  rw [← Bool.not_eq_true, Bool.and_eq_true, decide_eq_true_iff, decide_eq_true_iff,
    UInt64.le_iff_toNat_le, UInt64.le_iff_toNat_le, hLastA, hLastB] at h
  rw [← Bool.not_eq_true, overlaps_iff (ha.lt (by norm_num)) (hb.lt (by norm_num))]
  have hPosA := ha.2.2.1
  have hPosB := hb.2.2.1
  omega

/-- The request for one region. -/
def CkxRegion.request (backing : CkxRegion → UInt64) (region : CkxRegion) : MapRequest :=
  userRequest region.virtualAddress (backing region) region.length region.permissions.toMachine

variable {order : List CkxRegion}

theorem demand_request (h : image.Accepted bytes) (hLower : image.Lower)
    (backing : CkxRegion → UInt64) (hOrder : order.Perm image.used) :
    Machine.demand (order.map (CkxRegion.request backing)) =
      (image.used.map CkxRegion.tables).sum := by
  rw [← (hOrder.map CkxRegion.tables).sum_eq, Machine.demand, List.map_map]
  refine congrArg List.sum (List.map_congr_left fun region hMem => ?_)
  exact requiredTablePages_eq (h.rangeWithin hLower (hOrder.mem_iff.mp hMem))

theorem overlaps_symm {a la b lb : UInt64} (h : overlaps a la b lb = false) :
    overlaps b lb a la = false := by
  rwa [overlaps_comm]

omit [DecidableEq ι] in
/-- Memory of its own for each region furnishes the requests, in any order. -/
theorem Backs.furnishes {m m' : Machine ι} {i : ι} {arena : ArenaId} {backing : CkxRegion → UInt64}
    (h : Backs m i arena backing image) (hAcc : image.Accepted bytes) (hLower : image.Lower)
    (hOrder : order.Perm image.used) (hEmpty : m.tables.spaces i = [])
    (hRooted : m.Rooted i arena m') :
    m'.Furnishes i (order.map (CkxRegion.request backing)) := by
  have hMem : ∀ region ∈ order, region ∈ image.used := fun region hr => hOrder.mem_iff.mp hr
  have hVirtual : image.used.Pairwise fun a b =>
      overlaps a.virtualAddress a.length b.virtualAddress b.length = false :=
    hAcc.apart.imp_of_mem fun {a b} ha hb hApart =>
      overlaps_of_apart hApart (hAcc.rangeWithin hLower ha) (hAcc.rangeWithin hLower hb)
  refine ⟨?_, ?_, ?_, ?_, ?_, ?_, ?_, ?_⟩
  · rw [List.forall_mem_map]
    intro region hr
    refine (MapRequest.rangeValid_iff _).mpr ⟨?_, hAcc.rangeWithin hLower (hMem region hr)⟩
    exact (physicalRangeValid_iff _ _).mp (h.range region (hMem region hr))
  · intro r _ a ha
    rw [hRooted.tables, hEmpty] at ha
    cases ha
  · exact List.pairwise_map.mpr ((hOrder.pairwise_iff overlaps_symm).mpr hVirtual)
  · exact List.pairwise_map.mpr ((hOrder.pairwise_iff overlaps_symm).mpr h.apart)
  · rw [hRooted.tables, List.forall_mem_map]
    exact fun region hr => h.unmapped region (hMem region hr)
  · rw [hRooted.tables, List.forall_mem_map]
    exact fun region hr => h.unreserved region (hMem region hr)
  · rw [hRooted.tables, hRooted.mappings, hEmpty, List.length_map, hOrder.length_eq]
    simpa using h.cells
  · rw [hRooted.tables, hRooted.ledger, List.length_map, hOrder.length_eq]
    exact h.ledgerCells

/-- The machine while the regions are mapped, the root first. -/
def constructed (start : Machine ι) (i : ι) (backing : CkxRegion → UInt64)
    (done : List CkxRegion) : Machine ι :=
  Run.after Machine.step start
    (.initializeTranslationRoot i :: done.map (CkxRegion.mapUser i backing))

theorem constructed_eq {start m : Machine ι} {i : ι} {result : Option (Result Unit)}
    (h : start.step (.initializeTranslationRoot i) = (m, result)) (backing : CkxRegion → UInt64)
    (order : List CkxRegion) (n : Nat) :
    constructed start i backing (order.take n) = Run.after Machine.step m
      (((order.map (CkxRegion.request backing)).take n).map (Machine.mapOp i)) := by
  rw [constructed, ← List.map_take, List.map_map, Run.after, List.foldl_cons, h]
  rfl

/-- The maps of the regions, in any order, from a machine in a state of its runs. -/
theorem constructed_step {start : Machine ι} {i : ι} {arena : ArenaId}
    (hAcc : image.Accepted bytes) (hLower : image.Lower) (hWalked : start.Walked)
    (hPrepared : start.Prepared i arena (1 + (image.used.map CkxRegion.tables).sum))
    (hOrder : order.Perm image.used) (backing : CkxRegion → UInt64) {n : Nat}
    (hRegion : order[n]? = some region) :
    requiredTablePages region.virtualAddress (pageCount region.length) ≤
        ((constructed start i backing (order.take n)).spaces i).builder.remainingTablePages
          (constructed start i backing (order.take n)).physical ∧
      (Backs start i arena backing image →
        ((constructed start i backing (order.take n)).step (region.mapUser i backing)).2 =
          some (.ok ())) := by
  rw [← demand_request hAcc hLower backing hOrder] at hPrepared
  obtain ⟨m, hRoot, hBuilding, hRooted⟩ := hPrepared.initializeTranslationRoot hWalked
  have hUser : ∀ r ∈ order.map (CkxRegion.request backing), r.IsUser := by
    rw [List.forall_mem_map]
    exact fun _ _ => rfl
  have hReq : (order.map (CkxRegion.request backing))[n]? = some (region.request backing) := by
    rw [List.getElem?_map, hRegion]
    rfl
  rw [constructed_eq hRoot]
  have hBudget := hBuilding.budget hUser hReq
  refine ⟨hBudget, fun hBacks => ?_⟩
  have hEmpty : start.tables.spaces i = [] := by
    by_contra hSome
    have hHosts := (hWalked.hosts i hSome).nonzero
    rw [hPrepared.builder] at hHosts
    exact hHosts rfl
  have hNonzero : (m.spaces i).builder.root ≠ 0 := by
    intro hZero
    refine hBacks.root ?_
    rw [← hZero]
    exact hRooted.root
  have hFurnishes := hBacks.furnishes hAcc hLower hOrder hEmpty hRooted
  have hGranted := hBuilding.granted hNonzero hUser hFurnishes hReq
  exact hGranted

/-- The budget of an accepted image is what it is in exact arithmetic. A space
whose arena has just that many pages gets its root, and whatever the order of the
regions each finds the table pages its map asks for; with memory of its own for
each region, every map is granted. -/
theorem construction_budget_suffices (hParse : parseCkx bytes = .ok image) :
    ((aarch64ConstructionCost image).backingPages.toNat =
        (image.used.map fun region => region.length.toNat / 4096).sum ∧
      (aarch64ConstructionCost image).tablePages.toNat =
        1 + (image.used.map CkxRegion.tables).sum) ∧
    (image.Lower → ∀ (order : List CkxRegion) (physical : Physical) (history : List (MachineOp ι))
      (i : ι) (arena : ArenaId) (backing : CkxRegion → UInt64),
      order.Perm image.used → physical.DistinctPages →
      Run.EachStep Machine.step Machine.KeepsPages (Machine.fresh ι physical) history →
      let start := Run.after Machine.step (Machine.fresh ι physical) history
      start.Prepared i arena (aarch64ConstructionCost image).tablePages.toNat →
      (start.step (.initializeTranslationRoot i)).2 = some (.ok ()) ∧
      ∀ n region, order[n]? = some region →
        let m := constructed start i backing (order.take n)
        requiredTablePages region.virtualAddress (pageCount region.length) ≤
          (m.spaces i).builder.remainingTablePages m.physical ∧
        (Backs start i arena backing image →
          (m.step (region.mapUser i backing)).2 = some (.ok ()))) := by
  have hAcc := accepted_of_parse hParse
  have hCost := toNat_cost hAcc
  refine ⟨hCost, ?_⟩
  intro hLower order physical history i arena backing hOrder hPages hKeeps start hPrepared
  have hWalked := (Machine.walked_run hPages hKeeps).final
  rw [hCost.2] at hPrepared
  obtain ⟨m, hRoot, -⟩ := hPrepared.initializeTranslationRoot hWalked
  refine ⟨by rw [hRoot], fun n region hRegion => ?_⟩
  exact constructed_step hAcc hLower hWalked hPrepared hOrder backing hRegion

/-- Code, and data in another block of the address space. -/
def codeAndData : CkxImage where
  formatVersion := 1
  entry := 0x10000000
  authorityCeiling := CkxAuthority.unprivileged
  regions := fillRegions
    [{ virtualAddress := 0x10000000, length := 0x2000, permissions := .readExecute,
       content := .named, digest := Vector.replicate ckxDigestBytes 0xA1 },
     { virtualAddress := 0x10400000, length := 0x3000, permissions := .readWrite }]
  regionCount := 2

/-- A space for it, with the five table pages its budget asks for. -/
def codeAndDataHistory : List (MachineOp Nat) :=
  .create 1 0 .lower :: [0x100000, 0x101000, 0x102000, 0x103000, 0x104000].map
    (.donateTablePage 1 0)

/-- The data is mapped first, each region to memory of its own. -/
theorem code_and_data_constructed :
    parseCkx (encode codeAndData) = .ok codeAndData ∧
      (aarch64ConstructionCost codeAndData).tablePages = 5 ∧
      ∀ n region, codeAndData.used.reverse[n]? = some region →
        ((constructed (Run.after Machine.step (Machine.fresh Nat {}) codeAndDataHistory) 1
          (fun region => region.virtualAddress + 0x70000000)
          (codeAndData.used.reverse.take n)).step
            (region.mapUser 1 fun region => region.virtualAddress + 0x70000000)).2 =
          some (.ok ()) := by
  have hParse : parseCkx (encode codeAndData) = .ok codeAndData := by decide +kernel
  refine ⟨hParse, by decide +kernel, ?_⟩
  have hKeeps : Run.EachStep Machine.step Machine.KeepsPages (Machine.fresh Nat {})
      codeAndDataHistory :=
    Machine.keepsPages_stocked [0x100000, 0x101000, 0x102000, 0x103000, 0x104000] [] (by decide)
      (by simp)
  obtain ⟨-, hBuild⟩ := construction_budget_suffices (ι := Nat) hParse
  obtain ⟨-, hRegions⟩ := hBuild (by unfold CkxImage.Lower; decide +kernel)
    codeAndData.used.reverse {} codeAndDataHistory 1 0
    (fun region => region.virtualAddress + 0x70000000) (List.reverse_perm _)
    Physical.distinctPages_empty hKeeps
    ⟨by decide +kernel, by decide +kernel, by decide +kernel, by decide +kernel⟩
  intro n region hRegion
  refine (hRegions n region hRegion).2 ⟨?_, ?_, ?_, ?_, ?_, ?_, ?_⟩
  all_goals decide +kernel

end Enml.OsImage
