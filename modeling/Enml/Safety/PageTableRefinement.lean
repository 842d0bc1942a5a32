import Enml.Safety.PageTableSteps

/-! The page tables say what the mapping table says: the walk of a space's tables
ends at the descriptor of the mapping that covers the address, and at no valid
leaf where none does. -/
namespace Enml.OsKernel

open Enml.Core Function RadixTable EarlyStage1Builder Descriptor List Run

/-- The valid leaf a walk for the address ends at, if it does. -/
def EarlyStage1Builder.translation (b : EarlyStage1Builder) (mem : Memory) (va : UInt64) :
    Option UInt64 :=
  match b.leafPointer mem va with
  | .error _ => none
  | .ok leaf => if mem leaf &&& valid = 0 then none else some (mem leaf)

/-- What the builder installs: a descriptor for EL0 or for the kernel. -/
def IsDescriptor (leaf : UInt64) : Prop :=
  ∃ pa permissions, leaf = userPageDescriptor pa permissions ∨
    ∃ kind, leaf = pageDescriptor pa permissions kind

theorem IsDescriptor.bits {leaf : UInt64} (h : IsDescriptor leaf) (hNonzero : leaf ≠ 0) :
    leaf &&& valid ≠ 0 ∧ leaf &&& tableOrPage ≠ 0 := by
  obtain ⟨pa, permissions, hUser | ⟨kind, hKernel⟩⟩ := h
  · subst hUser
    apply userPageDescriptor_bits
    by_contra hAddr
    exact hNonzero (by simp [userPageDescriptor, hAddr])
  subst hKernel
  apply pageDescriptor_bits
  · by_contra hAddr
    exact hNonzero (by simp [pageDescriptor, hAddr])
  by_contra hKind
  simp only [Bool.not_eq_false, Bool.and_eq_true, MachinePermissions.executable,
    beq_iff_eq] at hKind
  apply hNonzero
  rw [hKind.1, hKind.2, pageDescriptor]
  split
  all_goals rfl

variable {ι : Type} [DecidableEq ι]

namespace Machine

variable {m : Machine ι} {physical : Physical} {ops : List (MachineOp ι)} {va : UInt64}

/-- The valid leaf a walk of the space's tables ends at. -/
def translation (m : Machine ι) (i : ι) (va : UInt64) : Option UInt64 :=
  (m.spaces i).builder.translation m.physical.memory va

/-- The tables of all spaces, at every level, are different pages. -/
def TablesApart (m : Machine ι) : Prop :=
  ∀ i s i' s' page, s.length ≤ 2 → s'.length ≤ 2 →
    table stage1Format m.physical.memory m.roots i s = some page →
      table stage1Format m.physical.memory m.roots i' s' = some page → i = i' ∧ s = s'

/-- Installing a leaf changes the translation of its own address only. -/
def InstallsLocally (m : Machine ι) : Prop :=
  ∀ i va leaf p', IsDescriptor leaf →
    (m.spaces i).builder.installLeaf m.physical va leaf = (p', .ok ()) →
      ∀ k va', pageAligned va' = true → stage1VirtualAddress va' = true → (k, va') ≠ (i, va) →
        (m.spaces k).builder.translation p'.memory va' = m.translation k va'

/-- A bare clear took the leaf of the address, and the mapping has been in the
table ever since. -/
def ClearedSince (start : Machine ι) (ops : List (MachineOp ι)) (n : Nat) (i : ι) (va : UInt64)
    (mapping : NativeMapping) : Prop :=
  ∃ k < n, ops[k]? = some (.clearLeaf i va) ∧ ∀ j, k ≤ j → j ≤ n →
    mapping ∈ ((after step start (ops.take j)).spaces i).mappings.entries

omit [DecidableEq ι] in
theorem translation_of_check {b : EarlyStage1Builder} {mem : Memory} {roots : ι → Option UInt64}
    {i : ι} (h : Tables mem roots) (hRoot : roots i = some b.root)
    (hCheck : b.checkAddress va = .ok ()) :
    b.translation mem va = if leafOf mem roots i va &&& valid = 0 then none
      else some (leafOf mem roots i va) := by
  rw [EarlyStage1Builder.translation, EarlyStage1Builder.leafPointer_eq h hRoot hCheck, leafOf]
  cases hTbl : table stage1Format mem roots i (leafPath va) with
  | none =>
    rw [entry_of_none hTbl]
    rfl
  | some => rw [entry_of_table hTbl]

theorem translation_of_refused {b : EarlyStage1Builder} {mem : Memory} {e : Error}
    (hCheck : b.checkAddress va = .error e) : b.translation mem va = none := by
  have hPtr : b.leafPointer mem va = .error e := by
    unfold leafPointer
    rw [hCheck]
    rfl
  rw [EarlyStage1Builder.translation, hPtr]

theorem Walked.translation_absent (h : m.Walked) {i : ι}
    (hZero : m.leaf i va = 0) : m.translation i va = none := by
  cases hCheck : (m.spaces i).builder.checkAddress va with
  | error => exact translation_of_refused hCheck
  | ok =>
    have hRoot := roots_of_root h.proper (checkAddress_ok hCheck).1
    rw [translation, translation_of_check h.laid.tables hRoot hCheck]
    rw [leaf] at hZero
    rw [hZero]
    rfl

theorem Walked.translation_covered (h : m.Walked) {i : ι} {a : NativeMapping}
    (hMem : a ∈ m.tables.spaces i) (ha : va.toNat % 4096 = 0) (hCovers : a.CoversVirtual va.toNat)
    (hLeaf : m.leaf i va = a.descriptor va) (hValid : a.descriptor va &&& valid ≠ 0) :
    m.translation i va = some (a.descriptor va) := by
  have hHosts := h.hosts i (ne_nil_of_mem hMem)
  have hb := lower_of_covers (h.consistent.range i a hMem).2 hCovers
  rw [leaf] at hLeaf
  rw [translation, translation_of_check h.laid.tables hHosts.rooted
    (checkAddress_lower hHosts.nonzero hHosts.lower ha hb), hLeaf,
    if_neg hValid]

theorem Walked.installsLocally (h : m.Walked) : m.InstallsLocally := by
  intro i va leaf p' hDesc hInstall k va' hAligned hLower hOther
  have ha' := (pageAligned_iff va').mp hAligned
  have hb' := (stage1VirtualAddress_iff va').mp hLower
  have hCheck : (m.spaces i).builder.checkAddress va = .ok () := by
    cases hCheck : (m.spaces i).builder.checkAddress va with
    | ok => rfl
    | error =>
      rw [installLeaf, hCheck] at hInstall
      cases congrArg Prod.snd hInstall
  have hNonzero : leaf ≠ 0 := by
    rintro rfl
    rw [installLeaf, hCheck] at hInstall
    cases congrArg Prod.snd hInstall
  obtain ⟨hRootNe, ha, hAccepts⟩ := checkAddress_ok hCheck
  have hRoot := roots_of_root h.proper hRootNe
  obtain ⟨id, hArena⟩ := Option.ne_none_iff_exists'.mp
    ((h.proper i).2 fun hNone => hRootNe ((h.proper i).1 hNone))
  rcases installLeaf_cases h.laid hArena hRoot hCheck
      (hDesc.bits hNonzero) with ⟨p₁, hDone, hInstalled⟩ | ⟨p₁, e, hFail, -⟩
  swap
  · rw [hFail] at hInstall
    cases congrArg Prod.snd hInstall
  rw [hDone] at hInstall
  cases hInstall
  cases hCheck' : (m.spaces k).builder.checkAddress va' with
  | error => rw [translation, translation_of_refused hCheck', translation_of_refused hCheck']
  | ok =>
    obtain ⟨hRootNe', -, hAccepts'⟩ := checkAddress_ok hCheck'
    have hRoot' := roots_of_root h.proper hRootNe'
    have hSame : leafOf p'.memory m.roots k va' = leafOf m.physical.memory m.roots k va' := by
      rw [leafOf, hInstalled.leaves k (leafPath va') (index3 va') rfl, if_neg]
      · rfl
      rintro ⟨rfl, hPath, hIdx⟩
      have hRegion := region_of_accepts hAccepts' hb'
      rw [acceptsVirtualAddress, hRegion] at hAccepts
      have hb := (stage1VirtualAddress_iff va).mp hAccepts
      exact hOther (by rw [eq_of_indices ha' ha hb' hb hPath hIdx])
    rw [translation, translation_of_check hInstalled.laid.tables hRoot' hCheck',
      translation_of_check h.laid.tables hRoot' hCheck', hSame]

/-- Tables and mappings agree in every state of a run that keeps its pages apart. -/
theorem walked_run (hPages : physical.DistinctPages)
    (hOps : Run.EachStep step KeepsPages (fresh ι physical) ops) :
    Run.Always step Walked (fresh ι physical) ops := by
  refine always_of_step (walked_fresh hPages) ?_ hOps
  intro m op h hOp
  exact (step_advance h hOp).walked

/-- The leaf of a page of a mapping is its descriptor, unless it was cleared by
itself since the mapping was made. The induction is on the steps. -/
theorem covered_run (hPages : physical.DistinctPages)
    (hOps : Run.EachStep step KeepsPages (fresh ι physical) ops) (n : Nat) {i : ι}
    {a : NativeMapping}
    (hMem : a ∈ (after step (fresh ι physical) (ops.take n)).tables.spaces i)
    (ha : va.toNat % 4096 = 0) (hCovers : a.CoversVirtual va.toNat) :
    ((after step (fresh ι physical) (ops.take n)).leaf i va = a.descriptor va ∧
        a.descriptor va &&& valid ≠ 0) ∨
      (after step (fresh ι physical) (ops.take n)).leaf i va = 0 ∧
        ClearedSince (fresh ι physical) ops n i va a := by
  induction n with
  | zero =>
    exfalso
    change a ∈ (fresh ι physical).tables.spaces i at hMem
    rw [spaces_fresh] at hMem
    cases hMem
  | succ n ih =>
    have hExtend : a ∈ (after step (fresh ι physical) (ops.take n)).tables.spaces i →
        ClearedSince (fresh ι physical) ops n i va a →
          ClearedSince (fresh ι physical) ops (n + 1) i va a := by
      rintro - ⟨k, hk, hOp, hSince⟩
      refine ⟨k, by omega, hOp, ?_⟩
      intro j hkj hjn
      rcases Nat.lt_or_ge n j with hLast | hEarlier
      · have hj : j = n + 1 := by omega
        rw [hj]
        exact hMem
      · exact hSince j hkj hEarlier
    cases hOp : ops[n]? with
    | none =>
      have hMemOld := hMem
      rw [take_succ_of_none hOp] at hMemOld ⊢
      rcases ih hMemOld with hLeaf | ⟨hZero, hSince⟩
      · exact .inl hLeaf
      · exact .inr ⟨hZero, hExtend hMemOld hSince⟩
    | some op =>
      have hWalked := walked_run hPages hOps n
      have hStep := step_advance hWalked (hOps n op hOp)
      have hMemNew := hMem
      rw [after_take_succ hOp] at hMemNew ⊢
      rcases hStep.leaves i a va hMemNew ha hCovers with ⟨hMemOld, hKept | ⟨hClear, hZero⟩⟩ | hNew
      · rw [hKept]
        rcases ih hMemOld with hLeaf | ⟨hZero, hSince⟩
        · exact .inl hLeaf
        · exact .inr ⟨hZero, hExtend hMemOld hSince⟩
      · refine .inr ⟨hZero, n, by omega, by rw [hOp, hClear], ?_⟩
        intro j hnj hjn
        rcases Nat.lt_or_ge n j with hLast | hEarlier
        · have hj : j = n + 1 := by omega
          rw [hj]
          exact hMem
        · have hj : j = n := by omega
          rw [hj]
          exact hMemOld
      · exact .inl hNew

/-- In every state of a run the walk of a space's tables finds, for a page of a
mapping, the descriptor of the mapping (or nothing, where a bare clear has taken
the leaf and the mapping is still to be retired), and for any other page no valid
leaf. No two tables share a page, and a leaf is installed without effect on any
other address. -/
theorem page_tables_refine_mappings (physical : Physical) (ops : List (MachineOp ι))
    (hPages : physical.DistinctPages)
    (hOps : Run.EachStep step KeepsPages (fresh ι physical) ops) (n : Nat) :
    let m := after step (fresh ι physical) (ops.take n)
    (∀ i, ∀ mapping ∈ (m.spaces i).mappings.entries, ∀ va, pageAligned va = true →
        mapping.CoversVirtual va.toNat → m.translation i va = some (mapping.descriptor va) ∨
            m.translation i va = none ∧ ClearedSince (fresh ι physical) ops n i va mapping) ∧
      (∀ i va, pageAligned va = true → stage1VirtualAddress va = true →
        (∀ mapping ∈ (m.spaces i).mappings.entries, ¬ mapping.CoversVirtual va.toNat) →
          m.translation i va = none) ∧
      m.TablesApart ∧ m.InstallsLocally := by
  have hWalked := walked_run hPages hOps n
  refine ⟨?_, ?_, hWalked.laid.tables.separate.apart, hWalked.installsLocally⟩
  · intro i mapping hMem va hAligned hCovers
    have ha := (pageAligned_iff va).mp hAligned
    rcases covered_run hPages hOps n hMem ha hCovers with ⟨hLeaf, hValid⟩ | ⟨hZero, hSince⟩
    · exact .inl (hWalked.translation_covered hMem ha hCovers hLeaf hValid)
    · exact .inr ⟨hWalked.translation_absent hZero, hSince⟩
  · intro i va hAligned hLower hNone
    exact hWalked.translation_absent (hWalked.absent i va ((pageAligned_iff va).mp hAligned)
      ((stage1VirtualAddress_iff va).mp hLower) hNone)

/-- No space has a root yet, and the arenas have pages of a list only. -/
structure Stocking (m : Machine ι) (given : List UInt64) : Prop where
  unrooted : ∀ i, (m.spaces i).builder.lifecycle = .uninitialized
  pages : ∀ id, ∀ q ∈ (m.physical.arenas id).pages, q ∈ given

theorem Stocking.keepsPages {given : List UInt64} {i : ι} {arena : ArenaId} {page : UInt64}
    (h : m.Stocking given) (hNew : page ∉ given) :
    m.KeepsPages (.donateTablePage i arena page) := by
  rintro _ _ _ ⟨⟩ - (⟨k, s, -, hTbl⟩ | ⟨id, hMem⟩)
  · have hNone : ∀ s, table stage1Format m.physical.memory m.roots k s = none := by
      intro s
      induction s with
      | nil => rw [table, roots, if_pos (h.unrooted k)]
      | cons c s ih => rw [table, ih, Option.bind_none]
    rw [hNone] at hTbl
    cases hTbl
  · exact hNew (h.pages id page hMem)

theorem Stocking.donate {given : List UInt64} (h : m.Stocking given) (i : ι) (arena : ArenaId)
    (page : UInt64) : (m.step (.donateTablePage i arena page)).1.Stocking (page :: given) := by
  have hOld : m.Stocking (page :: given) :=
    ⟨h.unrooted, fun id q hq => mem_cons_of_mem _ (h.pages id q hq)⟩
  unfold step
  split
  · exact hOld
  show (m.donateTablePage i arena page).1.Stocking (page :: given)
  have hReserved : (m.reservePhysical i page architecturalPageSize .kernelPrivate).1.Stocking
      (page :: given) := ⟨hOld.unrooted, hOld.pages⟩
  unfold donateTablePage
  split
  · rename_i hDone
    rwa [hDone] at hReserved
  rename_i m₁ hDone
  rw [hDone] at hReserved
  dsimp only
  rcases donate_cases (m₁.physical.arenas arena) page with ⟨e, hFail⟩ | ⟨a', hGiven, hPages, -⟩
  · rw [hFail, update_eq_self]
    exact hReserved
  rw [hGiven]
  refine ⟨hReserved.unrooted, ?_⟩
  intro id q hq
  rcases eq_or_ne id arena with rfl | hid
  · change q ∈ (update m₁.physical.arenas id a' id).pages at hq
    rw [update_self, hPages] at hq
    rcases mem_cons.mp hq with rfl | hOwn
    · exact mem_cons_self
    · exact hReserved.pages id q hOwn
  · change q ∈ (update m₁.physical.arenas arena a' id).pages at hq
    rw [update_of_ne hid] at hq
    exact hReserved.pages id q hq

/-- A space given different pages before anything else is done with it. -/
theorem keepsPages_stocked (pages : List UInt64) (rest : List (MachineOp ι)) {i : ι}
    {arena : ArenaId} {region : Stage1Region} (hNodup : pages.Nodup)
    (hRest : ∀ op ∈ rest, ∀ i arena page, op ≠ .donateTablePage i arena page) :
    Run.EachStep step KeepsPages (fresh ι {})
      (.create i arena region :: (pages.map (.donateTablePage i arena) ++ rest)) := by
  have hStocked : ∀ (m : Machine ι) (given : List UInt64), m.Stocking given → pages.Disjoint given →
      Run.EachStep step KeepsPages m (pages.map (.donateTablePage i arena) ++ rest) := by
    induction pages with
    | nil =>
      rintro m given - - n op hOp i' arena' page rfl
      exact absurd rfl (hRest _ (mem_of_getElem? hOp) i' arena' page)
    | cons page pages ih =>
      intro m given h hApart
      obtain ⟨hPage, hPages⟩ := nodup_cons.mp hNodup
      obtain ⟨hNew, hApart⟩ := disjoint_cons_left.mp hApart
      exact .cons (h.keepsPages hNew) (ih hPages _ _ (h.donate i arena page)
        (disjoint_cons_right.mpr ⟨hPage, hApart⟩))
  refine .cons (fun _ _ _ hOp => nomatch hOp)
    (hStocked _ [] ⟨?_, ?_⟩ (disjoint_nil_right _))
  · intro k
    rcases eq_or_ne k i with rfl | hk
    · simp [step, perform, answered, fresh, createAddressSpace, NativeAddressSpaceState.bind]
    · simp [step, perform, answered, fresh, createAddressSpace, NativeAddressSpaceState.bind,
        update_of_ne hk]
  · intro id q hq
    change q ∈ ({} : EarlyPageArena).pages at hq
    cases hq

/-- A space that maps two pages for EL0. -/
def mappingRun : List (MachineOp Nat) :=
  [ .create 1 0 .lower, .donateTablePage 1 0 0x100000, .donateTablePage 1 0 0x101000,
    .donateTablePage 1 0 0x102000,
    .initializeTranslationRoot 1,
    .mapUser 1 0x400000 0x800000 0x2000 .readWrite ]

/-- The second page translates to the second physical page. -/
theorem page_tables_refine_mappingRun :
    (Physical.DistinctPages {} ∧ Run.EachStep step KeepsPages (fresh Nat {}) mappingRun) ∧
      (after step (fresh Nat {}) (mappingRun.take 6)).translation 1 0x401000 =
        some (userPageDescriptor 0x801000 .readWrite) := by
  have hPages : Physical.DistinctPages {} := Physical.distinctPages_empty
  have hOps : Run.EachStep step KeepsPages (fresh Nat {}) mappingRun :=
    keepsPages_stocked [0x100000, 0x101000, 0x102000] _ (by decide) (by simp)
  refine ⟨⟨hPages, hOps⟩, ?_⟩
  obtain ⟨hCovered, -⟩ := page_tables_refine_mappings {} mappingRun hPages hOps 6
  have hWalk := hCovered 1
    { virtualBase := 0x400000, physicalBase := 0x800000, length := 0x2000
      permissions := .readWrite, userAccessible := true, occupied := true }
    (by decide +kernel) 0x401000 (by decide) ⟨by decide, by decide⟩
  rcases hWalk with hLeaf | ⟨-, k, -, hClear, -⟩
  · exact hLeaf
  · have hMem := mem_of_getElem? hClear
    simp [mappingRun] at hMem

end Machine

open Machine

end Enml.OsKernel
