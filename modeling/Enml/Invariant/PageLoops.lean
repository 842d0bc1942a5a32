import Enml.Invariant.Mapping
import Enml.Invariant.PageTables

/-! The loops over the pages of a range: the checks that all pages are mapped or
none is, the install loop of a map and the clearing loop of an unmap. A map that
has passed its checks cannot run out of table pages on the way. -/
namespace Enml.OsKernel

open Enml.Core RadixTable List Descriptor MapRequest EarlyStage1Builder

variable {virtualBase : UInt64} {p : Physical} {va : UInt64}
  {ι : Type} {page first : Nat} {rest pages : List Nat} {c : TableCount} {id : ArenaId}

theorem pageCount_eq (length : UInt64) : pageCount length = length.toNat / 4096 := by rfl

variable {limit : Nat} {base length pa : UInt64}

theorem toNat_pageAt (h : RangeWithin limit base length) (hLimit : limit ≤ 2 ^ 48)
    (hPage : page < pageCount length) : (pageAt base page).toNat = base.toNat + 4096 * page := by
  obtain ⟨-, -, -, hWithin⟩ := h
  rw [pageCount_eq] at hPage
  have hSize : architecturalPageSize.toNat = 4096 := rfl
  have hNum : (UInt64.ofNat page).toNat = page := by
    rw [UInt64.toNat_ofNat', Nat.mod_eq_of_lt (by omega)]
  rw [pageAt, UInt64.toNat_add, UInt64.toNat_mul, hNum, hSize]
  omega

/-- A page of the range is aligned and ends below the limit. -/
theorem pageAt_within (h : RangeWithin limit base length) (hLimit : limit ≤ 2 ^ 48)
    (hPage : page < pageCount length) :
    (pageAt base page).toNat % 4096 = 0 ∧ (pageAt base page).toNat < limit := by
  have hNat := toNat_pageAt h hLimit hPage
  obtain ⟨hBase, hLen, -, hWithin⟩ := h
  rw [pageCount_eq] at hPage
  omega

theorem pageAt_inj (h : RangeWithin limit base length) (hLimit : limit ≤ 2 ^ 48) {page' : Nat}
    (hPage : page < pageCount length) (hPage' : page' < pageCount length)
    (hSame : pageAt base page = pageAt base page') : page = page' := by
  have hNat := congrArg UInt64.toNat hSame
  rw [toNat_pageAt h hLimit hPage, toNat_pageAt h hLimit hPage'] at hNat
  omega

theorem pageAt_ne_of_nodup (h : RangeWithin limit base length) (hLimit : limit ≤ 2 ^ 48)
    (hPages : ∀ page ∈ first :: rest, page < pageCount length) (hNodup : (first :: rest).Nodup) :
    ∀ page ∈ rest, pageAt base first ≠ pageAt base page := by
  intro page hPage hSame
  have hEq := pageAt_inj h hLimit (hPages first mem_cons_self)
    (hPages page (mem_cons_of_mem _ hPage)) hSame
  exact (nodup_cons.mp hNodup).1 (hEq ▸ hPage)

/-- The aligned addresses of a range are its pages. -/
theorem exists_pageAt_iff (h : RangeWithin limit base length)
    (hLimit : limit ≤ 2 ^ 48) (ha : va.toNat % 4096 = 0) :
    (∃ page < pageCount length, va = pageAt base page) ↔
      base.toNat ≤ va.toNat ∧ va.toNat < base.toNat + length.toNat := by
  constructor
  · rintro ⟨page, hPage, rfl⟩
    have hNat := toNat_pageAt h hLimit hPage
    rw [pageCount_eq] at hPage
    omega
  rintro ⟨hLower, hUpper⟩
  have hPage : (va.toNat - base.toNat) / 4096 < pageCount length := by
    rw [pageCount_eq]
    obtain ⟨hBase, hLen, -, -⟩ := h
    omega
  refine ⟨(va.toNat - base.toNat) / 4096, hPage, ?_⟩
  apply UInt64.toNat_inj.mp
  rw [toNat_pageAt h hLimit hPage]
  obtain ⟨hBase, -, -, -⟩ := h
  omega

/-- The leaf a mapping has at an address: its physical base plus the offset, with
its permissions, for EL0 or for the kernel alone. -/
def NativeMapping.descriptor (m : NativeMapping) (va : UInt64) : UInt64 :=
  if m.userAccessible then
    userPageDescriptor (m.physicalBase + (va - m.virtualBase)) m.permissions
  else pageDescriptor (m.physicalBase + (va - m.virtualBase)) m.permissions m.kind

/-- Only executable device memory has no descriptor. -/
def MapRequest.describable (r : MapRequest) : Bool :=
  r.userAccessible || !(r.permissions.executable && r.kind == .device)

/-- The two bits every descriptor starts from stay set. -/
theorem descriptor_bits (field rest : UInt64) :
    (field ||| (valid ||| (tableOrPage ||| rest))) &&& valid ≠ 0 ∧
      (field ||| (valid ||| (tableOrPage ||| rest))) &&&
        tableOrPage ≠ 0 := by
  constructor
  · exact or_and_ne_zero_right (or_and_ne_zero_left (by decide) _) _
  · exact or_and_ne_zero_right (or_and_ne_zero_right (or_and_ne_zero_left (by decide) _) _) _

theorem userPageDescriptor_bits (h : stage1PhysicalAddress pa = true)
    (permissions : MachinePermissions) :
    userPageDescriptor pa permissions &&& valid ≠ 0 ∧
      userPageDescriptor pa permissions &&& tableOrPage ≠ 0 := by
  unfold userPageDescriptor
  rw [if_neg (by simp [h])]
  cases permissions with
  | read | readWrite | readExecute =>
    simp only [UInt64.or_assoc]
    exact descriptor_bits _ _

theorem pageDescriptor_bits (h : stage1PhysicalAddress pa = true)
    {permissions : MachinePermissions} {kind : MachineMemoryKind}
    (hKind : (permissions.executable && kind == .device) = false) :
    pageDescriptor pa permissions kind &&& valid ≠ 0 ∧
      pageDescriptor pa permissions kind &&& tableOrPage ≠ 0 := by
  unfold pageDescriptor
  rw [if_neg (by simp [h])]
  cases permissions with
  | read | readWrite =>
    cases kind with
    | normal =>
      simp only [UInt64.or_assoc]
      exact descriptor_bits _ _
    | device =>
      simp only [UInt64.or_assoc]
      exact descriptor_bits _ _
  | readExecute =>
    cases kind with
    | normal =>
      simp only [UInt64.or_assoc]
      exact descriptor_bits _ _
    | device => cases hKind

namespace MapRequest

variable {r : MapRequest}

/-- The leaf the install loop writes for a page. -/
def leaf (r : MapRequest) (page : Nat) : UInt64 :=
  if r.userAccessible then userPageDescriptor (pageAt r.physicalBase page) r.permissions
  else pageDescriptor (pageAt r.physicalBase page) r.permissions r.kind

theorem leaf_eq_descriptor (r : MapRequest) (page : Nat) :
    r.leaf page = r.toMapping.descriptor (pageAt r.virtualBase page) := by
  have hOffset : r.physicalBase + (pageAt r.virtualBase page - r.virtualBase) =
      pageAt r.physicalBase page := by
    rw [pageAt, pageAt, UInt64.add_comm r.virtualBase, UInt64.add_sub_cancel]
  rw [leaf, NativeMapping.descriptor]
  simp only [toMapping, hOffset]

theorem leaf_bits (hRange : RangeWithin (2 ^ 48) r.physicalBase r.length)
    (hPage : page < pageCount r.length) (hDesc : r.describable = true) :
    r.leaf page &&& valid ≠ 0 ∧ r.leaf page &&& tableOrPage ≠ 0 := by
  have hAddr : stage1PhysicalAddress (pageAt r.physicalBase page) = true :=
    (stage1PhysicalAddress_iff _).mpr (pageAt_within hRange (Nat.le_refl _) hPage)
  unfold leaf
  split
  · exact userPageDescriptor_bits hAddr r.permissions
  rename_i hKernel
  apply pageDescriptor_bits hAddr
  rw [describable, Bool.or_eq_true] at hDesc
  rcases hDesc with hUser | hKind
  · exact absurd hUser hKernel
  · rwa [Bool.not_eq_true'] at hKind

theorem leaf_eq_zero (hDesc : r.describable = false) (page : Nat) : r.leaf page = 0 := by
  simp only [describable, Bool.or_eq_false_iff, Bool.not_eq_false', Bool.and_eq_true,
    beq_iff_eq] at hDesc
  obtain ⟨hKernel, hExec, hDevice⟩ := hDesc
  have hPerms : r.permissions = .readExecute := by simpa [MachinePermissions.executable] using hExec
  rw [leaf, hKernel, hDevice, hPerms, if_neg Bool.false_ne_true, pageDescriptor]
  split
  all_goals rfl

/-- The checks each builder call makes before it looks at the tables. They do
not depend on the page. -/
def installable (r : MapRequest) (b : EarlyStage1Builder) : Result Unit :=
  match if r.backing then b.requireBackable else b.requireBuilding with
  | .error e => .error e
  | .ok () =>
    if r.userAccessible ∧ b.region ≠ .lower then
      .error (kernelError TranslationRootErrors.wrongRegion)
    else .ok ()

theorem installPage_eq (hBacking : r.backing = true → r.userAccessible = true)
    (b : EarlyStage1Builder) (p : Physical) (page : Nat) :
    r.installPage b p page =
      match r.installable b with
      | .error e => (p, .error e)
      | .ok () => b.installLeaf p (pageAt r.virtualBase page) (r.leaf page) := by
  unfold installPage installable leaf
  cases hBack : r.backing with
  | true =>
    rw [hBacking hBack]
    rw [if_pos rfl, if_pos rfl, if_pos rfl, backAbsentUserPage]
    cases b.requireBackable with
    | error e => rfl
    | ok _ => by_cases hRegion : b.region = .lower <;> simp [hRegion]
  | false =>
    cases hUser : r.userAccessible with
    | true =>
      simp only [mapUserPage]
      cases b.requireBuilding with
      | error e => rfl
      | ok _ => by_cases hRegion : b.region = .lower <;> simp [hRegion]
    | false =>
      simp only [mapPage]
      cases b.requireBuilding with
      | error e => rfl
      | ok _ => simp

end MapRequest

section Checks

variable {b : EarlyStage1Builder} {mem : Memory} {roots : ι → Option UInt64} {i : ι}
  {refusal : UInt32}

theorem requireMapped_ok (h : requireMapped b mem virtualBase pages = .ok ()) :
    ∀ page ∈ pages, b.mapped mem (pageAt virtualBase page) = .ok true := by
  induction pages with
  | nil => simp
  | cons first rest ih =>
    unfold requireMapped at h
    split at h
    · cases h
    · cases h
    rename_i hFirst
    intro page hPage
    rcases mem_cons.mp hPage with rfl | hRest
    · exact hFirst
    · exact ih h page hRest

theorem requireUnmapped_iff :
    requireUnmapped b mem virtualBase refusal pages = .ok () ↔
      ∀ page ∈ pages, b.mapped mem (pageAt virtualBase page) = .ok false := by
  induction pages with
  | nil => simp [requireUnmapped]
  | cons first _ ih =>
    rw [forall_mem_cons, ← ih, requireUnmapped]
    cases b.mapped mem (pageAt virtualBase first) with
    | error => simp
    | ok found =>
      cases found with
      | true => simp
      | false => simp

end Checks

namespace TableCount

def total (c : TableCount) : Nat := c.l1Regions + c.l2Regions

/-- The count after the pages of a list. -/
def through (c : TableCount) (virtualBase : UInt64) (pages : List Nat) : TableCount :=
  pages.foldl (fun c page => c.next (pageAt virtualBase page)) c

theorem total_le_next (c : TableCount) (va : UInt64) : c.total ≤ (c.next va).total := by
  unfold next total
  dsimp only
  split
  · split
    all_goals
      dsimp only
      omega
  split
  · dsimp only
    omega
  · omega

theorem total_le_through (c : TableCount) (virtualBase : UInt64) (pages : List Nat) :
    c.total ≤ (c.through virtualBase pages).total := by
  induction pages generalizing c with
  | nil => exact Nat.le_refl _
  | cons page _ ih => exact (c.total_le_next _).trans (ih (c.next (pageAt virtualBase page)))

/-- The tables the count has passed exist. -/
def Covered (c : TableCount) (p : Physical) (roots : ι → Option UInt64) (i : ι) : Prop :=
  (∀ f : Fin 512, c.previousL1 = some f.val → table stage1Format p.memory roots i [f] ≠ none) ∧
    ∀ f g : Fin 512, c.previousL1 = some f.val → c.previousL2 = some g.val →
      table stage1Format p.memory roots i [g, f] ≠ none

theorem next_previous (c : TableCount) (va : UInt64) :
    (c.next va).previousL1 = some (level1Index va) ∧
      (c.next va).previousL2 = some (level2Index va) := by
  unfold next
  by_cases hFirst : some (level1Index va) ≠ c.previousL1
  · simp [hFirst]
  rw [not_not] at hFirst
  by_cases hSnd : some (level2Index va) ≠ c.previousL2
  · simp [hSnd, hFirst]
  · rw [not_not] at hSnd
    simp [← hSnd, hFirst]

variable {roots : ι → Option UInt64}

/-- What the count adds for a page is enough for the tables missing above it. -/
theorem Covered.missing_le {i : ι} (h : c.Covered p roots i) (va : UInt64) :
    c.total + missing p roots i va ≤ (c.next va).total := by
  unfold next total missing
  by_cases hFirst : some (level1Index va) ≠ c.previousL1
  · rw [if_pos hFirst]
    simp only [ne_eq, reduceCtorEq, not_false_eq_true, if_true]
    split
    all_goals
      split
      all_goals omega
  · rw [if_neg hFirst]
    rw [not_not] at hFirst
    have hThere : table stage1Format p.memory roots i [index1 va] ≠ none :=
      h.1 (index1 va) hFirst.symm
    rw [if_neg hThere]
    by_cases hSnd : some (level2Index va) ≠ c.previousL2
    · rw [if_pos hSnd]
      dsimp only
      split
      all_goals omega
    rw [if_neg hSnd]
    rw [not_not] at hSnd
    have hLast : table stage1Format p.memory roots i (leafPath va) ≠ none :=
      h.2 (index1 va) (index2 va) hFirst.symm hSnd.symm
    rw [if_neg hLast]
    omega

theorem covered_next {i : ι} (c : TableCount)
    (hFirst : table stage1Format p.memory roots i [index1 va] ≠ none)
    (hLast : table stage1Format p.memory roots i (leafPath va) ≠ none) :
    (c.next va).Covered p roots i := by
  obtain ⟨hPrevious1, hPrevious2⟩ := c.next_previous va
  constructor
  · intro f hf
    rw [hPrevious1, Option.some.injEq] at hf
    have hSame : f = index1 va := Fin.ext hf.symm
    rw [hSame]
    exact hFirst
  · intro f g hf hg
    rw [hPrevious1, Option.some.injEq] at hf
    rw [hPrevious2, Option.some.injEq] at hg
    have hSameF : f = index1 va := Fin.ext hf.symm
    have hSameG : g = index2 va := Fin.ext hg.symm
    rw [hSameF, hSameG]
    exact hLast

end TableCount

variable [DecidableEq ι] {roots : ι → Option UInt64}

theorem EarlyStage1Builder.Installed.leafOf {p' : Physical} {i : ι}
    {leaf : UInt64} (h : Installed p roots id i va leaf p') (ha : va.toNat % 4096 = 0)
    (hb : va.toNat < 2 ^ 39) (k : ι) {va' : UInt64} (ha' : va'.toNat % 4096 = 0)
    (hb' : va'.toNat < 2 ^ 39) :
    leafOf p'.memory roots k va' =
      if k = i ∧ va' = va then leaf else OsKernel.leafOf p.memory roots k va' := by
  have hLeaf := h.leaves k (leafPath va') (index3 va') rfl
  rw [OsKernel.leafOf, hLeaf]
  by_cases hHere : k = i ∧ va' = va
  · rw [if_pos hHere, if_pos]
    exact ⟨hHere.1, by rw [hHere.2], by rw [hHere.2]⟩
  rw [if_neg hHere, if_neg]
  · rfl
  · rintro ⟨hk, hPath, hIdx⟩
    exact hHere ⟨hk, eq_of_indices ha' ha hb' hb hPath hIdx⟩

/-- The leaves of some pages of a range have been written, and no other. -/
structure LeavesSet (mem : Memory) (roots : ι → Option UInt64) (i : ι) (virtualBase : UInt64)
    (pages : List Nat) (leaf : Nat → UInt64) (mem' : Memory) : Prop where
  set : ∀ page ∈ pages, leafOf mem' roots i (pageAt virtualBase page) = leaf page
  kept : ∀ k va, va.toNat % 4096 = 0 → va.toNat < 2 ^ 39 →
    (k = i → ∀ page ∈ pages, va ≠ pageAt virtualBase page) →
      leafOf mem' roots k va = leafOf mem roots k va

/-- One page more, written first. -/
theorem LeavesSet.cons {mem mem₁ mem' : Memory} {i : ι} {leaf : Nat → UInt64}
    (ha : (pageAt virtualBase first).toNat % 4096 = 0)
    (hb : (pageAt virtualBase first).toNat < 2 ^ 39)
    (hFirst : ∀ k va, va.toNat % 4096 = 0 → va.toNat < 2 ^ 39 → leafOf mem₁ roots k va =
      if k = i ∧ va = pageAt virtualBase first then leaf first else leafOf mem roots k va)
    (hApart : ∀ page ∈ rest, pageAt virtualBase first ≠ pageAt virtualBase page)
    (hRest : LeavesSet mem₁ roots i virtualBase rest leaf mem') :
    LeavesSet mem roots i virtualBase (first :: rest) leaf mem' := by
  constructor
  · intro page hPage
    rcases mem_cons.mp hPage with rfl | hIn
    · rw [hRest.kept i _ ha hb fun _ => hApart, hFirst i _ ha hb, if_pos ⟨rfl, rfl⟩]
    · exact hRest.set page hIn
  intro k va haVa hbVa hOutside
  rw [hRest.kept k va haVa hbVa, hFirst k va haVa hbVa, if_neg]
  · rintro ⟨hk, hSame⟩
    exact hOutside hk first mem_cons_self hSame
  · intro hk page hPage
    exact hOutside hk page (mem_cons_of_mem _ hPage)

/-- The outcome of the install loop. -/
structure MapRequest.InstalledPages (r : MapRequest) (p : Physical) (roots : ι → Option UInt64)
    (id : ArenaId) (i : ι) (pages : List Nat) (p' : Physical) : Prop where
  laid : p'.Laid roots
  leaves : LeavesSet p.memory roots i r.virtualBase pages r.leaf p'.memory
  others : ∀ id', id' ≠ id → p'.arenas id' = p.arenas id'

/-- With pages for the tables the count asks for, every page of a range without
valid leaves is installed, and no more pages are spent than that. -/
theorem MapRequest.installPages_ok {r : MapRequest} {b : EarlyStage1Builder} {i : ι}
    (hArena : b.arena = some id)
    (hRoot : roots i = some b.root) (hBacking : r.backing = true → r.userAccessible = true)
    (hInstallable : r.installable b = .ok ()) (hDesc : r.describable = true)
    (hPhys : RangeWithin (2 ^ 48) r.physicalBase r.length)
    (hVirtual : RangeWithin (2 ^ 39) r.virtualBase r.length)
    (hPages : ∀ page ∈ pages, page < pageCount r.length) (hNodup : pages.Nodup)
    (hCheck : ∀ page ∈ pages, b.checkAddress (pageAt r.virtualBase page) = .ok ()) {p : Physical}
    (hLaid : p.Laid roots) (hCovered : c.Covered p roots i)
    (hFree : ∀ page ∈ pages, leafOf p.memory roots i (pageAt r.virtualBase page) &&& valid = 0)
    (hBudget : (c.through r.virtualBase pages).total ≤ c.total + (p.arenas id).pages.length) :
    ∃ p', r.installPages b pages p = (p', true) ∧ r.InstalledPages p roots id i pages p' ∧
      (p.arenas id).pages.length + c.total ≤
        (p'.arenas id).pages.length + (c.through r.virtualBase pages).total := by
  induction pages generalizing c p with
  | nil =>
    exact ⟨p, rfl, ⟨hLaid, ⟨by simp, fun _ _ _ _ _ => rfl⟩, fun _ _ => rfl⟩, Nat.le_refl _⟩
  | cons first rest ih =>
    have hFirstPage := hPages first mem_cons_self
    obtain ⟨ha, hb⟩ := pageAt_within hVirtual (by norm_num) hFirstPage
    have hMissing := hCovered.missing_le (pageAt r.virtualBase first)
    have hTotal := (c.next (pageAt r.virtualBase first)).total_le_through r.virtualBase rest
    change ((c.next (pageAt r.virtualBase first)).through r.virtualBase rest).total ≤ _ at hBudget
    rcases installLeaf_cases hLaid hArena hRoot
        (hCheck first mem_cons_self) (leaf_bits hPhys hFirstPage hDesc) with
      ⟨p₁, hInstall, hInstalled⟩ | ⟨p₁, e, -, -, hStuck⟩
    swap
    · exfalso
      rcases hStuck with hTaken | hSpent
      · exact hTaken (hFree first mem_cons_self)
      · omega
    have hApart := pageAt_ne_of_nodup hVirtual (by norm_num) hPages hNodup
    have hLeaf : ∀ k va, va.toNat % 4096 = 0 → va.toNat < 2 ^ 39 →
        leafOf p₁.memory roots k va = if k = i ∧ va = pageAt r.virtualBase first then r.leaf first
          else leafOf p.memory roots k va :=
      fun k va haVa hbVa => hInstalled.leafOf ha hb k haVa hbVa
    have hSpent := hInstalled.spent
    obtain ⟨p', hRest, hDone, hCounted⟩ :=
      ih (fun page hPage => hPages page (mem_cons_of_mem _ hPage))
      (nodup_cons.mp hNodup).2
      (fun page hPage => hCheck page (mem_cons_of_mem _ hPage)) hInstalled.laid
      (c.covered_next hInstalled.above.1 hInstalled.above.2)
      (by
        intro page hPage
        obtain ⟨haVa, hbVa⟩ := pageAt_within hVirtual (by norm_num)
          (hPages page (mem_cons_of_mem _ hPage))
        rw [hLeaf i _ haVa hbVa, if_neg]
        · exact hFree page (mem_cons_of_mem _ hPage)
        · rintro ⟨-, hSame⟩
          exact hApart page hPage hSame.symm)
      (by omega)
    refine ⟨p', ?_, ⟨hDone.laid, LeavesSet.cons ha hb hLeaf hApart hDone.leaves, ?_⟩, ?_⟩
    · rw [installPages, installPage_eq hBacking, hInstallable]
      rw [hInstall]
      exact hRest
    · intro id' hid
      rw [hDone.others id' hid, hInstalled.others id' hid]
    · change _ ≤ _ + ((c.next (pageAt r.virtualBase first)).through r.virtualBase rest).total
      omega

/-- One leaf has been cleared. -/
structure LeafCleared (p : Physical) (roots : ι → Option UInt64) (i : ι) (va : UInt64)
    (mem' : Memory) : Prop where
  laid : ({ p with memory := mem' } : Physical).Laid roots
  leaves : ∀ k va', leafOf mem' roots k va' =
    if k = i ∧ leafPath va' = leafPath va ∧ index3 va' = index3 va then 0
    else leafOf p.memory roots k va'

namespace EarlyStage1Builder

variable {b : EarlyStage1Builder} {i : ι}

theorem leafCleared_write (hLaid : p.Laid roots) {t : UInt64}
    (ht : table stage1Format p.memory roots i (leafPath va) = some t) :
    LeafCleared p roots i va (p.memory.write (stage1Format.slot t (index3 va)) 0) := by
  have hPath : (leafPath va).length = 2 := rfl
  have hSep := hLaid.tables.separate
  refine ⟨laid_write hLaid hPath ht (index3 va) (.inl rfl), ?_⟩
  intro k va'
  rw [write_eq_update, leafOf, hSep.entry_update_last hPath ht k (leafPath va') (Nat.le_refl 2)
    (index3 va')]
  rfl

/-- A page is cleared, or nothing is done. -/
theorem unmapPage_cases (hLaid : p.Laid roots)
    (hRoot : b.lifecycle ≠ .uninitialized → roots i = some b.root) (va : UInt64) :
    (∃ e, b.unmapPage p.memory va = (p.memory, .error e)) ∨
      ∃ mem', b.unmapPage p.memory va = (mem', .ok ()) ∧ LeafCleared p roots i va mem' ∧
        b.checkAddress va = .ok () := by
  unfold unmapPage
  split
  · exact .inl ⟨_, rfl⟩
  split
  · exact .inl ⟨_, rfl⟩
  rename_i hActive
  have hInitialized : b.lifecycle ≠ .uninitialized := by
    intro hNone
    exact hActive ⟨by simp [hNone], by simp [hNone]⟩
  cases hCheck : b.checkAddress va with
  | error e =>
    have hPtr : b.leafPointer p.memory va = .error e := by
      unfold leafPointer
      rw [hCheck]
      rfl
    rw [hPtr]
    exact .inl ⟨e, rfl⟩
  | ok =>
    rw [leafPointer_eq hLaid.tables (hRoot hInitialized) hCheck]
    cases hTbl : table stage1Format p.memory roots i (leafPath va) with
    | none => exact .inl ⟨_, rfl⟩
    | some =>
      dsimp only
      split
      · exact .inl ⟨_, rfl⟩
      · exact .inr ⟨_, rfl, leafCleared_write hLaid hTbl, rfl⟩

theorem unmapPage_ok (hLaid : p.Laid roots) (hRoot : roots i = some b.root)
    (hLife : b.lifecycle = .building ∨ b.lifecycle = .retiring)
    (hCheck : b.checkAddress va = .ok ())
    (hMapped : leafOf p.memory roots i va &&& valid ≠ 0) :
    ∃ mem', b.unmapPage p.memory va = (mem', .ok ()) ∧ LeafCleared p roots i va mem' := by
  rcases unmapPage_cases hLaid (i := i) (fun _ => hRoot) va with
    ⟨e, hFail⟩ | ⟨mem', hDone, hCleared, -⟩
  swap
  · exact ⟨mem', hDone, hCleared⟩
  exfalso
  unfold unmapPage at hFail
  rw [if_neg (by rcases hLife with h | h <;> simp [h]),
    if_neg (by rcases hLife with h | h <;> simp [h]),
    leafPointer_eq hLaid.tables hRoot hCheck] at hFail
  cases hTbl : table stage1Format p.memory roots i (leafPath va) with
  | none =>
    rw [leafOf, entry_of_none hTbl] at hMapped
    exact hMapped (by decide)
  | some =>
    rw [leafOf, entry_of_table hTbl] at hMapped
    rw [hTbl] at hFail
    dsimp only at hFail
    rw [if_neg hMapped] at hFail
    cases congrArg Prod.snd hFail

end EarlyStage1Builder

variable {b : EarlyStage1Builder}

/-- The clearing loop clears every page of a range whose leaves are valid. -/
theorem clearPages_ok {i : ι} (hRoot : roots i = some b.root)
    (hLife : b.lifecycle = .building ∨ b.lifecycle = .retiring) {length : UInt64}
    (hVirtual : RangeWithin (2 ^ 39) virtualBase length)
    (hPages : ∀ page ∈ pages, page < pageCount length) (hNodup : pages.Nodup)
    (hCheck : ∀ page ∈ pages, b.checkAddress (pageAt virtualBase page) = .ok ()) {p : Physical}
    (hLaid : p.Laid roots)
    (hMapped : ∀ page ∈ pages, leafOf p.memory roots i (pageAt virtualBase page) &&& valid ≠ 0) :
    ∃ mem', clearPages b virtualBase pages p.memory = (mem', true) ∧
      ({ p with memory := mem' } : Physical).Laid roots ∧
      LeavesSet p.memory roots i virtualBase pages (fun _ => 0) mem' := by
  induction pages generalizing p with
  | nil => exact ⟨p.memory, rfl, hLaid, ⟨by simp, fun _ _ _ _ _ => rfl⟩⟩
  | cons first rest ih =>
    have hFirstPage := hPages first mem_cons_self
    obtain ⟨ha, hb⟩ := pageAt_within hVirtual (by norm_num) hFirstPage
    obtain ⟨mem₁, hClear, hCleared⟩ := unmapPage_ok hLaid hRoot hLife
      (hCheck first mem_cons_self) (hMapped first mem_cons_self)
    have hApart := pageAt_ne_of_nodup hVirtual (by norm_num) hPages hNodup
    have hLeaf : ∀ k va, va.toNat % 4096 = 0 → va.toNat < 2 ^ 39 → leafOf mem₁ roots k va =
        if k = i ∧ va = pageAt virtualBase first then 0 else leafOf p.memory roots k va := by
      intro k va haVa hbVa
      rw [hCleared.leaves k va]
      by_cases hHere : k = i ∧ va = pageAt virtualBase first
      · rw [if_pos hHere, if_pos ⟨hHere.1, by rw [hHere.2], by rw [hHere.2]⟩]
      · rw [if_neg hHere, if_neg]
        rintro ⟨hk, hPath, hIdx⟩
        exact hHere ⟨hk, eq_of_indices haVa ha hbVa hb hPath hIdx⟩
    obtain ⟨mem', hRest, hLaid', hLeaves⟩ :=
      ih (fun page hPage => hPages page (mem_cons_of_mem _ hPage))
        (nodup_cons.mp hNodup).2
        (fun page hPage => hCheck page (mem_cons_of_mem _ hPage)) hCleared.laid
        (by
          intro page hPage
          obtain ⟨haVa, hbVa⟩ := pageAt_within hVirtual (by norm_num)
            (hPages page (mem_cons_of_mem _ hPage))
          rw [hLeaf i _ haVa hbVa, if_neg]
          · exact hMapped page (mem_cons_of_mem _ hPage)
          · rintro ⟨-, hSame⟩
            exact hApart page hPage hSame.symm)
    refine ⟨mem', ?_, hLaid', LeavesSet.cons ha hb hLeaf hApart hLeaves⟩
    rw [clearPages, hClear]
    exact hRest

theorem EarlyStage1Builder.checkAddress_ok (h : b.checkAddress va = .ok ()) :
    b.root ≠ 0 ∧ va.toNat % 4096 = 0 ∧ b.acceptsVirtualAddress va = true := by
  unfold checkAddress at h
  split at h
  · cases h
  rename_i hRoot
  split at h
  · cases h
  rename_i hAddr
  simp only [Bool.or_eq_true, not_or, Bool.not_eq_true', Bool.not_eq_false] at hAddr
  exact ⟨hRoot, (pageAligned_iff va).mp hAddr.1, hAddr.2⟩

/-- A builder that accepts an address of the lower region is one for it. -/
theorem EarlyStage1Builder.region_of_accepts (h : b.acceptsVirtualAddress va = true)
    (hLower : va.toNat < 2 ^ 39) : b.region = .lower := by
  unfold acceptsVirtualAddress at h
  split at h
  · assumption
  exfalso
  simp only [kernelStage1VirtualAddress, decide_eq_true_iff, UInt64.le_iff_toNat_le] at h
  have hBase : kernelVirtualBase.toNat = 2 ^ 64 - 2 ^ 39 := rfl
  omega

theorem EarlyStage1Builder.checkAddress_lower (hRoot : b.root ≠ 0) (hRegion : b.region = .lower)
    (ha : va.toNat % 4096 = 0) (hb : va.toNat < 2 ^ 39) : b.checkAddress va = .ok () := by
  have hAligned := (pageAligned_iff va).mpr ha
  have hAccepts : b.acceptsVirtualAddress va = true := by
    rw [acceptsVirtualAddress, hRegion]
    exact (stage1VirtualAddress_iff va).mpr hb
  rw [checkAddress, if_neg hRoot, hAligned, hAccepts]
  rfl

/-- The space has a root of the lower region. -/
structure EarlyStage1Builder.Hosts (b : EarlyStage1Builder) (roots : ι → Option UInt64) (i : ι) :
    Prop where
  rooted : roots i = some b.root
  nonzero : b.root ≠ 0
  lower : b.region = .lower

namespace NativeAddressSpaceState

variable {r : MapRequest} {s : NativeAddressSpaceState} {i : ι} {ledger : NativePhysicalLedger ι}

theorem installPages_fails (hBacking : r.backing = true → r.userAccessible = true)
    (hCheck : b.checkAddress (pageAt r.virtualBase first) = .ok ())
    (hStops : r.installable b ≠ .ok () ∨ r.describable = false) :
    r.installPages b (first :: rest) p = (p, false) := by
  rw [MapRequest.installPages, installPage_eq hBacking]
  cases hInstallable : r.installable b with
  | error => rfl
  | ok =>
    have hZero : r.describable = false := by
      rcases hStops with hRefused | hZero
      · exact absurd hInstallable hRefused
      · exact hZero
    rw [installLeaf, hCheck, leaf_eq_zero hZero]
    rfl

theorem requiredTablePages_pos {pages : Nat} (h : 0 < pages) :
    0 < requiredTablePages virtualBase pages := by
  obtain ⟨n, rfl⟩ : ∃ n, pages = n + 1 := ⟨pages - 1, by omega⟩
  have hFirst : 1 ≤ (({} : TableCount).next (pageAt virtualBase 0)).total := by
    simp [TableCount.next, TableCount.total]
  have hRest := (({} : TableCount).next (pageAt virtualBase 0)).total_le_through virtualBase
    ((range n).map Nat.succ)
  have hAll : requiredTablePages virtualBase (n + 1) =
      ((({} : TableCount).next (pageAt virtualBase 0)).through virtualBase
        ((range n).map Nat.succ)).total := by
    rw [requiredTablePages, range_succ_eq_map]
    rfl
  omega

/-- A map that ends well has installed all its pages, out of the table pages it
asked for, and any other has touched no memory. The kernel stops only where the
builder installs nothing at all. -/
theorem mapImpl_installed {s' : NativeAddressSpaceState} {ledger' : NativePhysicalLedger ι}
    {p' : Physical} {result : Option (Result Unit)} {roots : ι → Option UInt64}
    (hLaid : p.Laid roots) (hRoot : b.root ≠ 0 → roots i = some b.root)
    (hBacking : r.backing = true → r.userAccessible = true)
    (h : s.mapImpl i ledger b p r = ((s', ledger', p'), result)) :
    (p' = p ∧ result ≠ some (.ok ()) ∧
        (result = none → r.installable b ≠ .ok () ∨ r.describable = false)) ∨
      result = some (.ok ()) ∧ b.Hosts roots i ∧ r.describable = true ∧ ∃ id, b.arena = some id ∧
          r.InstalledPages p roots id i (range (pageCount r.length)) p' ∧
          (p.arenas id).pages.length ≤ (p'.arenas id).pages.length +
              requiredTablePages r.virtualBase (pageCount r.length) := by
  unfold mapImpl at h
  split at h
  · cases h
    exact .inl ⟨rfl, by simp, by simp⟩
  rename_i hMapCheck
  split at h
  swap
  · cases h
    exact .inl ⟨rfl, by simp, by simp⟩
  dsimp only at h
  split at h
  · cases h
    exact .inl ⟨rfl, by simp, by simp⟩
  rename_i hBudget
  split at h
  · cases h
    exact .inl ⟨rfl, by simp, by simp⟩
  rename_i hUnmap
  have hAdmits := mapCheck_ok (t := ⟨fun _ => s.entries, ledger.entries, ledger.reserves⟩)
    hMapCheck rfl rfl rfl
  obtain ⟨hPhys, hVirtual⟩ := (rangeValid_iff r).mp hAdmits.range
  have hMapped := requireUnmapped_iff.mp hUnmap
  have hSome : 0 < pageCount r.length := by
    rw [pageCount_eq]
    obtain ⟨-, hLen, hPos, -⟩ := hVirtual
    omega
  have hChecked : ∀ page ∈ range (pageCount r.length),
      b.checkAddress (pageAt r.virtualBase page) = .ok () :=
    fun page hPage => checkAddress_of_mapped (hMapped page hPage)
  have hFirst := checkAddress_ok (hChecked 0 (mem_range.mpr hSome))
  have hHosts : b.Hosts roots i :=
    ⟨hRoot hFirst.1, hFirst.1, region_of_accepts hFirst.2.2
      (pageAt_within hVirtual (by norm_num) hSome).2⟩
  by_cases hStops : r.installable b ≠ .ok () ∨ r.describable = false
  · obtain ⟨n, hn⟩ : ∃ n, pageCount r.length = n + 1 := ⟨pageCount r.length - 1, by omega⟩
    have hFails : r.installPages b (0 :: (range n).map Nat.succ) p = (p, false) :=
      installPages_fails hBacking (hChecked 0 (mem_range.mpr hSome)) hStops
    rw [hn, range_succ_eq_map, hFails] at h
    cases h
    exact .inl ⟨rfl, by simp, fun _ => hStops⟩
  simp only [not_or, not_not, Bool.not_eq_false] at hStops
  obtain ⟨id, hArena⟩ : ∃ id, b.arena = some id := by
    cases hArena : b.arena with
    | some id => exact ⟨id, rfl⟩
    | none =>
      have hPos : 0 < requiredTablePages r.virtualBase (pageCount r.length) :=
        requiredTablePages_pos hSome
      rw [remainingTablePages, hArena] at hBudget
      exact absurd hPos hBudget
  obtain ⟨done, hInstall, hInstalled, hSpent⟩ := installPages_ok (c := {}) hArena hHosts.rooted
    hBacking hStops.1 hStops.2 hPhys hVirtual (fun page hPage => mem_range.mp hPage)
    nodup_range hChecked hLaid ⟨by simp, by simp⟩
    (by
      intro page hPage
      have hFree := hMapped page hPage
      rw [mapped_eq hLaid.tables hHosts.rooted (hChecked page hPage)] at hFree
      simpa using hFree)
    (by
      rw [remainingTablePages, hArena] at hBudget
      rw [EarlyPageArena.length_pages]
      exact (Nat.not_lt.mp hBudget).trans (Nat.le_add_left _ _))
  rw [hInstall] at h
  cases h
  exact .inr ⟨rfl, hHosts, hStops.2, id, hArena, hInstalled, hSpent⟩

/-- A map that passes its checks, with a cell in both tables, pages for its
tables and no valid leaf in its range, ends well. -/
theorem mapImpl_ok {roots : ι → Option UInt64} (hLaid : p.Laid roots)
    (hHosts : b.Hosts roots i) (hArena : b.arena = some id)
    (hBacking : r.backing = true → r.userAccessible = true)
    (hInstallable : r.installable b = .ok ()) (hDesc : r.describable = true)
    (hCheck : s.mapCheck i ledger r = .ok ())
    (hLocal : (SlotTable.insert NativeMapping.key r.toMapping s.mappings).isSome)
    (hGlobal : (SlotTable.insert NativePhysicalMapping.key (r.toPhysicalMapping i)
      ledger.mappings).isSome)
    (hBudget : requiredTablePages r.virtualBase (pageCount r.length) ≤ (p.arenas id).remainingPages)
    (hFree : ∀ page < pageCount r.length,
      leafOf p.memory roots i (pageAt r.virtualBase page) &&& valid = 0) :
    (s.mapImpl i ledger b p r).2 = some (.ok ()) := by
  have hAdmits := mapCheck_ok (t := ⟨fun _ => s.entries, ledger.entries, ledger.reserves⟩)
    hCheck rfl rfl rfl
  obtain ⟨hPhys, hVirtual⟩ := (rangeValid_iff r).mp hAdmits.range
  have hChecked : ∀ page ∈ range (pageCount r.length),
      b.checkAddress (pageAt r.virtualBase page) = .ok () := by
    intro page hPage
    obtain ⟨ha, hb⟩ := pageAt_within hVirtual (by norm_num) (mem_range.mp hPage)
    exact checkAddress_lower hHosts.nonzero hHosts.lower ha hb
  have hUnmap : requireUnmapped b p.memory r.virtualBase MachineErrors.alreadyMapped
      (range (pageCount r.length)) = .ok () := by
    refine requireUnmapped_iff.mpr fun page hPage => ?_
    rw [mapped_eq hLaid.tables hHosts.rooted (hChecked page hPage), hFree page (mem_range.mp hPage)]
    rfl
  obtain ⟨done, hInstall, -⟩ := installPages_ok (c := {}) hArena hHosts.rooted
    hBacking hInstallable hDesc hPhys hVirtual (fun page hPage => mem_range.mp hPage)
    nodup_range hChecked hLaid ⟨by simp, by simp⟩
    (fun page hPage => hFree page (mem_range.mp hPage))
    (by
      rw [EarlyPageArena.length_pages]
      exact hBudget.trans (Nat.le_add_left _ _))
  obtain ⟨mappings, hMappings⟩ := Option.isSome_iff_exists.mp hLocal
  obtain ⟨physicalMappings, hPhysMappings⟩ := Option.isSome_iff_exists.mp hGlobal
  have hRemaining : ¬ b.remainingTablePages p <
      requiredTablePages r.virtualBase (pageCount r.length) := by
    rw [remainingTablePages, hArena]
    exact Nat.not_lt.mpr hBudget
  rw [mapImpl, hCheck]
  simp only [hMappings, hPhysMappings, if_neg hRemaining, hUnmap, hInstall]

end NativeAddressSpaceState

end Enml.OsKernel
