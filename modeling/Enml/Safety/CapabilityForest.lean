import Enml.Invariant.Capability

/-! The capability table over whole runs of mint, grant and revoke. Whatever
was granted from whatever, the live capabilities form a forest in which authority
only narrows on the way down, and no identifier is issued twice. -/
namespace Enml.OsKernel

open Enml.Core Run UInt64 List CapabilityTable Relation.TransGen

namespace CapabilityTable

variable {slot : Slot} {id : CapabilityId}

/-- `above` is an ancestor of `slot`, at any distance but zero. -/
def Ancestor (t : CapabilityTable) : Slot → Slot → Prop :=
  Relation.TransGen fun slot parent => parentOf t.slots slot = some parent

/-- The slots are connected by parent links, followed in either direction. -/
def SameTree (t : CapabilityTable) : Slot → Slot → Prop :=
  Relation.EqvGen fun slot parent =>
    slot ∈ t.slots ∧ slot.occupied = true ∧ parentOf t.slots slot = some parent

/-- A forest of live capabilities in which every step down narrows authority. -/
structure Attenuating (t : CapabilityTable) : Prop where
  nonzero : ∀ slot ∈ t.slots, slot.occupied = true → slot.id ≠ invalidCapability
  distinct : ∀ (i j : ℕ) (slot slot' : Slot), t.slots[i]? = some slot →
    t.slots[j]? = some slot' → slot.occupied = true → slot'.occupied = true →
    slot.id = slot'.id → i = j
  issued : ∀ slot ∈ t.slots, slot.occupied = true →
    slot.id < t.nextId ∨ t.nextId = invalidCapability
  parentLive : ∀ slot ∈ t.slots, slot.occupied = true → slot.parent ≠ invalidCapability →
    ∃ parent, t.slots[slot.parentSlot]? = some parent ∧ parent.occupied = true ∧
      parent.id = slot.parent ∧ slot.depth.toNat = parent.depth.toNat + 1
  shallow : ∀ slot ∈ t.slots, slot.occupied = true → slot.depth.toNat ≤ maxDerivationDepth
  rootDepth : ∀ slot ∈ t.slots, slot.occupied = true → slot.parent = invalidCapability →
    slot.depth = 0
  rooted : ∀ slot ∈ t.slots, slot.occupied = true →
    ∃ root, (root = slot ∨ t.Ancestor slot root) ∧ root.parent = invalidCapability ∧
      slot.object = root.object
  narrowed : ∀ slot ∈ t.slots, slot.occupied = true → ∀ above, t.Ancestor slot above →
    slot.rights &&& ~~~above.rights = noRights ∧ above.transferable = true
  boundAlike : ∀ slot slot', t.SameTree slot slot' → slot.contextBound = slot'.contextBound
  clean : ∀ slot ∈ t.slots, slot.doomed = false
  counted : t.occupied = t.slots.countP fun slot => slot.occupied

/-- A live slot has the id. -/
def Live (t : CapabilityTable) (id : CapabilityId) : Prop :=
  ∃ slot ∈ t.slots, slot.occupied = true ∧ slot.id = id

/-- The counter has passed the id, or is exhausted. -/
def Spent (t : CapabilityTable) (id : CapabilityId) : Prop :=
  id < t.nextId ∨ t.nextId = invalidCapability

/-- Step `n` of the run answered with the new id. -/
def IssuedAt (ops : List CapabilityOp) (n : ℕ) (id : CapabilityId) : Prop :=
  ∃ op, ops[n]? = some op ∧ ((after step {} (ops.take n)).step op).2 = .issued (.ok id)

namespace Forest

variable {t : CapabilityTable}

theorem mem_of_parentOf {slots : List Slot} {parent : Slot} (h : parentOf slots slot = some parent)
    : parent ∈ slots ∧ parent.occupied = true := by
  obtain ⟨-, hCell, hLive, -⟩ := parentOf_eq_some.mp h
  exact ⟨mem_of_getElem? hCell, hLive⟩

theorem derivedFrom (hForest : Forest t) {parent : Slot} (hMem : slot ∈ t.slots)
    (hLive : slot.occupied = true) (h : parentOf t.slots slot = some parent) :
    slot.DerivedFrom parent := by
  obtain ⟨parent', hPar, hDerived⟩ := hForest.derived slot hMem hLive (parentOf_eq_some.mp h).1
  obtain rfl : parent' = parent := Option.some.inj (hPar.symm.trans h)
  exact hDerived

end Forest

/-- Rights narrowed twice are narrowed. -/
theorem narrowed_trans {a b c : Rights} (hab : a &&& ~~~b = noRights)
    (hbc : b &&& ~~~c = noRights) : a &&& ~~~c = noRights := by
  have hSplit : a &&& ~~~c = (a &&& ~~~b &&& ~~~c) ||| (a &&& (b &&& ~~~c)) := by
    apply UInt32.toBitVec_inj.mp
    simp only [UInt32.toBitVec_and, UInt32.toBitVec_or, UInt32.toBitVec_not]
    ext i
    simp only [BitVec.getElem_and, BitVec.getElem_or, BitVec.getElem_not]
    cases a.toBitVec[i] <;> cases b.toBitVec[i] <;> simp
  rw [hSplit, hab, hbc]
  simp [noRights]

namespace Forest

variable {t : CapabilityTable}

/-- Every live capability reaches a root by its parent links. -/
theorem exists_root (hForest : Forest t) (d : ℕ) (hMem : slot ∈ t.slots)
    (hLive : slot.occupied = true) (hDepth : slot.depth.toNat = d) :
    ∃ root, (root = slot ∨ t.Ancestor slot root) ∧ root.parent = invalidCapability ∧
      slot.object = root.object := by
  induction d generalizing slot with
  | zero =>
    by_cases hRoot : slot.parent = invalidCapability
    · exact ⟨slot, .inl rfl, hRoot, rfl⟩
    · obtain ⟨parent, -, hDerived⟩ := hForest.derived slot hMem hLive hRoot
      have hAbove := hDerived.depth
      omega
  | succ d ih =>
    by_cases hRoot : slot.parent = invalidCapability
    · exact ⟨slot, .inl rfl, hRoot, rfl⟩
    obtain ⟨parent, hPar, hDerived⟩ := hForest.derived slot hMem hLive hRoot
    obtain ⟨hParMem, hParLive⟩ := mem_of_parentOf hPar
    have hAbove := hDerived.depth
    obtain ⟨root, hPath, hEnd, hObject⟩ := ih hParMem hParLive (by omega)
    refine ⟨root, .inr ?_, hEnd, hDerived.object.trans hObject⟩
    rcases hPath with rfl | hPath
    · exact single hPar
    · exact head hPar hPath

theorem narrowed (hForest : Forest t) {above : Slot} (hMem : slot ∈ t.slots)
    (hLive : slot.occupied = true) (h : t.Ancestor slot above) :
    slot.rights &&& ~~~above.rights = noRights ∧ above.transferable = true := by
  induction h using head_induction_on with
  | single hPar =>
    have hDerived := hForest.derivedFrom hMem hLive hPar
    exact ⟨hDerived.rights, hDerived.transferable⟩
  | head hPar _ ih =>
    have hDerived := hForest.derivedFrom hMem hLive hPar
    obtain ⟨hParMem, hParLive⟩ := mem_of_parentOf hPar
    obtain ⟨hRights, hTransferable⟩ := ih hParMem hParLive
    exact ⟨narrowed_trans hDerived.rights hRights, hTransferable⟩

theorem boundAlike (hForest : Forest t) {slot' : Slot} (h : t.SameTree slot slot') :
    slot.contextBound = slot'.contextBound := by
  induction h with
  | rel _ _ hLink => exact (hForest.derivedFrom hLink.1 hLink.2.1 hLink.2.2).contextBound
  | refl => rfl
  | symm _ _ _ ih => exact ih.symm
  | trans _ _ _ _ _ ihFirst ihSecond => exact ihFirst.trans ihSecond

theorem attenuating (hForest : Forest t) : Attenuating t where
  nonzero := hForest.nonzero
  distinct := hForest.distinct
  issued := hForest.issued
  parentLive := by
    intro slot hMem hLive hChild
    obtain ⟨parent, hPar, hDerived⟩ := hForest.derived slot hMem hLive hChild
    obtain ⟨-, hCell, hParLive, hId⟩ := parentOf_eq_some.mp hPar
    exact ⟨parent, hCell, hParLive, hId, hDerived.depth⟩
  shallow := by
    intro slot hMem hLive
    by_cases hRoot : slot.parent = invalidCapability
    · rw [hForest.root slot hMem hLive hRoot]
      exact Nat.zero_le _
    · obtain ⟨parent, -, hDerived⟩ := hForest.derived slot hMem hLive hRoot
      exact hDerived.shallow
  rootDepth := hForest.root
  rooted := fun slot hMem hLive => hForest.exists_root _ hMem hLive rfl
  narrowed := fun slot hMem hLive above hAbove => hForest.narrowed hMem hLive hAbove
  boundAlike := fun slot slot' hTree => hForest.boundAlike hTree
  clean := hForest.clean
  counted := hForest.counted

theorem spent_of_live (hForest : Forest t) (h : t.Live id) : t.Spent id := by
  obtain ⟨slot, hMem, hLive, rfl⟩ := h
  exact hForest.issued slot hMem hLive

/-- A spent identifier stays spent, and if it is dead it stays dead. -/
theorem spent_change {t' : CapabilityTable} (hChange : Change t t') (hSpent : t.Spent id) :
    t'.Spent id ∧ (¬ t.Live id → ¬ t'.Live id) := by
  cases hChange with
  | same => exact ⟨hSpent, fun hDead => hDead⟩
  | @issue slot t' new hFits hFresh hIssue =>
    obtain ⟨i, free, hNext, rfl, hFree, -, hSlots, -, hCounter⟩ := issue_eq_ok hIssue
    have hBelow : id < t.nextId := by
      rcases hSpent with hBelow | hZero
      · exact hBelow
      · exact absurd hZero hNext
    refine ⟨?_, ?_⟩
    · rw [Spent, hCounter]
      exact lt_or_eq_zero_of_succ (.inl hBelow)
    rintro hDead ⟨cell, hCell, hLive, rfl⟩
    rw [hSlots] at hCell
    rcases mem_or_eq_of_mem_set hCell with hOld | rfl
    · exact hDead ⟨cell, hOld, hLive, rfl⟩
    · exact UInt64.lt_irrefl _ hBelow
  | remove =>
    refine ⟨hSpent, ?_⟩
    rintro hDead ⟨cell, hCell, hLive, rfl⟩
    obtain ⟨i, hCell⟩ := mem_iff_getElem?.mp hCell
    have hOld := (getElem?_of_without hCell hLive).2
    exact hDead ⟨cell, mem_of_getElem? hOld, hLive, rfl⟩

end Forest

/-- Only `issue` answers with a new id, and the id is the counter's. -/
theorem issued_of_step {t : CapabilityTable} {op : CapabilityOp}
    (h : (t.step op).2 = .issued (.ok id)) :
    t.nextId ≠ invalidCapability ∧ id = t.nextId ∧ (t.step op).1.nextId = t.nextId + 1 := by
  have hIssue : ∀ {slot : Slot} {done : CapabilityTable × Result CapabilityId},
      done = t.issue slot → done.2 = .ok id →
        t.nextId ≠ invalidCapability ∧ id = t.nextId ∧ done.1.nextId = t.nextId + 1 := by
    rintro slot _ rfl hOk
    obtain ⟨_, _, hNext, hId, -, -, -, -, hCounter⟩ :=
      issue_eq_ok (show t.issue slot = ((t.issue slot).1, .ok id) from Prod.ext rfl hOk)
    exact ⟨hNext, hId, hCounter⟩
  have hDerive : ∀ {capability held place rights transferable},
      (t.derive capability held place rights transferable).2 = .ok id →
        t.nextId ≠ invalidCapability ∧ id = t.nextId ∧
          (t.derive capability held place rights transferable).1.nextId = t.nextId + 1 := by
    intro capability held place rights transferable hOk
    obtain ⟨e, hRefused⟩ | ⟨_, -, -, -, -, -, hDone⟩ :=
      Forest.derive_cases (t := t) capability held place rights transferable
    · rw [hRefused] at hOk
      simp at hOk
    · exact hIssue hDone hOk
  cases op with
  | mint | mintBound =>
    dsimp only [step, Prod.map, mint, mintBound] at h ⊢
    split_ifs at h ⊢
    · cases h
    · cases h
    · exact hIssue rfl (by simpa using h)
  | grant | grantBound =>
    dsimp only [step, Prod.map, grant, grantBound] at h ⊢
    split_ifs at h ⊢
    · cases h
    · cases h
    · exact hDerive (by simpa using h)
  | revoke | revokeBound | revokeAllHeldBy => simp [step, Prod.map] at h

section Runs

variable (ops : List CapabilityOp)

theorem forest_run : Run.Always step Forest {} ops :=
  always_of_invariant forest_empty fun _ op hForest => hForest.step op

variable {ops}

/-- An identifier that has been spent stays spent. -/
theorem spent_run {n m : ℕ} (hnm : n ≤ m) (h : (after step {} (ops.take n)).Spent id) :
    (after step {} (ops.take m)).Spent id := by
  have hBoth : Forest (after step {} (ops.take m)) ∧ (after step {} (ops.take m)).Spent id := by
    apply stable (P := fun t => Forest t ∧ t.Spent id) _ hnm ⟨forest_run ops n, h⟩
    rintro t op ⟨hForest, hSpent⟩
    exact ⟨hForest.step op, (Forest.spent_change (hForest.change_step op) hSpent).1⟩
  exact hBoth.2

/-- Once removed, an identifier is never live again. -/
theorem dead_run {n m k : ℕ} (hnm : n ≤ m) (hmk : m ≤ k)
    (hLive : (after step {} (ops.take n)).Live id)
    (hDead : ¬ (after step {} (ops.take m)).Live id) :
    ¬ (after step {} (ops.take k)).Live id := by
  have hSpent := spent_run hnm ((forest_run ops n).spent_of_live hLive)
  have hBoth : Forest (after step {} (ops.take k)) ∧ (after step {} (ops.take k)).Spent id ∧
      ¬ (after step {} (ops.take k)).Live id := by
    apply stable (P := fun t => Forest t ∧ t.Spent id ∧ ¬ t.Live id) _ hmk
      ⟨forest_run ops m, hSpent, hDead⟩
    rintro t op ⟨hForest, hSpent, hDead⟩
    obtain ⟨hSpent', hStays⟩ := Forest.spent_change (hForest.change_step op) hSpent
    exact ⟨hForest.step op, hSpent', hStays hDead⟩
  exact hBoth.2.2

theorem not_issuedAt_of_lt {n m : ℕ} (hnm : n < m) (hFirst : IssuedAt ops n id) :
    ¬ IssuedAt ops m id := by
  obtain ⟨op, hOp, hFirst⟩ := hFirst
  rintro ⟨op', hOp', hSnd⟩
  obtain ⟨-, hId, hCounter⟩ := issued_of_step hFirst
  obtain ⟨hNext, hId', -⟩ := issued_of_step hSnd
  have hSpent : (after step {} (ops.take (n + 1))).Spent id := by
    rw [Spent, after_take_succ hOp, hCounter]
    exact Forest.lt_or_eq_zero_of_succ (.inr hId)
  rcases spent_run hnm hSpent with hBelow | hZero
  · rw [hId'] at hBelow
    exact UInt64.lt_irrefl _ hBelow
  · exact hNext hZero

end Runs

/-- The forest holds in every state of every run, and over the run no two calls
issue the same id and no removed id comes back. -/
theorem capability_forest (ops : List CapabilityOp) :
    Run.Always step Attenuating {} ops ∧ (∀ n m id, IssuedAt ops n id → IssuedAt ops m id → n = m) ∧
      (∀ n m k id, n ≤ m → m ≤ k → (after step {} (ops.take n)).Live id →
        ¬ (after step {} (ops.take m)).Live id →
        ¬ (after step {} (ops.take k)).Live id) := by
  refine ⟨fun n => (forest_run ops n).attenuating, ?_, ?_⟩
  · intro n m id hFirst hSnd
    rcases Nat.lt_trichotomy n m with hLt | hEq | hGt
    · exact absurd hSnd (not_issuedAt_of_lt hLt hFirst)
    · exact hEq
    · exact absurd hFirst (not_issuedAt_of_lt hGt hSnd)
  · intro n m k id hnm hmk hLive hDead
    exact dead_run hnm hmk hLive hDead

/-- `n` times one capability minted and taken back. -/
def mintCycles : ℕ → List CapabilityOp
  | 0 => []
  | n + 1 => mintCycles n ++ [.mint 1 1 0 false, .revokeAllHeldBy 1]

theorem mint_vacant {t : CapabilityTable} (hForest : Forest t)
    (hNext : t.nextId ≠ invalidCapability) (hVacant : ∀ slot ∈ t.slots, slot.occupied = false) :
    ∃ t', t.mint 1 1 0 false = (t', .ok t.nextId) ∧ t'.nextId = t.nextId + 1 ∧
      (∃ slot ∈ t'.slots, slot.occupied = true ∧ slot.id = t.nextId) ∧
      ∀ slot ∈ t'.slots, slot.occupied = true → slot.holder = 1 := by
  have hRoom : ∃ free, t.slots[0]? = some free := by
    have hLen : 0 < t.slots.length := by
      rw [hForest.length]
      decide
    exact ⟨t.slots[0], List.getElem?_eq_getElem hLen⟩
  obtain ⟨free, hFree⟩ := hRoom
  have hMem := mem_of_getElem? hFree
  cases hIns : SlotTable.insert Slot.key
      { object := 1, rights := 0, holder := 1, transferable := false, id := t.nextId,
        occupied := true } t.slots with
  | none =>
    have hFull := SlotTable.insert_eq_none_iff.mp hIns free hMem
    simp [Slot.key, hVacant free hMem] at hFull
  | some slots =>
    have hCells := fun slot (hLive : slot.occupied = true) =>
      SlotTable.mem_insert hIns (x := slot) (by simp [Slot.key, hLive])
    refine ⟨{ slots, occupied := t.occupied + 1, nextId := t.nextId + 1 }, ?_, rfl, ?_, ?_⟩
    · simp [mint, issue, hNext, hIns, invalidThread, invalidObject]
    · exact ⟨_, (hCells _ rfl).mpr (.inr rfl), rfl, rfl⟩
    intro slot hSlot hLive
    rcases (hCells slot hLive).mp hSlot with hOld | rfl
    · rw [hVacant slot hOld] at hLive
      simp at hLive
    · rfl

theorem after_mintCycles (n : ℕ) (hn : n < 2 ^ 64 - 1) :
    (after step {} (mintCycles n)).nextId.toNat = n + 1 ∧
      ∀ slot ∈ (after step {} (mintCycles n)).slots,
        slot.occupied = false := by
  induction n with
  | zero =>
    refine ⟨rfl, ?_⟩
    intro slot hMem
    rw [eq_of_mem_replicate hMem]
  | succ n ih =>
    obtain ⟨hCounter, hVacant⟩ := ih (by omega)
    have hForest := (forest_run (mintCycles n)).final
    rw [mintCycles, after_append]
    generalize after step {} (mintCycles n) = t at *
    have hNext : t.nextId ≠ invalidCapability := by
      intro hZero
      rw [hZero] at hCounter
      simp [invalidCapability] at hCounter
    obtain ⟨t', hMint, hSucc, -, hHeld⟩ := mint_vacant hForest hNext hVacant
    have hMinted : (t.step (.mint 1 1 0 false)).1 = t' := congrArg Prod.fst hMint
    have hForest' : Forest t' := hMinted ▸ hForest.step (.mint 1 1 0 false)
    have hOne : (1 : ThreadId) ≠ invalidThread := by decide
    have hAfter : after step t [.mint 1 1 0 false, .revokeAllHeldBy 1] =
        t'.without (Spread.below (parentIndex t'.slots) (t'.heldIndices 1)) := by
      rw [← (hForest'.revokeAllHeldBy_spec hOne).1, ← hMinted]
      rfl
    rw [hAfter]
    refine ⟨?_, ?_⟩
    · show t'.nextId.toNat = n + 1 + 1
      rw [hSucc, UInt64.toNat_add, hCounter, UInt64.toNat_one]
      omega
    intro slot hMem
    obtain ⟨i, hCell⟩ := mem_iff_getElem?.mp hMem
    rw [Bool.eq_false_iff]
    intro hLive
    obtain ⟨hLeft, hOld⟩ := getElem?_of_without hCell hLive
    apply hLeft
    apply Spread.subset_below
    exact ⟨slot, hOld, hLive, hHeld slot (mem_of_getElem? hOld) hLive⟩

/-- One more mint takes the last identifier and wraps the counter. -/
theorem mint_last {n : ℕ} (hn : n + 2 = 2 ^ 64) :
    ∃ slot ∈ (after step {} (mintCycles n ++ [.mint 1 1 0 false])).slots, slot.occupied = true ∧
      ¬ slot.id <
        (Run.after step {} (mintCycles n ++ [.mint 1 1 0 false])).nextId := by
  obtain ⟨hCounter, hVacant⟩ := after_mintCycles n (by omega)
  have hForest := (forest_run (mintCycles n)).final
  rw [after_append]
  generalize after step {} (mintCycles n) = t at *
  have hNext : t.nextId ≠ invalidCapability := by
    intro hZero
    rw [hZero] at hCounter
    simp [invalidCapability] at hCounter
  obtain ⟨t', hMint, hSucc, ⟨slot, hMem, hLive, -⟩, -⟩ := mint_vacant hForest hNext hVacant
  have hMinted : after step t [.mint 1 1 0 false] = t' := congrArg Prod.fst hMint
  rw [hMinted]
  refine ⟨slot, hMem, hLive, ?_⟩
  intro hBelow
  have hLt := lt_iff_toNat_lt.mp hBelow
  rw [hSucc, UInt64.toNat_add, hCounter, UInt64.toNat_one] at hLt
  omega

/-- With every identifier issued the counter is zero, and the last capability's
id is not below it. -/
theorem exhausted_counter_below_live_id :
    ¬ ∀ slot ∈ (after step {}
        (mintCycles (2 ^ 64 - 2) ++ [.mint 1 1 0 false])).slots, slot.occupied = true →
      slot.id < (after step {}
        (mintCycles (2 ^ 64 - 2) ++ [.mint 1 1 0 false])).nextId := by
  intro hBelow
  obtain ⟨slot, hMem, hLive, hNot⟩ := mint_last (n := 2 ^ 64 - 2) (by decide)
  exact hNot (hBelow slot hMem hLive)

end CapabilityTable

end Enml.OsKernel
