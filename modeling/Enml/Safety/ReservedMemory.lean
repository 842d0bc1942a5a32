import Enml.Safety.WriteExecute

/-! Reserved kernel memory. A reservation is checked against the ledger, and the
ledger's entry for a mapping is found without its EL0 bit; a space that maps a
range for itself and for EL0 alike can lose the wrong one of two entries. -/
namespace Enml.OsKernel

open List NativePhysicalMapping NativeMapping

variable {ι : Type} [DecidableEq ι] {i : ι} {a : NativeMapping}

def NativePhysicalReservation.Covers (v : NativePhysicalReservation ι) (address : Nat) : Prop :=
  v.physicalBase.toNat ≤ address ∧ address < v.physicalBase.toNat + v.length.toNat

/-- What no mapping of reserved memory may be: for EL0, executable, or writable
outside the owner of a kernel object. -/
def Machine.ReservedUnreachable (m : Machine ι) : Prop :=
  ∀ v ∈ m.ledger.reserves, ∀ i, ∀ a ∈ (m.spaces i).mappings.entries, ∀ address,
    v.Covers address → a.CoversPhysical address →
      a.userAccessible = false ∧ a.permissions.executable = false ∧
        (v.kind = .kernelObject → v.owner ≠ some i → a.permissions.writable = false)

/-- No space maps any address of the range for EL0. -/
def Machine.KeptFromUsers (m : Machine ι) (physicalBase length : UInt64) : Prop :=
  ∀ i, ∀ a ∈ (m.spaces i).mappings.entries, a.userAccessible = true → ∀ address,
    physicalBase.toNat ≤ address → address < physicalBase.toNat + length.toNat →
      ¬ a.CoversPhysical address

/-- A reservation, and a donation with it, is granted only on memory no space
maps for EL0. -/
def Machine.ReservesOnlyKept (m : Machine ι) : Prop :=
  (∀ i physicalBase length kind, (m.reservePhysical i physicalBase length kind).2 = .ok () →
    m.KeptFromUsers physicalBase length) ∧
  ∀ i arena page, (m.donateTablePage i arena page).2 = .ok () →
    m.KeptFromUsers page architecturalPageSize

/-- The operation retires a mapping of the kernel's, and the first ledger entry
with its owner, range and permissions is one for EL0. -/
def Machine.DropsUserEntry (m : Machine ι) (op : MachineOp ι) : Prop :=
  ∃ i mapping e, m.Retires op i mapping e ∧ mapping.userAccessible = false ∧ e.userAccessible = true

variable {v : NativePhysicalReservation ι}

namespace MappingTables

variable {t t' : MappingTables ι}

/-- The extents of the mappings for EL0. -/
def userExtents (l : List NativeMapping) : List (UInt64 × UInt64 × MachinePermissions) :=
  (l.filter NativeMapping.userAccessible).map NativeMapping.extent

def userEntries (l : List (NativePhysicalMapping ι)) :
    List (UInt64 × UInt64 × MachinePermissions) :=
  (l.filter NativePhysicalMapping.userAccessible).map NativePhysicalMapping.extent

/-- The mappings for EL0 are all among the ledger's entries for EL0, counted
with repetition, and no mapping is one that a reservation forbids. -/
structure Guarded (t : MappingTables ι) : Prop where
  user : ∀ i, (userExtents (t.spaces i)).Subperm (userEntries (t.ledgerOf i))
  reservedRange : ∀ v ∈ t.reservations, RangeWithin (2 ^ 48) v.physicalBase v.length
  permitted : ∀ v ∈ t.reservations, ∀ i, ∀ a ∈ t.spaces i,
    overlaps v.physicalBase v.length a.physicalBase a.length = true →
      forbiddenByReservation v.kind v.owner (some i) a.permissions a.userAccessible = false

omit [DecidableEq ι] in
theorem userExtents_cons (m : NativeMapping) (l : List NativeMapping) :
    userExtents (m :: l) =
      if m.userAccessible then m.extent :: userExtents l else userExtents l := by
  unfold userExtents
  rw [filter_cons]
  split <;> simp

omit [DecidableEq ι] in
theorem userEntries_cons (e : NativePhysicalMapping ι) (l : List (NativePhysicalMapping ι)) :
    userEntries (e :: l) =
      if e.userAccessible then e.extent :: userEntries l else userEntries l := by
  unfold userEntries
  rw [filter_cons]
  split <;> simp

theorem Guarded.mapped (h : t.Guarded) {r : MapRequest} (hAdmits : t.Admits i r)
    (hSpace : (t'.spaces i).Perm (r.toMapping :: t.spaces i))
    (hOthers : ∀ j, j ≠ i → t'.spaces j = t.spaces j)
    (hLedger : t'.ledger.Perm (r.toPhysicalMapping i :: t.ledger))
    (hResv : t'.reservations = t.reservations) : t'.Guarded := by
  refine ⟨?_, hResv ▸ h.reservedRange, ?_⟩
  · intro j
    rcases eq_or_ne j i with rfl | hj
    · have hLocal : (userExtents (t'.spaces j)).Perm (userExtents (r.toMapping :: t.spaces j)) :=
        (hSpace.filter _).map _
      have hEnts : (userEntries (t'.ledgerOf j)).Perm
          (userEntries (r.toPhysicalMapping j :: t.ledgerOf j)) :=
        ((ledgerOf_cons_self rfl hLedger).filter _).map _
      rw [hLocal.subperm_right, hEnts.subperm_left, userExtents_cons, userEntries_cons]
      have hSame : r.toMapping.extent = (r.toPhysicalMapping j).extent := rfl
      have hBit : r.toMapping.userAccessible = (r.toPhysicalMapping j).userAccessible := rfl
      rw [hSame, hBit]
      split
      · exact (subperm_cons _).mpr (h.user j)
      · exact h.user j
    · have hEnts : (userEntries (t'.ledgerOf j)).Perm (userEntries (t.ledgerOf j)) :=
        ((ledgerOf_cons_ne hj rfl hLedger).filter _).map _
      rw [hOthers j hj]
      exact hEnts.subperm_left.mpr (h.user j)
  · rw [hResv]
    intro v hv j a ha hOverlap
    rcases eq_or_ne j i with rfl | hj
    · rcases mem_cons.mp (hSpace.mem_iff.mp ha) with rfl | hOld
      · exact hAdmits.permitted v hv hOverlap
      · exact h.permitted v hv j a hOld hOverlap
    · rw [hOthers j hj] at ha
      exact h.permitted v hv j a ha hOverlap

/-- Retiring keeps the count as long as no entry for EL0 goes in place of one
for the kernel. -/
theorem Guarded.retired (h : t.Guarded) {m : NativeMapping} {e : NativePhysicalMapping ι}
    (hKeeps : ¬ (m.userAccessible = false ∧ e.userAccessible = true))
    (hRecs : e.records i m = true) (hSpace : (t.spaces i).Perm (m :: t'.spaces i))
    (hOthers : ∀ j, j ≠ i → t'.spaces j = t.spaces j) (hLedger : t.ledger.Perm (e :: t'.ledger))
    (hResv : t'.reservations = t.reservations) : t'.Guarded := by
  obtain ⟨hOwner, hExtent⟩ := (e.records_iff i m).mp hRecs
  refine ⟨?_, hResv ▸ h.reservedRange, ?_⟩
  · intro j
    rcases eq_or_ne j i with rfl | hj
    · have hLocal : (userExtents (t.spaces j)).Perm (userExtents (m :: t'.spaces j)) :=
        (hSpace.filter _).map _
      have hEnts : (userEntries (t.ledgerOf j)).Perm (userEntries (e :: t'.ledgerOf j)) :=
        ((ledgerOf_cons_self hOwner hLedger).filter _).map _
      have hOld := h.user j
      rw [hLocal.subperm_right, hEnts.subperm_left, userExtents_cons, userEntries_cons,
        hExtent] at hOld
      cases hUser : m.userAccessible with
      | true =>
        rw [hUser, if_pos rfl] at hOld
        split at hOld
        · exact (subperm_cons _).mp hOld
        · exact ((sublist_cons_self _ _).subperm).trans hOld
      | false =>
        have hEntry : e.userAccessible = false := by
          cases hBit : e.userAccessible with
          | false => rfl
          | true => exact absurd ⟨hUser, hBit⟩ hKeeps
        rwa [hUser, hEntry, if_neg Bool.false_ne_true, if_neg Bool.false_ne_true] at hOld
    · have hEnts : (userEntries (t.ledgerOf j)).Perm (userEntries (t'.ledgerOf j)) :=
        ((ledgerOf_cons_ne hj hOwner hLedger).filter _).map _
      rw [hOthers j hj]
      exact hEnts.subperm_left.mp (h.user j)
  · rw [hResv]
    intro v hv j a ha hOverlap
    refine h.permitted v hv j a ?_ hOverlap
    rcases eq_or_ne j i with rfl | hj
    · exact hSpace.mem_iff.mpr (mem_cons_of_mem m ha)
    · rwa [hOthers j hj] at ha

/-- A mapping for EL0 has an entry for EL0. -/
theorem Guarded.exists_user_entry (h : t.Guarded) (ha : a ∈ t.spaces i)
    (hUser : a.userAccessible = true) :
    ∃ e ∈ t.ledger, e.owner = some i ∧ e.extent = a.extent ∧ e.userAccessible = true := by
  have hMem : a.extent ∈ userExtents (t.spaces i) :=
    List.mem_map_of_mem (List.mem_filter.mpr ⟨ha, hUser⟩)
  obtain ⟨e, he, hExtent⟩ := mem_map.mp ((h.user i).subset hMem)
  obtain ⟨hOwned, hBit⟩ := mem_filter.mp he
  obtain ⟨hLedger, hOwner⟩ := mem_filter.mp hOwned
  exact ⟨e, hLedger, by simpa using hOwner, hExtent, hBit⟩

/-- What the ledger lets be reserved, the spaces' own tables let be reserved. -/
theorem Guarded.permits (h : t.Guarded) (hConsist : t.Consistent)
    (hAdmits : t.AdmitsReservation v) (ha : a ∈ t.spaces i)
    (hOverlap : overlaps v.physicalBase v.length a.physicalBase a.length = true) :
    forbiddenByReservation v.kind v.owner (some i) a.permissions a.userAccessible = false := by
  have hEntry : ∃ e ∈ t.ledger, e.owner = some i ∧ e.extent = a.extent ∧
      (a.userAccessible = true → e.userAccessible = true) := by
    cases hUser : a.userAccessible with
    | true =>
      obtain ⟨e, he, hOwner, hExtent, hBit⟩ := h.exists_user_entry ha hUser
      exact ⟨e, he, hOwner, hExtent, fun _ => hBit⟩
    | false =>
      obtain ⟨e, he, hOwner, hExtent⟩ := hConsist.exists_entry ha
      exact ⟨e, he, hOwner, hExtent, fun hFalse => by cases hFalse⟩
  obtain ⟨e, he, hOwner, hExtent, hBit⟩ := hEntry
  simp only [NativePhysicalMapping.extent, NativeMapping.extent, Prod.mk.injEq] at hExtent
  obtain ⟨hBase, hLen, hPerms⟩ := hExtent
  rw [overlaps_comm, ← hBase, ← hLen] at hOverlap
  have hPermitted := hAdmits.permitted e he hOverlap
  rw [hOwner, hPerms] at hPermitted
  simp only [forbiddenByReservation, Bool.or_eq_false_iff] at hPermitted ⊢
  refine ⟨⟨?_, hPermitted.1.2⟩, hPermitted.2⟩
  by_contra hUser
  rw [Bool.not_eq_false] at hUser
  rw [hBit hUser] at hPermitted
  cases hPermitted.1.1

theorem Guarded.change {Maps : ι → MapRequest → Prop}
    {Retires : ι → NativeMapping → NativePhysicalMapping ι → Prop}
    (h : t.Guarded) (hConsist : t.Consistent) (hChange : Change Maps Retires t t')
    (hKeeps : ∀ i m e, Retires i m e → ¬ (m.userAccessible = false ∧ e.userAccessible = true)) :
    t'.Guarded := by
  cases hChange with
  | same hSame => exact hSame ▸ h
  | mapped _ _ _ hAdmits hSpace hOthers hLedger hResv =>
    exact h.mapped hAdmits hSpace hOthers hLedger hResv
  | retired i m e hRetires hRecs hSpace hOthers hLedger hResv =>
    exact h.retired (hKeeps i m e hRetires) hRecs hSpace hOthers hLedger hResv
  | reserved v hAdmits hSpaces hLedger hResv =>
    have hOf : t'.ledgerOf = t.ledgerOf := by
      funext i
      simp only [ledgerOf, hLedger]
    refine ⟨by rw [hOf, hSpaces]; exact h.user, ?_, ?_⟩
    · intro w hw
      rcases mem_cons.mp (hResv.mem_iff.mp hw) with rfl | hOld
      · exact (physicalRangeValid_iff _ _).mp hAdmits.range
      · exact h.reservedRange w hOld
    intro w hw i a ha hOverlap
    rw [hSpaces] at ha
    rcases mem_cons.mp (hResv.mem_iff.mp hw) with rfl | hOld
    · exact h.permits hConsist hAdmits ha hOverlap
    · exact h.permitted w hOld i a ha hOverlap
  | released hSpaces hLedger hResv =>
    have hOf : t'.ledgerOf = t.ledgerOf := by
      funext i
      simp only [ledgerOf, hLedger]
    refine ⟨by rw [hOf, hSpaces]; exact h.user, ?_, ?_⟩
    · intro w hw
      exact h.reservedRange w (hResv.subset hw)
    · intro w hw i a ha
      rw [hSpaces] at ha
      exact h.permitted w (hResv.subset hw) i a ha

end MappingTables

namespace Machine

variable {m : Machine ι}

/-- The two together are what a run keeps. -/
structure Sound (m : Machine ι) : Prop where
  consistent : m.tables.Consistent
  guarded : m.tables.Guarded

theorem sound_fresh (physical : Physical) : (fresh ι physical).Sound := by
  have hResv : (fresh ι physical).tables.reservations = [] := by
    simp [tables, fresh, NativePhysicalLedger.reserves, SlotTable.entries_replicate,
      NativePhysicalReservation.key]
  refine ⟨tables_fresh physical, ?_, ?_, ?_⟩
  · intro i
    rw [spaces_fresh]
    exact List.nil_subperm
  all_goals
    intro v hv
    rw [hResv] at hv
    cases hv

/-- A step that drops no user entry keeps the ledger sound. -/
theorem Sound.step (h : m.Sound) {op : MachineOp ι} (hOp : ¬ m.DropsUserEntry op) :
    (m.step op).1.Sound := by
  refine ⟨h.consistent.change (m.step_change op), ?_⟩
  refine h.guarded.change h.consistent (m.step_change op) ?_
  intro i mapping e hRetires hBits
  exact hOp ⟨i, mapping, e, hRetires, hBits⟩

omit [DecidableEq ι] in
/-- A reservation covers an address of a mapping only if the two ranges overlap. -/
theorem overlaps_of_common {address : Nat} (hv : RangeWithin (2 ^ 48) v.physicalBase v.length)
    (ha : RangeWithin (2 ^ 48) a.physicalBase a.length) (hCovers : v.Covers address)
    (hMapped : a.CoversPhysical address) :
    overlaps v.physicalBase v.length a.physicalBase a.length = true := by
  rw [overlaps_iff (hv.lt (by norm_num)) (ha.lt (by norm_num))]
  simp only [NativePhysicalReservation.Covers, NativeMapping.CoversPhysical] at hCovers hMapped
  omega

theorem Sound.reservedUnreachable (h : m.Sound) : m.ReservedUnreachable := by
  intro v hv i a ha address hCovers hMapped
  have hOverlap := overlaps_of_common (h.guarded.reservedRange v hv)
    (h.consistent.range i a ha).1 hCovers hMapped
  have hPermitted := h.guarded.permitted v hv i a ha hOverlap
  simp only [forbiddenByReservation, Bool.or_eq_false_iff] at hPermitted
  refine ⟨hPermitted.1.1, hPermitted.1.2, ?_⟩
  intro hKind hOwner
  simpa [hKind, Ne.symm hOwner] using hPermitted.2

theorem Sound.reservePhysical_kept (h : m.Sound) {physicalBase length : UInt64}
    {kind : PhysicalReservationKind}
    (hDone : (m.reservePhysical i physicalBase length kind).2 = .ok ()) :
    m.KeptFromUsers physicalBase length := by
  rcases m.reservePhysical_cases i physicalBase length kind with
    ⟨e, hErr⟩ | ⟨hRange, -, hPermitted, -⟩
  · rw [hErr] at hDone
    cases hDone
  intro j a ha hUser address hLower hUpper hMapped
  have hOverlap := overlaps_of_common
    (v := { owner := some i, physicalBase, length, kind, occupied := true })
    ((physicalRangeValid_iff _ _).mp hRange) (h.consistent.range j a ha).1 ⟨hLower, hUpper⟩ hMapped
  have hAllowed := h.guarded.permits h.consistent
    (v := { owner := some i, physicalBase, length, kind, occupied := true })
    ⟨hRange, rfl, hPermitted⟩ ha hOverlap
  simp [forbiddenByReservation, hUser] at hAllowed

theorem Sound.reservesOnlyKept (h : m.Sound) : m.ReservesOnlyKept := by
  refine ⟨fun i physicalBase length kind => h.reservePhysical_kept, ?_⟩
  intro i arena page hDone
  unfold donateTablePage at hDone
  split at hDone
  · cases hDone
  rename_i hReserve
  have hResv : (m.reservePhysical i page architecturalPageSize .kernelPrivate).2 = .ok () := by
    rw [hReserve]
  exact h.reservePhysical_kept hResv

/-- In a run that never drops an entry for EL0 in place of one for the kernel,
reserved memory is out of EL0's reach, and no memory EL0 reaches is reserved or
donated. -/
theorem reserved_unreachable_unless_dropped (physical : Physical) (ops : List (MachineOp ι))
    (hEach : Run.EachStep step (fun m op => ¬ m.DropsUserEntry op) (fresh ι physical) ops) :
    Run.Always step (fun m => m.ReservedUnreachable ∧ m.ReservesOnlyKept)
      (fresh ι physical) ops := by
  have hSound : Run.Always step Sound (fresh ι physical) ops :=
    Run.always_of_step (sound_fresh physical) (fun m op h hOp => h.step hOp) hEach
  intro n
  exact ⟨(hSound n).reservedUnreachable, (hSound n).reservesOnlyKept⟩

/-- A space that maps one page for EL0 and for itself, both for reading. -/
def aliasingRun : List (MachineOp Nat) :=
  [ .create 1 0 .lower, .donateTablePage 1 0 0x100000, .donateTablePage 1 0 0x101000,
    .donateTablePage 1 0 0x102000,
    .initializeTranslationRoot 1,
    .mapUser 1 0x400000 0x800000 0x1000 .read,
    .donateTablePage 1 0 0x103000,
    .donateTablePage 1 0 0x104000,
    .map 1 0x500000 0x800000 0x1000 .read .normal false ]

/-- Giving up the mapping for EL0 drops its own entry. -/
theorem reserved_unreachable_userRun :
    Run.EachStep step (fun m op => ¬ m.DropsUserEntry op) (fresh Nat {})
      (aliasingRun ++ [.unmap 1 0x400000 0x1000]) ∧
    Run.Always step (fun m => m.ReservedUnreachable ∧ m.ReservesOnlyKept)
      (fresh Nat {}) (aliasingRun ++ [.unmap 1 0x400000 0x1000]) := by
  have hEach : Run.EachStep step (fun m op => ¬ m.DropsUserEntry op) (fresh Nat {})
      (aliasingRun ++ [.unmap 1 0x400000 0x1000]) := by
    rintro n op hOp ⟨i, mapping, e, ⟨⟨virtualBase, length, hRetires, hExact⟩, -⟩, hBit, -⟩
    have hLast : n = 9 ∧ op = .unmap 1 0x400000 0x1000 := by
      rcases Nat.lt_or_ge n 9 with hn | hn
      · rw [getElem?_append_left (by exact hn)] at hOp
        have hMem : op ∈ aliasingRun := mem_of_getElem? hOp
        rcases hRetires with rfl | rfl <;> simp [aliasingRun] at hMem
      · rw [getElem?_append_right (by exact hn), getElem?_singleton] at hOp
        have hLen : aliasingRun.length = 9 := rfl
        split_ifs at hOp with hZero
        cases hOp
        exact ⟨by omega, rfl⟩
    obtain ⟨rfl, rfl⟩ := hLast
    have hUser :
      ((Run.after step (fresh Nat {}) aliasingRun).spaces 1).mappings.exactMapping
        0x400000 0x1000 = .ok
          { virtualBase := 0x400000, physicalBase := 0x800000, length := 0x1000
            permissions := .read, userAccessible := true, occupied := true } := by
      decide +kernel
    rcases hRetires with hUnmap | hRetire
    · cases hUnmap
      have hTake : (aliasingRun ++ [MachineOp.unmap 1 0x400000 0x1000]).take 9 = aliasingRun := rfl
      rw [hTake, hUser] at hExact
      cases hExact
      cases hBit
    · cases hRetire
  exact ⟨hEach, reserved_unreachable_unless_dropped {} _ hEach⟩

/-- The space gives up its own mapping of the page. -/
def droppingRun : List (MachineOp Nat) := aliasingRun ++ [.unmap 1 0x500000 0x1000]

/-- The ledger now has the page as the kernel's alone, and lets it be donated as
a page table while EL0 still reads it. -/
theorem droppingRun_donates_mapped_page :
    ¬ Run.Always step (fun m => m.ReservedUnreachable ∧ m.ReservesOnlyKept)
      (fresh Nat {}) droppingRun := by
  intro h
  have hKept := h.final.2.2 1 0 0x800000 (by decide +kernel) 1
    { virtualBase := 0x400000, physicalBase := 0x800000, length := 0x1000, permissions := .read
      userAccessible := true, occupied := true } (by decide +kernel) rfl 0x800000 (by decide)
    (by decide)
  apply hKept
  exact ⟨by decide, by decide⟩

end Machine

open Machine

end Enml.OsKernel
