import Enml.Invariant.Addresses
import Enml.OsKernel.Machine

/-! What an operation of the machine layer does to the tables. The occupied
cells are read off as lists, and every operation comes down to one of five
changes of these lists. -/
namespace Enml.OsKernel

open Enml.Core NativePhysicalLedger NativePhysicalMapping
open SlotTable hiding entries

variable {ι : Type} {mapping : NativeMapping}

/-- The occupied cells: of each space's table, of the ledger, and the
reservations. -/
structure MappingTables (ι : Type) where
  spaces : ι → List NativeMapping
  ledger : List (NativePhysicalMapping ι)
  reservations : List (NativePhysicalReservation ι)

def NativeAddressSpaceState.entries (s : NativeAddressSpaceState) : List NativeMapping :=
  SlotTable.entries NativeMapping.key s.mappings

def NativePhysicalLedger.entries (l : NativePhysicalLedger ι) : List (NativePhysicalMapping ι) :=
  SlotTable.entries key l.mappings

def NativePhysicalLedger.reserves (l : NativePhysicalLedger ι) :
    List (NativePhysicalReservation ι) :=
  SlotTable.entries NativePhysicalReservation.key l.reservations

def Machine.tables (m : Machine ι) : MappingTables ι where
  spaces i := (m.spaces i).mappings.entries
  ledger := m.ledger.entries
  reservations := m.ledger.reserves

theorem NativeMapping.isSome_key (m : NativeMapping) : m.key.isSome = m.occupied := by
  unfold key
  split <;> simp_all

theorem NativePhysicalMapping.isSome_key (m : NativePhysicalMapping ι) :
    m.key.isSome = m.occupied := by
  unfold key
  split <;> simp_all

theorem NativePhysicalReservation.isSome_key (r : NativePhysicalReservation ι) :
    r.key.isSome = r.occupied := by
  unfold key
  split <;> simp_all

theorem NativeAddressSpaceState.mem_entries {s : NativeAddressSpaceState} {m : NativeMapping} :
    m ∈ s.entries ↔ m ∈ s.mappings ∧ m.occupied = true := by
  rw [entries, SlotTable.mem_entries, NativeMapping.isSome_key]

variable {l : NativePhysicalLedger ι}

theorem NativePhysicalLedger.mem_entries {m : NativePhysicalMapping ι} :
    m ∈ l.entries ↔ m ∈ l.mappings ∧ m.occupied = true := by
  rw [entries, SlotTable.mem_entries, isSome_key]

theorem NativePhysicalLedger.mem_reserves {r : NativePhysicalReservation ι} :
    r ∈ l.reserves ↔ r ∈ l.reservations ∧ r.occupied = true := by
  rw [reserves, SlotTable.mem_entries, NativePhysicalReservation.isSome_key]

theorem NativePhysicalLedger.find?_entries (l : NativePhysicalLedger ι)
    (p : NativePhysicalMapping ι → Bool) :
    l.entries.find? p = l.mappings.find? fun e => e.occupied && p e := by
  rw [entries, SlotTable.entries, List.find?_filter]
  apply congrArg (fun q => List.find? q l.mappings)
  funext e
  simp [isSome_key]

variable [DecidableEq ι]

/-- A request that passed every check of `map_impl` against the tables. -/
structure MappingTables.Admits (t : MappingTables ι) (i : ι) (r : MapRequest) : Prop where
  range : r.rangeValid = true
  user : r.userAccessible = true → r.kind = .normal
  apart : ∀ m ∈ t.spaces i, overlaps m.virtualBase m.length r.virtualBase r.length = false
  exclusive : ∀ m ∈ t.ledger, overlaps m.physicalBase m.length r.physicalBase r.length = true →
      ¬ (m.permissions.writable = true ∧ r.permissions.executable = true) ∧
      ¬ (m.permissions.executable = true ∧ r.permissions.writable = true)
  permitted : ∀ v ∈ t.reservations,
    overlaps v.physicalBase v.length r.physicalBase r.length = true →
      forbiddenByReservation v.kind v.owner (some i) r.permissions r.userAccessible = false

/-- A reservation that passed every check of `reserve_physical`. -/
structure MappingTables.AdmitsReservation (t : MappingTables ι)
    (v : NativePhysicalReservation ι) : Prop where
  range : physicalRangeValid v.physicalBase v.length = true
  occupied : v.occupied = true
  permitted : ∀ m ∈ t.ledger, overlaps m.physicalBase m.length v.physicalBase v.length = true →
      forbiddenByReservation v.kind v.owner m.owner m.permissions m.userAccessible = false

namespace NativeAddressSpaceState

variable {s : NativeAddressSpaceState} {i : ι} {ledger : NativePhysicalLedger ι} {r : MapRequest}
  {t : MappingTables ι}

theorem mapCheck_ok (h : s.mapCheck i ledger r = .ok ()) (hSpace : t.spaces i = s.entries)
    (hLedger : t.ledger = ledger.entries) (hResv : t.reservations = ledger.reserves) :
    t.Admits i r := by
  unfold mapCheck at h
  split_ifs at h with hBound hKind hStack hRange hApart hAlias hReservation
  refine ⟨by simpa using hRange, ?_, ?_, ?_, ?_⟩
  · intro hUser
    simpa [hUser] using hKind
  · intro m hm
    rw [hSpace, mem_entries] at hm
    simp only [List.any_eq_true, Bool.and_eq_true, not_exists, not_and] at hApart
    simpa using hApart m hm.1 hm.2
  · intro m hm hOverlap
    rw [hLedger, NativePhysicalLedger.mem_entries] at hm
    simp only [List.any_eq_true, Bool.and_eq_true, Bool.or_eq_true, not_exists, not_and,
      not_or] at hAlias
    obtain ⟨hFirst, hSnd⟩ := hAlias m hm.1 ⟨hm.2, hOverlap⟩
    exact ⟨fun hBoth => hFirst hBoth.1 hBoth.2, fun hBoth => hSnd hBoth.1 hBoth.2⟩
  · intro v hv hOverlap
    rw [hResv, mem_reserves] at hv
    simp only [List.any_eq_true, Bool.and_eq_true, not_exists, not_and] at hReservation
    simpa using hReservation v hv.1 ⟨hv.2, hOverlap⟩

/-- The checks refuse nothing else of a space that is bound. -/
theorem mapCheck_of_admits (h : t.Admits i r) (hBound : s.bound = true)
    (hStack : r.userStack = false) (hSpace : t.spaces i = s.entries)
    (hLedger : t.ledger = ledger.entries) (hResv : t.reservations = ledger.reserves) :
    s.mapCheck i ledger r = .ok () := by
  have hKind : ¬ (r.userAccessible && r.kind != .normal) = true := by
    simp only [Bool.and_eq_true, bne_iff_ne, not_and, not_not]
    exact h.user
  have hApart : ¬ (s.mappings.any fun m =>
      m.occupied && overlaps m.virtualBase m.length r.virtualBase r.length) = true := by
    simp only [List.any_eq_true, Bool.and_eq_true, not_exists, not_and, Bool.not_eq_true]
    intro m hm hOcc
    exact h.apart m (by rw [hSpace, mem_entries]; exact ⟨hm, hOcc⟩)
  have hAlias : ¬ (ledger.mappings.any fun m =>
      m.occupied && overlaps m.physicalBase m.length r.physicalBase r.length &&
        (m.permissions.writable && r.permissions.executable ||
          m.permissions.executable && r.permissions.writable)) = true := by
    simp only [List.any_eq_true, Bool.and_eq_true, Bool.or_eq_true, not_exists, not_and, not_or]
    intro m hm ⟨hOcc, hOverlap⟩
    have hMem : m ∈ t.ledger := by
      rw [hLedger, NativePhysicalLedger.mem_entries]
      exact ⟨hm, hOcc⟩
    obtain ⟨hFirst, hSnd⟩ := h.exclusive m hMem hOverlap
    exact ⟨fun hWritable hExec => hFirst ⟨hWritable, hExec⟩,
      fun hExec hWritable => hSnd ⟨hExec, hWritable⟩⟩
  have hReservation : ¬ (ledger.reservations.any fun v =>
      v.occupied && overlaps v.physicalBase v.length r.physicalBase r.length &&
        forbiddenByReservation v.kind v.owner (some i) r.permissions r.userAccessible) = true := by
    simp only [List.any_eq_true, Bool.and_eq_true, not_exists, not_and, Bool.not_eq_true]
    intro v hv ⟨hOcc, hOverlap⟩
    have hMem : v ∈ t.reservations := by
      rw [hResv, mem_reserves]
      exact ⟨hv, hOcc⟩
    exact h.permitted v hMem hOverlap
  rw [mapCheck, if_neg (by simp [hBound]), if_neg hKind, if_neg (by simp [hStack]),
    if_neg (by simp [h.range]), if_neg hApart, if_neg hAlias, if_neg hReservation]

end NativeAddressSpaceState

/-- The ledger entry `retire_unmapped` looks for. -/
def NativePhysicalMapping.records (e : NativePhysicalMapping ι) (i : ι) (m : NativeMapping) :
    Bool :=
  e.owner == some i && e.physicalBase == m.physicalBase && e.length == m.length &&
    e.permissions == m.permissions

/-- The five changes; `Maps` says what may be mapped where, and `Retires` which
mapping may go with which entry. -/
inductive MappingTables.Change (Maps : ι → MapRequest → Prop)
    (Retires : ι → NativeMapping → NativePhysicalMapping ι → Prop) (t t' : MappingTables ι) :
    Prop where
  | same (hSame : t' = t)
  | mapped (i : ι) (r : MapRequest) (hMaps : Maps i r) (hAdmits : t.Admits i r)
      (hSpace : (t'.spaces i).Perm (r.toMapping :: t.spaces i))
      (hOthers : ∀ j, j ≠ i → t'.spaces j = t.spaces j)
      (hLedger : t'.ledger.Perm (r.toPhysicalMapping i :: t.ledger))
      (hResv : t'.reservations = t.reservations)
  | retired (i : ι) (m : NativeMapping) (e : NativePhysicalMapping ι) (hRetires : Retires i m e)
      (hRecs : e.records i m = true)
      (hSpace : (t.spaces i).Perm (m :: t'.spaces i))
      (hOthers : ∀ j, j ≠ i → t'.spaces j = t.spaces j)
      (hLedger : t.ledger.Perm (e :: t'.ledger))
      (hResv : t'.reservations = t.reservations)
  | reserved (v : NativePhysicalReservation ι) (hAdmits : t.AdmitsReservation v)
      (hSpaces : t'.spaces = t.spaces) (hLedger : t'.ledger = t.ledger)
      (hResv : t'.reservations.Perm (v :: t.reservations))
  | released (hSpaces : t'.spaces = t.spaces) (hLedger : t'.ledger = t.ledger)
      (hResv : t'.reservations.Sublist t.reservations)

/-- The request of a mapping operation. -/
def MachineOp.request : MachineOp ι → Option (ι × MapRequest)
  | .map space virtualBase physicalBase length permissions kind kernelStack =>
    some (space, { virtualBase, physicalBase, length, permissions, kind, kernelStack })
  | .mapUser space virtualBase physicalBase length permissions =>
    some (space, { virtualBase, physicalBase, length, permissions, userAccessible := true })
  | .mapUserBacking space virtualBase physicalBase length permissions =>
    some (space,
      { virtualBase, physicalBase, length, permissions, userAccessible := true, backing := true })
  | .mapKernelStack space virtualBase physicalBase length =>
    some (space,
      { virtualBase, physicalBase, length, permissions := .readWrite, kernelStack := true })
  | .mapUserStack space virtualBase physicalBase length =>
    some (space,
      { virtualBase, physicalBase, length, permissions := .readWrite, userStack := true
        userAccessible := true })
  | _ => none

/-- The operation retires the mapping and takes the first ledger entry that
records it. -/
def Machine.Retires (m : Machine ι) (op : MachineOp ι) (i : ι) (mapping : NativeMapping)
    (e : NativePhysicalMapping ι) : Prop :=
  (∃ virtualBase length,
    (op = .unmap i virtualBase length ∨ op = .retireUnmapped i virtualBase length) ∧
    (m.spaces i).mappings.exactMapping virtualBase length = .ok mapping) ∧
  m.ledger.entries.find? (fun e => e.records i mapping) = some e

variable {s s' : NativeAddressSpaceState} {virtualBase length : UInt64} {i : ι}
  {ledger ledger' : NativePhysicalLedger ι} {b : EarlyStage1Builder} {result : Result Unit}

theorem NativeAddressSpaceState.exactMapping_ok
    (h : s.exactMapping virtualBase length = .ok mapping) :
    s.mappings.find? (fun m => m.occupied && m.virtualBase == virtualBase && m.length == length) =
      some mapping := by
  unfold exactMapping at h
  split_ifs at h
  split at h
  · cases h
  · cases h
    assumption

/-- A successful retirement frees the named mapping and the first ledger entry
that records it. -/
theorem NativeAddressSpaceState.retireUnmapped_cases {memory : Memory}
    (h : s.retireUnmapped i ledger b memory virtualBase length = ((s', ledger'), result)) :
    (s' = s ∧ ledger' = ledger ∧ ∃ e, result = .error e) ∨
      result = .ok () ∧ ∃ mapping e, s.exactMapping virtualBase length = .ok mapping ∧
        ledger.entries.find? (fun e => e.records i mapping) = some e ∧
        s.entries.Perm (mapping :: s'.entries) ∧ ledger.entries.Perm (e :: ledger'.entries) ∧
        ledger'.reserves = ledger.reserves := by
  unfold retireUnmapped at h
  split at h
  · cases h
    exact .inl ⟨rfl, rfl, _, rfl⟩
  rename_i mapping hExact
  dsimp only at h
  split at h
  · cases h
    exact .inl ⟨rfl, rfl, _, rfl⟩
  rename_i hFound
  split at h
  · cases h
    exact .inl ⟨rfl, rfl, _, rfl⟩
  cases h
  right
  obtain ⟨e, he⟩ := Option.ne_none_iff_exists'.mp hFound
  refine ⟨rfl, mapping, e, hExact, ?_, ?_, ?_, rfl⟩
  · rw [find?_entries, ← he]
    simp only [records, Bool.and_assoc]
  · apply perm_entries_updateFirst (by rfl)
    · intro m hm
      rw [NativeMapping.isSome_key]
      simp_all
    · exact exactMapping_ok hExact
  · apply perm_entries_updateFirst (by rfl)
    · intro e he
      rw [isSome_key]
      simp_all
    · exact he

/-- A successful map adds the mapping to the space and to the ledger; any other
outcome leaves both as they are. -/
theorem NativeAddressSpaceState.mapImpl_cases {p p' : Physical} {r : MapRequest}
    {result : Option (Result Unit)} (h : s.mapImpl i ledger b p r = ((s', ledger', p'), result)) :
    (s' = s ∧ ledger' = ledger ∧ result ≠ some (.ok ())) ∨
      result = some (.ok ()) ∧ s.mapCheck i ledger r = .ok () ∧
        s'.entries.Perm (r.toMapping :: s.entries) ∧
        ledger'.entries.Perm (r.toPhysicalMapping i :: ledger.entries) ∧
        ledger'.reserves = ledger.reserves := by
  unfold mapImpl at h
  split at h
  · cases h
    exact .inl ⟨rfl, rfl, by simp⟩
  rename_i hCheck
  split at h
  · rename_i hLocal hPhys
    dsimp only at h
    iterate 3
      split at h
      · cases h
        exact .inl ⟨rfl, rfl, by simp⟩
    · cases h
      exact .inr ⟨rfl, hCheck, entries_insert rfl hLocal, entries_insert rfl hPhys, rfl⟩
  · cases h
    exact .inl ⟨rfl, rfl, by simp⟩

namespace Machine

variable {m : Machine ι} {Maps : ι → MapRequest → Prop}
  {Retires : ι → NativeMapping → NativePhysicalMapping ι → Prop}

theorem spaces_setMappings_self (m : Machine ι) (i : ι) (s : NativeAddressSpaceState) :
    (m.setMappings i s).tables.spaces i = s.entries := by
  simp [tables, setMappings]

theorem spaces_setMappings_ne (m : Machine ι) {j : ι} (h : j ≠ i) (s : NativeAddressSpaceState) :
    (m.setMappings i s).tables.spaces j = m.tables.spaces j := by
  simp [tables, setMappings, Function.update_of_ne h]

/-- Replacing a space's state by one with the same cells changes no table. -/
theorem tables_update (m : Machine ι) (i : ι) {space : MachineAddressSpace}
    (h : space.mappings.mappings = (m.spaces i).mappings.mappings) :
    ({ m with spaces := Function.update m.spaces i space } : Machine ι).tables = m.tables := by
  have hSpaces : ∀ j, ((Function.update m.spaces i space) j).mappings.entries =
      (m.spaces j).mappings.entries := by
    intro j
    rcases eq_or_ne j i with rfl | hj
    · simp [NativeAddressSpaceState.entries, h]
    · rw [Function.update_of_ne hj]
  simp only [tables, hSpaces]

/-- The space after a successful map, and everything else as it was. -/
structure Mapped (m : Machine ι) (i : ι) (r : MapRequest) (m' : Machine ι) : Prop where
  admits : m.tables.Admits i r
  space : (m'.tables.spaces i).Perm (r.toMapping :: m.tables.spaces i)
  others : ∀ j, j ≠ i → m'.tables.spaces j = m.tables.spaces j
  ledger : m'.tables.ledger.Perm (r.toPhysicalMapping i :: m.tables.ledger)
  reserved : m'.tables.reservations = m.tables.reservations

/-- The space after a successful unmap: the mapping with this base and length is
gone, and with it the first ledger entry that records it. -/
structure Unmapped (m : Machine ι) (i : ι) (virtualBase length : UInt64) (mapping : NativeMapping)
    (e : NativePhysicalMapping ι) (m' : Machine ι) : Prop where
  exact : (m.spaces i).mappings.exactMapping virtualBase length = .ok mapping
  found : m.ledger.entries.find? (fun e => e.records i mapping) = some e
  space : (m.tables.spaces i).Perm (mapping :: m'.tables.spaces i)
  others : ∀ j, j ≠ i → m'.tables.spaces j = m.tables.spaces j
  ledger : m.tables.ledger.Perm (e :: m'.tables.ledger)
  reserved : m'.tables.reservations = m.tables.reservations

variable {m' : Machine ι} {result : Option (Result Unit)} {r : MapRequest}

theorem mapImpl_cases (h : m.mapImpl i r = (m', result)) :
    (m'.tables = m.tables ∧ result ≠ some (.ok ())) ∨
      result = some (.ok ()) ∧ m.Mapped i r m' := by
  unfold mapImpl at h
  rcases hMap : (m.spaces i).mappings.mapImpl i m.ledger (m.spaces i).builder m.physical r with
    ⟨⟨s, ledger, p⟩, result'⟩
  rw [hMap] at h
  cases h
  rcases NativeAddressSpaceState.mapImpl_cases hMap with
    ⟨rfl, rfl, hRes⟩ | ⟨rfl, hCheck, hLocal, hLedger, hResv⟩
  · exact .inl ⟨tables_update m i rfl, hRes⟩
  refine .inr ⟨rfl, NativeAddressSpaceState.mapCheck_ok hCheck rfl rfl rfl, ?_, ?_, hLedger, hResv⟩
  · exact (spaces_setMappings_self m i s).symm ▸ hLocal
  · intro j hj
    exact spaces_setMappings_ne m hj s

theorem mapImpl_change (m : Machine ι) (hMaps : Maps i r) :
    MappingTables.Change Maps Retires m.tables (m.mapImpl i r).1.tables := by
  rcases mapImpl_cases (Prod.eta (m.mapImpl i r)).symm with ⟨hSame, -⟩ | ⟨-, hMapped⟩
  · exact .same hSame
  · exact .mapped i r hMaps hMapped.admits hMapped.space hMapped.others hMapped.ledger
      hMapped.reserved

theorem mapStack_change (m : Machine ι) (hMaps : Maps i r) :
    MappingTables.Change Maps Retires m.tables (m.mapStack i r).1.tables := by
  unfold mapStack
  split
  · exact .same rfl
  · exact m.mapImpl_change hMaps

theorem retireUnmapped_cases {result : Result Unit}
    (h : m.retireUnmapped i virtualBase length = (m', result)) :
    (m'.tables = m.tables ∧ ∃ e, result = .error e) ∨
      result = .ok () ∧ ∃ mapping e, m.Unmapped i virtualBase length mapping e m' := by
  unfold retireUnmapped at h
  rcases hRetire : (m.spaces i).mappings.retireUnmapped i m.ledger (m.spaces i).builder
    m.physical.memory virtualBase length with ⟨⟨s, ledger⟩, result'⟩
  rw [hRetire] at h
  cases h
  rcases NativeAddressSpaceState.retireUnmapped_cases hRetire with
    ⟨rfl, rfl, hErr⟩ | ⟨rfl, mapping, e, hExact, hFound, hLocal, hLedger, hResv⟩
  · exact .inl ⟨tables_update m i rfl, hErr⟩
  refine .inr ⟨rfl, mapping, e, hExact, hFound, ?_, ?_, hLedger, hResv⟩
  · exact (spaces_setMappings_self m i s).symm ▸ hLocal
  · intro j hj
    exact spaces_setMappings_ne m hj s

theorem Unmapped.change {e : NativePhysicalMapping ι}
    (h : m.Unmapped i virtualBase length mapping e m') (hRetires : Retires i mapping e) :
    MappingTables.Change Maps Retires m.tables m'.tables := by
  have hRecs : e.records i mapping = true := by
    have hFound := List.find?_some h.found
    simpa using hFound
  exact .retired i mapping e hRetires hRecs h.space h.others h.ledger h.reserved

theorem retireUnmapped_change
    (hRetires : ∀ mapping e, (m.spaces i).mappings.exactMapping virtualBase length = .ok mapping →
      m.ledger.entries.find? (fun e => e.records i mapping) = some e → Retires i mapping e) :
    MappingTables.Change Maps Retires m.tables
      (m.retireUnmapped i virtualBase length).1.tables := by
  rcases retireUnmapped_cases (Prod.eta (m.retireUnmapped i virtualBase length)).symm with
    ⟨hSame, -⟩ | ⟨-, mapping, e, hUnmap⟩
  · exact .same hSame
  · exact hUnmap.change (hRetires mapping e hUnmap.exact hUnmap.found)

/-- The tables change only when the whole unmap goes through. -/
theorem machineUnmap_cases (h : m.machineUnmap i virtualBase length = (m', result)) :
    (m'.tables = m.tables ∧ result ≠ some (.ok ())) ∨
      result = some (.ok ()) ∧ ∃ mapping e, m.Unmapped i virtualBase length mapping e m' := by
  unfold machineUnmap at h
  iterate 4
    split at h
    · cases h
      exact .inl ⟨rfl, by simp⟩
  dsimp only at h
  split at h
  · cases h
    exact .inl ⟨rfl, by simp⟩
  split at h
  · cases h
    exact .inl ⟨rfl, by simp⟩
  split at h
  · rename_i hRetire
    cases h
    rcases retireUnmapped_cases hRetire with ⟨hSame, -⟩ | ⟨hOk, -⟩
    · exact .inl ⟨hSame, by simp⟩
    · cases hOk
  · rename_i hRetire
    cases h
    rcases retireUnmapped_cases hRetire with ⟨-, e, hErr⟩ | ⟨-, mapping, e, hUnmap⟩
    · cases hErr
    · exact .inr ⟨rfl, mapping, e, hUnmap.exact, hUnmap.found, hUnmap.space,
        hUnmap.others, hUnmap.ledger, hUnmap.reserved⟩

theorem machineUnmap_change
    (hRetires : ∀ mapping e, (m.spaces i).mappings.exactMapping virtualBase length = .ok mapping →
      m.ledger.entries.find? (fun e => e.records i mapping) = some e → Retires i mapping e) :
    MappingTables.Change Maps Retires m.tables (m.machineUnmap i virtualBase length).1.tables := by
  rcases machineUnmap_cases (Prod.eta (m.machineUnmap i virtualBase length)).symm with
    ⟨hSame, -⟩ | ⟨-, mapping, e, hUnmap⟩
  · exact .same hSame
  · exact hUnmap.change (hRetires mapping e hUnmap.exact hUnmap.found)

/-- A reservation is refused, or made apart from the others. -/
theorem reservePhysical_cases (m : Machine ι) (i : ι) (physicalBase length : UInt64)
    (kind : PhysicalReservationKind) :
    (∃ e, m.reservePhysical i physicalBase length kind = (m, .error e)) ∨
      physicalRangeValid physicalBase length = true ∧ (∀ v ∈ m.tables.reservations,
          overlaps v.physicalBase v.length physicalBase length = false) ∧
        (∀ e ∈ m.tables.ledger, overlaps e.physicalBase e.length physicalBase length = true →
          forbiddenByReservation kind (some i) e.owner e.permissions e.userAccessible = false) ∧
        ∃ ledger, m.reservePhysical i physicalBase length kind = ({ m with ledger }, .ok ()) ∧
          ledger.mappings = m.ledger.mappings ∧ ledger.reserves.Perm
            ({ owner := some i, physicalBase, length, kind, occupied := true } ::
              m.ledger.reserves) := by
  unfold reservePhysical NativeAddressSpaceState.reservePhysical
  split_ifs with hBound hRange hApart hForbidden
  iterate 4 exact .inl ⟨_, rfl⟩
  dsimp only
  split
  · exact .inl ⟨_, rfl⟩
  rename_i hIns
  simp only [List.any_eq_true, Bool.and_eq_true, not_exists, not_and] at hApart hForbidden
  refine .inr ⟨by simpa using hRange, fun v hv => ?_, fun e he hOverlap => ?_, _, rfl, rfl,
    entries_insert rfl hIns⟩
  · obtain ⟨hMem, hLive⟩ := NativePhysicalLedger.mem_reserves.mp hv
    simpa using hApart v hMem hLive
  · obtain ⟨hMem, hLive⟩ := NativePhysicalLedger.mem_entries.mp he
    simpa using hForbidden e hMem ⟨hLive, hOverlap⟩

theorem reservePhysical_change (m : Machine ι) (i : ι) (physicalBase length : UInt64)
    (kind : PhysicalReservationKind) :
    MappingTables.Change Maps Retires m.tables
      (m.reservePhysical i physicalBase length kind).1.tables := by
  rcases m.reservePhysical_cases i physicalBase length kind with
    ⟨e, hErr⟩ | ⟨hRange, -, hPermitted, ledger, hOk, hLedger, hResv⟩
  · rw [hErr]
    exact .same rfl
  · rw [hOk]
    refine .reserved { owner := some i, physicalBase, length, kind, occupied := true }
      ⟨hRange, rfl, hPermitted⟩ rfl ?_ hResv
    simp only [tables, entries, hLedger]

theorem releaseOneReservation_change (m : Machine ι) (i : ι) (physicalBase length : UInt64) :
    MappingTables.Change Maps Retires m.tables
      (m.releaseOneReservation i physicalBase length).1.tables := by
  unfold releaseOneReservation NativeAddressSpaceState.releaseOneReservation
  dsimp only
  split_ifs
  · exact .same rfl
  · exact .same rfl
  refine .released rfl rfl ?_
  show List.Sublist (SlotTable.entries _ _) (SlotTable.entries _ _)
  rw [entries_updateFirst_free]
  · exact List.eraseP_sublist
  · rfl
  · intro r hr
    rw [NativePhysicalReservation.isSome_key]
    simp_all

theorem releaseReservations_change (m : Machine ι) (i : ι) :
    MappingTables.Change Maps Retires m.tables (m.releaseReservations i).1.tables := by
  unfold releaseReservations NativeAddressSpaceState.releaseReservations
  split_ifs
  · exact .same rfl
  refine .released rfl rfl ?_
  show List.Sublist (SlotTable.entries _ _) (SlotTable.entries _ _)
  rw [entries_map_free rfl]
  exact List.filter_sublist

theorem donateTablePage_change (m : Machine ι) (i : ι) (arena : ArenaId) (page : UInt64) :
    MappingTables.Change Maps Retires m.tables (m.donateTablePage i arena page).1.tables := by
  have hReserve : MappingTables.Change Maps Retires m.tables
      (m.reservePhysical i page architecturalPageSize .kernelPrivate).1.tables :=
    m.reservePhysical_change i page architecturalPageSize .kernelPrivate
  unfold donateTablePage
  split
  · rename_i m' e hDone
    rw [hDone] at hReserve
    exact hReserve
  · rename_i hDone
    rw [hDone] at hReserve
    exact hReserve

theorem createAddressSpace_change (m : Machine ι) (i : ι) (arena : ArenaId)
    (region : Stage1Region) :
    MappingTables.Change Maps Retires m.tables (m.createAddressSpace i arena region).1.tables := by
  unfold createAddressSpace
  rcases hBind : (m.spaces i).mappings.bind with ⟨s, e | ⟨⟩⟩
  · exact .same rfl
  refine .same (tables_update m i ?_)
  unfold NativeAddressSpaceState.bind at hBind
  split at hBind
  · cases hBind
  · cases hBind
    rfl

theorem initializeTranslationRoot_change (m : Machine ι) (i : ι) :
    MappingTables.Change Maps Retires m.tables (m.initializeTranslationRoot i).1.tables := by
  unfold initializeTranslationRoot
  split
  · exact .same rfl
  · exact .same (tables_update m i rfl)

theorem unbind_change (m : Machine ι) (i : ι) :
    MappingTables.Change Maps Retires m.tables (m.unbind i).1.tables := by
  have hCells : ((m.spaces i).mappings.unbind i m.ledger).1.mappings =
      (m.spaces i).mappings.mappings := by
    unfold NativeAddressSpaceState.unbind
    split_ifs <;> rfl
  exact .same (tables_update m i hCells)

/-- What one operation can do to the tables. -/
theorem perform_change (m : Machine ι) (op : MachineOp ι) :
    MappingTables.Change (fun i r => op.request = some (i, r)) (m.Retires op) m.tables
      (m.perform op).1.tables := by
  cases op with
  | create space arena region => exact m.createAddressSpace_change space arena region
  | donateTablePage space arena page => exact m.donateTablePage_change space arena page
  | initializeTranslationRoot space => exact m.initializeTranslationRoot_change space
  | sealRoot space | beginRetire space => exact .same (tables_update m space rfl)
  | reservePhysical space physicalBase length kind =>
    exact m.reservePhysical_change space physicalBase length kind
  | map => exact m.mapImpl_change rfl
  | mapUser => exact m.mapImpl_change rfl
  | mapUserBacking => exact m.mapImpl_change rfl
  | mapKernelStack | mapUserStack => exact m.mapStack_change rfl
  | unmap _ virtualBase length =>
    apply machineUnmap_change
    intro mapping e hExact hFound
    exact ⟨⟨virtualBase, length, .inl rfl, hExact⟩, hFound⟩
  | clearLeaf => exact .same rfl
  | retireUnmapped _ virtualBase length =>
    apply retireUnmapped_change
    intro mapping e hExact hFound
    exact ⟨⟨virtualBase, length, .inr rfl, hExact⟩, hFound⟩
  | releaseOneReservation space physicalBase length =>
    exact m.releaseOneReservation_change space physicalBase length
  | releaseReservations space => exact m.releaseReservations_change space
  | unbind space => exact m.unbind_change space

theorem step_change (m : Machine ι) (op : MachineOp ι) :
    MappingTables.Change (fun i r => op.request = some (i, r)) (m.Retires op) m.tables
      (m.step op).1.tables := by
  unfold step
  split
  · exact .same rfl
  · exact m.perform_change op

end Machine

end Enml.OsKernel
