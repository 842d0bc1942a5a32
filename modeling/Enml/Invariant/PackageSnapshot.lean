import Enml.Core.Layout
import Enml.Invariant.PackageRegistry
import Enml.OsPackage.Snapshot

/-! Every registry has a snapshot, and the snapshot is read back as that registry. -/
namespace Enml.OsPackage

open Enml.Core Buffer LittleEndian PackageRegistry SlotTable PackageGenerationRecord
open List hiding Vector isEmpty_iff lookup_eq_none_iff lookup

theorem u16Bytes_eq (value : UInt16) : u16Bytes value = bytesOf 2 value.toNat := halves_mask value

theorem u32Bytes_eq (value : UInt32) : u32Bytes value = bytesOf 4 value.toNat :=
  map_shift_mask32 value

theorem u64Bytes_eq (value : UInt64) : u64Bytes value = bytesOf 8 value.toNat :=
  map_shift_mask value

@[simp] theorem length_u16Bytes (value : UInt16) : (u16Bytes value).length = 2 := rfl

@[simp] theorem length_u32Bytes (value : UInt32) : (u32Bytes value).length = 4 := by
  rw [u32Bytes_eq, length_bytesOf]

@[simp] theorem length_u64Bytes (value : UInt64) : (u64Bytes value).length = 8 := by
  rw [u64Bytes_eq, length_bytesOf]

variable {rest rest' written : List UInt8}

/-- A reader that looks at `size` bytes reads exactly what its value is written as. -/
theorem read_eq_ok_iff {α : Type} {size : Nat} {read value : α} {e : Error}
    (hSize : written.length = size)
    (hRead : size ≤ rest.length → (slice rest 0 size = written ↔ read = value)) :
    (if rest.length < size then .error e else .ok (read, rest.drop size) : Result _) =
      .ok (value, rest') ↔ rest = written ++ rest' := by
  constructor
  · intro h
    obtain ⟨hRoom, h⟩ := guard_ok h
    obtain ⟨hValue, rfl⟩ := Prod.mk.inj (Except.ok.inj h)
    rw [← (hRead (Nat.le_of_not_lt hRoom)).mpr hValue, slice_zero, take_append_drop]
  · rintro rfl
    have hRoom : size ≤ (written ++ rest').length := by simp [hSize]
    rw [if_neg (Nat.not_lt.mpr hRoom), (hRead hRoom).mp (slice_left hSize), drop_left' hSize]

theorem readU16_iff {value : UInt16} :
    readU16 rest = .ok (value, rest') ↔ rest = u16Bytes value ++ rest' :=
  read_eq_ok_iff rfl fun hRoom => u16Bytes_eq value ▸ slice_eq_u16_iff (by omega)

theorem readU32_iff {value : UInt32} :
    readU32 rest = .ok (value, rest') ↔ rest = u32Bytes value ++ rest' :=
  read_eq_ok_iff (length_u32Bytes value) fun hRoom =>
    u32Bytes_eq value ▸ slice_eq_u32_iff (by omega)

theorem readU64_iff {value : UInt64} :
    readU64 rest = .ok (value, rest') ↔ rest = u64Bytes value ++ rest' :=
  read_eq_ok_iff (length_u64Bytes value) fun hRoom =>
    u64Bytes_eq value ▸ slice_eq_u64_iff (by omega)

theorem readIdentity_iff {value : Vector UInt8 32} :
    readIdentity rest = .ok (value, rest') ↔ rest = value.toList ++ rest' :=
  read_eq_ok_iff value.length_toList fun hRoom => by
    have hSlice : slice rest 0 32 = value.toList ↔ _ := slice_eq_vector_iff (by omega)
    simpa only [Nat.zero_add] using hSlice

theorem readBytes_append {text rest : List UInt8} {size : Nat} (h : size = text.length) :
    readBytes size (text ++ rest) = .ok (text, rest) := by
  subst h
  rw [readBytes, if_neg (by simp), take_left, drop_left]

/-- A check that is passed. -/
theorem ensure_true {condition : Bool} {e : Error} (h : condition = true) :
    ensure condition e = .ok () := if_pos h

theorem writeAll_eq {done : List UInt8} {fields : List (List UInt8)}
    (h : done.length + fields.flatten.length ≤ maxPackageRegistrySnapshotBytes) :
    writeAll done fields = .ok (done ++ fields.flatten) := by
  induction fields generalizing done with
  | nil => simp [writeAll]
  | cons field rest ih =>
    rw [flatten_cons, length_append] at h
    have hFirst : write done field = .ok (done ++ field) := by rw [write, if_neg (by omega)]
    have hRest := @ih (done ++ field) (by rw [length_append]; omega)
    rw [writeAll, hFirst]
    show writeAll (done ++ field) rest = _
    rw [hRest, flatten_cons, append_assoc]

def generationFields (g : PackageGenerationRecord) : List (List UInt8) :=
  [u64Bytes g.generation, g.content.toList]

def generationBytes (g : PackageGenerationRecord) : List UInt8 := (generationFields g).flatten

theorem length_generationBytes (g : PackageGenerationRecord) : (generationBytes g).length = 40 := by
  simp [generationBytes, generationFields]

def generationsBytes (generations : List PackageGenerationRecord) : List UInt8 :=
  generations.flatMap generationBytes

theorem length_generationsBytes (generations : List PackageGenerationRecord) :
    (generationsBytes generations).length = 40 * generations.length := by
  induction generations with
  | nil => rfl
  | cons g rest ih =>
    rw [generationsBytes, flatMap_cons, length_append, length_generationBytes]
    have hRest : (rest.flatMap generationBytes).length = 40 * rest.length := ih
    rw [hRest, length_cons]
    omega

def slotFields (s : Slot) : List (List UInt8) :=
  [u16Bytes (UInt16.ofNat s.application.packageId.text.length),
    u16Bytes (UInt16.ofNat s.generations.length),
    u16Bytes (if s.hasActive then registryApplicationFlagActive else 0), u16Bytes 0,
    u64Bytes (if s.hasActive then s.activeGeneration else 0),
    s.application.signerLineage.toList, s.application.packageId.text]

def slotBytes (s : Slot) : List UInt8 := (slotFields s).flatten ++ generationsBytes s.generations

theorem length_slotFields (s : Slot) :
    (slotFields s).flatten.length = 48 + s.application.packageId.text.length := by
  simp [slotFields]
  omega

theorem length_text {id : PackageId} (h : id.valid = true) :
    0 < id.text.length ∧ id.text.length ≤ maxPackageIdBytes ∧
      PackageId.parse id.text = .ok id := by
  have hSome : id.text ≠ [] := by simpa [PackageId.valid] using h
  have hText : packageIdText id.text = true := id.parsed.resolve_left hSome
  refine ⟨length_pos_iff.mpr hSome, ?_, ?_⟩
  · simp only [packageIdText, Bool.and_eq_true, decide_eq_true_eq] at hText
    exact hText.1.2
  · rw [PackageId.parse, dif_pos hText]

variable {s : Slot} {slots front : List Slot} {r : PackageRegistry}

theorem Slot.Sound.packageId (h : s.Sound) : s.application.packageId.valid = true := by
  have hApp := h.application
  simp only [ApplicationIdentity.valid, Bool.and_eq_true] at hApp
  exact hApp.1

theorem Slot.Sound.active_ne_zero (h : s.Sound) (hActive : s.hasActive = true) :
    s.activeGeneration ≠ 0 := by
  obtain ⟨g, hg, hSame⟩ := h.active hActive
  have hValid := (h.records g hg).1
  simp only [valid, Bool.and_eq_true, bne_iff_ne] at hValid
  rw [← hSame]
  exact hValid.1.2

theorem length_slotBytes_le (h : s.Sound) : (slotBytes s).length ≤ 304 := by
  have hText := (length_text h.packageId).2.1
  have hFew := h.few
  unfold maxPackageIdBytes at hText
  unfold registryGenerationsPerApplication at hFew
  rw [slotBytes, length_append, length_slotFields, length_generationsBytes]
  omega

theorem encodeGenerations_eq {generations : List PackageGenerationRecord}
    (done : List UInt8) (h : ∀ g ∈ generations, g.valid = true ∧ g.application = s.application)
    (hRoom : done.length + (generationsBytes generations).length ≤
      maxPackageRegistrySnapshotBytes) :
    encodeGenerations s done generations = .ok (done ++ generationsBytes generations) := by
  induction generations generalizing done with
  | nil => simp [encodeGenerations, generationsBytes]
  | cons g rest ih =>
    obtain ⟨hValid, hApp⟩ := h g mem_cons_self
    have hSplit : generationsBytes (g :: rest) = generationBytes g ++ generationsBytes rest := rfl
    rw [hSplit, length_append] at hRoom
    have hFields : writeAll done (generationFields g) = .ok (done ++ generationBytes g) :=
      writeAll_eq (by unfold generationBytes at hRoom; omega)
    have hRest := @ih (done ++ generationBytes g)
      (fun g' hg' => h g' (mem_cons_of_mem _ hg')) (by rw [length_append]; omega)
    rw [encodeGenerations, if_neg (by simp [hValid, hApp])]
    show (writeAll done (generationFields g) >>= fun done => encodeGenerations s done rest) = _
    rw [hFields]
    show encodeGenerations s (done ++ generationBytes g) rest = _
    rw [hRest, hSplit, append_assoc]

theorem encodeSlot_eq (h : s.Sound) (done : List UInt8)
    (hRoom : done.length + (slotBytes s).length ≤ maxPackageRegistrySnapshotBytes) :
    encodeSlot done s = .ok (done ++ slotBytes s) := by
  obtain ⟨hText, hLong, -⟩ := length_text h.packageId
  have hChecks : ¬(!s.application.valid || s.application.packageId.text.isEmpty ||
      decide (maxPackageIdBytes < s.application.packageId.text.length) || s.generations.isEmpty ||
      decide (registryGenerationsPerApplication < s.generations.length) ||
      (s.hasActive && s.activeGeneration == 0)) = true := by
    have hNotEmpty := length_pos_iff.mp hText
    simp only [Bool.or_eq_true, Bool.not_eq_true', List.isEmpty_iff, decide_eq_true_eq,
      Bool.and_eq_true, beq_iff_eq, not_or, Bool.not_eq_false, not_and, Nat.not_lt]
    exact ⟨⟨⟨⟨⟨h.application, hNotEmpty⟩, hLong⟩, h.staged⟩, h.few⟩, h.active_ne_zero⟩
  have hFound : ¬(s.hasActive && !(s.generations.any fun g =>
      g.generation == s.activeGeneration)) = true := by
    intro hMissing
    simp only [Bool.and_eq_true, Bool.not_eq_true', any_eq_false, beq_iff_eq] at hMissing
    obtain ⟨g, hg, hSame⟩ := h.active hMissing.1
    exact hMissing.2 g hg hSame
  rw [slotBytes, length_append] at hRoom
  have hFields : writeAll done (slotFields s) = .ok (done ++ (slotFields s).flatten) :=
    writeAll_eq (by omega)
  have hGens := encodeGenerations_eq (done ++ (slotFields s).flatten) h.records
    (by rw [length_append]; omega)
  unfold encodeSlot
  simp only
  rw [if_neg hChecks]
  show (writeAll done (slotFields s) >>= fun done => encodeGenerations s done s.generations >>= _) =
    _
  rw [hFields]
  show (encodeGenerations s (done ++ (slotFields s).flatten) s.generations >>= _) = _
  rw [hGens]
  show ite _ _ _ = _
  rw [if_neg hFound, slotBytes, append_assoc]

def slotsBytes (slots : List Slot) : List UInt8 := slots.flatMap slotBytes

theorem length_slotsBytes_le (h : ∀ s ∈ slots, s.Sound) :
    (slotsBytes slots).length ≤ 304 * slots.length := by
  induction slots with
  | nil => exact Nat.le_refl _
  | cons s rest ih =>
    have hRest : (rest.flatMap slotBytes).length ≤ 304 * rest.length :=
      ih fun t ht => h t (mem_cons_of_mem _ ht)
    have hHead := length_slotBytes_le (h s mem_cons_self)
    rw [slotsBytes, flatMap_cons, length_append, length_cons]
    omega

theorem encodeSlots_eq (h : ∀ s ∈ slots, s.Sound) (done : List UInt8)
    (hRoom : done.length + (slotsBytes slots).length ≤ maxPackageRegistrySnapshotBytes) :
    encodeSlots done slots = .ok (done ++ slotsBytes slots) := by
  induction slots generalizing done with
  | nil => simp [encodeSlots, slotsBytes]
  | cons s rest ih =>
    have hSplit : slotsBytes (s :: rest) = slotBytes s ++ slotsBytes rest := rfl
    rw [hSplit, length_append] at hRoom
    have hHead := encodeSlot_eq (h s mem_cons_self) done (by omega)
    have hRest := ih (fun t ht => h t (mem_cons_of_mem _ ht)) (done ++ slotBytes s)
      (by rw [length_append]; omega)
    rw [encodeSlots, hHead]
    show encodeSlots (done ++ slotBytes s) rest = _
    rw [hRest, hSplit, append_assoc]

def totalGenerations (slots : List Slot) : Nat := (slots.map fun s => s.generations.length).sum

theorem foldl_generations (slots : List Slot) (total : UInt32) :
    slots.foldl (fun total s => total + UInt32.ofNat s.generations.length) total =
      total + UInt32.ofNat (totalGenerations slots) := by
  induction slots generalizing total with
  | nil => simp [totalGenerations]
  | cons s rest ih =>
    have hSum : totalGenerations (s :: rest) = s.generations.length + totalGenerations rest := by
      simp [totalGenerations]
    rw [foldl_cons, ih, hSum, UInt32.ofNat_add, UInt32.add_assoc]

def headerFields (slots : List Slot) (size : UInt32) : List (List UInt8) :=
  [u32Bytes packageRegistrySnapshotMagic, u16Bytes packageRegistrySnapshotVersion,
    u16Bytes packageRegistrySnapshotHeaderSize, u32Bytes size,
    u16Bytes (UInt16.ofNat slots.length), u16Bytes 0,
    u32Bytes (UInt32.ofNat (totalGenerations slots)), u32Bytes 0]

theorem length_headerFields (slots : List Slot) (size : UInt32) :
    (headerFields slots size).flatten.length = 24 := by
  simp [headerFields]

/-- What is in the file of a registry. -/
def snapshotBytes (r : PackageRegistry) : List UInt8 :=
  (headerFields r.slots (UInt32.ofNat (24 + (slotsBytes r.slots).length))).flatten ++
    slotsBytes r.slots

theorem length_snapshotBytes (r : PackageRegistry) :
    (snapshotBytes r).length = 24 + (slotsBytes r.slots).length := by
  rw [snapshotBytes, length_append, length_headerFields]

theorem PackageRegistry.Sound.length_snapshotBytes (h : r.Sound) :
    (snapshotBytes r).length ≤ maxPackageRegistrySnapshotBytes := by
  have hSlots := length_slotsBytes_le h.slots
  have hCapacity := h.capacity
  unfold registryApplicationCapacity at hCapacity
  unfold maxPackageRegistrySnapshotBytes
  rw [OsPackage.length_snapshotBytes]
  omega

/-- The size is put into the place that was left for it. -/
theorem patch_headerFields (slots : List Slot) (size : UInt32) (rest : List UInt8) :
    writeU32Le ((headerFields slots 0).flatten ++ rest) 8 size =
      (headerFields slots size).flatten ++ rest := by
  let front := u32Bytes packageRegistrySnapshotMagic ++ (u16Bytes packageRegistrySnapshotVersion ++
    u16Bytes packageRegistrySnapshotHeaderSize)
  let back := u16Bytes (UInt16.ofNat slots.length) ++ (u16Bytes 0 ++
    (u32Bytes (UInt32.ofNat (totalGenerations slots)) ++ (u32Bytes 0 ++ rest)))
  have hLen : 8 = front.length := by simp [front]
  have hBlank : u32Bytes 0 = List.replicate 4 0 := by decide
  have hBefore : (headerFields slots 0).flatten ++ rest = filled 0 front (4 + 0) back := by
    simp [headerFields, filled, front, back, hBlank]
  have hAfter : (headerFields slots size).flatten ++ rest =
      filled 0 (front ++ bytesOf 4 size.toNat) 0 back := by
    simp [headerFields, filled, front, back, u32Bytes_eq size]
  rw [hBefore, writeU32Le_filled hLen, hAfter]

theorem encodeSnapshot_eq (h : r.Sound) : encodeSnapshot r = .ok (snapshotBytes r) := by
  have hLimit := h.length_snapshotBytes
  rw [OsPackage.length_snapshotBytes] at hLimit
  have hHeader : encodeHeader r = .ok (headerFields r.slots 0).flatten := by
    have hFields : writeAll [] (headerFields r.slots 0) =
        .ok ([] ++ (headerFields r.slots 0).flatten) := by
      refine writeAll_eq ?_
      rw [length_headerFields]
      exact (by decide : 0 + 24 ≤ maxPackageRegistrySnapshotBytes)
    unfold encodeHeader
    simp only [foldl_generations, UInt32.zero_add]
    exact hFields
  have hSlots := encodeSlots_eq h.slots (headerFields r.slots 0).flatten
    (by rw [length_headerFields]; omega)
  rw [encodeSnapshot, hHeader]
  show (encodeSlots (headerFields r.slots 0).flatten r.slots >>= _) = _
  rw [hSlots]
  show Except.ok (writeU32Le ((headerFields r.slots 0).flatten ++ slotsBytes r.slots) 8
    (UInt32.ofNat ((headerFields r.slots 0).flatten ++ slotsBytes r.slots).length)) = _
  rw [length_append, length_headerFields, patch_headerFields]
  rfl

/-- A slot with some of its generations, none of them active. -/
def Slot.upTo (s : Slot) (generations : List PackageGenerationRecord) : Slot :=
  { application := s.application, generations }

/-- The packages that have been read. -/
def seenIn (front : List Slot) : List PackageId := front.map fun t => t.application.packageId

theorem find_last (h : s.application.packageId ∉ seenIn front) :
    findByPackageId { slots := front ++ [s] } s.application.packageId = some s := by
  have hFront : lookup Slot.key s.application.packageId front = none := by
    rw [lookup_eq_none_iff, keys_eq { slots := front }]
    exact h
  unfold lookup at hFront
  rw [findByPackageId, lookup, List.find?_append, hFront]
  simp [Slot.key]

theorem modify_last (f : Slot → Slot)
    (h : s.application.packageId ∉ seenIn front) :
    modifySlot { slots := front ++ [s] } s.application.packageId f =
      { slots := front ++ [f s] } := by
  have hModify : modify Slot.key s.application.packageId f (front ++ [s]) = front ++ [f s] := by
    induction front with
    | nil => simp [SlotTable.modify, SlotTable.updateFirst, Slot.key]
    | cons t _ ih =>
      rw [seenIn, map_cons, mem_cons, not_or] at h
      have hOther : ¬t.key = some s.application.packageId :=
        fun hKey => h.1 (Option.some.inj hKey).symm
      have hRest := ih h.2
      unfold SlotTable.modify at hRest ⊢
      rw [cons_append, updateFirst, if_neg (by simpa using hOther), hRest]
      rfl
  rw [modifySlot, hModify]

/-- The registry while a slot is being read. -/
def reading (front : List Slot) (s : Slot) (generations : List PackageGenerationRecord) :
    PackageRegistry :=
  { slots := if generations = [] then front else front ++ [s.upTo generations] }

/-- The flags tell whether there is an active generation, and nothing else. -/
theorem flags_eq (active : Bool) :
    (if active then registryApplicationFlagActive else 0) &&& ~~~registryApplicationFlagActive = 0 ∧
      ((if active then registryApplicationFlagActive else 0) &&& registryApplicationFlagActive !=
        0) = active := by
  cases active with
  | false | true => decide

section

variable (h : s.Sound) (hRoom : front.length < registryApplicationCapacity)
  (hNew : s.application.packageId ∉ seenIn front)
include h hRoom hNew

theorem stage_reading {before after : List PackageGenerationRecord} {g : PackageGenerationRecord}
    (hSplit : s.generations = before ++ g :: after) :
    (reading front s before).stageGeneration g = .ok (reading front s (before ++ [g])) := by
  have hMem : g ∈ s.generations := by
    rw [hSplit]
    simp
  obtain ⟨hValid, hApp⟩ := h.records g hMem
  have hAfter : reading front s (before ++ [g]) =
      { slots := front ++ [s.upTo (before ++ [g])] } := by
    simp [reading]
  rw [stageGeneration, if_neg (by simp [hValid]), hApp, hAfter]
  by_cases hFirst : before = []
  · have hNone : (reading front s before).findByPackageId s.application.packageId = none := by
      rw [find_eq_none]
      simpa [reading, hFirst, seenIn] using hNew
    rw [hNone]
    simp only
    rw [if_neg]
    · simp [reading, hFirst, Slot.upTo]
    · simpa [reading, hFirst] using hRoom
  · have hReading : reading front s before = { slots := front ++ [s.upTo before] } := by
      simp [reading, hFirst]
    have hFind := find_last (s := s.upTo before) hNew
    have hModify := modify_last (s := s.upTo before)
      (fun t => { t with generations := t.generations ++ [g] }) hNew
    have hIncreasing := h.increasing
    rw [hSplit, pairwise_append] at hIncreasing
    have hLater : ¬((s.upTo before).generations.getLast?.any fun last =>
        decide (g.generation ≤ last.generation)) = true := by
      cases hLast : (s.upTo before).generations.getLast? with
      | none => exact nofun
      | some last =>
        have hLess := hIncreasing.2.2 last (mem_of_getLast? hLast) g (by simp)
        simpa using hLess
    have hFew : ¬registryGenerationsPerApplication ≤ (s.upTo before).generations.length := by
      have hCnt := h.few
      rw [hSplit, length_append, length_cons] at hCnt
      show ¬registryGenerationsPerApplication ≤ before.length
      omega
    have hId : (s.upTo before).application.packageId = s.application.packageId := rfl
    rw [hId] at hFind hModify
    rw [hReading, hFind]
    simp only
    rw [if_neg (by simp [Slot.upTo]), if_neg hLater, if_neg hFew, hModify]
    rfl

theorem decodeGenerations_eq (before : List PackageGenerationRecord)
    {after : List PackageGenerationRecord} (hSplit : s.generations = before ++ after)
    (seen : List PackageId) (count : UInt32) (rest : List UInt8) :
    decodeGenerations s.application after.length
        { registry := reading front s before, seenPackages := seen
          decodedGenerationCount := count, rest := generationsBytes after ++ rest } =
      .ok { registry := reading front s s.generations, seenPackages := seen
            decodedGenerationCount := count + UInt32.ofNat after.length, rest } := by
  induction after generalizing before count with
  | nil =>
    rw [append_nil] at hSplit
    rw [length_nil, decodeGenerations, hSplit]
    simp [generationsBytes]
  | cons g after ih =>
    have hMem : g ∈ s.generations := by
      rw [hSplit]
      simp
    have hRec : mk s.application g.generation g.content = g := by rw [← (h.records g hMem).2]
    have hBytes : generationsBytes (g :: after) ++ rest =
        u64Bytes g.generation ++ (g.content.toList ++ (generationsBytes after ++ rest)) := by
      simp [generationsBytes, generationBytes, generationFields]
    have hStage := stage_reading h hRoom hNew hSplit
    have hRest := ih (before ++ [g]) (by rw [hSplit]; simp) (count + 1)
    rw [length_cons, hBytes, decodeGenerations]
    refine ok_bind (readU64_iff.mpr rfl) ?_
    refine ok_bind (readIdentity_iff.mpr rfl) ?_
    show (consistent ((reading front s before).stageGeneration
      (mk s.application g.generation g.content)) >>= _) = _
    rw [hRec, hStage]
    show decodeGenerations s.application after.length _ = _
    rw [hRest, UInt32.ofNat_add, UInt32.add_assoc, UInt32.add_comm 1]
    rfl

omit hRoom in
/-- The last step for a slot: its active generation is set. -/
theorem activate_reading (hActive : s.hasActive = true) :
    (reading front s s.generations).activate s.application s.activeGeneration =
      .ok { slots := front ++ [s] } := by
  obtain ⟨g, hg, hSame⟩ := h.active hActive
  have hReading : reading front s s.generations = { slots := front ++ [s.upTo s.generations] } := by
    simp [reading, h.staged]
  have hId : (s.upTo s.generations).application.packageId = s.application.packageId := rfl
  have hFind := find_last (s := s.upTo s.generations) hNew
  have hModify := modify_last (s := s.upTo s.generations)
    (fun t => { t with activeGeneration := s.activeGeneration, hasActive := true }) hNew
  rw [hId] at hFind hModify
  have hNonzero := h.active_ne_zero hActive
  have hKnown : ((s.upTo s.generations).generations.any fun g =>
      g.generation == s.activeGeneration) = true := by
    rw [any_eq_true]
    exact ⟨g, hg, beq_iff_eq.mpr hSame⟩
  have hWhole : { s.upTo s.generations with
      activeGeneration := s.activeGeneration, hasActive := true } = s := by
    rw [← hActive]
    rfl
  rw [hReading, activate, if_neg (by simp [h.application, hNonzero]), slotOf_of_find _ hFind rfl]
  simp only
  rw [if_pos hKnown, hModify, hWhole]

theorem decodeApplication_eq (count : UInt32) (rest : List UInt8) :
    decodeApplication
        { registry := { slots := front }
          seenPackages := seenIn front
          decodedGenerationCount := count, rest := slotBytes s ++ rest } =
      .ok { registry := { slots := front ++ [s] }
            seenPackages := seenIn (front ++ [s])
            decodedGenerationCount := count + UInt32.ofNat s.generations.length, rest } := by
  obtain ⟨hText, hLong, hParse⟩ := length_text h.packageId
  have hFew := h.few
  have hSome := length_pos_iff.mpr h.staged
  unfold maxPackageIdBytes at hLong
  unfold registryGenerationsPerApplication at hFew
  have hTextSize : (UInt16.ofNat s.application.packageId.text.length).toNat =
      s.application.packageId.text.length := by
    rw [UInt16.toNat_ofNat']
    omega
  have hCnt : (UInt16.ofNat s.generations.length).toNat = s.generations.length := by
    rw [UInt16.toNat_ofNat']
    omega
  have hBytes : slotBytes s ++ rest = u16Bytes (UInt16.ofNat s.application.packageId.text.length) ++
        (u16Bytes (UInt16.ofNat s.generations.length) ++
        (u16Bytes (if s.hasActive then registryApplicationFlagActive else 0) ++ (u16Bytes 0 ++
        (u64Bytes (if s.hasActive then s.activeGeneration else 0) ++
        (s.application.signerLineage.toList ++ (s.application.packageId.text ++
        (generationsBytes s.generations ++ rest))))))) := by
    simp [slotBytes, slotFields]
  have hGens := decodeGenerations_eq h hRoom hNew [] rfl
    (seenIn (front ++ [s])) count rest
  obtain ⟨hOnly, hFlag⟩ := flags_eq s.hasActive
  have hSigner : someByte s.application.signerLineage = true := by
    have hApp := h.application
    simp only [ApplicationIdentity.valid, Bool.and_eq_true] at hApp
    exact hApp.2
  rw [hBytes, decodeApplication]
  iterate 4 refine ok_bind (readU16_iff.mpr rfl) ?_
  refine ok_bind (readU64_iff.mpr rfl) ?_
  refine ok_bind (readIdentity_iff.mpr rfl) ?_
  refine check_eq_ok_iff.mpr ⟨ensure_true ?_, ?_⟩
  · have hTextNonzero : UInt16.ofNat s.application.packageId.text.length ≠ 0 := by
      intro hZero
      rw [hZero] at hTextSize
      exact absurd hTextSize.symm (Nat.ne_of_gt hText)
    have hCntNonzero : UInt16.ofNat s.generations.length ≠ 0 := by
      intro hZero
      rw [hZero] at hCnt
      exact absurd hCnt.symm (Nat.ne_of_gt hSome)
    simp only [Bool.and_eq_true, bne_iff_ne, beq_iff_eq, decide_eq_true_eq, hTextSize, hCnt]
    exact ⟨⟨⟨⟨⟨hTextNonzero, hLong⟩, hCntNonzero⟩, hFew⟩, trivial⟩, hOnly⟩
  simp only [hFlag]
  refine check_eq_ok_iff.mpr ⟨ensure_true ?_, ?_⟩
  · cases hActive : s.hasActive with
    | false => simp
    | true => simpa using h.active_ne_zero hActive
  refine check_eq_ok_iff.mpr ⟨ensure_true hSigner, ?_⟩
  refine ok_bind (readBytes_append hTextSize) ?_
  refine ok_bind (by rw [hParse]; rfl) ?_
  refine check_eq_ok_iff.mpr ⟨ensure_true ?_, ?_⟩
  · simpa using hNew
  have hEmpty : reading front s [] = { slots := front } := rfl
  have hSeen : seenIn (front ++ [s]) = seenIn front ++ [s.application.packageId] := by simp [seenIn]
  rw [hEmpty] at hGens
  rw [hSeen] at hGens ⊢
  refine ok_bind (by rw [hCnt]; exact hGens) ?_
  cases hActive : s.hasActive with
  | true =>
    rw [if_pos rfl]
    refine bind_eq_ok_iff.mpr ⟨{ slots := front ++ [s] }, ?_, rfl⟩
    rw [if_pos rfl]
    have hActivate := activate_reading h hNew hActive
    rw [hActivate]
    rfl
  | false =>
    have hWhole : s.upTo s.generations = s := by rw [Slot.upTo, ← hActive, ← h.inactive hActive]
    have hReg : reading front s s.generations = { slots := front ++ [s] } := by
      simp [reading, h.staged, hWhole]
    rw [if_neg nofun, hReg]

end

theorem decodeApplications_eq (front : List Slot) {back : List Slot} (hSound : ∀ s ∈ back, s.Sound)
    (hRoom : (front ++ back).length ≤ registryApplicationCapacity)
    (hIds : (seenIn (front ++ back)).Nodup) (count : UInt32)
    (rest : List UInt8) :
    decodeApplications back.length
        { registry := { slots := front }
          seenPackages := seenIn front
          decodedGenerationCount := count, rest := slotsBytes back ++ rest } =
      .ok { registry := { slots := front ++ back }
            seenPackages := seenIn (front ++ back)
            decodedGenerationCount := count + UInt32.ofNat (totalGenerations back), rest } := by
  induction back generalizing front count with
  | nil => simp [decodeApplications, slotsBytes, totalGenerations]
  | cons s back ih =>
    have hNew : s.application.packageId ∉ seenIn front := by
      rw [seenIn, map_append, nodup_append] at hIds
      exact fun hMem => hIds.2.2 _ hMem _ mem_cons_self rfl
    have hSlots : slotsBytes (s :: back) ++ rest = slotBytes s ++ (slotsBytes back ++ rest) := by
      simp [slotsBytes]
    have hSum : totalGenerations (s :: back) = s.generations.length + totalGenerations back := by
      simp [totalGenerations]
    have hNext : front ++ s :: back = (front ++ [s]) ++ back := by simp
    rw [hNext] at hRoom hIds ⊢
    have hRest := ih (front ++ [s]) (fun t ht => hSound t (mem_cons_of_mem _ ht)) hRoom hIds
      (count + UInt32.ofNat s.generations.length)
    have hFront : front.length < registryApplicationCapacity := by
      simp only [length_append, length_singleton] at hRoom
      omega
    rw [length_cons, hSlots, decodeApplications]
    refine ok_bind (decodeApplication_eq (hSound s mem_cons_self) hFront
      hNew count (slotsBytes back ++ rest)) ?_
    rw [hRest, hSum, UInt32.ofNat_add, UInt32.add_assoc]

theorem totalGenerations_le {slots : List Slot} (h : ∀ s ∈ slots, s.Sound) :
    totalGenerations slots ≤ registryGenerationsPerApplication * slots.length := by
  induction slots with
  | nil => exact Nat.le_refl _
  | cons s rest ih =>
    have hRest := ih fun t ht => h t (mem_cons_of_mem _ ht)
    have hHead := (h s mem_cons_self).few
    have hSum : totalGenerations (s :: rest) = s.generations.length + totalGenerations rest := by
      simp [totalGenerations]
    rw [hSum, length_cons, Nat.mul_succ]
    omega

variable {remaining : Nat} {s t : DecodeState}

/-- The snapshot of a registry is read back as that registry. -/
theorem decodeSnapshot_eq (h : r.Sound) : decodeSnapshot (snapshotBytes r) = .ok r := by
  have hCapacity := h.capacity
  have hTotal := totalGenerations_le h.slots
  have hLimit := h.length_snapshotBytes
  unfold registryApplicationCapacity at hCapacity
  unfold registryGenerationsPerApplication at hTotal
  unfold maxPackageRegistrySnapshotBytes at hLimit
  have hSize : (UInt32.ofNat (24 + (slotsBytes r.slots).length)).toNat =
      (snapshotBytes r).length := by
    rw [length_snapshotBytes] at hLimit ⊢
    rw [UInt32.toNat_ofNat']
    omega
  have hCnt : (UInt16.ofNat r.slots.length).toNat = r.slots.length := by
    rw [UInt16.toNat_ofNat']
    omega
  have hGens : (UInt32.ofNat (totalGenerations r.slots)).toNat = totalGenerations r.slots := by
    rw [UInt32.toNat_ofNat']
    omega
  have hBytes : snapshotBytes r = u32Bytes packageRegistrySnapshotMagic ++
      (u16Bytes packageRegistrySnapshotVersion ++ (u16Bytes packageRegistrySnapshotHeaderSize ++
      (u32Bytes (UInt32.ofNat (24 + (slotsBytes r.slots).length)) ++
      (u16Bytes (UInt16.ofNat r.slots.length) ++ (u16Bytes 0 ++
      (u32Bytes (UInt32.ofNat (totalGenerations r.slots)) ++ (u32Bytes 0 ++
      (slotsBytes r.slots ++ [])))))))) := by
    simp [snapshotBytes, headerFields]
  have hSlots := decodeApplications_eq [] h.slots h.capacity h.ids 0 []
  rw [decodeSnapshot]
  nth_rewrite 1 [hBytes]
  refine ok_bind (readU32_iff.mpr rfl) ?_
  refine ok_bind (readU16_iff.mpr rfl) ?_
  refine ok_bind (readU16_iff.mpr rfl) ?_
  refine ok_bind (readU32_iff.mpr rfl) ?_
  refine ok_bind (readU16_iff.mpr rfl) ?_
  refine ok_bind (readU16_iff.mpr rfl) ?_
  refine ok_bind (readU32_iff.mpr rfl) ?_
  refine ok_bind (readU32_iff.mpr rfl) ?_
  refine check_eq_ok_iff.mpr ⟨ensure_true rfl, check_eq_ok_iff.mpr ⟨ensure_true rfl, ?_⟩⟩
  refine check_eq_ok_iff.mpr ⟨ensure_true ?_, ?_⟩
  · have hFew : totalGenerations r.slots ≤
        registryApplicationCapacity * registryGenerationsPerApplication := by
      unfold registryApplicationCapacity registryGenerationsPerApplication
      omega
    simp only [hSize, hCnt, hGens, beq_self_eq_true, Bool.true_and, Bool.and_eq_true,
      decide_eq_true_eq]
    exact ⟨h.capacity, hFew⟩
  refine ok_bind (by rw [hCnt]; exact hSlots) ?_
  refine check_eq_ok_iff.mpr ⟨ensure_true ?_, rfl⟩
  simp [hCnt, applicationCount]

theorem loadSnapshot_snapshotBytes (h : r.Sound) :
    loadSnapshot (some (snapshotBytes r)) = .ok r := by
  have hLimit := h.length_snapshotBytes
  have hLen := length_snapshotBytes r
  have hSome : snapshotBytes r ≠ [] := by
    intro hNil
    rw [hNil, length_nil] at hLen
    omega
  have hHeader : ¬(snapshotBytes r).length < packageRegistrySnapshotHeaderSize.toNat := by
    rw [hLen]
    show ¬24 + _ < 24
    omega
  rw [loadSnapshot, Option.getD_some, if_neg (Nat.not_lt.mpr hLimit),
    if_neg (by simpa using hSome), if_neg hHeader, decodeSnapshot_eq h]

theorem consistent_eq_ok {α : Type} {x : Result α} {a : α} (h : consistent x = .ok a) :
    x = .ok a := by
  cases x with
  | ok => exact h
  | error => cases h

theorem decodeGenerations_sound {application : ApplicationIdentity} (hSound : s.registry.Sound)
    (h : decodeGenerations application remaining s = .ok t) : t.registry.Sound := by
  induction remaining generalizing s with
  | zero =>
    cases h
    exact hSound
  | succ _ ih =>
    rw [decodeGenerations] at h
    obtain ⟨⟨generation, rest⟩, -, h⟩ := bind_ok h
    obtain ⟨⟨content, rest⟩, -, h⟩ := bind_ok h
    obtain ⟨registry, hStaged, h⟩ := bind_ok h
    exact ih (hSound.stageGeneration (consistent_eq_ok hStaged)) h

theorem decodeApplication_sound (hSound : s.registry.Sound) (h : decodeApplication s = .ok t) :
    t.registry.Sound := by
  rw [decodeApplication] at h
  iterate 6 obtain ⟨⟨_, rest⟩, -, h⟩ := bind_ok h
  iterate 3 obtain ⟨-, h⟩ := check_eq_ok_iff.mp h
  obtain ⟨⟨packageText, rest⟩, -, h⟩ := bind_ok h
  obtain ⟨packageId, -, h⟩ := bind_ok h
  obtain ⟨-, h⟩ := check_eq_ok_iff.mp h
  obtain ⟨u, hGens, h⟩ := bind_ok h
  have hStaged : u.registry.Sound := decodeGenerations_sound (by exact hSound) hGens
  obtain ⟨-, h⟩ | ⟨-, h⟩ := ite_eq_iff.mp h
  · obtain ⟨registry, hActivated, h⟩ := bind_ok h
    cases h
    exact hStaged.activate (consistent_eq_ok hActivated)
  · cases h
    exact hStaged

theorem decodeApplications_sound (hSound : s.registry.Sound)
    (h : decodeApplications remaining s = .ok t) : t.registry.Sound := by
  induction remaining generalizing s with
  | zero =>
    cases h
    exact hSound
  | succ _ ih =>
    rw [decodeApplications] at h
    obtain ⟨u, hFirst, h⟩ := bind_ok h
    exact ih (decodeApplication_sound hSound hFirst) h

theorem decodeSnapshot_sound {bytes : List UInt8} (h : decodeSnapshot bytes = .ok r) : r.Sound := by
  rw [decodeSnapshot] at h
  iterate 8 obtain ⟨⟨_, rest⟩, -, h⟩ := bind_ok h
  iterate 3 obtain ⟨-, h⟩ := check_eq_ok_iff.mp h
  obtain ⟨s, hApplications, h⟩ := bind_ok h
  obtain ⟨-, h⟩ := check_eq_ok_iff.mp h
  cases h
  exact decodeApplications_sound sound_empty hApplications

theorem loadSnapshot_sound {file : Option (List UInt8)} (h : loadSnapshot file = .ok r) :
    r.Sound := by
  rw [loadSnapshot] at h
  obtain ⟨-, h⟩ := guard_ok h
  obtain ⟨-, h⟩ | ⟨-, h⟩ := ite_eq_iff.mp h
  · cases h
    exact sound_empty
  obtain ⟨-, h⟩ := guard_ok h
  exact decodeSnapshot_sound h

end Enml.OsPackage
