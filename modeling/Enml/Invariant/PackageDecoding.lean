import Enml.Invariant.PackageSnapshot

/-! A package snapshot that is accepted is the one its registry is written as:
each reader is turned round, from the field up to the whole file. -/
namespace Enml.OsPackage

open Enml.Core LittleEndian Buffer PackageRegistry
open List hiding Vector isEmpty_iff

variable {rest rest' : List UInt8}
  {text : List UInt8} {r : PackageRegistry} {remaining : Nat} {d e : DecodeState}

theorem readBytes_eq_ok {size : Nat} (h : readBytes size rest = .ok (text, rest')) :
    rest = text ++ rest' ∧ text.length = size := by
  rw [readBytes] at h
  obtain ⟨hRoom, h⟩ := guard_ok h
  cases h
  refine ⟨(take_append_drop size rest).symm, ?_⟩
  rw [length_take]
  omega

theorem parse_eq_ok {id : PackageId} (h : PackageId.parse text = .ok id) : id.text = text := by
  rw [PackageId.parse] at h
  split_ifs at h
  cases h
  rfl

/-- Flags with no bit but the one for an active generation. -/
theorem flags_of_known {flags : UInt16} (h : flags &&& ~~~registryApplicationFlagActive = 0) :
    flags = if flags &&& registryApplicationFlagActive != 0 then registryApplicationFlagActive
      else 0 := by
  have hBit : flags &&& registryApplicationFlagActive = 0 ∨
      flags &&& registryApplicationFlagActive = 1 := by
    have hMod : (flags &&& registryApplicationFlagActive).toNat = flags.toNat % 2 := by
      rw [UInt16.toNat_and]
      exact Nat.and_one_is_mod _
    rcases Nat.mod_two_eq_zero_or_one flags.toNat with hEven | hOdd
    · exact .inl (UInt16.toNat_inj.mp (hMod.trans hEven))
    · exact .inr (UInt16.toNat_inj.mp (hMod.trans hOdd))
  have hSplit : flags = flags &&& registryApplicationFlagActive := by
    have hBoth : flags &&& (registryApplicationFlagActive ||| ~~~registryApplicationFlagActive) =
        (flags &&& registryApplicationFlagActive) ||| flags &&& ~~~registryApplicationFlagActive :=
      UInt16.toBitVec_inj.mp BitVec.and_or_distrib_left
    have hAll : (registryApplicationFlagActive ||| ~~~registryApplicationFlagActive) = -1 := by
      decide
    rw [hAll, h, UInt16.or_zero, UInt16.and_neg_one] at hBoth
    exact hBoth
  rcases hBit with hClear | hSet
  · rw [if_neg (by simp [hClear]), hSplit, hClear]
  · rw [if_pos (by simp [hSet]), hSplit, hSet]
    rfl

section

variable {front : List Slot} {s : Slot} {before : List PackageGenerationRecord}

/-- Staging while a slot is being read puts the record behind the others. -/
theorem stage_reading_eq_ok (hNew : s.application.packageId ∉ seenIn front)
    {g : PackageGenerationRecord} (hApp : g.application = s.application)
    (h : (reading front s before).stageGeneration g = .ok r) :
    r = reading front s (before ++ [g]) := by
  have hAfter : reading front s (before ++ [g]) =
      { slots := front ++ [s.upTo (before ++ [g])] } := by
    simp [reading]
  have hId : g.application.packageId = s.application.packageId :=
    congrArg ApplicationIdentity.packageId hApp
  obtain ⟨-, ⟨hNone, -, rfl⟩ | ⟨slot, hSlot, -, -, rfl⟩⟩ := stageGeneration_eq_ok h
  · by_cases hFirst : before = []
    · rw [hAfter, hFirst, hApp]
      simp [reading, Slot.upTo]
    · have hFind := find_last (s := s.upTo before) hNew
      have hReading : reading front s before = { slots := front ++ [s.upTo before] } := by
        simp [reading, hFirst]
      rw [hReading, hId] at hNone
      cases hNone.symm.trans hFind
  · by_cases hFirst : before = []
    · have hNone : (reading front s before).findByPackageId s.application.packageId = none := by
        rw [find_eq_none]
        simpa [reading, hFirst, seenIn] using hNew
      have hFind := (slotOf_eq_ok hSlot).1
      rw [hId, hNone] at hFind
      cases hFind
    · have hModify := modify_last (s := s.upTo before)
        (fun t => { t with generations := t.generations ++ [g] }) hNew
      have hReading : reading front s before = { slots := front ++ [s.upTo before] } := by
        simp [reading, hFirst]
      rw [hAfter, hReading, hId]
      exact hModify

theorem decodeGenerations_eq_ok (hNew : s.application.packageId ∉ seenIn front)
    (hReg : d.registry = reading front s before)
    (h : decodeGenerations s.application remaining d = .ok e) :
    ∃ after, after.length = remaining ∧ d.rest = generationsBytes after ++ e.rest ∧
      e.registry = reading front s (before ++ after) ∧ e.seenPackages = d.seenPackages ∧
      e.decodedGenerationCount = d.decodedGenerationCount + UInt32.ofNat remaining := by
  induction remaining generalizing before d with
  | zero =>
    cases h
    exact ⟨[], rfl, rfl, by rw [append_nil, hReg], rfl, by simp⟩
  | succ _ ih =>
    rw [decodeGenerations] at h
    obtain ⟨⟨generation, rest₁⟩, hGen, h⟩ := bind_ok h
    obtain ⟨⟨content, rest₂⟩, hContent, h⟩ := bind_ok h
    obtain ⟨registry, hStaged, h⟩ := bind_ok h
    have hStage := consistent_eq_ok hStaged
    rw [hReg] at hStage
    obtain ⟨after, hLen, hRest, hLast, hSeen, hCnt⟩ := ih (stage_reading_eq_ok hNew rfl hStage) h
    refine ⟨⟨s.application, generation, content⟩ :: after, by simp [hLen], ?_, ?_, hSeen, ?_⟩
    · rw [readU64_iff.mp hGen, readIdentity_iff.mp hContent]
      have hRest₂ : rest₂ = generationsBytes after ++ e.rest := hRest
      simp [hRest₂, generationsBytes, generationBytes, generationFields]
    · rw [hLast, append_assoc]
      rfl
    · rw [hCnt, UInt32.ofNat_add, UInt32.add_assoc, UInt32.add_comm 1]
      rfl

end

theorem decodeApplication_eq_ok {front : List Slot} (hReg : d.registry = { slots := front })
    (hSeen : d.seenPackages = seenIn front) (h : decodeApplication d = .ok e) :
    ∃ slot, d.rest = slotBytes slot ++ e.rest ∧ e.registry = { slots := front ++ [slot] } ∧
      e.seenPackages = seenIn (front ++ [slot]) ∧
      e.decodedGenerationCount =
        d.decodedGenerationCount + UInt32.ofNat slot.generations.length := by
  rw [decodeApplication] at h
  obtain ⟨⟨packageIdSize, rest₁⟩, hIdSize, h⟩ := bind_ok h
  obtain ⟨⟨generationCount, rest₂⟩, hCnt, h⟩ := bind_ok h
  obtain ⟨⟨flags, rest₃⟩, hFlags, h⟩ := bind_ok h
  obtain ⟨⟨reserved, rest₄⟩, hResv, h⟩ := bind_ok h
  obtain ⟨⟨activeGeneration, rest₅⟩, hActive, h⟩ := bind_ok h
  obtain ⟨⟨signer, rest₆⟩, hSigner, h⟩ := bind_ok h
  obtain ⟨hShape, h⟩ := check_eq_ok_iff.mp h
  obtain ⟨hSettled, h⟩ := check_eq_ok_iff.mp h
  obtain ⟨-, h⟩ := check_eq_ok_iff.mp h
  obtain ⟨⟨packageText, rest₇⟩, hText, h⟩ := bind_ok h
  obtain ⟨packageId, hParse, h⟩ := bind_ok h
  obtain ⟨hUnseen, h⟩ := check_eq_ok_iff.mp h
  obtain ⟨u, hGens, h⟩ := bind_ok h
  have hShape := ensure_eq_ok_iff.mp hShape
  have hSettled := ensure_eq_ok_iff.mp hSettled
  have hUnseen := ensure_eq_ok_iff.mp hUnseen
  simp only [Bool.and_eq_true, bne_iff_ne, beq_iff_eq, decide_eq_true_eq] at hShape
  obtain ⟨⟨⟨⟨⟨-, -⟩, hSome⟩, -⟩, hBlank⟩, hKnown⟩ := hShape
  have hNew : packageId ∉ seenIn front := by
    simpa [hSeen, seenIn] using hUnseen
  obtain ⟨hTextBytes, hTextLen⟩ := readBytes_eq_ok hText
  have hOwn := parse_eq_ok (consistent_eq_ok hParse)
  let empty : Slot := { application := { packageId, signerLineage := signer } }
  have hStart : d.registry = reading front empty [] := hReg
  obtain ⟨after, hLen, hRest, hStaged, hSeenAfter, hTotal⟩ :=
    decodeGenerations_eq_ok (s := empty) hNew (by exact hStart) hGens
  have hStaged : u.registry = { slots := front ++ [empty.upTo after] } := by
    have hLast : after ≠ [] := by
      rintro rfl
      exact hSome (UInt16.toNat_inj.mp hLen.symm)
    simpa [reading, hLast] using hStaged
  let slot : Slot := {
    application := empty.application
    generations := after
    hasActive := flags &&& registryApplicationFlagActive != 0
    activeGeneration }
  have hBytes : d.rest = slotBytes slot ++ u.rest := by
    have hFlagsWord : flags = if slot.hasActive then registryApplicationFlagActive else 0 :=
      flags_of_known hKnown
    have hActiveWord : activeGeneration = if slot.hasActive then activeGeneration else 0 := by
      cases hBit : slot.hasActive with
      | true => rfl
      | false =>
        have hClear : (flags &&& registryApplicationFlagActive != 0) = false := hBit
        simpa [hClear] using hSettled
    have hSizes : packageIdSize = UInt16.ofNat packageId.text.length ∧
        generationCount = UInt16.ofNat after.length := by
      rw [hOwn, hTextLen, hLen, UInt16.ofNat_toNat, UInt16.ofNat_toNat]
      exact ⟨rfl, rfl⟩
    have hTail : rest₇ = generationsBytes after ++ u.rest := hRest
    rw [readU16_iff.mp hIdSize, readU16_iff.mp hCnt, readU16_iff.mp hFlags, readU16_iff.mp hResv,
      readU64_iff.mp hActive, readIdentity_iff.mp hSigner, hTextBytes, hTail, hBlank, ← hOwn,
      hSizes.1, hSizes.2, hFlagsWord, hActiveWord]
    simp [slotBytes, slotFields, slot, empty]
  have hSeenSlot : u.seenPackages = seenIn (front ++ [slot]) := by
    rw [hSeenAfter]
    rw [hSeen]
    simp [seenIn, slot, empty]
  have hTotalSlot : u.decodedGenerationCount =
      d.decodedGenerationCount + UInt32.ofNat slot.generations.length := by
    rw [hTotal, ← hLen]
  obtain ⟨hSet, h⟩ | ⟨hClear, h⟩ := ite_eq_iff.mp h
  · obtain ⟨registry, hActivated, h⟩ := bind_ok h
    cases h
    refine ⟨slot, hBytes, ?_, hSeenSlot, hTotalSlot⟩
    obtain ⟨-, -, -, -, -, rfl⟩ := activate_eq_ok (consistent_eq_ok hActivated)
    have hModify := modify_last (s := empty.upTo after)
      (fun t => { t with activeGeneration := activeGeneration, hasActive := true }) hNew
    have hWhole : slot = { empty.upTo after with activeGeneration, hasActive := true } := by
      simp only [slot, hSet]
      rfl
    rw [hStaged, hWhole]
    exact hModify
  · cases h
    refine ⟨slot, hBytes, ?_, hSeenSlot, hTotalSlot⟩
    have hBit : (flags &&& registryApplicationFlagActive != 0) = false := by simpa using hClear
    have hZero : activeGeneration = 0 := by simpa [hBit] using hSettled
    have hWhole : slot = empty.upTo after := by
      simp only [slot, hBit, hZero]
      rfl
    rw [hStaged, hWhole]

theorem decodeApplications_eq_ok {front : List Slot} (hReg : d.registry = { slots := front })
    (hSeen : d.seenPackages = seenIn front) (h : decodeApplications remaining d = .ok e) :
    ∃ back, back.length = remaining ∧ d.rest = slotsBytes back ++ e.rest ∧
      e.registry = { slots := front ++ back } ∧
      e.decodedGenerationCount =
        d.decodedGenerationCount + UInt32.ofNat (totalGenerations back) := by
  induction remaining generalizing front d with
  | zero =>
    cases h
    exact ⟨[], rfl, rfl, by rw [hReg, append_nil], by simp [totalGenerations]⟩
  | succ _ ih =>
    rw [decodeApplications] at h
    obtain ⟨u, hFirst, h⟩ := bind_ok h
    obtain ⟨slot, hRest, hSlot, hNext, hCnt⟩ := decodeApplication_eq_ok hReg hSeen hFirst
    obtain ⟨back, hLen, hBack, hSlots, hTotal⟩ := ih hSlot hNext h
    have hSum : totalGenerations (slot :: back) =
        slot.generations.length + totalGenerations back := by simp [totalGenerations]
    refine ⟨slot :: back, by rw [length_cons, hLen], ?_, ?_, ?_⟩
    · rw [hRest, hBack]
      simp [slotsBytes]
    · rw [hSlots]
      simp
    · rw [hTotal, hCnt, hSum, UInt32.ofNat_add, UInt32.add_assoc]

/-- A file that is decoded is what its registry is written as. -/
theorem decodeSnapshot_eq_ok {bytes : List UInt8} (h : decodeSnapshot bytes = .ok r) :
    bytes = snapshotBytes r := by
  rw [decodeSnapshot] at h
  obtain ⟨⟨magic, rest₁⟩, hMagic, h⟩ := bind_ok h
  obtain ⟨⟨version, rest₂⟩, hVer, h⟩ := bind_ok h
  obtain ⟨⟨headerSize, rest₃⟩, hHeader, h⟩ := bind_ok h
  obtain ⟨⟨totalSize, rest₄⟩, hSize, h⟩ := bind_ok h
  obtain ⟨⟨applicationCount, rest₅⟩, hCnt, h⟩ := bind_ok h
  obtain ⟨⟨reserved0, rest₆⟩, hReserved0, h⟩ := bind_ok h
  obtain ⟨⟨totalGenerationCount, rest₇⟩, hGens, h⟩ := bind_ok h
  obtain ⟨⟨reserved1, rest₈⟩, hReserved1, h⟩ := bind_ok h
  obtain ⟨hMagicIs, h⟩ := check_eq_ok_iff.mp h
  obtain ⟨hVerIs, h⟩ := check_eq_ok_iff.mp h
  obtain ⟨hShape, h⟩ := check_eq_ok_iff.mp h
  obtain ⟨e, hApplications, h⟩ := bind_ok h
  obtain ⟨hTotals, h⟩ := check_eq_ok_iff.mp h
  cases h
  have hMagicIs := beq_iff_eq.mp (ensure_eq_ok_iff.mp hMagicIs)
  have hVerIs := beq_iff_eq.mp (ensure_eq_ok_iff.mp hVerIs)
  have hShape := ensure_eq_ok_iff.mp hShape
  have hTotals := ensure_eq_ok_iff.mp hTotals
  simp only [Bool.and_eq_true, beq_iff_eq, decide_eq_true_eq] at hShape
  simp only [Bool.and_eq_true, beq_iff_eq, List.isEmpty_iff] at hTotals
  obtain ⟨⟨⟨⟨⟨hHeaderIs, hSizeIs⟩, hBlank0⟩, hBlank1⟩, -⟩, -⟩ := hShape
  obtain ⟨⟨hCounted, hEnd⟩, -⟩ := hTotals
  have hStart : ({ rest := rest₈ } : DecodeState).registry = { slots := [] } := rfl
  obtain ⟨slots, hLen, hRest, hReg, hTotal⟩ := decodeApplications_eq_ok hStart rfl hApplications
  rw [nil_append] at hReg
  rw [hEnd, append_nil] at hRest
  have hWhole : bytes = u32Bytes magic ++ (u16Bytes version ++ (u16Bytes headerSize ++
      (u32Bytes totalSize ++ (u16Bytes applicationCount ++ (u16Bytes reserved0 ++
      (u32Bytes totalGenerationCount ++ (u32Bytes reserved1 ++ slotsBytes slots))))))) := by
    rw [readU32_iff.mp hMagic, readU16_iff.mp hVer, readU16_iff.mp hHeader, readU32_iff.mp hSize,
      readU16_iff.mp hCnt, readU16_iff.mp hReserved0, readU32_iff.mp hGens,
      readU32_iff.mp hReserved1]
    have hTail : rest₈ = slotsBytes slots := hRest
    rw [hTail]
  have hSizeWord : totalSize = UInt32.ofNat (24 + (slotsBytes slots).length) := by
    have hBytes : bytes.length = 24 + (slotsBytes slots).length := by
      rw [hWhole]
      simp
      omega
    rw [← hBytes, ← hSizeIs, UInt32.ofNat_toNat]
  have hCntWord : applicationCount = UInt16.ofNat slots.length := by rw [hLen, UInt16.ofNat_toNat]
  have hTotalWord : totalGenerationCount = UInt32.ofNat (totalGenerations slots) := by
    rw [← hCounted, hTotal]
    simp
  rw [hReg, hWhole, hMagicIs, hVerIs, hHeaderIs, hBlank0, hBlank1, hSizeWord, hCntWord, hTotalWord]
  simp only [snapshotBytes, headerFields, flatten_cons, flatten_nil, append_assoc, append_nil]

end Enml.OsPackage
