import Enml.OsBoot.State

/-! Boot evidence is canonical and coherent. The parser accepts exactly the
layouts of coherent states, both encoders write exactly those, and nothing that
differs from an accepted record in its length or in a byte that has to have its
value is accepted. -/
namespace Enml.OsBoot

open Enml.Core LittleEndian Buffer PlatformCapability Records BootStateBuilder
open List hiding Vector

variable {m : BootStageMeasurement}
  {raw : UInt8} {base stageCount offset : Nat} {earlier stages : List BootStageMeasurement}
  {output bytes : List UInt8}

/-- What a record says, apart from the size of its arrays. -/
structure Evidence where
  lifecycle : LifecycleState
  verification : VerificationResult
  securityVersion : UInt64
  capabilities : UInt32
  stages : List BootStageMeasurement

def layoutHeader (e : Evidence) : List UInt8 :=
  bootStateMagic ++ (bytesOf 2 bootStateHeaderBytesV1.toNat ++
    (bytesOf 2 bootStateVersionV1.toNat ++ ([e.lifecycle.raw] ++ ([e.verification.raw] ++
      (bytesOf 2 (0 : UInt16).toNat ++ (bytesOf 8 e.securityVersion.toNat ++
        (bytesOf 2 (UInt16.ofNat e.stages.length).toNat ++ (bytesOf 2 (0 : UInt16).toNat ++
          (bytesOf 4 e.capabilities.toNat ++ bytesOf 4 (0 : UInt32).toNat)))))))))

def layoutStage (m : BootStageMeasurement) : List UInt8 :=
  bytesOf 2 m.kind.raw.toNat ++ ([m.algorithm.raw] ++ ([0] ++ (bytesOf 4 (0 : UInt32).toNat ++
    m.digest.toList)))

/-- The bytes that stand for a piece of evidence. -/
def layout (e : Evidence) : List UInt8 := layoutHeader e ++ e.stages.flatMap layoutStage

@[simp] theorem length_layoutHeader (e : Evidence) : (layoutHeader e).length = 32 := by
  simp [layoutHeader, bootStateMagic]

@[simp] theorem length_layoutStage (m : BootStageMeasurement) : (layoutStage m).length = 40 := by
  have hDigest : m.digest.toList.length = 32 := m.digest.length_toList
  simp [layoutStage, hDigest]

theorem encodedSize_eq (stageCount : Nat) : encodedSize stageCount = 32 + stageCount * 40 := rfl

theorem length_layout (e : Evidence) : (layout e).length = encodedSize e.stages.length := by
  rw [layout, length_append, length_layoutHeader, length_flatMap length_layoutStage]
  rfl

theorem validLifecycle_eq_ok_iff {lifecycle : LifecycleState} :
    validLifecycle raw = .ok lifecycle ↔ raw = lifecycle.raw := by
  unfold validLifecycle
  split_ifs with hOpen hClosed
  · cases lifecycle <;> simp [hOpen, LifecycleState.raw]
  · cases lifecycle <;> simp [hClosed, LifecycleState.raw]
  · cases lifecycle <;> simp [hOpen, hClosed]

theorem validVerification_eq_ok_iff {result : VerificationResult} :
    validVerification raw = .ok result ↔ raw = result.raw := by
  unfold validVerification
  split_ifs with hFailed hVerified
  · cases result <;> simp [hFailed, VerificationResult.raw]
  · cases result <;> simp [hVerified, VerificationResult.raw]
  · cases result <;> simp [hFailed, hVerified]

theorem validDigestAlgorithm_eq_ok_iff {algorithm : DigestAlgorithm} :
    validDigestAlgorithm raw = .ok algorithm ↔ raw = algorithm.raw := by
  unfold validDigestAlgorithm
  split_ifs with hSha
  all_goals
    cases algorithm
    simp [hSha]

/-- The interval of raw kinds holds nothing but kinds. -/
theorem validStageKind_eq_ok_iff {raw : UInt16} {kind : BootStageKind} :
    validStageKind raw = .ok kind ↔ raw = kind.raw := by
  unfold validStageKind
  split_ifs with hInside hFirst hBootloader hKernel hConfig
  · cases kind <;> simp [hFirst, BootStageKind.raw]
  · cases kind <;> simp [hBootloader, BootStageKind.raw]
  · cases kind <;> simp [hKernel, BootStageKind.raw]
  · cases kind <;> simp [hConfig, BootStageKind.raw]
  · have hLast : raw = BootStageKind.rootFilesystem.raw := by
      simp only [BootStageKind.raw] at *
      grind
    cases kind <;> simp [hLast, BootStageKind.raw]
  refine iff_of_false nofun ?_
  rintro rfl
  refine hInside ?_
  cases kind <;> decide

variable {encoded : List UInt8}

theorem slice_eq_layoutStage_iff (h : base + 40 ≤ encoded.length) :
    slice encoded base 40 = layoutStage m ↔
      readU16Le encoded base = m.kind.raw ∧ spanByte encoded (base + 2) = m.algorithm.raw ∧
        spanByte encoded (base + 3) = 0 ∧ readU32Le encoded (base + 4) = 0 ∧
        (Vector.ofFn fun i : Fin sha256DigestBytes => spanByte encoded (base + 8 + i)) =
          m.digest := by
  have hSplit : slice encoded base 40 =
      slice encoded base (2 + (1 + (1 + (4 + sha256DigestBytes)))) := rfl
  have hDigest : sha256DigestBytes = 32 := rfl
  rw [hSplit, layoutStage]
  simp (disch := first | omega | simp) only [slice_eq_append_iff, slice_eq_u16_iff,
    slice_eq_u32_iff, slice_eq_singleton_iff, slice_eq_vector_iff, -Nat.reduceAdd]

variable {e : Evidence}

theorem slice_eq_layoutHeader_iff (h : 32 ≤ encoded.length) :
    slice encoded 0 32 = layoutHeader e ↔
      ((List.range bootStateMagic.length).all fun i =>
        spanByte encoded (0 + i) == spanByte bootStateMagic i) = true ∧
      readU16Le encoded 4 = bootStateHeaderBytesV1 ∧ readU16Le encoded 6 = bootStateVersionV1 ∧
      spanByte encoded 8 = e.lifecycle.raw ∧ spanByte encoded 9 = e.verification.raw ∧
      readU16Le encoded 10 = 0 ∧ readU64Le encoded 12 = e.securityVersion ∧
      readU16Le encoded 20 = UInt16.ofNat e.stages.length ∧ readU16Le encoded 22 = 0 ∧
      readU32Le encoded 24 = e.capabilities ∧ readU32Le encoded 28 = 0 := by
  have hSplit : slice encoded 0 32 = slice encoded 0
      (bootStateMagic.length + (2 + (2 + (1 + (1 + (2 + (8 + (2 + (2 + (4 + 4)))))))))) := rfl
  have hMagic : bootStateMagic.length = 4 := rfl
  rw [hSplit, layoutHeader, slice_eq_append_iff rfl (by omega), slice_eq_iff_all (by omega), hMagic]
  simp (disch := first | omega | simp) only [slice_eq_append_iff, slice_eq_u16_iff,
    slice_eq_u32_iff, slice_eq_u64_iff, slice_eq_singleton_iff, -Nat.reduceAdd]

/-- No kind is measured twice. -/
def Distinct (stages : List BootStageMeasurement) : Prop := (stages.map fun m => m.kind).Nodup

structure Evidence.Coherent (e : Evidence) : Prop where
  measured : e.verification = .verified → e.stages ≠ []
  complete : e.verification = .verified → e.lifecycle = .closed →
    (∀ kind, (e.stages.map fun m => m.kind).count kind = 1) ∧
      e.capabilities &&& immutableFirstStage.raw ≠ 0
  counter : e.securityVersion ≠ 0 → e.capabilities &&& monotonicCounter.raw ≠ 0
  known : e.capabilities &&& ~~~knownPlatformCapabilities = 0

def BootStateV1.evidence (state : BootStateV1) : Evidence where
  lifecycle := state.lifecycle
  verification := state.verification
  securityVersion := state.securityVersion
  capabilities := state.capabilities
  stages := state.used

def BootStateBuilder.evidence (b : BootStateBuilder) : Evidence where
  lifecycle := b.lifecycle
  verification := b.verification
  securityVersion := b.securityVersion
  capabilities := b.capabilities
  stages := b.used

theorem isOk_stageOfKind (state : BootStateV1) (kind : BootStageKind) :
    (state.stageOfKind kind).isOk = true ↔ kind ∈ state.used.map fun m => m.kind := by
  unfold BootStateV1.stageOfKind
  cases hFind : state.used.find? fun m => m.kind == kind with
  | none =>
    rw [List.find?_eq_none] at hFind
    refine iff_of_false nofun ?_
    rintro hMem
    obtain ⟨m, hm, rfl⟩ := mem_map.mp hMem
    exact hFind m hm (beq_self_eq_true _)
  | some m =>
    have hKind := List.find?_some hFind
    refine iff_of_true rfl (mem_map.mpr ⟨m, mem_of_find?_eq_some hFind, ?_⟩)
    exact beq_iff_eq.mp hKind

theorem all_required_iff {state : BootStateV1} (h : Distinct state.used) :
    (requiredClosedStages.all fun required => (state.stageOfKind required).isOk) = true ↔
      ∀ kind, (state.used.map fun m => m.kind).count kind = 1 := by
  have hRequired : ∀ kind, kind ∈ requiredClosedStages := by
    intro kind
    cases kind <;> decide
  rw [all_eq_true]
  constructor
  · intro hAll kind
    exact count_eq_one_of_mem h ((isOk_stageOfKind state kind).mp (hAll kind (hRequired kind)))
  intro hOnce kind _
  refine (isOk_stageOfKind state kind).mpr (count_pos_iff.mp ?_)
  rw [hOnce kind]
  exact Nat.one_pos

theorem checkVerified_eq_ok_iff {state : BootStateV1} (h : Distinct state.used)
    (hCnt : state.used.length = state.stageCount) :
    checkVerified state = .ok () ↔ (state.verification = .verified → state.used ≠ []) ∧
      (state.verification = .verified → state.lifecycle = .closed →
        (∀ kind, (state.used.map fun m => m.kind).count kind = 1) ∧
          state.capabilities &&& immutableFirstStage.raw ≠ 0) := by
  have hNonempty : (state.stageCount != 0) = true ↔ state.used ≠ [] := by
    rw [bne_iff_ne, ← hCnt, ne_eq, length_eq_zero_iff]
  have hProvides : state.provides .immutableFirstStage = true ↔
      state.capabilities &&& immutableFirstStage.raw ≠ 0 := bne_iff_ne
  unfold checkVerified
  by_cases hVerified : state.verification = .verified
  · rw [if_pos hVerified, check_eq_ok_iff, ensure_eq_ok_iff, hNonempty]
    by_cases hClosed : state.lifecycle = .closed
    · rw [if_pos hClosed, check_eq_ok_iff, ensure_eq_ok_iff, all_required_iff h, ensure_eq_ok_iff,
        hProvides]
      tauto
    · rw [if_neg hClosed]
      tauto
  · rw [if_neg hVerified]
    tauto

theorem checkCoherence_eq_ok_iff {state : BootStateV1} (h : Distinct state.used)
    (hCnt : state.used.length = state.stageCount)
    (hKnown : state.capabilities &&& ~~~knownPlatformCapabilities = 0) :
    checkCoherence state = .ok () ↔ state.evidence.Coherent := by
  have hCounter : (!(state.securityVersion != 0 && !state.provides .monotonicCounter)) = true ↔
      (state.securityVersion ≠ 0 →
        state.capabilities &&& monotonicCounter.raw ≠ 0) := by
    simp [BootStateV1.provides, imp_iff_not_or]
  rw [checkCoherence, check_eq_ok_iff, checkVerified_eq_ok_iff h hCnt, ensure_eq_ok_iff, hCounter]
  constructor
  · rintro ⟨⟨hMeasured, hComplete⟩, hVer⟩
    exact ⟨hMeasured, hComplete, hVer, hKnown⟩
  · intro hCoherent
    exact ⟨⟨hCoherent.measured, hCoherent.complete⟩, hCoherent.counter⟩

/-- A stage that may follow others. -/
def Admits (earlier : List BootStageMeasurement) (m : BootStageMeasurement) : Prop :=
  ∀ other ∈ earlier, other.kind ≠ m.kind

theorem chain_iff :
    Records.Chain (fun earlier m => earlier ++ [m]) Admits earlier stages ↔
      Distinct stages ∧ ∀ other ∈ earlier, ∀ m ∈ stages, other.kind ≠ m.kind := by
  induction stages generalizing earlier with
  | nil => simp [Records.Chain, Distinct]
  | cons m _ ih =>
    simp only [Records.Chain, ih, Admits, Distinct, map_cons, nodup_cons, mem_map,
      mem_append, mem_cons, not_mem_nil, or_false]
    constructor
    · rintro ⟨hFirst, hRest, hApart⟩
      refine ⟨⟨?_, hRest⟩, ?_⟩
      · rintro ⟨other, hOther, hSame⟩
        exact hApart m (.inr rfl) other hOther hSame.symm
      · rintro other hOther later (rfl | hLater)
        · exact hFirst other hOther
        · exact hApart other (.inl hOther) later hLater
    · rintro ⟨⟨hNew, hRest⟩, hApart⟩
      refine ⟨fun other hOther => hApart other hOther m (.inl rfl), hRest, ?_⟩
      rintro other (hOther | rfl) later hLater
      · exact hApart other hOther later (.inr hLater)
      · intro hSame
        exact hNew ⟨later, hLater, hSame.symm⟩

theorem parseStage_eq_ok_iff (h : base + 40 ≤ encoded.length) :
    parseStage encoded earlier base = .ok m ↔
      slice encoded base 40 = layoutStage m ∧ Admits earlier m := by
  have hEarlier : ∀ kind : BootStageKind, (!earlier.any fun other => other.kind == kind) = true ↔
        ∀ other ∈ earlier, other.kind ≠ kind := by
    intro kind
    simp
  rw [slice_eq_layoutStage_iff h, parseStage]
  simp only [bind_eq_ok_iff, ensure_eq_ok_iff, validStageKind_eq_ok_iff,
    validDigestAlgorithm_eq_ok_iff, hEarlier, Nat.add_zero, Bool.and_eq_true, beq_iff_eq]
  constructor
  · rintro ⟨kind, hKind, algorithm, hAlgorithm, -, hResv, -, hNew, hStage⟩
    obtain rfl := Except.ok.inj hStage
    exact ⟨⟨hKind, hAlgorithm, hResv.1, hResv.2, rfl⟩, hNew⟩
  · rintro ⟨⟨hKind, hAlgorithm, hFirst, hSnd, hDigest⟩, hNew⟩
    rw [hDigest]
    exact ⟨m.kind, hKind, m.algorithm, hAlgorithm, (), ⟨hFirst, hSnd⟩, (), hNew, rfl⟩

theorem parseStages_eq_ok_iff (h : encoded.length = encodedSize stageCount) :
    parseStages encoded stageCount = .ok stages ↔ stages.length = stageCount ∧
        slice encoded 32 (stageCount * 40) = stages.flatMap layoutStage ∧ Distinct stages := by
  have hHeader : bootStateHeaderBytesV1.toNat = 32 := rfl
  have hStage : bootStageRecordBytesV1.toNat = 40 := rfl
  have hChain : Records.Chain (fun earlier m => earlier ++ [m]) Admits [] stages ↔
      Distinct stages := by
    rw [chain_iff]
    simp
  rw [parseStages, hHeader, hStage, ← hChain]
  refine readAll_eq_ok_iff length_layoutStage ?_ (by rw [h, encodedSize_eq])
  intro earlier base m hRoom
  exact parseStage_eq_ok_iff hRoom

/-- What a state that was read satisfies. -/
structure BootStateV1.WellFormed (state : BootStateV1) : Prop where
  count : state.stageCount ≤ maxBootStages
  slots : state.stages = fillStages state.used
  distinct : Distinct state.used
  coherent : state.evidence.Coherent

theorem take_fillStages (h : stages.length ≤ maxBootStages) :
    (fillStages stages).toList.take stages.length = stages := by
  refine ext_getElem (by simp [h]) fun i _ hi => ?_
  simp [fillStages, hi]

theorem length_used {stages : Vector BootStageMeasurement maxBootStages}
    (h : stageCount ≤ maxBootStages) : (stages.toList.take stageCount).length = stageCount := by
  simp [h]

theorem toNat_count (h : stageCount ≤ maxBootStages) :
    (UInt16.ofNat stageCount).toNat = stageCount := by
  rw [UInt16.toNat_ofNat']
  simp only [maxBootStages] at h
  omega

/-- A span is the layout of evidence exactly if its header and its records are. -/
theorem eq_layout_iff :
    encoded = layout e ↔
      encoded.length = encodedSize e.stages.length ∧ slice encoded 0 32 = layoutHeader e ∧
        slice encoded 32 (e.stages.length * 40) = e.stages.flatMap layoutStage := by
  constructor
  · rintro rfl
    refine ⟨length_layout e, slice_left (length_layoutHeader e), ?_⟩
    exact slice_whole (length_flatMap length_layoutStage e.stages)
  rintro ⟨hLen, hHeader, hRecs⟩
  have hWhole : slice encoded 0 (32 + e.stages.length * 40) = encoded := slice_whole hLen
  rw [← slice_append (Nat.zero_add 32).symm, hHeader, hRecs] at hWhole
  exact hWhole.symm

theorem count_field_iff (h : stageCount ≤ maxBootStages) :
    readU16Le encoded 20 = UInt16.ofNat stageCount ↔ (readU16Le encoded 20).toNat = stageCount := by
  rw [← UInt16.toNat_inj, toNat_count h]

/-- The parser accepts exactly the layouts of well-formed states. -/
theorem parse_eq_ok_iff {state : BootStateV1} :
    parseBootStateV1 encoded = .ok state ↔
      state.WellFormed ∧ encoded = layout state.evidence := by
  unfold parseBootStateV1
  simp only [bind_eq_ok_iff, ensure_eq_ok_iff, validLifecycle_eq_ok_iff,
    validVerification_eq_ok_iff]
  constructor
  · rintro ⟨-, hRoom, -, hMagic, -, hHeader, -, hVer, -, hResv, lifecycle, hLife,
      verification, hVerification, -, hMax, -, hSize, -, hKnown, stages, hStages, ⟨⟩, hCoherent,
      hState⟩
    simp only [beq_iff_eq, Bool.and_eq_true] at hHeader hVer hResv
    simp only [beq_iff_eq, decide_eq_true_eq] at hMax hSize hKnown
    obtain ⟨hLen, hRecs, hDist⟩ := (parseStages_eq_ok_iff hSize).mp hStages
    have hUsed : (fillStages stages).toList.take (readU16Le encoded 20).toNat = stages := by
      rw [← hLen] at hMax ⊢
      exact take_fillStages hMax
    have hRead := Except.ok.inj hState
    rw [hRead] at hCoherent
    have hDist' : Distinct state.used := by
      rw [← hRead]
      show Distinct ((fillStages stages).toList.take _)
      rwa [hUsed]
    have hCnt' : state.used.length = state.stageCount := by
      rw [← hRead]
      exact length_used hMax
    rw [checkCoherence_eq_ok_iff hDist' hCnt' (by rw [← hRead]; exact hKnown)] at hCoherent
    subst hRead
    refine ⟨⟨hMax, congrArg fillStages hUsed.symm, hDist', hCoherent⟩, ?_⟩
    · have hCnt : ((fillStages stages).toList.take (readU16Le encoded 20).toNat).length =
          (readU16Le encoded 20).toNat := length_used hMax
      refine eq_layout_iff.mpr ⟨?_, ?_, ?_⟩
      · exact hSize.trans (congrArg encodedSize hCnt.symm)
      · rw [slice_eq_layoutHeader_iff (by rw [hSize, encodedSize_eq]; omega)]
        refine ⟨hMagic, hHeader, hVer, hLife, hVerification, hResv.1.1, rfl, ?_,
          hResv.1.2, rfl, hResv.2⟩
        show _ = UInt16.ofNat ((fillStages stages).toList.take _).length
        rw [hCnt, count_field_iff hMax]
      · show slice encoded 32 (((fillStages stages).toList.take _).length * 40) =
          ((fillStages stages).toList.take _).flatMap layoutStage
        rw [hCnt, hUsed]
        exact hRecs
  · rintro ⟨hWell, hEncoded⟩
    have hLen : state.used.length = state.stageCount := length_used hWell.count
    obtain ⟨hSize, hHeader, hRecs⟩ := eq_layout_iff.mp hEncoded
    change encoded.length = encodedSize state.used.length at hSize
    change slice encoded 32 (state.used.length * 40) = state.used.flatMap layoutStage at hRecs
    rw [hLen] at hSize hRecs
    rw [slice_eq_layoutHeader_iff (by rw [hSize, encodedSize_eq]; omega)] at hHeader
    obtain ⟨hMagic, hHeaderSize, hVer, hLife, hVerification, hFirst, hSecurity, hCnt,
      hSnd, hCaps, hThird⟩ := hHeader
    change readU16Le encoded 20 = UInt16.ofNat state.used.length at hCnt
    rw [hLen, count_field_iff hWell.count] at hCnt
    change readU64Le encoded 12 = state.securityVersion at hSecurity
    change readU32Le encoded 24 = state.capabilities at hCaps
    have hStages := (parseStages_eq_ok_iff hSize).mpr ⟨hLen, hRecs, hWell.distinct⟩
    have hBounds : decide (bootStateHeaderBytesV1.toNat ≤ encoded.length) = true := by
      have hLower : bootStateHeaderBytesV1.toNat = 32 := rfl
      rw [hSize, encodedSize_eq, hLower, decide_eq_true_eq]
      omega
    have hCoherent := (checkCoherence_eq_ok_iff hWell.distinct hLen hWell.coherent.known).mpr
      hWell.coherent
    rw [hCnt, hSecurity, hCaps]
    refine ⟨(), hBounds, (), hMagic, (), by simpa using hHeaderSize, (), by simpa using hVer, (),
      by simp [hFirst, hSnd, hThird], state.lifecycle, hLife, state.verification,
      hVerification, (), by simpa using hWell.count, (), by simpa using hSize, (),
      by simpa [BootStateV1.evidence] using hWell.coherent.known, state.used, hStages, (), ?_, ?_⟩
    · rw [← hWell.slots]
      exact hCoherent
    · rw [← hWell.slots]

section Writer

variable (rest : List UInt8)

theorem writeStage_filled (done : List UInt8) (count : Nat) (m : BootStageMeasurement) :
    writeStage (filled 0 done (40 + count) rest) done.length m =
      filled 0 (done ++ layoutStage m) count rest := by
  have hSplit : 40 + count = 2 + (1 + (5 + (sha256DigestBytes + count))) := by
    simp only [sha256DigestBytes]
    omega
  have hResv : List.replicate 5 (0 : UInt8) = [0] ++ bytesOf 4 (0 : UInt32).toNat := by decide
  unfold writeStage
  dsimp only
  rw [hSplit, writeU16Le_filled (by simp), filled_set (by simp), filled_skip 5,
    storeSpan_filled (by simp), map_spanByte_vector, hResv]
  simp only [layoutStage, append_assoc]

/-- The header is written field by field; the count of stages is the only field
written after one that follows it. -/
theorem writeHeader_filled (e : Evidence) (count : Nat) :
    writeU16Le (writeU32Le (writeU64Le (((writeU16Le (writeU16Le
      (storeSpan (filled 0 [] (32 + count) rest) 0 bootStateMagic.length
        fun i => spanByte bootStateMagic i) 4 bootStateHeaderBytesV1) 6 bootStateVersionV1).set 8
        e.lifecycle.raw).set 9 e.verification.raw) 12 e.securityVersion) 24 e.capabilities) 20
        (UInt16.ofNat e.stages.length) =
      filled 0 (layoutHeader e) count rest := by
  have hSplit : 32 + count = bootStateMagic.length +
      (2 + (2 + (1 + (1 + (2 + (8 + (2 + (2 + (4 + (4 + count)))))))))) := by
    simp only [bootStateMagic, length_cons, length_nil]
    omega
  have hMagic : (List.range bootStateMagic.length).map (fun i => spanByte bootStateMagic i) =
      bootStateMagic := by decide
  have hFour : bootStateMagic.length = 4 := rfl
  have hTwoBlank : List.replicate 2 (0 : UInt8) = bytesOf 2 (0 : UInt16).toNat := by decide
  have hFourBlank : List.replicate 4 (0 : UInt8) = bytesOf 4 (0 : UInt32).toNat := by decide
  rw [writeU16Le_writeU32Le (by omega), hSplit, storeSpan_filled (by simp), hMagic,
    writeU16Le_filled (by simp [hFour]), writeU16Le_filled (by simp [hFour]),
    filled_set (by simp [hFour]), filled_set (by simp [hFour]), filled_skip 2,
    writeU64Le_filled (by simp [hFour]), writeU16Le_filled (by simp [hFour]), filled_skip 2,
    writeU32Le_filled (by simp [hFour]), filled_skip 4, hTwoBlank, hFourBlank]
  simp only [layoutHeader, append_assoc, nil_append]

end Writer

/-- An encoder clears its part of the buffer and puts the layout there. -/
theorem encodeRecord_eq (e : Evidence) (hStages : e.stages = stages.take stageCount)
    (hCnt : e.stages.length = stageCount) (hRoom : encodedSize stageCount ≤ output.length) :
    encodeRecord output e.lifecycle e.verification e.securityVersion e.capabilities stages
        stageCount =
      (layout e ++ output.drop (encodedSize stageCount), .ok (encodedSize stageCount)) := by
  have hHeader : bootStateHeaderBytesV1.toNat = 32 := rfl
  have hStage : bootStageRecordBytesV1.toNat = 40 := rfl
  have hWritten := writeAll_filled (layoutHeader e) (output.drop (encodedSize stageCount))
    length_layoutStage (writeStage_filled _) e.stages
  have hFields := writeHeader_filled (output.drop (encodedSize stageCount)) e (stageCount * 40)
  rw [length_layoutHeader, hCnt] at hWritten
  rw [hCnt] at hFields
  unfold encodeRecord
  dsimp only
  rw [if_neg (by omega), storeSpan_blank hRoom, hHeader, hStage, ← hStages]
  nth_rewrite 1 [encodedSize_eq]
  rw [hFields, hWritten, layout]

variable {b : BootStateBuilder}

namespace BootStateBuilder

/-- What every history of calls keeps. -/
structure Built (b : BootStateBuilder) : Prop where
  count : b.stageCount ≤ maxBootStages
  distinct : Distinct b.used

theorem used_push (h : b.stageCount < maxBootStages) (m : BootStageMeasurement) :
    (b.stages.setIfInBounds b.stageCount m).toList.take (b.stageCount + 1) = b.used ++ [m] := by
  have hSize : b.stages.toList.length = maxBootStages := b.stages.length_toList
  rw [Vector.toList_setIfInBounds, take_add_one, take_set_of_le (Nat.le_refl _),
    List.getElem?_set_self (by omega)]
  rfl

theorem Built.push (h : b.Built) (hRoom : b.stageCount < maxBootStages)
    (hNew : ¬(b.used.any fun other => other.kind == m.kind) = true) :
    Built { b with
      stages := b.stages.setIfInBounds b.stageCount m
      stageCount := b.stageCount + 1 } := by
  refine ⟨hRoom, ?_⟩
  rw [used, used_push hRoom, Distinct, map_append, nodup_append]
  refine ⟨h.distinct, nodup_singleton _, ?_⟩
  intro kind hKind kind' hKind' hSame
  rw [map_singleton, mem_singleton] at hKind'
  obtain ⟨other, hOther, rfl⟩ := mem_map.mp hKind
  refine hNew (any_eq_true.mpr ⟨other, hOther, beq_iff_eq.mpr ?_⟩)
  rw [hSame, hKind']

theorem Built.addStage (h : b.Built) (kind : UInt16) (algorithm : UInt8) (digest : List UInt8) :
    (b.addStage kind algorithm digest).1.Built := by
  unfold BootStateBuilder.addStage
  split_ifs with hFull hSize
  · exact h
  · exact h
  cases validStageKind kind with
  | error => exact h
  | ok =>
    cases validDigestAlgorithm algorithm with
    | error => exact h
    | ok =>
      dsimp only
      split_ifs with hTwice
      · exact h
      · exact h.push (Nat.lt_of_not_le hFull) hTwice

theorem Built.step (h : b.Built) (call : BuilderCall) : (b.step call).1.Built := by
  cases call with
  | addStage kind algorithm digest => exact h.addStage kind algorithm digest
  | setLifecycle | setVerification | setSecurityVersion | setCapabilities =>
    exact ⟨h.count, h.distinct⟩

theorem built_after (calls : List BuilderCall) : (Run.after step {} calls).Built := by
  have hRun : Run.Always step Built {} calls :=
    Run.always_of_invariant ⟨Nat.zero_le _, nodup_nil⟩ fun _ call h => h.step call
  exact hRun.final

/-- The state that a builder's record is read as. -/
def state (b : BootStateBuilder) : BootStateV1 where
  lifecycle := b.lifecycle
  verification := b.verification
  securityVersion := b.securityVersion
  capabilities := b.capabilities
  stageCount := b.stageCount
  stages := fillStages b.used

theorem used_state (h : b.stageCount ≤ maxBootStages) : b.state.used = b.used := by
  have hLen : b.used.length = b.stageCount := length_used h
  have hFill := take_fillStages (hLen.trans_le h)
  rw [hLen] at hFill
  exact hFill

theorem evidence_state (h : b.stageCount ≤ maxBootStages) : b.state.evidence = b.evidence := by
  rw [BootStateV1.evidence, used_state h]
  rfl

end BootStateBuilder

theorem layoutStage_injective : Function.Injective layoutStage := by
  intro a b h
  have hRoom : 0 + 40 ≤ (layoutStage a).length := by rw [length_layoutStage]
  have hWhole : slice (layoutStage a) 0 40 = layoutStage a := slice_whole (length_layoutStage a)
  obtain ⟨hKind, hAlgorithm, -, -, hDigest⟩ := (slice_eq_layoutStage_iff hRoom).mp hWhole
  obtain ⟨hKind', hAlgorithm', -, -, hDigest'⟩ :=
    (slice_eq_layoutStage_iff hRoom).mp (hWhole.trans h)
  rw [← validStageKind_eq_ok_iff] at hKind hKind'
  rw [← validDigestAlgorithm_eq_ok_iff] at hAlgorithm hAlgorithm'
  have hSameKind : a.kind = b.kind := Except.ok.inj (hKind.symm.trans hKind')
  have hSameAlgorithm : a.algorithm = b.algorithm :=
    Except.ok.inj (hAlgorithm.symm.trans hAlgorithm')
  have hSameDigest : a.digest = b.digest := hDigest.symm.trans hDigest'
  calc a = ⟨a.kind, a.algorithm, a.digest⟩ := rfl
    _ = ⟨b.kind, b.algorithm, b.digest⟩ := by rw [hSameKind, hSameAlgorithm, hSameDigest]
    _ = b := rfl

/-- The layout determines the evidence. -/
theorem layout_inj {e' : Evidence} (hMax : e.stages.length ≤ maxBootStages)
    (hMax' : e'.stages.length ≤ maxBootStages) (h : layout e = layout e') : e = e' := by
  have hRoom : 32 ≤ (layout e).length := by
    rw [length_layout, encodedSize_eq]
    omega
  obtain ⟨-, hHeader, hRecs⟩ := eq_layout_iff.mp (rfl : layout e = _)
  obtain ⟨-, hHeader', hRecs'⟩ := eq_layout_iff.mp h
  obtain ⟨-, -, -, hLife, hVerification, -, hSecurity, hCnt, -, hCaps, -⟩ :=
    (slice_eq_layoutHeader_iff hRoom).mp hHeader
  obtain ⟨-, -, -, hLife', hVerification', -, hSecurity', hCnt', -, hCaps', -⟩ :=
    (slice_eq_layoutHeader_iff hRoom).mp hHeader'
  rw [count_field_iff hMax] at hCnt
  rw [count_field_iff hMax'] at hCnt'
  have hLen : e.stages.length = e'.stages.length := hCnt.symm.trans hCnt'
  rw [← hLen] at hRecs'
  rw [← validLifecycle_eq_ok_iff] at hLife hLife'
  rw [← validVerification_eq_ok_iff] at hVerification hVerification'
  have hStages : e.stages = e'.stages :=
    flatMap_inj length_layoutStage layoutStage_injective hLen
      (hRecs.symm.trans hRecs')
  have hSameLife := Except.ok.inj (hLife.symm.trans hLife')
  have hSameVerification := Except.ok.inj (hVerification.symm.trans hVerification')
  have hSameSecurity := hSecurity.symm.trans hSecurity'
  have hSameCaps := hCaps.symm.trans hCaps'
  calc e = ⟨e.lifecycle, e.verification, e.securityVersion, e.capabilities, e.stages⟩ := rfl
    _ = ⟨e'.lifecycle, e'.verification, e'.securityVersion, e'.capabilities, e'.stages⟩ := by
      rw [hSameLife, hSameVerification, hSameSecurity, hSameCaps, hStages]
    _ = e' := rfl

/-- A record that was accepted is written back as it was. -/
theorem encode_parse {state : BootStateV1}
    (h : parseBootStateV1 encoded = .ok state) (hRoom : encoded.length ≤ output.length) :
    encodeBootStateV1 state output =
      (encoded ++ output.drop encoded.length, .ok encoded.length) := by
  obtain ⟨hWell, hEncoded⟩ := parse_eq_ok_iff.mp h
  have hUsed : state.evidence.stages.length = state.stageCount := length_used hWell.count
  have hLen : encoded.length = encodedSize state.stageCount := by
    rw [hEncoded, length_layout, hUsed]
  rw [hLen] at hRoom ⊢
  rw [hEncoded]
  exact encodeRecord_eq state.evidence rfl hUsed hRoom

/-- A record that was built is accepted exactly if it is coherent, and read back
as it was built. -/
theorem parse_encode (h : b.Built) (hRoom : encodedSize b.stageCount ≤ output.length) :
    ∃ n, (b.encode output).2 = .ok n ∧
      ((∃ state, parseBootStateV1 ((b.encode output).1.take n) = .ok state) ↔ b.evidence.Coherent) ∧
      ∀ state, parseBootStateV1 ((b.encode output).1.take n) = .ok state →
        state.evidence = b.evidence := by
  have hLen : b.evidence.stages.length = b.stageCount := length_used h.count
  have hEncode : b.encode output = (layout b.evidence ++ output.drop (encodedSize b.stageCount),
      .ok (encodedSize b.stageCount)) := encodeRecord_eq b.evidence rfl hLen hRoom
  have hWritten : (layout b.evidence ++ output.drop (encodedSize b.stageCount)).take
      (encodedSize b.stageCount) = layout b.evidence :=
    take_left' (by rw [length_layout, hLen])
  have hRead : ∀ state, parseBootStateV1 (layout b.evidence) = .ok state →
      state.evidence = b.evidence ∧ b.evidence.Coherent := by
    intro state hParse
    obtain ⟨hWell, hSame⟩ := parse_eq_ok_iff.mp hParse
    have hMax : state.evidence.stages.length ≤ maxBootStages := by
      have hUsed : state.evidence.stages.length = state.stageCount := length_used hWell.count
      rw [hUsed]
      exact hWell.count
    have hEvidence := layout_inj (hLen.trans_le h.count) hMax hSame
    exact ⟨hEvidence.symm, hEvidence.symm ▸ hWell.coherent⟩
  rw [hEncode]
  refine ⟨_, rfl, ?_⟩
  rw [hWritten]
  refine ⟨⟨fun ⟨state, hParse⟩ => (hRead state hParse).2, fun hCoherent => ⟨b.state, ?_⟩⟩,
    fun state hParse => (hRead state hParse).1⟩
  have hUsed := used_state h.count
  have hEvidence := evidence_state h.count
  refine parse_eq_ok_iff.mpr ⟨⟨h.count, ?_, ?_, ?_⟩, ?_⟩
  · rw [hUsed]
    rfl
  · rw [hUsed]
    exact h.distinct
  · rw [hEvidence]
    exact hCoherent
  · rw [hEvidence]

theorem length_of_parse {state : BootStateV1} (h : parseBootStateV1 encoded = .ok state) :
    encoded.length = encodedSize (readU16Le encoded 20).toNat := by
  unfold parseBootStateV1 at h
  simp only [bind_eq_ok_iff, ensure_eq_ok_iff] at h
  obtain ⟨-, -, -, -, -, -, -, -, -, -, -, -, -, -, -, -, -, hSize, -⟩ := h
  exact beq_iff_eq.mp hSize

theorem spanByte_append {first second : List UInt8} (h : offset < first.length) :
    spanByte (first ++ second) offset = spanByte first offset := by
  simp [spanByte, List.getElem?_append_left h]

/-- The header says how long the record is, so no two accepted records are a
strict prefix of each other. -/
theorem eq_of_front {other : List UInt8} {state state' : BootStateV1}
    (h : parseBootStateV1 encoded = .ok state) (h' : parseBootStateV1 other = .ok state')
    (hFront : encoded <+: other) : encoded = other := by
  have hLen := length_of_parse h
  have hLen' := length_of_parse h'
  obtain ⟨more, rfl⟩ := hFront
  have hCnt : readU16Le (encoded ++ more) 20 = readU16Le encoded 20 := by
    rw [encodedSize_eq] at hLen
    rw [readU16Le, readU16Le, spanByte_append (by omega), spanByte_append (by omega)]
  rw [hCnt, ← hLen] at hLen'
  have hNone : more = [] := by
    rw [length_append] at hLen'
    exact length_eq_zero_iff.mp (by omega)
  rw [hNone, append_nil]

/-- A byte of a record is given a value that its field does not have: one of the
fields that never change, a reserved byte, a discriminant or a capability. -/
inductive Undefined (encoded : List UInt8) : Nat → UInt8 → Prop
  | identity {i : Nat} {v : UInt8} (hi : i < 8) (hv : v ≠ spanByte encoded i) :
      Undefined encoded i v
  | lifecycle {v : UInt8} (hv : ∀ lifecycle : LifecycleState, v ≠ lifecycle.raw) :
      Undefined encoded 8 v
  | verification {v : UInt8} (hv : ∀ result : VerificationResult, v ≠ result.raw) :
      Undefined encoded 9 v
  | reserved {i : Nat} {v : UInt8} (hi : i ∈ [10, 11, 22, 23, 28, 29, 30, 31]) (hv : v ≠ 0) :
      Undefined encoded i v
  | capability {i : Nat} {v : UInt8} (hi : i ∈ [24, 25, 26, 27])
      (hv : readU32Le (encoded.set i v) 24 &&& ~~~knownPlatformCapabilities ≠ 0) :
      Undefined encoded i v
  | stageKind {j i : Nat} {v : UInt8} (hj : j < (readU16Le encoded 20).toNat)
      (hi : i = 32 + j * 40 ∨ i = 32 + j * 40 + 1)
      (hv : ∀ kind : BootStageKind, readU16Le (encoded.set i v) (32 + j * 40) ≠ kind.raw) :
      Undefined encoded i v
  | algorithm {j : Nat} {v : UInt8} (hj : j < (readU16Le encoded 20).toNat)
      (hv : ∀ algorithm : DigestAlgorithm, v ≠ algorithm.raw) :
      Undefined encoded (32 + j * 40 + 2) v
  | stageReserved {j k : Nat} {v : UInt8} (hj : j < (readU16Le encoded 20).toNat)
      (hk : k ∈ [3, 4, 5, 6, 7]) (hv : v ≠ 0) :
      Undefined encoded (32 + j * 40 + k) v

theorem spanByte_set {i : Nat} (h : i < bytes.length) (v : UInt8) :
    spanByte (bytes.set i v) i = v := by
  simp [spanByte, h]

theorem spanByte_of_blank {count i : Nat} (h : offset + count ≤ bytes.length)
    (hBlank : slice bytes offset count = List.replicate count 0)
    (hi : offset ≤ i ∧ i < offset + count) : spanByte bytes i = 0 := by
  rw [slice_eq_replicate_iff h, all_eq_true] at hBlank
  have hByte := beq_iff_eq.mp (hBlank (i - offset) (mem_range.mpr (by omega)))
  rwa [Nat.add_sub_cancel' hi.1] at hByte

/-- The fields that are the same in every record. -/
def identityFields : List UInt8 :=
  bootStateMagic ++ (bytesOf 2 bootStateHeaderBytesV1.toNat ++ bytesOf 2 bootStateVersionV1.toNat)

theorem spanByte_identity {state : BootStateV1}
    (h : parseBootStateV1 encoded = .ok state) {i : Nat} (hi : i < 8) :
    spanByte encoded i = spanByte identityFields i := by
  obtain ⟨-, rfl⟩ := parse_eq_ok_iff.mp h
  have hLen : identityFields.length = 8 := by decide
  have hSplit : ∃ rest, layout state.evidence = identityFields ++ rest := by exact ⟨_, rfl⟩
  obtain ⟨rest, hRest⟩ := hSplit
  rw [hRest, spanByte_append (by omega)]

/-- The fields of the header of an accepted record that are not free. -/
structure HeaderFields (encoded : List UInt8) : Prop where
  room : 32 ≤ encoded.length
  lifecycle : ∃ lifecycle : LifecycleState, spanByte encoded 8 = lifecycle.raw
  verification : ∃ result : VerificationResult, spanByte encoded 9 = result.raw
  first : readU16Le encoded 10 = 0
  second : readU16Le encoded 22 = 0
  third : readU32Le encoded 28 = 0
  known : readU32Le encoded 24 &&& ~~~knownPlatformCapabilities = 0

theorem headerFields_of_parse {state : BootStateV1}
    (h : parseBootStateV1 encoded = .ok state) : HeaderFields encoded := by
  obtain ⟨hWell, hEncoded⟩ := parse_eq_ok_iff.mp h
  obtain ⟨hSize, hHeader, -⟩ := eq_layout_iff.mp hEncoded
  have hRoom : 32 ≤ encoded.length := by
    rw [hSize, encodedSize_eq]
    omega
  obtain ⟨-, -, -, hLife, hVerification, hFirst, -, -, hSnd, hCaps, hThird⟩ :=
    (slice_eq_layoutHeader_iff hRoom).mp hHeader
  refine ⟨hRoom, ⟨_, hLife⟩, ⟨_, hVerification⟩, hFirst, hSnd, hThird, ?_⟩
  rw [hCaps]
  exact hWell.coherent.known

/-- Each stage of an accepted record is the layout of a measurement. -/
theorem stage_of_parse {state : BootStateV1} (h : parseBootStateV1 encoded = .ok state) (j : Nat)
    (hj : 32 + j * 40 < encoded.length) :
    32 + j * 40 + 40 ≤ encoded.length ∧
      ∃ m, slice encoded (32 + j * 40) 40 = layoutStage m := by
  obtain ⟨-, hEncoded⟩ := parse_eq_ok_iff.mp h
  obtain ⟨hSize, -, hRecs⟩ := eq_layout_iff.mp hEncoded
  rw [hSize, encodedSize_eq] at hj
  have hIdx : j < state.evidence.stages.length := by omega
  obtain ⟨m, hm⟩ : ∃ m, state.evidence.stages[j]? = some m := ⟨_, List.getElem?_eq_getElem hIdx⟩
  refine ⟨by rw [hSize, encodedSize_eq]; omega, m, ?_⟩
  exact slice_record length_layoutStage (by rw [hSize, encodedSize_eq]) hRecs hm

/-- No such change is accepted. -/
theorem refused_of_undefined {state : BootStateV1}
    (h : parseBootStateV1 encoded = .ok state) {i : Nat} {v : UInt8} (hi : Undefined encoded i v)
    (state' : BootStateV1) : parseBootStateV1 (encoded.set i v) ≠ .ok state' := by
  intro hParse
  have hLen := length_of_parse h
  rw [encodedSize_eq] at hLen
  have hHeader := headerFields_of_parse hParse
  have hSet : (encoded.set i v).length = encoded.length := length_set
  cases hi with
  | identity hi hv =>
    refine hv ?_
    rw [spanByte_identity h hi, ← spanByte_identity hParse hi, spanByte_set (by omega)]
  | lifecycle hv =>
    obtain ⟨lifecycle, hField⟩ := hHeader.lifecycle
    rw [spanByte_set (by omega)] at hField
    exact hv lifecycle hField
  | verification hv =>
    obtain ⟨result, hField⟩ := hHeader.verification
    rw [spanByte_set (by omega)] at hField
    exact hv result hField
  | reserved hi hv =>
    have hZero : spanByte (encoded.set i v) i = 0 := by
      simp only [mem_cons, not_mem_nil, or_false] at hi
      rcases (by omega : (10 ≤ i ∧ i < 12) ∨ (22 ≤ i ∧ i < 24) ∨ 28 ≤ i ∧ i < 32) with
        hIn | hIn | hIn
      · exact spanByte_of_blank (by omega) ((slice_eq_u16_iff (by omega)).mpr hHeader.first) hIn
      · exact spanByte_of_blank (by omega) ((slice_eq_u16_iff (by omega)).mpr hHeader.second) hIn
      · exact spanByte_of_blank (by omega) ((slice_eq_u32_iff (by omega)).mpr hHeader.third) hIn
    have hInside : i < encoded.length := by
      simp only [mem_cons, not_mem_nil, or_false] at hi
      omega
    rw [spanByte_set hInside] at hZero
    exact hv hZero
  | capability _ hv => exact hv hHeader.known
  | @stageKind j _ _ hj hi hv =>
    obtain ⟨hStage, m, hSlice⟩ := stage_of_parse hParse j (by rw [hSet]; omega)
    exact hv m.kind ((slice_eq_layoutStage_iff hStage).mp hSlice).1
  | @algorithm j _ hj hv =>
    obtain ⟨hStage, m, hSlice⟩ := stage_of_parse hParse j (by rw [hSet]; omega)
    have hField := ((slice_eq_layoutStage_iff hStage).mp hSlice).2.1
    rw [spanByte_set (by omega)] at hField
    exact hv m.algorithm hField
  | @stageReserved j k _ hj hk hv =>
    obtain ⟨hStage, m, hSlice⟩ := stage_of_parse hParse j (by rw [hSet]; omega)
    obtain ⟨-, -, hFirst, hSnd, -⟩ := (slice_eq_layoutStage_iff hStage).mp hSlice
    have hZero : spanByte (encoded.set (32 + j * 40 + k) v) (32 + j * 40 + k) = 0 := by
      simp only [mem_cons, not_mem_nil, or_false] at hk
      rcases hk with rfl | hAbove
      · exact hFirst
      · exact spanByte_of_blank (by omega) ((slice_eq_u32_iff (by omega)).mpr hSnd) (by omega)
    have hInside : 32 + j * 40 + k < encoded.length := by
      simp only [mem_cons, not_mem_nil, or_false] at hk
      omega
    rw [spanByte_set hInside] at hZero
    exact hv hZero

/-- Every accepted record is what encoding it writes. Every record that was built
is accepted exactly if it is coherent, and read back as it was built. Nothing that
cuts an accepted record short, extends it or gives one of its bytes a value that
is not defined is accepted. -/
theorem evidence_canonical (encoded output : List UInt8) (state : BootStateV1)
    (calls : List BuilderCall) :
    (parseBootStateV1 encoded = .ok state → encoded.length ≤ output.length →
      encodeBootStateV1 state output =
        (encoded ++ output.drop encoded.length, .ok encoded.length)) ∧
    (∀ b, b = Run.after step {} calls → encodedSize b.stageCount ≤ output.length →
      ∃ n, (b.encode output).2 = .ok n ∧
        ((∃ read, parseBootStateV1 ((b.encode output).1.take n) = .ok read) ↔ b.evidence.Coherent) ∧
        ∀ read, parseBootStateV1 ((b.encode output).1.take n) = .ok read →
          read.evidence = b.evidence) ∧
    (parseBootStateV1 encoded = .ok state →
      (∀ other read, other ≠ encoded → other <+: encoded ∨ encoded <+: other →
        parseBootStateV1 other ≠ .ok read) ∧
      ∀ i v read, Undefined encoded i v → parseBootStateV1 (encoded.set i v) ≠ .ok read) := by
  refine ⟨encode_parse, ?_, ?_⟩
  · rintro b rfl hRoom
    exact parse_encode (built_after calls) hRoom
  · intro hParse
    refine ⟨?_, fun i v read hUndefined => refused_of_undefined hParse hUndefined read⟩
    rintro other read hNe (hShort | hLong) hOther
    · exact hNe (eq_of_front hOther hParse hShort)
    · exact hNe (eq_of_front hParse hOther hLong).symm

/-- A failed boot with one measurement. -/
def failedBoot : List BuilderCall :=
  [.addStage 1 1 (List.replicate 32 0xAB), .addStage 1 1 (List.replicate 32 0xCD),
    .setCapabilities 0x10, .setSecurityVersion 7]

/-- A verified closed boot with a measurement of every stage. -/
def verifiedBoot : List BuilderCall :=
  [1, 2, 3, 4, 5].map (fun kind => .addStage kind 1 (List.replicate 32 0xAB)) ++
    [.setLifecycle .closed, .setVerification .verified, .setCapabilities 0x11,
      .setSecurityVersion 7]

/-- What a builder writes after the calls, for a record of this size. -/
def written (calls : List BuilderCall) (size : Nat) : List UInt8 :=
  ((Run.after step {} calls).encode (List.replicate size 0xFF)).1.take size

/-- Both records are accepted, the first is written back as it was, and neither is
read back the same with another reserved byte. -/
theorem boots_canonical :
    (∃ read, parseBootStateV1 (written failedBoot 72) = .ok read ∧
      encodeBootStateV1 read (List.replicate 72 0) = (written failedBoot 72, .ok 72) ∧
      parseBootStateV1 ((written failedBoot 72).set 10 1) ≠ .ok read) ∧
    ∃ read, parseBootStateV1 (written verifiedBoot 232) = .ok read ∧
      parseBootStateV1 ((written verifiedBoot 232).set 31 1) ≠ .ok read := by
  have hFailed : parseBootStateV1 (written failedBoot 72) =
      .ok (Run.after step {} failedBoot).state := by
    decide +kernel
  have hAccepted : (parseBootStateV1 (written verifiedBoot 232)).isOk = true := by decide +kernel
  obtain ⟨read, hVerified⟩ : ∃ read, parseBootStateV1 (written verifiedBoot 232) = .ok read := by
    cases hParse : parseBootStateV1 (written verifiedBoot 232) with
    | ok read => exact ⟨read, rfl⟩
    | error e =>
      rw [hParse] at hAccepted
      cases hAccepted
  refine ⟨⟨_, hFailed, by decide +kernel, ?_⟩, read, hVerified, ?_⟩
  · exact ((evidence_canonical _ [] _ []).2.2 hFailed).2 10 1 _ (.reserved (by decide) (by decide))
  · exact ((evidence_canonical _ [] _ []).2.2 hVerified).2 31 1 _
      (.reserved (by decide) (by decide))

end Enml.OsBoot
