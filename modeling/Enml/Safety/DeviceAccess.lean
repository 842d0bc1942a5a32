import Enml.OsDevice.Access
import Mathlib.Order.CompletePartialOrder

/-! One device authority, one encoding. The parser accepts exactly the layouts of
well-formed policies, the two encoders write exactly those, and a policy decides
a request as the inclusion of address ranges. -/
namespace Enml.OsDevice

open Enml.Core LittleEndian Buffer UInt64 DeviceAccessPolicyBuilder Records
  DeviceAccessPolicyBuilder

variable {raw : UInt8} {domain : ExecutionDomain} {dma : DmaCapability}
  {encoded output : List UInt8} {record grantCount : Nat} {previous : Option UInt64}
  {base length : UInt64}

def layoutHeader (domain : ExecutionDomain) (dma : DmaCapability) (grantCount : Nat) : List UInt8 :=
  deviceAccessMagic ++ (bytesOf 2 deviceAccessVersionV1.toNat ++
    (bytesOf 2 deviceAccessHeaderBytesV1.toNat ++
      (bytesOf 4 (UInt32.ofNat (encodedSize grantCount)).toNat ++
        ([domain.raw] ++ ([dma.raw] ++ (bytesOf 2 (UInt16.ofNat grantCount).toNat ++
          (bytesOf 4 (0 : UInt32).toNat ++ (bytesOf 4 (0 : UInt32).toNat ++
            bytesOf 8 (0 : UInt64).toNat))))))))

def layoutGrant (grant : MmioGrant) : List UInt8 :=
  bytesOf 8 grant.base.toNat ++ (bytesOf 8 grant.length.toNat ++
    ([grant.access.raw] ++ List.replicate 7 0))

/-- The bytes that stand for an authority. -/
def layout (domain : ExecutionDomain) (dma : DmaCapability) (grants : List MmioGrant) :
    List UInt8 :=
  layoutHeader domain dma grants.length ++ grants.flatMap layoutGrant

@[simp] theorem length_layoutHeader (domain : ExecutionDomain) (dma : DmaCapability)
    (grantCount : Nat) : (layoutHeader domain dma grantCount).length = 32 := by
  simp [layoutHeader, deviceAccessMagic]

@[simp] theorem length_layoutGrant (grant : MmioGrant) : (layoutGrant grant).length = 24 := by
  simp [layoutGrant]

theorem encodedSize_eq (grantCount : Nat) : encodedSize grantCount = 32 + grantCount * 24 := rfl

theorem length_layout (domain : ExecutionDomain) (dma : DmaCapability) (grants : List MmioGrant) :
    (layout domain dma grants).length = encodedSize grants.length := by
  rw [layout, List.length_append, length_layoutHeader, length_flatMap length_layoutGrant]
  rfl

theorem validDomain_eq_ok_iff : validDomain raw = .ok domain ↔ raw = domain.raw := by
  unfold validDomain
  split_ifs with hKernel hIsolated
  · cases domain <;> simp [hKernel, ExecutionDomain.raw]
  · cases domain <;> simp [hIsolated, ExecutionDomain.raw]
  · cases domain <;> simp [hKernel, hIsolated]

theorem validDma_eq_ok_iff : validDma raw = .ok dma ↔ raw = dma.raw := by
  unfold validDma
  split_ifs with hNone hConfined hUnconfined
  · cases dma <;> simp [hNone, DmaCapability.raw]
  · cases dma <;> simp [hConfined, DmaCapability.raw]
  · cases dma <;> simp [hUnconfined, DmaCapability.raw]
  · cases dma <;> simp [hNone, hConfined, hUnconfined]

theorem validAccess_eq_ok_iff {access : AccessMode} :
    validAccess raw = .ok access ↔ raw = access.raw := by
  unfold validAccess
  split_ifs with hRead hWrite
  · cases access <;> simp [hRead, AccessMode.raw]
  · cases access <;> simp [hWrite, AccessMode.raw]
  · cases access <;> simp [hRead, hWrite]

variable {grant : MmioGrant}

theorem slice_eq_layoutGrant_iff (h : record + 24 ≤ encoded.length) :
    slice encoded record 24 = layoutGrant grant ↔
      readU64Le encoded record = grant.base ∧ readU64Le encoded (record + 8) = grant.length ∧
        spanByte encoded (record + 16) = grant.access.raw ∧
        ((List.range 7).all fun byte => spanByte encoded (record + 17 + byte) == 0) = true := by
  have hSplit : slice encoded record 24 = slice encoded record (8 + (8 + (1 + 7))) := rfl
  rw [hSplit, layoutGrant]
  simp (disch := first | omega | simp) only [slice_eq_append_iff, slice_eq_u64_iff,
    slice_eq_singleton_iff, slice_eq_replicate_iff, -Nat.reduceAdd]

theorem slice_eq_layoutHeader_iff (h : 32 ≤ encoded.length) :
    slice encoded 0 32 = layoutHeader domain dma grantCount ↔
      ((List.range deviceAccessMagic.length).all fun i =>
        spanByte encoded (0 + i) == spanByte deviceAccessMagic i) = true ∧
      readU16Le encoded 4 = deviceAccessVersionV1 ∧
      readU16Le encoded 6 = deviceAccessHeaderBytesV1 ∧
      readU32Le encoded 8 = UInt32.ofNat (encodedSize grantCount) ∧
      spanByte encoded 12 = domain.raw ∧ spanByte encoded 13 = dma.raw ∧
      readU16Le encoded 14 = UInt16.ofNat grantCount ∧
      readU32Le encoded 16 = 0 ∧ readU32Le encoded 20 = 0 ∧ readU64Le encoded 24 = 0 := by
  have hSplit : slice encoded 0 32 = slice encoded 0
      (deviceAccessMagic.length + (2 + (2 + (4 + (1 + (1 + (2 + (4 + (4 + 8))))))))) := rfl
  have hMagic : deviceAccessMagic.length = 4 := rfl
  rw [hSplit, layoutHeader, slice_eq_append_iff rfl (by omega), slice_eq_iff_all (by omega), hMagic]
  simp (disch := first | omega | simp) only [slice_eq_append_iff, slice_eq_u16_iff,
    slice_eq_u32_iff, slice_eq_u64_iff, slice_eq_singleton_iff, -Nat.reduceAdd]

/-- A grant that may follow one that ends at `previous`. -/
def Admits (previous : Option UInt64) (grant : MmioGrant) : Prop :=
  grant.length ≠ 0 ∧ grantWraps grant.base grant.length = false ∧
    ∀ previousEnd ∈ previous, previousEnd ≤ grant.base

/-- Grants in canonical order. -/
def Canonical (grants : List MmioGrant) : Prop :=
  Records.Chain (fun _ grant => some grant.finish) Admits none grants

theorem parseGrant_eq_ok_iff (h : record + 24 ≤ encoded.length) :
    parseGrant encoded previous record = .ok grant ↔
      slice encoded record 24 = layoutGrant grant ∧ Admits previous grant := by
  have hPrev : ∀ base : UInt64,
      (!previous.any fun previousEnd => decide (base < previousEnd)) = true ↔
        ∀ previousEnd ∈ previous, previousEnd ≤ base := by
    intro base
    cases previous <;> simp
  rw [slice_eq_layoutGrant_iff h, parseGrant]
  simp only [bind_eq_ok_iff, ensure_eq_ok_iff, validAccess_eq_ok_iff, hPrev, Nat.add_zero]
  constructor
  · rintro ⟨-, hResv, access, hAccess, -, hLen, -, hWraps, -, hOrder, hGrant⟩
    obtain rfl := Except.ok.inj hGrant
    exact ⟨⟨rfl, rfl, hAccess, hResv⟩, by simpa using hLen, by simpa using hWraps, hOrder⟩
  rintro ⟨⟨hBase, hSize, hAccess, hResv⟩, hLen, hWraps, hOrder⟩
  rw [hBase, hSize]
  exact ⟨(), hResv, grant.access, hAccess, (), by simpa using hLen, (),
    by simpa using hWraps, (), hOrder, rfl⟩

variable {grants : List MmioGrant}

theorem parseGrants_eq_ok_iff (h : encoded.length = encodedSize grantCount) :
    parseGrants encoded grantCount = .ok grants ↔ grants.length = grantCount ∧
        slice encoded 32 (grantCount * 24) = grants.flatMap layoutGrant ∧ Canonical grants := by
  have hHeader : deviceAccessHeaderBytesV1.toNat = 32 := rfl
  have hGrant : mmioGrantBytesV1.toNat = 24 := rfl
  rw [parseGrants, hHeader, hGrant, Canonical]
  refine readAll_eq_ok_iff length_layoutGrant ?_ (by rw [h, encodedSize_eq])
  intro previous record grant hRoom
  exact parseGrant_eq_ok_iff hRoom

/-- What a policy that was read satisfies. -/
structure DeviceAccessPolicyV1.WellFormed (policy : DeviceAccessPolicyV1) : Prop where
  count : policy.grantCount ≤ maxMmioGrants
  slots : policy.grants = fillGrants policy.used
  canonical : Canonical policy.used
  backed : ¬(policy.domain = .isolatedUser ∧ policy.dma = .unconfined)

theorem take_fillGrants (h : grants.length ≤ maxMmioGrants) :
    (fillGrants grants).toList.take grants.length = grants := by
  refine List.ext_getElem (by simp [h]) fun i _ hi => ?_
  simp [fillGrants, hi]

theorem length_used {grants : Vector MmioGrant maxMmioGrants} (h : grantCount ≤ maxMmioGrants) :
    (grants.toList.take grantCount).length = grantCount := by
  simp [h]

theorem toNat_count (h : grantCount ≤ maxMmioGrants) :
    (UInt16.ofNat grantCount).toNat = grantCount := by
  rw [UInt16.toNat_ofNat']
  simp only [maxMmioGrants] at h
  omega

theorem toNat_total (h : grantCount ≤ maxMmioGrants) :
    (UInt32.ofNat (encodedSize grantCount)).toNat = encodedSize grantCount := by
  rw [UInt32.toNat_ofNat', encodedSize_eq]
  simp only [maxMmioGrants] at h
  omega

/-- The checks of the header are those of its layout. -/
theorem header_checks_iff (hMax : grantCount ≤ maxMmioGrants)
    (hSize : encoded.length = encodedSize grantCount) :
    slice encoded 0 32 = layoutHeader domain dma grantCount ↔
      ((List.range deviceAccessMagic.length).all fun i =>
        spanByte encoded (0 + i) == spanByte deviceAccessMagic i) = true ∧
      readU16Le encoded 4 = deviceAccessVersionV1 ∧
      readU16Le encoded 6 = deviceAccessHeaderBytesV1 ∧
      (readU32Le encoded 8).toNat = encodedSize grantCount ∧
      spanByte encoded 12 = domain.raw ∧ spanByte encoded 13 = dma.raw ∧
      (readU16Le encoded 14).toNat = grantCount ∧
      readU32Le encoded 16 = 0 ∧ readU32Le encoded 20 = 0 ∧ readU64Le encoded 24 = 0 := by
  have hTotal : readU32Le encoded 8 = UInt32.ofNat (encodedSize grantCount) ↔
      (readU32Le encoded 8).toNat = encodedSize grantCount := by
    rw [← UInt32.toNat_inj, toNat_total hMax]
  have hCnt : readU16Le encoded 14 = UInt16.ofNat grantCount ↔
      (readU16Le encoded 14).toNat = grantCount := by
    rw [← UInt16.toNat_inj, toNat_count hMax]
  rw [slice_eq_layoutHeader_iff (by rw [hSize, encodedSize_eq]; omega), hTotal, hCnt]

/-- A span is the layout of an authority exactly if its header and its records
are. -/
theorem eq_layout_iff :
    encoded = layout domain dma grants ↔ encoded.length = encodedSize grants.length ∧
        slice encoded 0 32 = layoutHeader domain dma grants.length ∧
        slice encoded 32 (grants.length * 24) = grants.flatMap layoutGrant := by
  constructor
  · rintro rfl
    refine ⟨length_layout .., slice_left (length_layoutHeader ..), ?_⟩
    exact slice_whole (length_flatMap length_layoutGrant grants)
  rintro ⟨hLen, hHeader, hRecs⟩
  have hWhole : slice encoded 0 (32 + grants.length * 24) = encoded := slice_whole hLen
  rw [← slice_append (Nat.zero_add 32).symm, hHeader, hRecs] at hWhole
  exact hWhole.symm

/-- The parser accepts exactly the layouts of well-formed policies. -/
theorem parse_eq_ok_iff {policy : DeviceAccessPolicyV1} :
    parseDeviceAccessV1 encoded = .ok policy ↔
      policy.WellFormed ∧ encoded = layout policy.domain policy.dma policy.used := by
  unfold parseDeviceAccessV1
  simp only [bind_eq_ok_iff, ensure_eq_ok_iff, validDomain_eq_ok_iff, validDma_eq_ok_iff]
  constructor
  · rintro ⟨-, -, -, hMagic, -, hVer, -, hHeader, -, hResv, -, hMax, -, hTotal, -, hSize,
      domain, hDomain, dma, hDma, grants, hGrants, -, hBacked, hPolicy⟩
    simp only [beq_iff_eq, Bool.and_eq_true] at hVer hHeader hResv
    simp only [beq_iff_eq, decide_eq_true_eq] at hMax hTotal hSize
    obtain rfl := Except.ok.inj hPolicy
    obtain ⟨hLen, hRecs, hCanonical⟩ := (parseGrants_eq_ok_iff hSize).mp hGrants
    have hUsed : (fillGrants grants).toList.take (readU16Le encoded 14).toNat = grants := by
      rw [← hLen] at hMax ⊢
      exact take_fillGrants hMax
    refine ⟨⟨hMax, ?_, ?_, by simpa [imp_iff_not_or] using hBacked⟩, ?_⟩
    · exact congrArg fillGrants hUsed.symm
    · show Canonical ((fillGrants grants).toList.take _)
      rwa [hUsed]
    show encoded = layout domain dma ((fillGrants grants).toList.take _)
    rw [hUsed, eq_layout_iff, hLen]
    refine ⟨hSize, (header_checks_iff hMax hSize).mpr ?_, hRecs⟩
    exact ⟨hMagic, hVer, hHeader, hTotal, hDomain, hDma, rfl, hResv.1.1, hResv.1.2, hResv.2⟩
  · rintro ⟨hWell, hEncoded⟩
    have hLen : policy.used.length = policy.grantCount := length_used hWell.count
    rw [eq_layout_iff, hLen] at hEncoded
    obtain ⟨hSize, hHeader, hRecs⟩ := hEncoded
    obtain ⟨hMagic, hVer, hHeaderSize, hTotal, hDomain, hDma, hCnt, hFirst, hSnd, hThird⟩ :=
      (header_checks_iff hWell.count hSize).mp hHeader
    have hGrants := (parseGrants_eq_ok_iff hSize).mpr ⟨hLen, hRecs, hWell.canonical⟩
    have hMax := hWell.count
    have hBounds : (!(decide (encoded.length < deviceAccessHeaderBytesV1.toNat) ||
        decide (maxDeviceAccessBytes < encoded.length))) = true := by
      have hLower : deviceAccessHeaderBytesV1.toNat = 32 := rfl
      have hUpper : maxDeviceAccessBytes = 128 := rfl
      simp only [maxMmioGrants] at hMax
      rw [hSize, encodedSize_eq, hLower, hUpper]
      simp
      omega
    rw [hCnt]
    refine ⟨(), hBounds, (), hMagic, (), by simpa using hVer, (), by simpa using hHeaderSize, (),
      by simp [hFirst, hSnd, hThird], (), by simpa using hMax, (), by simpa using hTotal, (),
      by simpa using hSize, policy.domain, hDomain, policy.dma, hDma, policy.used, hGrants, (),
      by simpa [imp_iff_not_or] using hWell.backed, ?_⟩
    rw [← hWell.slots]

section Writer

variable {done rest : List UInt8}

theorem writeGrant_filled (done : List UInt8) (count : Nat) (grant : MmioGrant) :
    writeGrant (filled 0 done (24 + count) rest) done.length grant =
      filled 0 (done ++ layoutGrant grant) count rest := by
  have hSplit : 24 + count = 8 + (8 + (1 + (7 + count))) := by omega
  unfold writeGrant
  dsimp only
  rw [hSplit, writeU64Le_filled (by simp), writeU64Le_filled (by simp), filled_set (by simp),
    filled_skip 7]
  simp only [layoutGrant, List.append_assoc]

theorem writeHeader_filled {count : Nat} :
    writeHeader (filled 0 [] (32 + count) rest) domain dma grantCount =
      filled 0 (layoutHeader domain dma grantCount) count rest := by
  have hSplit : 32 + count =
      deviceAccessMagic.length + (2 + (2 + (4 + (1 + (1 + (2 + (16 + count))))))) := by
    simp only [deviceAccessMagic, List.length_cons, List.length_nil]
    omega
  have hMagic : (List.range deviceAccessMagic.length).map (fun i => spanByte deviceAccessMagic i) =
      deviceAccessMagic := by decide
  have hFour : deviceAccessMagic.length = 4 := rfl
  have hResv : List.replicate 16 (0 : UInt8) =
      bytesOf 4 (0 : UInt32).toNat ++ (bytesOf 4 (0 : UInt32).toNat ++
        bytesOf 8 (0 : UInt64).toNat) := by decide
  unfold writeHeader
  dsimp only
  rw [hSplit, storeSpan_filled (by simp), hMagic, writeU16Le_filled (by simp [hFour]),
    writeU16Le_filled (by simp [hFour]), writeU32Le_filled (by simp [hFour]),
    filled_set (by simp [hFour]), filled_set (by simp [hFour]), writeU16Le_filled (by simp [hFour]),
    filled_skip 16, hResv]
  simp only [layoutHeader, List.append_assoc, List.nil_append]

end Writer

/-- The encoder clears its part of the buffer and puts the layout there. -/
theorem encodeCommon_eq {grants : Vector MmioGrant maxMmioGrants}
    (hMax : grantCount ≤ maxMmioGrants) (hRoom : encodedSize grantCount ≤ output.length) :
    encodeCommon output domain dma grants grantCount =
      (layout domain dma (grants.toList.take grantCount) ++ output.drop (encodedSize grantCount),
        .ok (encodedSize grantCount)) := by
  have hHeader : deviceAccessHeaderBytesV1.toNat = 32 := rfl
  have hGrant : mmioGrantBytesV1.toNat = 24 := rfl
  have hCnt : (grants.toList.take grantCount).length = grantCount := length_used hMax
  have hWritten := writeAll_filled (layoutHeader domain dma grantCount)
    (output.drop (encodedSize grantCount)) length_layoutGrant writeGrant_filled
    (grants.toList.take grantCount)
  rw [length_layoutHeader, hCnt] at hWritten
  unfold encodeCommon
  dsimp only
  rw [if_neg (by omega), storeSpan_blank hRoom, hHeader, hGrant]
  nth_rewrite 1 [encodedSize_eq]
  rw [writeHeader_filled, hWritten, layout, hCnt]

theorem encode_of_wellFormed {policy : DeviceAccessPolicyV1} (h : policy.WellFormed)
    (hRoom : encodedSize policy.grantCount ≤ output.length) :
    encodeDeviceAccessV1 policy output =
      (layout policy.domain policy.dma policy.used ++ output.drop (encodedSize policy.grantCount),
        .ok (encodedSize policy.grantCount)) := by
  rw [encodeDeviceAccessV1, ← h.slots, encodeCommon_eq h.count hRoom]
  rfl

variable {b : DeviceAccessPolicyBuilder}

namespace DeviceAccessPolicyBuilder

/-- What every history of calls keeps. -/
structure Built (b : DeviceAccessPolicyBuilder) : Prop where
  count : b.grantCount ≤ maxMmioGrants
  canonical : Canonical b.used

theorem foldl_finish (grants : List MmioGrant) (start : Option UInt64) :
    grants.foldl (fun _ grant => some grant.finish) start =
      (grants.getLast?.map MmioGrant.finish).or start := by
  induction grants generalizing start with
  | nil => rfl
  | cons _ rest ih =>
    rw [List.foldl_cons, ih, List.getLast?_cons]
    cases rest.getLast? <;> rfl

/-- The last grant taken, at the index the builder looks at. -/
theorem getLast_used (h : b.grantCount ≤ maxMmioGrants) :
    b.used.getLast? =
      if b.grantCount = 0 then none else some (b.grants.toList.getD (b.grantCount - 1) {}) := by
  have hLen : b.used.length = b.grantCount := length_used h
  have hSize : b.grants.toList.length = maxMmioGrants := b.grants.length_toList
  rw [List.getLast?_eq_getElem?, hLen]
  by_cases hZero : b.grantCount = 0
  · rw [if_pos hZero, List.getElem?_eq_none (by omega)]
  · rw [if_neg hZero, used, List.getElem?_take_of_lt (by omega), List.getD_eq_getElem?_getD,
      List.getElem?_eq_getElem (by omega)]
    rfl

theorem used_push (h : b.grantCount < maxMmioGrants) (grant : MmioGrant) :
    (b.grants.setIfInBounds b.grantCount grant).toList.take (b.grantCount + 1) =
      b.used ++ [grant] := by
  have hSize : b.grants.toList.length = maxMmioGrants := b.grants.length_toList
  rw [Vector.toList_setIfInBounds, List.take_add_one, List.take_set_of_le (Nat.le_refl _),
    List.getElem?_set_self (by omega)]
  rfl

theorem Built.addGrant (h : b.Built) (base length : UInt64) (access : AccessMode) :
    (b.addGrant base length access).1.Built := by
  unfold DeviceAccessPolicyBuilder.addGrant
  split_ifs with hFull hEmpty hWraps
  iterate 3 exact h
  dsimp only
  split_ifs with hOrder
  · exact h
  have hRoom : b.grantCount < maxMmioGrants := Nat.lt_of_not_le hFull
  refine ⟨hRoom, ?_⟩
  rw [used, used_push hRoom]
  refine Records.Chain.snoc h.canonical ⟨hEmpty, by simpa using hWraps, ?_⟩
  intro previousEnd hPrev
  rw [foldl_finish, getLast_used h.count] at hPrev
  split_ifs at hPrev with hZero
  · cases hPrev
  have hSame : (b.grants.toList.getD (b.grantCount - 1) {}).finish = previousEnd :=
    Option.some.inj hPrev
  rw [← hSame]
  exact UInt64.not_lt.mp fun hLess => hOrder ⟨hZero, hLess⟩

theorem Built.step (h : b.Built) (call : BuilderCall) : (b.step call).1.Built := by
  cases call with
  | setDomain | setDma => exact ⟨h.count, h.canonical⟩
  | addGrant base length access => exact h.addGrant base length access

theorem built_after (calls : List BuilderCall) : (Run.after step {} calls).Built := by
  have hRun : Run.Always step Built {} calls :=
    Run.always_of_invariant ⟨Nat.zero_le _, trivial⟩ fun _ call h => h.step call
  exact hRun.final

end DeviceAccessPolicyBuilder

/-- The addresses of a grant, as numbers. -/
def MmioGrant.window (grant : MmioGrant) : Set ℕ :=
  Set.Ico grant.base.toNat (grant.base.toNat + grant.length.toNat)

/-- A mode that is enough for what is asked. -/
def AccessMode.AtLeast (granted asked : AccessMode) : Prop :=
  asked = .readOnly ∨ granted = .readWrite

theorem grantWraps_eq_false_iff :
    grantWraps base length = false ↔ base.toNat + length.toNat < 2 ^ 64 := by
  have hTop : (0xFFFFFFFFFFFFFFFF : UInt64).toNat = 2 ^ 64 - 1 := rfl
  have hBase := base.toNat_lt
  have hLe : base ≤ 0xFFFFFFFFFFFFFFFF := by
    rw [le_iff_toNat_le, hTop]
    omega
  rw [grantWraps, decide_eq_false_iff_not, UInt64.not_lt, UInt64.le_iff_toNat_le,
    UInt64.toNat_sub_of_le _ _ hLe, hTop]
  omega

theorem toNat_pos : length ≠ 0 ↔ 0 < length.toNat := by
  rw [Nat.pos_iff_ne_zero, ne_eq, ne_eq, ← UInt64.toNat_inj]
  rfl

/-- A grant that is not empty and does not wrap. -/
def MmioGrant.Bounded (grant : MmioGrant) : Prop :=
  0 < grant.length.toNat ∧ grant.base.toNat + grant.length.toNat < 2 ^ 64

theorem MmioGrant.Bounded.toNat_finish (h : grant.Bounded) :
    grant.finish.toNat = grant.base.toNat + grant.length.toNat := by
  rw [finish, UInt64.toNat_add, Nat.mod_eq_of_lt h.2]

theorem Admits.bounded (h : Admits previous grant) : grant.Bounded :=
  ⟨toNat_pos.mp h.1, grantWraps_eq_false_iff.mp h.2.1⟩

/-- Grants one after the other, from an address on. -/
theorem chain_pairwise (h : Records.Chain (fun _ grant => some grant.finish) Admits previous grants)
    :
    (∀ grant ∈ grants, grant.Bounded ∧ ∀ start ∈ previous, start.toNat ≤ grant.base.toNat) ∧
      grants.Pairwise fun g g' => g.base.toNat + g.length.toNat ≤ g'.base.toNat := by
  induction grants generalizing previous with
  | nil => simp
  | cons grant rest ih =>
    obtain ⟨hAdmits, hRest⟩ := h
    obtain ⟨hBounded, hPairwise⟩ := ih hRest
    have hSelf := hAdmits.bounded
    have hAfter : ∀ g ∈ rest, grant.base.toNat + grant.length.toNat ≤ g.base.toNat := by
      intro g hg
      have hStart := (hBounded g hg).2 grant.finish rfl
      rwa [hSelf.toNat_finish] at hStart
    refine ⟨?_, List.pairwise_cons.mpr ⟨hAfter, hPairwise⟩⟩
    intro g hg
    have hFrom : ∀ start ∈ previous, start.toNat ≤ grant.base.toNat := fun start hStart =>
      le_iff_toNat_le.mp (hAdmits.2.2 start hStart)
    rcases List.mem_cons.mp hg with rfl | hLater
    · exact ⟨hSelf, hFrom⟩
    refine ⟨(hBounded g hLater).1, fun start hStart => ?_⟩
    have hHead := hFrom start hStart
    have hTail := hAfter g hLater
    omega

theorem Canonical.bounded (h : Canonical grants) (hMem : grant ∈ grants) : grant.Bounded :=
  ((chain_pairwise h).1 grant hMem).1

/-- The grants ascend strictly and share no address. -/
theorem Canonical.pairwise (h : Canonical grants) :
    grants.Pairwise fun g g' => g.base < g'.base ∧ Disjoint g.window g'.window := by
  refine (chain_pairwise h).2.imp_of_mem fun {g g'} hMem _ hOrder => ?_
  have hBounded := (h.bounded hMem).1
  refine ⟨?_, ?_⟩
  · rw [lt_iff_toNat_lt]
    omega
  · rw [Set.disjoint_left]
    rintro address ⟨-, hBelow⟩ ⟨hAbove, -⟩
    omega

/-- An address lies in one grant at most. -/
theorem Canonical.unique (h : Canonical grants) {g g' : MmioGrant} (hg : g ∈ grants)
    (hg' : g' ∈ grants) {address : ℕ} (hIn : address ∈ g.window) (hIn' : address ∈ g'.window) :
    g = g' := by
  by_contra hNe
  have hDisjoint : grants.Pairwise fun g g' => Disjoint g.window g'.window :=
    h.pairwise.imp fun hBoth => hBoth.2
  have hApart := hDisjoint.forall hg hg' hNe
  exact Set.disjoint_left.mp hApart hIn hIn'

/-- The comparisons on machine numbers decide inclusion of ranges. -/
theorem permits_window (hGrant : grant.Bounded) (hLen : 0 < length.toNat) :
    (grantWraps base length = false ∧ ¬base < grant.base ∧ ¬grant.length < length ∧
        base - grant.base ≤ grant.length - length) ↔
      Set.Ico base.toNat (base.toNat + length.toNat) ⊆ grant.window := by
  obtain ⟨-, hTop⟩ := hGrant
  rw [MmioGrant.window, Set.Ico_subset_Ico_iff (by omega), grantWraps_eq_false_iff]
  constructor
  · rintro ⟨-, hBase, hSize, hEnd⟩
    rw [UInt64.not_lt] at hBase hSize
    rw [UInt64.le_iff_toNat_le, UInt64.toNat_sub_of_le _ _ hBase,
      UInt64.toNat_sub_of_le _ _ hSize] at hEnd
    rw [le_iff_toNat_le] at hBase hSize
    omega
  · rintro ⟨hBase, hEnd⟩
    have hBase' : grant.base ≤ base := le_iff_toNat_le.mpr hBase
    have hSize' : length ≤ grant.length := le_iff_toNat_le.mpr (by omega)
    refine ⟨by omega, UInt64.not_lt.mpr hBase', UInt64.not_lt.mpr hSize', ?_⟩
    rw [UInt64.le_iff_toNat_le, UInt64.toNat_sub_of_le _ _ hBase',
      UInt64.toNat_sub_of_le _ _ hSize']
    omega

theorem permits_iff {policy : DeviceAccessPolicyV1} (h : Canonical policy.used)
    (base length : UInt64) (mode : AccessMode) :
    policy.permits base length mode = true ↔
      0 < length.toNat ∧ ∃ grant ∈ policy.used, grant.access.AtLeast mode ∧
        Set.Ico base.toNat (base.toNat + length.toNat) ⊆ grant.window := by
  have hMode : ∀ granted : AccessMode,
      (!(mode == .readWrite && granted != .readWrite)) = true ↔ granted.AtLeast mode := by
    intro granted
    cases mode <;> cases granted <;> simp [AccessMode.AtLeast]
  have hUnfold : policy.permits base length mode = true ↔
      (length ≠ 0 ∧ grantWraps base length = false) ∧ ∃ grant ∈ policy.used,
        (grant.access.AtLeast mode ∧ ¬base < grant.base ∧ ¬grant.length < length) ∧
          base - grant.base ≤ grant.length - length := by
    unfold DeviceAccessPolicyV1.permits
    split_ifs with hRefused
    · simp only [Bool.or_eq_true, beq_iff_eq] at hRefused
      refine iff_of_false (fun hFalse => hFalse.elim) ?_
      rintro ⟨⟨hLen, hWraps⟩, -⟩
      rcases hRefused with hZero | hOver
      · exact hLen hZero
      · rw [hWraps] at hOver
        cases hOver
    · simp only [Bool.or_eq_true, beq_iff_eq, not_or, Bool.not_eq_true] at hRefused
      rw [and_iff_right hRefused, List.any_eq_true]
      simp only [Bool.and_eq_true, hMode, Bool.not_eq_true', Bool.or_eq_false_iff,
        decide_eq_false_iff_not, decide_eq_true_eq]
  rw [hUnfold, toNat_pos]
  constructor
  · rintro ⟨⟨hLen, hWraps⟩, grant, hMem, ⟨hEnough, hBase, hSize⟩, hEnd⟩
    exact ⟨hLen, grant, hMem, hEnough,
      (permits_window (h.bounded hMem) hLen).mp ⟨hWraps, hBase, hSize, hEnd⟩⟩
  · rintro ⟨hLen, grant, hMem, hEnough, hInside⟩
    obtain ⟨hWraps, hBase, hSize, hEnd⟩ := (permits_window (h.bounded hMem) hLen).mpr hInside
    exact ⟨⟨hLen, hWraps⟩, grant, hMem, ⟨hEnough, hBase, hSize⟩, hEnd⟩

/-- A record that was accepted is written back as it was. -/
theorem encode_parse {policy : DeviceAccessPolicyV1} (h : parseDeviceAccessV1 encoded = .ok policy)
    (hRoom : encoded.length ≤ output.length) :
    encodeDeviceAccessV1 policy output =
      (encoded ++ output.drop encoded.length, .ok encoded.length) := by
  obtain ⟨hWell, hEncoded⟩ := parse_eq_ok_iff.mp h
  have hLen : encoded.length = encodedSize policy.grantCount := by
    have hUsed : policy.used.length = policy.grantCount := length_used hWell.count
    rw [hEncoded, length_layout, hUsed]
  rw [hLen] at hRoom ⊢
  rw [encode_of_wellFormed hWell hRoom, ← hEncoded]

/-- The layout shows who runs the component and what its device can reach. -/
theorem layout_platform {domain' : ExecutionDomain} {dma' : DmaCapability}
    {grants' : List MmioGrant} (h : layout domain dma grants = layout domain' dma' grants') :
    domain = domain' ∧ dma = dma' := by
  have hRoom : 32 ≤ (layout domain dma grants).length := by
    rw [length_layout, encodedSize_eq]
    omega
  obtain ⟨-, hHeader, -⟩ := eq_layout_iff.mp (rfl : layout domain dma grants = _)
  obtain ⟨-, hHeader', -⟩ := eq_layout_iff.mp h
  obtain ⟨-, -, -, -, hDomain, hDma, -⟩ := (slice_eq_layoutHeader_iff hRoom).mp hHeader
  obtain ⟨-, -, -, -, hDomain', hDma', -⟩ := (slice_eq_layoutHeader_iff hRoom).mp hHeader'
  have hSame := validDomain_eq_ok_iff.mpr hDomain
  have hSameDma := validDma_eq_ok_iff.mpr hDma
  rw [validDomain_eq_ok_iff.mpr hDomain'] at hSame
  rw [validDma_eq_ok_iff.mpr hDma'] at hSameDma
  exact ⟨(Except.ok.inj hSame).symm, (Except.ok.inj hSameDma).symm⟩

/-- The policy that a builder's record is read as. -/
def DeviceAccessPolicyBuilder.policy (b : DeviceAccessPolicyBuilder) : DeviceAccessPolicyV1 where
  domain := b.domain
  dma := b.dma
  grantCount := b.grantCount
  grants := fillGrants b.used

theorem DeviceAccessPolicyBuilder.used_policy (h : b.grantCount ≤ maxMmioGrants) :
    b.policy.used = b.used := by
  have hLen : b.used.length = b.grantCount := length_used h
  have hFill := take_fillGrants (hLen.trans_le h)
  rw [hLen] at hFill
  exact hFill

/-- A record that was built is accepted exactly if the platform backs it, and
read back as it was built. -/
theorem parse_encode (h : b.Built) (hRoom : encodedSize b.grantCount ≤ output.length) :
    ∃ n, (b.encode output).2 = .ok n ∧
      ((∃ policy, parseDeviceAccessV1 ((b.encode output).1.take n) = .ok policy) ↔
        ¬(b.domain = .isolatedUser ∧ b.dma = .unconfined)) ∧
      ∀ policy, parseDeviceAccessV1 ((b.encode output).1.take n) = .ok policy →
        policy.domain = b.domain ∧ policy.dma = b.dma ∧ policy.grantCount = b.grantCount ∧
          policy.used = b.used := by
  have hLen : b.used.length = b.grantCount := length_used h.count
  have hWritten : (layout b.domain b.dma b.used ++ output.drop (encodedSize b.grantCount)).take
      (encodedSize b.grantCount) = layout b.domain b.dma b.used :=
    List.take_left' (by rw [length_layout, hLen])
  rw [encode, encodeCommon_eq h.count hRoom]
  refine ⟨_, rfl, ?_⟩
  show ((∃ policy, parseDeviceAccessV1 ((layout b.domain b.dma b.used ++ _).take _) = .ok policy) ↔
      _) ∧ ∀ policy,
        parseDeviceAccessV1 ((layout b.domain b.dma b.used ++ _).take _) = .ok policy → _
  rw [hWritten]
  have hRefused : ∀ policy, parseDeviceAccessV1 (layout b.domain b.dma b.used) = .ok policy →
      ¬(b.domain = .isolatedUser ∧ b.dma = .unconfined) := by
    intro policy hParse
    obtain ⟨hWell, hSame⟩ := parse_eq_ok_iff.mp hParse
    obtain ⟨hDomain, hDma⟩ := layout_platform hSame
    rw [hDomain, hDma]
    exact hWell.backed
  have hAcc : ¬(b.domain = .isolatedUser ∧ b.dma = .unconfined) →
      parseDeviceAccessV1 (layout b.domain b.dma b.used) = .ok b.policy := by
    intro hBacked
    have hUsed := used_policy h.count
    refine parse_eq_ok_iff.mpr ⟨⟨h.count, ?_, ?_, hBacked⟩, ?_⟩
    · rw [hUsed]
      rfl
    · rw [hUsed]
      exact h.canonical
    · rw [hUsed]
      rfl
  refine ⟨⟨fun ⟨policy, hParse⟩ => hRefused policy hParse, fun hBacked => ⟨_, hAcc hBacked⟩⟩, ?_⟩
  intro policy hParse
  have hPolicy := hAcc (hRefused policy hParse)
  rw [hParse] at hPolicy
  obtain rfl := Except.ok.inj hPolicy
  exact ⟨rfl, rfl, rfl, used_policy h.count⟩

/-- Every accepted record is what encoding it writes. Every record that was built
is read back as it was built, unless it claims an isolation the platform cannot
back. Accepted grants are bounded, ascend and share no address, and a request is
permitted exactly if its range lies inside one of them that allows its mode. -/
theorem one_authority_one_encoding (encoded output : List UInt8) (policy : DeviceAccessPolicyV1)
    (calls : List BuilderCall) :
    (parseDeviceAccessV1 encoded = .ok policy → encoded.length ≤ output.length →
      encodeDeviceAccessV1 policy output =
        (encoded ++ output.drop encoded.length, .ok encoded.length)) ∧
    (∀ b, b = Run.after step {} calls → encodedSize b.grantCount ≤ output.length →
      ∃ n, (b.encode output).2 = .ok n ∧
        ((∃ read, parseDeviceAccessV1 ((b.encode output).1.take n) = .ok read) ↔
          ¬(b.domain = .isolatedUser ∧ b.dma = .unconfined)) ∧
        ∀ read, parseDeviceAccessV1 ((b.encode output).1.take n) = .ok read →
          read.domain = b.domain ∧ read.dma = b.dma ∧ read.grantCount = b.grantCount ∧
            read.used = b.used) ∧
    (parseDeviceAccessV1 encoded = .ok policy → (∀ grant ∈ policy.used, grant.Bounded) ∧
      policy.used.Pairwise (fun g g' => g.base < g'.base ∧ Disjoint g.window g'.window) ∧
      (∀ base length mode, policy.permits base length mode = true ↔
        0 < length.toNat ∧ ∃ grant ∈ policy.used, grant.access.AtLeast mode ∧
          Set.Ico base.toNat (base.toNat + length.toNat) ⊆ grant.window) ∧
      ∀ address, ∀ g ∈ policy.used, ∀ g' ∈ policy.used,
        address ∈ g.window → address ∈ g'.window → g = g') := by
  refine ⟨encode_parse, ?_, ?_⟩
  · rintro b rfl hRoom
    exact parse_encode (built_after calls) hRoom
  · intro hParse
    have hCanonical := (parse_eq_ok_iff.mp hParse).1.canonical
    refine ⟨fun grant hMem => hCanonical.bounded hMem, hCanonical.pairwise, permits_iff hCanonical,
      ?_⟩
    intro address g hg g' hg' hIn hIn'
    exact hCanonical.unique hg hg' hIn hIn'

/-- Two neighbouring windows, the second of them read only. -/
def twoWindows : List BuilderCall :=
  [.setDma .iommuConfined, .addGrant 0x1000 0x100 .readWrite, .addGrant 0x1100 0x10 .readOnly]

/-- They are read back, and a request that spans both is refused. -/
theorem twoWindows_encoding :
    ∃ read, parseDeviceAccessV1 (((Run.after step {} twoWindows).encode
        (List.replicate 128 0xFF)).1.take 80) = .ok read ∧
      encodeDeviceAccessV1 read (List.replicate 80 0) = (((Run.after step {} twoWindows).encode
          (List.replicate 128 0xFF)).1.take 80, .ok 80) ∧
      read.permits 0x10FF 1 .readWrite = true ∧ read.permits 0x10FF 2 .readOnly = false := by
  have hParse : parseDeviceAccessV1 (((Run.after step {}
      twoWindows).encode (List.replicate 128 0xFF)).1.take 80) =
      .ok (Run.after step {} twoWindows).policy := by
    decide +kernel
  refine ⟨_, hParse, ?_, by decide +kernel, by decide +kernel⟩
  decide +kernel

end Enml.OsDevice
