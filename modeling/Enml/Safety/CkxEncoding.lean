import Enml.Invariant.Ckx
import Enml.Core.Bytes
import Enml.Lib.Records

/-! The layout of a `.ckx` as a concatenation of its fields. The writer puts down
exactly that, and what the parser accepts starts with it. Nothing in the parser
looks past the table, so the bytes after it are not fixed by the plan. -/
namespace Enml.OsImage

open Enml.Core LittleEndian Buffer
open List hiding Vector

variable {count remaining : Nat} {image : CkxImage}

def encodeHeader (regionCount : Nat) (entry authorityCeiling : UInt64) : List UInt8 :=
  ckxMagic ++ bytesOf 2 ckxFormatVersion1.toNat ++ bytesOf 2 regionCount ++
    bytesOf 8 entry.toNat ++ bytesOf 8 authorityCeiling.toNat ++ List.replicate 8 0

def encodeRegion (r : CkxRegion) : List UInt8 :=
  bytesOf 8 r.virtualAddress.toNat ++ bytesOf 8 r.length.toNat ++ [r.permissions.raw] ++
    [r.disclosure.raw] ++ [r.content.raw] ++ List.replicate 5 0 ++ r.digest.toList

/-- The bytes that stand for a plan. -/
def encode (image : CkxImage) : List UInt8 :=
  encodeHeader image.regionCount image.entry image.authorityCeiling ++
    image.used.flatMap encodeRegion

@[simp] theorem length_encodeHeader (regionCount : Nat) (entry authorityCeiling : UInt64) :
    (encodeHeader regionCount entry authorityCeiling).length = ckxHeaderBytes := by
  simp [encodeHeader, ckxMagic, ckxHeaderBytes]

@[simp] theorem length_encodeRegion (r : CkxRegion) : (encodeRegion r).length = ckxRegionBytes := by
  have hDigest : r.digest.toList.length = 32 := r.digest.length_toList
  simp [encodeRegion, ckxRegionBytes, hDigest]

theorem CkxImage.length_used (h : image.regionCount ≤ maxCkxRegions) :
    image.used.length = image.regionCount := by
  simp [used, h]

theorem length_encode (h : image.regionCount ≤ maxCkxRegions) :
    (encode image).length = ckxEncodedBytes image.regionCount := by
  rw [encode, length_append, length_encodeHeader, Records.length_flatMap length_encodeRegion,
    image.length_used h, ckxEncodedBytes]

section Writer

variable {done rest : List UInt8} {offset : Nat}

theorem storeBytes_filled {first second : Nat} (hOffset : offset = done.length)
    (value : Nat → UInt8) :
    storeBytes (filled 0 done (first + second) rest) offset first value =
      filled 0 (done ++ (List.range first).map value) second rest :=
  filled_store hOffset value

theorem writeU16_filled (hOffset : offset = done.length) (value : UInt16) :
    writeU16 (filled 0 done (2 + count) rest) offset value =
      filled 0 (done ++ bytesOf 2 value.toNat) count rest :=
  writeU16Le_filled hOffset value

theorem writeU64_filled (hOffset : offset = done.length) (value : UInt64) :
    writeU64 (filled 0 done (8 + count) rest) offset value =
      filled 0 (done ++ bytesOf 8 value.toNat) count rest := by
  rw [writeU64, storeBytes_filled hOffset, map_shift_mask]

theorem map_digest (digest : Vector UInt8 ckxDigestBytes) :
    ((List.range ckxDigestBytes).map fun i => digest.toList.getD i 0) = digest.toList :=
  map_spanByte_vector digest

theorem writeRegion_filled {index : Nat}
    (hBase : ckxHeaderBytes + index * ckxRegionBytes = done.length) (region : CkxRegion) :
    writeRegion (filled 0 done (ckxRegionBytes + count) rest) index region =
      filled 0 (done ++ encodeRegion region) count rest := by
  have hSplit : ckxRegionBytes + count =
      8 + (8 + (1 + (1 + (1 + (5 + (ckxDigestBytes + count)))))) := by
    simp only [ckxRegionBytes, ckxDigestBytes]
    omega
  unfold writeRegion
  dsimp only
  rw [hSplit, writeU64_filled (by simp [hBase]), writeU64_filled (by simp [hBase]),
    filled_set (by simp [hBase]), filled_set (by simp [hBase]), filled_set (by simp [hBase]),
    filled_skip 5, storeBytes_filled (by simp [hBase]), map_digest]
  simp only [encodeRegion, append_assoc]

theorem writeRegions_filled {index : Nat} (regions : List CkxRegion)
    (hBase : ckxHeaderBytes + index * ckxRegionBytes = done.length) :
    writeRegions (filled 0 done (regions.length * ckxRegionBytes) rest) index regions =
      done ++ regions.flatMap encodeRegion ++ rest := by
  induction regions generalizing index done with
  | nil => simp [writeRegions, filled]
  | cons r regions ih =>
    have hSplit : (r :: regions).length * ckxRegionBytes =
        ckxRegionBytes + regions.length * ckxRegionBytes := by
      rw [length_cons]
      ring
    rw [writeRegions, hSplit, writeRegion_filled hBase, ih]
    · simp only [flatMap_cons, append_assoc]
    · rw [length_append, length_encodeRegion, ← hBase]
      ring

end Writer

/-- The bytes the writer leaves in the caller's buffer before it parses them. -/
theorem buildCkx_eq {out : List UInt8} (hCnt : image.regionCount ≠ 0)
    (hMax : image.regionCount ≤ maxCkxRegions)
    (hRoom : ckxEncodedBytes image.regionCount ≤ out.length) :
    buildCkx image out =
      match parseCkx (encode image) with
      | .error e => (encode image ++ out.drop (ckxEncodedBytes image.regionCount), .error e)
      | .ok _ => (encode image ++ out.drop (ckxEncodedBytes image.regionCount),
          .ok (ckxEncodedBytes image.regionCount)) := by
  have hNeeded : ckxEncodedBytes image.regionCount =
      4 + (2 + (2 + (8 + (8 + (8 + image.used.length * ckxRegionBytes))))) := by
    rw [image.length_used hMax, ckxEncodedBytes, ckxHeaderBytes]
    omega
  have hBlank : storeBytes out 0 (ckxEncodedBytes image.regionCount) (fun _ => 0) =
      filled 0 [] (ckxEncodedBytes image.regionCount)
        (out.drop (ckxEncodedBytes image.regionCount)) := by
    rw [storeBytes, store_front hRoom, filled]
    simp
  have hCntBytes : (UInt16.ofNat image.regionCount).toNat = image.regionCount := by
    rw [UInt16.toNat_ofNat']
    simp only [maxCkxRegions] at hMax
    omega
  have hMagic : (List.range 4).map (fun i => byteAt ckxMagic i) = ckxMagic := by decide
  have hWritten : writeRegions (writeU64 (writeU64 (writeU16 (writeU16
      (storeBytes (storeBytes out 0 (ckxEncodedBytes image.regionCount) fun _ => 0) 0
        ckxMagicBytes fun i => byteAt ckxMagic i) 4 ckxFormatVersion1) 6
        (UInt16.ofNat image.regionCount)) 8 image.entry) 16 image.authorityCeiling) 0 image.used =
      encode image ++ out.drop (ckxEncodedBytes image.regionCount) := by
    have hFour : ckxMagic.length = 4 := rfl
    rw [hBlank, hNeeded, ckxMagicBytes, storeBytes_filled (by simp), hMagic,
      writeU16_filled (by simp [hFour]), writeU16_filled (by simp [hFour]), hCntBytes,
      writeU64_filled (by simp [hFour]), writeU64_filled (by simp [hFour]), filled_skip 8,
      writeRegions_filled _ (by simp [hFour, ckxHeaderBytes]), encode, encodeHeader,
      nil_append]
  have hTake : (encode image ++ out.drop (ckxEncodedBytes image.regionCount)).take
      (ckxEncodedBytes image.regionCount) = encode image := by
    rw [← length_encode hMax, take_left]
  unfold buildCkx
  rw [if_neg (by omega), if_neg (by omega)]
  dsimp only
  cases hParse : parseCkx (encode image) with
  | error | ok => rw [hWritten, hTake, hParse]

section Reads

variable {bytes : List UInt8} {offset : Nat}

theorem map_byteAt (h : offset + count ≤ bytes.length) :
    ((List.range count).map fun i => byteAt bytes (offset + i)) = slice bytes offset count :=
  map_getD_range 0 h

theorem singleton_byteAt (h : offset + 1 ≤ bytes.length) :
    [byteAt bytes offset] = slice bytes offset 1 :=
  map_byteAt h

theorem bytesOf_readU16 (h : offset + 2 ≤ bytes.length) :
    bytesOf 2 (readU16 bytes offset).toNat = slice bytes offset 2 :=
  bytesOf_readU16Le h

theorem bytesOf_readU64 (h : offset + 8 ≤ bytes.length) :
    bytesOf 8 (readU64 bytes offset).toNat = slice bytes offset 8 :=
  bytesOf_readU64Le h

theorem slice_of_zeroRange (h : offset + count ≤ bytes.length)
    (hZero : zeroRange bytes offset count) :
    List.replicate count 0 = slice bytes offset count :=
  ((slice_eq_replicate_iff h).mpr hZero).symm

end Reads

variable {bytes : List UInt8} {raw : UInt8} {previous : List CkxRegion}

theorem toList_ofFn_byteAt {offset : Nat} (h : offset + count ≤ bytes.length) :
    (Vector.ofFn fun i : Fin count => byteAt bytes (offset + i)).toList =
      slice bytes offset count :=
  ((slice_eq_vector_iff h).mpr rfl).symm

theorem raw_of_validDisclosure {d : CkxDisclosure} (h : validDisclosure raw = .ok d) :
    d.raw = raw := by
  unfold validDisclosure at h
  split at h
  · cases h
    exact Eq.symm ‹_›
  split at h
  · cases h
    exact Eq.symm ‹_›
  · cases h

theorem raw_of_validContent {c : CkxContent} (h : validContent raw = .ok c) : c.raw = raw := by
  unfold validContent at h
  split at h
  · cases h
    exact Eq.symm ‹_›
  split at h
  · cases h
    exact Eq.symm ‹_›
  · cases h

/-- What one turn of the loop accepts is spelled out by the 56 bytes it read. -/
theorem encodeRegion_of_parse {region : CkxRegion} (h : parseRegion bytes previous = .ok region)
    (hRoom : ckxHeaderBytes + previous.length * ckxRegionBytes + ckxRegionBytes ≤ bytes.length) :
    encodeRegion region =
      slice bytes (ckxHeaderBytes + previous.length * ckxRegionBytes) ckxRegionBytes := by
  unfold parseRegion at h
  simp only [bind_eq_ok_iff, require_eq_ok_iff] at h
  generalize ckxHeaderBytes + previous.length * ckxRegionBytes = base at h hRoom ⊢
  obtain ⟨permissions, hPerms, disclosure, hDisclosure, content, hContent, -, hResv, -, -,
    -, -, -, -, -, -, hRegion⟩ := h
  simp only [ckxRegionBytes] at hRoom
  obtain rfl := Except.ok.inj hRegion
  simp only [encodeRegion, ckxDigestBytes]
  rw [raw_of_validPermissions hPerms, raw_of_validDisclosure hDisclosure,
    raw_of_validContent hContent, bytesOf_readU64 (by omega), bytesOf_readU64 (by omega),
    singleton_byteAt (by omega), singleton_byteAt (by omega), singleton_byteAt (by omega),
    slice_of_zeroRange (by omega) hResv, toList_ofFn_byteAt (by omega)]
  rw [slice_append (by omega), slice_append (by omega), slice_append (by omega),
    slice_append (by omega), slice_append (by omega), slice_append (by omega)]
  rfl

theorem parseRegions_ok {regions : List CkxRegion}
    (h : parseRegions bytes remaining previous = .ok regions)
    (hRoom : ckxHeaderBytes + (previous.length + remaining) * ckxRegionBytes ≤ bytes.length) :
    ∃ added, regions = previous ++ added ∧ added.length = remaining ∧ added.flatMap encodeRegion =
        slice bytes (ckxHeaderBytes + previous.length * ckxRegionBytes)
          (remaining * ckxRegionBytes) := by
  induction remaining generalizing previous with
  | zero =>
    cases h
    exact ⟨[], by simp, rfl, by simp [slice]⟩
  | succ _ ih =>
    rw [parseRegions, bind_eq_ok_iff] at h
    obtain ⟨region, hRegion, hRest⟩ := h
    simp only [ckxRegionBytes] at hRoom
    obtain ⟨added, rfl, hLen, hAdded⟩ := ih hRest (by
      simp only [ckxRegionBytes, length_append, length_singleton]
      omega)
    refine ⟨region :: added, by simp, by simp [hLen], ?_⟩
    have hHead := encodeRegion_of_parse hRegion (by
      simp only [ckxRegionBytes]
      omega)
    have hNext : ckxHeaderBytes + (previous ++ [region]).length * ckxRegionBytes =
        ckxHeaderBytes + previous.length * ckxRegionBytes + ckxRegionBytes := by
      rw [length_append, length_singleton]
      ring
    rw [flatMap_cons, hHead, hAdded, slice_append hNext]
    congr 1
    ring

theorem room_of_rangeWithin {base length limit : Nat} (h : rangeWithin base length limit) :
    base + length ≤ limit := by
  unfold rangeWithin at h
  split at h
  · cases h
  split at h
  · cases h
  · simp only [decide_eq_true_eq] at h
    omega

theorem magic_of_parse (hRoom : 0 + ckxMagicBytes ≤ bytes.length)
    (h : (List.range ckxMagicBytes).all fun i => byteAt bytes i == byteAt ckxMagic i) :
    ckxMagic = slice bytes 0 ckxMagicBytes := by
  have hMagic : ckxMagic = (List.range ckxMagicBytes).map fun i => byteAt ckxMagic i := by decide
  rw [← map_byteAt hRoom, hMagic]
  refine map_congr_left fun i hi => ?_
  simpa using (beq_iff_eq.mp (all_eq_true.mp h i hi)).symm

/-- What the parser accepts starts with the layout of the plan it returns. -/
theorem encode_of_parse (h : parseCkx bytes = .ok image) :
    image.regionCount = (readU16 bytes 6).toNat ∧ image.regionCount ≠ 0 ∧
      image.regionCount ≤ maxCkxRegions ∧
      ckxEncodedBytes image.regionCount ≤ bytes.length ∧
      encode image = bytes.take (ckxEncodedBytes image.regionCount) := by
  unfold parseCkx at h
  simp only [bind_eq_ok_iff, require_eq_ok_iff] at h
  obtain ⟨-, hHeader, -, hMagic, -, hVer, -, hCnt, -, hResv, -, -, -, -, -, hTbl,
    regions, hRegions, -, -, hImage⟩ := h
  have hImage := Except.ok.inj hImage
  have hEntry : image.entry = readU64 bytes 8 := by rw [← hImage]
  have hCeiling : image.authorityCeiling = readU64 bytes 16 := by rw [← hImage]
  have hArray : image.regions = fillRegions regions := by rw [← hImage]
  have hDeclared : image.regionCount = (readU16 bytes 6).toNat := by rw [← hImage]
  have hHeader : 32 ≤ bytes.length := of_decide_eq_true hHeader
  simp only [Bool.not_eq_true', Bool.or_eq_false_iff, beq_eq_false_iff_ne, decide_eq_false_iff_not,
    not_lt] at hCnt
  obtain ⟨hSome, hMax⟩ := hCnt
  have hNonzero : (readU16 bytes 6).toNat ≠ 0 := fun hZero => hSome (UInt16.toNat_inj.mp hZero)
  have hRoom := room_of_rangeWithin hTbl
  obtain ⟨added, hAll, hLen, hAdded⟩ := parseRegions_ok hRegions (by simpa using hRoom)
  rw [nil_append] at hAll
  rw [← hDeclared] at hNonzero hMax hRoom hLen hAdded
  have hUsed : image.used = added := CkxImage.used_fillRegions (hAll ▸ hArray) hLen hMax
  have hVer : ckxFormatVersion1 = readU16 bytes 4 := (beq_iff_eq.mp hVer).symm
  refine ⟨hDeclared, hNonzero, hMax, hRoom, ?_⟩
  rw [encode, hUsed, hAdded, encodeHeader, hEntry, hCeiling, hVer]
  rw [magic_of_parse (by simp only [ckxMagicBytes]; omega) hMagic, hDeclared,
    bytesOf_readU16 (by omega), bytesOf_readU16 (by omega), bytesOf_readU64 (by omega),
    bytesOf_readU64 (by omega), slice_of_zeroRange (by omega) hResv]
  simp only [ckxMagicBytes, ckxHeaderBytes, length_nil, Nat.zero_mul, Nat.add_zero]
  rw [slice_append (by omega), slice_append (by omega), slice_append (by omega),
    slice_append (by omega), slice_append (by omega), slice_append (by omega), slice_zero]
  simp only [ckxEncodedBytes, ckxHeaderBytes, Nat.reduceAdd]

section Prefix

variable {size : Nat} {offset : Nat}

theorem byteAt_take (h : offset < size) :
    byteAt (bytes.take size) offset = byteAt bytes offset := by
  simp [byteAt, h]

theorem readU16_take (h : offset + 2 ≤ size) :
    readU16 (bytes.take size) offset = readU16 bytes offset := by
  rw [readU16, readU16, byteAt_take (by omega), byteAt_take (by omega)]

theorem readU64_take (h : offset + 8 ≤ size) :
    readU64 (bytes.take size) offset = readU64 bytes offset := by
  refine foldl_ext _ _ 0 fun value i hi => ?_
  have hi := mem_range.mp hi
  rw [byteAt_take (by omega)]

theorem zeroRange_take (h : offset + count ≤ size) :
    zeroRange (bytes.take size) offset count = zeroRange bytes offset count := by
  rw [Bool.eq_iff_iff, zeroRange, zeroRange, all_eq_true, all_eq_true]
  refine forall₂_congr fun i hi => ?_
  have hi := mem_range.mp hi
  rw [byteAt_take (by omega)]

theorem parseRegion_take
    (h : ckxHeaderBytes + previous.length * ckxRegionBytes + ckxRegionBytes ≤ size) :
    parseRegion (bytes.take size) previous = parseRegion bytes previous := by
  unfold parseRegion
  generalize ckxHeaderBytes + previous.length * ckxRegionBytes = base at h ⊢
  simp only [ckxRegionBytes] at h
  have hDigest : (fun i : Fin ckxDigestBytes => byteAt (bytes.take size) (base + 24 + i)) =
      fun i : Fin ckxDigestBytes => byteAt bytes (base + 24 + i) := by
    funext i
    have hi : i.val < 32 := i.isLt
    rw [byteAt_take (by omega)]
  dsimp only
  rw [readU64_take (by omega), readU64_take (by omega), byteAt_take (by omega),
    byteAt_take (by omega), byteAt_take (by omega), zeroRange_take (by omega), hDigest]

theorem parseRegions_take
    (h : ckxHeaderBytes + (previous.length + remaining) * ckxRegionBytes ≤ size) :
    parseRegions (bytes.take size) remaining previous = parseRegions bytes remaining previous := by
  induction remaining generalizing previous with
  | zero => rfl
  | succ _ ih =>
    simp only [ckxRegionBytes] at h
    rw [parseRegions, parseRegions, parseRegion_take (by simp only [ckxRegionBytes]; omega)]
    refine bind_congr fun region => ih ?_
    simp only [ckxRegionBytes, length_append, length_singleton]
    omega

end Prefix

variable {out : List UInt8} {n : Nat}

/-- The table decides: without what follows it the plan is the same. -/
theorem parseCkx_take (h : parseCkx bytes = .ok image) :
    parseCkx (bytes.take (ckxEncodedBytes image.regionCount)) = .ok image := by
  obtain ⟨hCnt, hNonzero, -, hRoom, -⟩ := encode_of_parse h
  have hSize : ckxEncodedBytes image.regionCount = 32 + image.regionCount * 56 := rfl
  have hLen : (bytes.take (ckxEncodedBytes image.regionCount)).length =
      ckxEncodedBytes image.regionCount := by
    simp [hRoom]
  have hMagic : ((List.range ckxMagicBytes).all fun i =>
      byteAt (bytes.take (ckxEncodedBytes image.regionCount)) i == byteAt ckxMagic i) =
      (List.range ckxMagicBytes).all fun i => byteAt bytes i == byteAt ckxMagic i := by
    rw [Bool.eq_iff_iff, all_eq_true, all_eq_true]
    refine forall₂_congr fun i hi => ?_
    have hi : i < 4 := mem_range.mp hi
    rw [byteAt_take (by omega)]
  unfold parseCkx at h ⊢
  dsimp only at h ⊢
  rw [hMagic, readU16_take (by omega), readU16_take (by omega), readU64_take (by omega),
    readU64_take (by omega), zeroRange_take (by omega), parseRegions_take]
  · simp only [bind_eq_ok_iff, require_eq_ok_iff] at h ⊢
    obtain ⟨u, hHeader, u₁, hMagic, u₂, hVer, u₃, hDeclared, u₄, hResv, u₅, hAuthority, u₆,
      hEntry, u₇, hTbl, hRest⟩ := h
    refine ⟨u, ?_, u₁, hMagic, u₂, hVer, u₃, hDeclared, u₄, hResv, u₅, hAuthority, u₆,
      hEntry, u₇, ?_, hRest⟩
    · rw [hLen, hSize, decide_eq_true_eq, ckxHeaderBytes]
      omega
    · rw [hLen, ← hCnt, rangeWithin, hSize, ckxHeaderBytes, ckxRegionBytes,
        if_neg (by omega), if_neg (by omega), decide_eq_true_eq]
      omega
  · rw [← hCnt, hSize, ckxHeaderBytes, ckxRegionBytes, length_nil]
    omega

theorem bytesOf_toNat_inj {a b : UInt64} (h : bytesOf 8 a.toNat = bytesOf 8 b.toNat) : a = b :=
  UInt64.toNat_inj.mp (bytesOf_inj a.toNat_lt b.toNat_lt h)

theorem encodeHeader_inj {m : Nat} {entry entry' ceiling ceiling' : UInt64}
    (hn : n ≤ maxCkxRegions) (hm : m ≤ maxCkxRegions)
    (h : encodeHeader n entry ceiling = encodeHeader m entry' ceiling') :
    n = m ∧ entry = entry' ∧ ceiling = ceiling' := by
  simp only [maxCkxRegions] at hn hm
  obtain ⟨h, -⟩ := append_inj' h rfl
  obtain ⟨h, hCeiling⟩ := append_inj' h (by simp)
  obtain ⟨h, hEntry⟩ := append_inj' h (by simp)
  obtain ⟨-, hCnt⟩ := append_inj' h (by simp)
  exact ⟨bytesOf_inj (by omega) (by omega) hCnt, bytesOf_toNat_inj hEntry,
    bytesOf_toNat_inj hCeiling⟩

theorem CkxDisclosure.raw_inj {a b : CkxDisclosure} (h : a.raw = b.raw) : a = b := by
  cases a <;> cases b <;> first | rfl | exact absurd h (by decide)

theorem CkxContent.raw_inj {a b : CkxContent} (h : a.raw = b.raw) : a = b := by
  cases a <;> cases b <;> first | rfl | exact absurd h (by decide)

theorem encodeRegion_inj {a b : CkxRegion} (h : encodeRegion a = encodeRegion b) : a = b := by
  obtain ⟨h, hDigest⟩ := append_inj' h (by simp)
  obtain ⟨h, -⟩ := append_inj' h rfl
  obtain ⟨h, hContent⟩ := append_inj' h rfl
  obtain ⟨h, hDisclosure⟩ := append_inj' h rfl
  obtain ⟨h, hPerms⟩ := append_inj' h rfl
  obtain ⟨hAddr, hLen⟩ := append_inj' h (by simp)
  cases a
  cases b
  congr 1
  · exact bytesOf_toNat_inj hAddr
  · exact bytesOf_toNat_inj hLen
  · exact CkxPermissions.raw_inj (List.cons.inj hPerms).1
  · exact CkxDisclosure.raw_inj (List.cons.inj hDisclosure).1
  · exact CkxContent.raw_inj (List.cons.inj hContent).1
  · exact Vector.toList_inj.mp hDigest

theorem flatMap_encodeRegion_inj {as bs : List CkxRegion} (hLen : as.length = bs.length)
    (h : as.flatMap encodeRegion = bs.flatMap encodeRegion) : as = bs :=
  Records.flatMap_inj length_encodeRegion (fun _ _ => encodeRegion_inj) hLen h

/-- The parts of an image that the format carries. -/
def CkxImage.SamePlan (a b : CkxImage) : Prop :=
  a.entry = b.entry ∧ a.authorityCeiling = b.authorityCeiling ∧
    a.regionCount = b.regionCount ∧ a.used = b.used

theorem CkxImage.SamePlan.encode_eq {a b : CkxImage} (h : a.SamePlan b) : encode a = encode b := by
  obtain ⟨hEntry, hCeiling, hCnt, hUsed⟩ := h
  rw [encode, encode, hEntry, hCeiling, hCnt, hUsed]

theorem take_encode (image : CkxImage) :
    (encode image).take ckxHeaderBytes =
      encodeHeader image.regionCount image.entry image.authorityCeiling :=
  take_left' (length_encodeHeader ..)

/-- Reading a layout back gives the plan it was made from. -/
theorem samePlan_of_parse_encode {parsed : CkxImage} (hMax : image.regionCount ≤ maxCkxRegions)
    (h : parseCkx (encode image) = .ok parsed) : parsed.SamePlan image := by
  obtain ⟨-, -, hMax', hRoom, hEncode⟩ := encode_of_parse h
  have hHeader : encodeHeader parsed.regionCount parsed.entry parsed.authorityCeiling =
      encodeHeader image.regionCount image.entry image.authorityCeiling := by
    have hFront := congrArg (List.take ckxHeaderBytes) hEncode
    have hInside : ckxHeaderBytes ≤ ckxEncodedBytes parsed.regionCount := Nat.le_add_right ..
    rwa [take_take, Nat.min_eq_left hInside, take_encode, take_encode] at hFront
  obtain ⟨hCnt, hEntry, hCeiling⟩ := encodeHeader_inj hMax' hMax hHeader
  refine ⟨hEntry, hCeiling, hCnt, ?_⟩
  rw [hCnt, ← length_encode hMax, take_length, encode, encode, hHeader,
    append_cancel_left_eq] at hEncode
  exact flatMap_encodeRegion_inj (by rw [parsed.length_used hMax', image.length_used hMax, hCnt])
    hEncode

/-- A build that succeeds has written the layout, and the layout is accepted. -/
theorem buildCkx_ok (h : (buildCkx image out).2 = .ok n) :
    image.regionCount ≤ maxCkxRegions ∧ (buildCkx image out).1.take n = encode image ∧
      ∃ parsed, parseCkx (encode image) = .ok parsed := by
  have hCnt : ¬(image.regionCount = 0 ∨ maxCkxRegions < image.regionCount) := by
    intro hBad
    rw [buildCkx, if_pos hBad] at h
    cases h
  have hRoom : ¬out.length < ckxEncodedBytes image.regionCount := by
    intro hSmall
    rw [buildCkx, if_neg hCnt] at h
    rw [if_pos hSmall] at h
    cases h
  rw [not_or, not_lt] at hCnt
  rw [buildCkx_eq hCnt.1 hCnt.2 (not_lt.mp hRoom)] at h ⊢
  cases hParse : parseCkx (encode image) with
  | error =>
    rw [hParse] at h
    cases h
  | ok parsed =>
    rw [hParse] at h
    obtain rfl := Except.ok.inj h
    refine ⟨hCnt.2, ?_, parsed, rfl⟩
    rw [← length_encode hCnt.2, take_left]

/-- Rebuilding what was accepted gives the front of the input, up to the end of
its table. -/
theorem buildCkx_of_parse (h : parseCkx bytes = .ok image)
    (hRoom : ckxEncodedBytes image.regionCount ≤ out.length) :
    (buildCkx image out).2 = .ok (ckxEncodedBytes image.regionCount) ∧
      (buildCkx image out).1.take (ckxEncodedBytes image.regionCount) =
        bytes.take (ckxEncodedBytes image.regionCount) := by
  obtain ⟨-, hNonzero, hMax, -, hEncode⟩ := encode_of_parse h
  have hAgain : parseCkx (encode image) = .ok image := by
    rw [hEncode]
    exact parseCkx_take h
  rw [buildCkx_eq hNonzero hMax hRoom, hAgain]
  refine ⟨rfl, ?_⟩
  rw [← hEncode, ← length_encode hMax, take_left]

/-- A build that succeeds is read back as the same plan. An accepted input is
what rebuilding it writes exactly when it ends with its region table, and of such
inputs a plan has only one. -/
theorem ckx_one_encoding (bytes out : List UInt8) (image : CkxImage) :
    (∀ n, (buildCkx image out).2 = .ok n →
      ∃ parsed, parseCkx ((buildCkx image out).1.take n) = .ok parsed ∧ parsed.SamePlan image) ∧
    (parseCkx bytes = .ok image → ckxEncodedBytes image.regionCount ≤ out.length →
      ((∃ n, (buildCkx image out).2 = .ok n ∧ (buildCkx image out).1.take n = bytes) ↔
        bytes.length = ckxEncodedBytes (readU16 bytes 6).toNat)) ∧
    ∀ bytes' image', parseCkx bytes = .ok image → parseCkx bytes' = .ok image' →
      bytes.length = ckxEncodedBytes (readU16 bytes 6).toNat →
      bytes'.length = ckxEncodedBytes (readU16 bytes' 6).toNat →
      image.SamePlan image' → bytes = bytes' := by
  refine ⟨?_, ?_, ?_⟩
  · intro n hBuild
    obtain ⟨hMax, hWritten, parsed, hParse⟩ := buildCkx_ok hBuild
    rw [hWritten]
    exact ⟨parsed, hParse, samePlan_of_parse_encode hMax hParse⟩
  · intro h hRoom
    obtain ⟨hCnt, -, -, hInside, -⟩ := encode_of_parse h
    obtain ⟨hOk, hFront⟩ := buildCkx_of_parse h hRoom
    rw [← hCnt]
    constructor
    · rintro ⟨n, hn, hExact⟩
      obtain rfl := Except.ok.inj (hOk.symm.trans hn)
      rw [hFront] at hExact
      rw [← hExact, length_take, Nat.min_eq_left hInside]
    · intro hLen
      exact ⟨_, hOk, hFront.trans (take_of_length_le hLen.le)⟩
  · intro bytes' image' h h' hLen hLen' hSame
    obtain ⟨hCnt, -, -, -, hEncode⟩ := encode_of_parse h
    obtain ⟨hCnt', -, -, -, hEncode'⟩ := encode_of_parse h'
    rw [hCnt, take_of_length_le hLen.le] at hEncode
    rw [hCnt', take_of_length_le hLen'.le] at hEncode'
    rw [← hEncode, ← hEncode', hSame.encode_eq]

/-- A program of one region, which holds its entry. -/
def smallPlan : CkxImage where
  formatVersion := 1
  entry := 0x10000040
  authorityCeiling := CkxAuthority.unprivileged
  regions := fillRegions
    [{ virtualAddress := 0x10000000, length := 0x2000, permissions := .readExecute,
       content := .named, digest := Vector.replicate ckxDigestBytes 0xA1 }]
  regionCount := 1

/-- One byte after the table is accepted, describes the same plan, and is not
written back. -/
theorem trailing_byte_accepted :
    parseCkx (encode smallPlan) = .ok smallPlan ∧
    parseCkx (encode smallPlan ++ [0xFF]) = .ok smallPlan ∧
    (buildCkx smallPlan (List.replicate maxCkxEncodedBytes 0)).2 = .ok 88 ∧
    (buildCkx smallPlan (List.replicate maxCkxEncodedBytes 0)).1.take 88 ≠
      encode smallPlan ++ [0xFF] := by
  decide +kernel

end Enml.OsImage
