import Mathlib.Data.List.Zip
import Enml.Lib.TreeHash
import Enml.OsBoot.Transparency

/-! What an accepted inclusion proof proves, and which proofs are accepted. The
descent of the verifier takes the splits of the tree, whatever index and size it
is given, as long as it ends. -/
namespace Enml.OsBoot

open TreeHash List Option UInt64

def logHash (hash : HashFunction) : TreeHash (List UInt8) (List UInt8) LogDigest where
  hash := hash
  leaf data := leafPrefix :: data
  node left right := nodePrefix :: (left.toList ++ right.toList)
  leaf_injective _ _ h := (List.cons.inj h).2
  node_injective h := by
    have hBoth := append_inj (List.cons.inj h).2 (by simp)
    exact ⟨Vector.toList_inj.mp hBoth.1, Vector.toList_inj.mp hBoth.2⟩
  leaf_ne_node h := absurd (List.cons.inj h).1 (by decide)

/-- The proof the log gives for the entry at `i`. -/
def proofFor (hash : HashFunction) (entries : List (List UInt8)) (i : Nat) : InclusionProof where
  leafIndex := ofNat i
  treeSize := ofNat entries.length
  path := Vector.ofFn fun j => ((logHash hash).auditPath entries i).getD j default
  pathLength := ofNat ((logHash hash).auditPath entries i).length

/-- The levels of a proof from the root down, as the verifier numbers them. -/
def InclusionProof.steps (proof : InclusionProof) : List (Bool × LogDigest) :=
  let levels := sides proof.leafIndex.toNat proof.treeSize.toNat
  levels.zip (proof.path.toList.take levels.length).reverse

variable {index size split : UInt64} {rounds more levels k : Nat}

theorem toNat_shift (hSplit : split.toNat = 2 ^ k) :
    (split <<< 1).toNat = 2 ^ (k + 1) % 2 ^ 64 := by
  rw [UInt64.toNat_shiftLeft, hSplit, Nat.pow_succ, Nat.shiftLeft_eq]
  rfl

theorem growSplit_zero (h : 0 < size) : growSplit size rounds 0 = none := by
  induction rounds with
  | zero => rfl
  | succ _ ih => simpa [growSplit, h] using ih

/-- Where the loop ends, it ends at the split. -/
theorem growSplit_eq {found : UInt64} (hSplit : split.toNat = 2 ^ k) (hBelow : 2 ^ k < size.toNat)
    (h : growSplit size rounds split = some found) : found.toNat = TreeHash.split size.toNat := by
  induction rounds generalizing split k with
  | zero => cases h
  | succ _ ih =>
    have hShift := toNat_shift hSplit
    have hWord := size.toNat_lt
    have hk : k < 64 := (Nat.pow_lt_pow_iff_right (by decide : 1 < 2)).mp (hBelow.trans hWord)
    unfold growSplit at h
    simp only [lt_iff_toNat_lt, hShift] at h
    rcases Nat.lt_or_ge (k + 1) 64 with hNext | hLast
    · have hFits : 2 ^ (k + 1) < 2 ^ 64 := Nat.pow_lt_pow_right (by decide) hNext
      rw [Nat.mod_eq_of_lt hFits] at h hShift
      split_ifs at h with hGrow
      · exact ih hShift hGrow h
      · cases h
        rw [hSplit]
        exact eq_split hBelow (Nat.not_lt.mp hGrow)
    · obtain rfl : k = 63 := by omega
      have hZero : split <<< 1 = 0 := UInt64.toNat_inj.mp hShift
      have hPos : 0 < size := lt_iff_toNat_lt.mpr (Nat.zero_lt_of_lt hBelow)
      rw [if_pos (by simpa using Nat.zero_lt_of_lt hBelow), hZero, growSplit_zero hPos] at h
      cases h

/-- Up to a size of `2 ^ 63` the loop ends within 64 rounds. -/
theorem growSplit_isSome (hSize : size.toNat ≤ 2 ^ 63) (hSplit : split.toNat = 2 ^ k)
    (hBelow : 2 ^ k < size.toNat) (hRounds : 64 ≤ k + rounds) :
    (growSplit size rounds split).isSome := by
  have hk : k < 63 := (Nat.pow_lt_pow_iff_right (by decide : 1 < 2)).mp (hBelow.trans_le hSize)
  induction rounds generalizing split k with
  | zero => omega
  | succ _ ih =>
    have hFits : 2 ^ (k + 1) < 2 ^ 64 := Nat.pow_lt_pow_right (by decide) (by omega)
    have hShift := toNat_shift hSplit
    rw [Nat.mod_eq_of_lt hFits] at hShift
    rw [growSplit]
    split_ifs with hGrow
    · rw [lt_iff_toNat_lt, hShift] at hGrow
      refine ih hShift hGrow (by omega) ?_
      exact (Nat.pow_lt_pow_iff_right (by decide : 1 < 2)).mp (hGrow.trans_le hSize)
    · rfl

theorem descend_eq {left : Bool} {index' size' : UInt64} (hMany : 1 < size.toNat)
    (h : descend rounds index size = some (left, index', size')) :
    left = (index.toNat < TreeHash.split size.toNat : Bool) ∧
      index'.toNat = place left index.toNat size.toNat ∧ size'.toNat = share left size.toNat := by
  unfold descend at h
  cases hGrow : growSplit size rounds 1 with
  | none =>
    rw [hGrow] at h
    cases h
  | some =>
    have hSplit := growSplit_eq (k := 0) rfl hMany hGrow
    have hLt := split_lt hMany
    rw [hGrow] at h
    simp only [bind_eq_bind, bind_some, lt_iff_toNat_lt, hSplit] at h
    split_ifs at h with hLeft
    · cases h
      exact ⟨by simp [hLeft], rfl, hSplit⟩
    cases h
    refine ⟨by simp [hLeft], ?_, ?_⟩
    all_goals
      rw [UInt64.toNat_sub_of_le, hSplit]
      · rfl
      · rw [le_iff_toNat_le]
        omega

theorem descend_isSome (index : UInt64) (hMany : 1 < size.toNat) (hSize : size.toNat ≤ 2 ^ 63)
    (hRounds : 64 ≤ rounds) : ∃ next, descend rounds index size = some next := by
  have hSome : (growSplit size rounds 1).isSome :=
    growSplit_isSome (k := 0) hSize rfl hMany (by omega)
  obtain ⟨split, hGrow⟩ := isSome_iff_exists.mp hSome
  unfold descend
  rw [hGrow]
  simp only [bind_eq_bind, bind_some]
  split_ifs <;> exact ⟨_, rfl⟩

/-- The sides recorded on the way down are those of the tree. -/
theorem leafIsLeft_eq {found : List Bool} (h : leafIsLeft rounds more index size = some found) :
    found = sides index.toNat size.toNat := by
  induction more generalizing index size found with
  | zero => cases h
  | succ _ ih =>
    unfold leafIsLeft at h
    split_ifs at h with hMany
    · have hMany : 1 < size.toNat := hMany
      simp only [bind_eq_bind, bind_eq_some_iff] at h
      obtain ⟨⟨left, index', size'⟩, hDown, below, hBelow, hFound⟩ := h
      cases hFound
      obtain ⟨rfl, hIdx, hSize⟩ := descend_eq hMany hDown
      rw [ih hBelow, hIdx, hSize, sides_split hMany]
    · cases h
      rw [sides_of_le (n := size.toNat) (Nat.not_lt.mp hMany)]

variable {required : Nat}

theorem countLevels_eq (h : countLevels rounds more levels index size = some (.ok required)) :
    required = levels + (sides index.toNat size.toNat).length := by
  induction more generalizing index size levels with
  | zero => cases h
  | succ _ ih =>
    unfold countLevels at h
    split_ifs at h with hLong hMany
    · cases h
    · have hMany : 1 < size.toNat := hMany
      simp only [bind_eq_bind, bind_eq_some_iff] at h
      obtain ⟨⟨left, index', size'⟩, hDown, hRest⟩ := h
      obtain ⟨rfl, hIdx, hSize⟩ := descend_eq hMany hDown
      rw [ih hRest, hIdx, hSize, sides_split hMany, length_cons]
      omega
    · cases h
      rw [sides_of_le (n := size.toNat) (Nat.not_lt.mp hMany)]
      rfl

/-- Both ways down end when the path is short enough. -/
theorem descent_isSome (index size : UInt64) (levels more : Nat) (hSize : size.toNat ≤ 2 ^ 63)
    (hRounds : 64 ≤ rounds)
    (hShort : levels + (sides index.toNat size.toNat).length ≤ maxInclusionPath)
    (hMore : (sides index.toNat size.toNat).length < more) :
    (∃ required, countLevels rounds more levels index size = some (.ok required)) ∧
      ∃ found, leafIsLeft rounds more index size = some found := by
  induction more generalizing index size levels with
  | zero => omega
  | succ _ ih =>
    rw [countLevels, leafIsLeft, if_neg (by omega)]
    split_ifs with hMany
    · have hMany : 1 < size.toNat := hMany
      obtain ⟨⟨left, index', size'⟩, hDown⟩ := descend_isSome index hMany hSize hRounds
      obtain ⟨rfl, hIdx, hSize'⟩ := descend_eq hMany hDown
      rw [sides_split hMany, ← hIdx, ← hSize', length_cons] at hShort hMore
      have hLess := share_lt hMany (index.toNat < TreeHash.split size.toNat)
      obtain ⟨⟨required, hCnt⟩, found, hFound⟩ :=
        ih index' size' (levels + 1) (by omega) (by omega) (by omega)
      refine ⟨⟨required, by simp [hDown, hCnt]⟩, ?_⟩
      rw [hDown]
      exact ⟨_ :: found, by simp [hFound]; rfl⟩
    · exact ⟨⟨_, rfl⟩, _, rfl⟩

theorem hash_climb (t : TreeHash (List UInt8) (List UInt8) LogDigest) (bottom : List UInt8)
    (steps : List (Bool × LogDigest)) : t.hash (t.climb bottom steps) =
      steps.foldr (fun step below => t.hash (t.join step below)) (t.hash bottom) := by
  induction steps with
  | nil => rfl
  | cons _ _ ih => rw [climb, foldr_cons, ih]

theorem computeRoot_eq (hash : HashFunction) (data : List UInt8) (found : List Bool)
    (path : List LogDigest) (hLong : found.length ≤ path.length) :
    computeRoot hash (hash (leafPrefix :: data)) found path =
      hash ((logHash hash).climb (leafPrefix :: data)
        (found.zip (path.take found.length).reverse)) := by
  have hZip : found.reverse.zip path = (found.zip (path.take found.length).reverse).reverse := by
    have hMin : min found.reverse.length path.length = found.length := by simp [hLong]
    have hReverse : (found.zip (path.take found.length).reverse).reverse =
        found.reverse.zip (path.take found.length).reverse.reverse :=
      reverse_zipWith (by simp [hLong])
    rw [reverse_reverse] at hReverse
    rw [zip_eq_zip_take_min, hMin, take_of_length_le (by simp)]
    exact hReverse.symm
  rw [computeRoot, hZip, foldl_reverse]
  refine Eq.trans ?_ (hash_climb (logHash hash) _ _).symm
  congr 1
  funext ⟨left, beside⟩ below
  cases left <;> rfl

variable {proof : InclusionProof} {hash : HashFunction}

/-- What has been checked of an accepted proof. -/
theorem verifyInclusion_ok {data : List UInt8} {root : LogDigest}
    (h : verifyInclusion rounds (some hash) (hash (leafPrefix :: data)) proof root =
      some (.ok ())) :
    proof.leafIndex.toNat < proof.treeSize.toNat ∧
      proof.steps.map Prod.fst = sides proof.leafIndex.toNat proof.treeSize.toNat ∧
      hash ((logHash hash).climb (leafPrefix :: data) proof.steps) = root := by
  unfold verifyInclusion at h
  split_ifs at h with hLong
  · cases h
  simp only [bind_eq_bind, bind_eq_some_iff] at h
  obtain ⟨result, hExpected, h⟩ := h
  cases result with
  | error => cases h
  | ok =>
    dsimp only at h
    split_ifs at h with hLen
    · cases h
    obtain ⟨found, hFound, h⟩ := bind_eq_some_iff.mp h
    split_ifs at h with hRoot
    · unfold expectedPathLength at hExpected
      split_ifs at hExpected with hZero hOutside
      · cases hExpected
      · cases hExpected
      have hCnt := countLevels_eq hExpected
      have hSides := leafIsLeft_eq hFound
      have hRoom : found.length ≤ proof.path.toList.length := by
        rw [hSides, Vector.length_toList]
        omega
      rw [computeRoot_eq _ _ _ _ hRoom, hSides] at hRoot
      refine ⟨Nat.not_le.mp hOutside, ?_, hRoot⟩
      rw [InclusionProof.steps, ← hSides]
      exact map_fst_zip (by simpa using hRoom)
    · cases h

theorem take_pathFor (hash : HashFunction) (entries : List (List UInt8)) (i : Nat)
    (hShort : ((logHash hash).auditPath entries i).length ≤ maxInclusionPath) :
    (proofFor hash entries i).path.toList.take ((logHash hash).auditPath entries i).length =
      (logHash hash).auditPath entries i := by
  refine ext_getElem (by simpa using hShort) fun j hLeft hRight => ?_
  simp [proofFor, hRight]

variable {entries : List (List UInt8)}

theorem proofFor_toNat {i : Nat} (hi : i < entries.length) (hShort : ∀ i < entries.length,
      ((logHash hash).auditPath entries i).length ≤ maxInclusionPath) :
    (proofFor hash entries i).leafIndex.toNat = i ∧
      (proofFor hash entries i).treeSize.toNat = entries.length ∧
      (proofFor hash entries i).pathLength.toNat =
        ((logHash hash).auditPath entries i).length ∧ entries.length ≤ 2 ^ 40 := by
  have hSize : entries.length ≤ 2 ^ 40 := length_le_two_pow.trans
    (Nat.pow_le_pow_right (by decide) (hShort 0 (Nat.zero_lt_of_lt hi)))
  have hPath := hShort i hi
  have hForty : maxInclusionPath = 40 := rfl
  have hWord : size = 2 ^ 64 := rfl
  refine ⟨?_, ?_, ?_, hSize⟩
  all_goals exact toNat_ofNat_of_lt' (by omega)

theorem verifyInclusion_proofFor {i : Nat} {data : List UInt8}
    (hShort : ∀ i < entries.length, ((logHash hash).auditPath entries i).length ≤ maxInclusionPath)
    (hEntry : entries[i]? = some data) (hRounds : 64 ≤ rounds) :
    verifyInclusion rounds (some hash) (hash (leafPrefix :: data)) (proofFor hash entries i)
      ((logHash hash).root entries) = some (.ok ()) := by
  have hi := (List.getElem?_eq_some_iff.mp hEntry).1
  have hPath := hShort i hi
  have hForty : maxInclusionPath = 40 := rfl
  have hTake := take_pathFor hash entries i hPath
  obtain ⟨hSteps, hClimb⟩ := climb_auditPath (t := logHash hash) hEntry
  obtain ⟨hIdx, hTree, hLen, hSize⟩ := proofFor_toNat hi hShort
  generalize proofFor hash entries i = proof at hTake hIdx hTree hLen ⊢
  obtain ⟨⟨required, hCnt⟩, found, hFound⟩ :=
    descent_isSome proof.leafIndex proof.treeSize 0 rounds (by omega) hRounds
      (by rw [hIdx, hTree]; omega) (by rw [hIdx, hTree]; omega)
  have hRequired := countLevels_eq hCnt
  have hSides := leafIsLeft_eq hFound
  rw [hIdx, hTree] at hRequired hSides
  have hExpected : expectedPathLength rounds proof.leafIndex proof.treeSize =
      some (.ok required) := by
    rw [expectedPathLength, if_neg, if_neg, hCnt]
    · rw [le_iff_toNat_le]
      omega
    · intro hZero
      rw [hZero] at hTree
      exact absurd hTree (by simp; omega)
  have hRoot : computeRoot hash (hash (leafPrefix :: data)) found proof.path.toList =
      (logHash hash).root entries := by
    rw [computeRoot_eq _ _ _ _ (by rw [hSides, ← hSteps]; simpa using hPath), hSides, ← hSteps,
      hTake]
    exact congrArg hash hClimb
  unfold verifyInclusion
  dsimp only
  rw [if_neg (by omega), hExpected]
  simp only [bind_eq_bind, bind_some]
  rw [if_neg (by omega), hFound]
  simp [hRoot]

/-- Every entry of a log whose audit paths have at most 40 steps is accepted
against the root with the proof for its index. And what is accepted against the
root of a log with any proof is an entry of the log, the one at its index if the
size is right, or two inputs of the hash that collide are among those it was
checked with. -/
theorem inclusion_proofs_exact (hash : HashFunction) {entries : List (List UInt8)}
    (hSome : entries ≠ []) :
    ((∀ i < entries.length, ((logHash hash).auditPath entries i).length ≤ maxInclusionPath) →
      ∀ (i : Nat) (data : List UInt8) (leaf : LogDigest), entries[i]? = some data →
        hashLeaf (some hash) (some data) = .ok leaf → ∀ rounds ≥ 64,
          verifyInclusion rounds (some hash) leaf (proofFor hash entries i)
            ((logHash hash).root entries) = some (.ok ())) ∧
    ∀ (rounds : Nat) (data : List UInt8) (leaf : LogDigest) (proof : InclusionProof),
      hashLeaf (some hash) (some data) = .ok leaf →
      verifyInclusion rounds (some hash) leaf proof ((logHash hash).root entries) = some (.ok ()) →
      (data ∈ entries ∧ (proof.treeSize.toNat = entries.length →
        entries[proof.leafIndex.toNat]? = some data)) ∨
      ∃ pair ∈ (logHash hash).levels data entries proof.steps,
        pair.1 ≠ pair.2 ∧ hash pair.1 = hash pair.2 := by
  have hLeaf : ∀ {data : List UInt8} {leaf : LogDigest},
      hashLeaf (some hash) (some data) = .ok leaf → leaf = hash (leafPrefix :: data) := by
    intro data leaf h
    unfold hashLeaf at h
    dsimp only at h
    split_ifs at h
    cases h
    rfl
  constructor
  · intro hShort i data leaf hEntry hHash rounds hRounds
    obtain rfl := hLeaf hHash
    exact verifyInclusion_proofFor hShort hEntry hRounds
  · intro rounds data leaf proof hHash hAcc
    obtain rfl := hLeaf hHash
    obtain ⟨hIdx, hSides, hRoot⟩ := verifyInclusion_ok hAcc
    rcases entry_or_collision (t := logHash hash) (d := data) hSome hRoot with
      ⟨hMem, hEntry⟩ | hCollides
    · exact .inl ⟨hMem, fun hSize => hEntry _ (hSize ▸ hIdx) (hSize ▸ hSides)⟩
    · exact .inr hCollides

/-- A hash that adds the bytes up, for the example below. -/
def sumHash : HashFunction := fun bytes => Vector.replicate 32 bytes.sum

/-- The second of two leaves is proved to be in the log. -/
theorem inclusion_proofs_exact_two :
    verifyInclusion 64 (some sumHash) (sumHash [leafPrefix, 2]) (proofFor sumHash [[1], [2]] 1)
      ((logHash sumHash).root [[1], [2]]) = some (.ok ()) := by
  refine (inclusion_proofs_exact sumHash (by decide)).1 (fun i hi => ?_) 1 [2] _ rfl rfl 64 le_rfl
  obtain rfl | rfl : i = 0 ∨ i = 1 := by
    simp at hi
    omega
  all_goals
    rw [auditPath, dif_neg (by decide), auditPath, dif_pos (by decide)]
    decide

/-- Above `2 ^ 63` the bit that is shifted out leaves a split of zero. -/
theorem growSplit_none (hSize : 2 ^ 63 < size.toNat) (hSplit : split.toNat = 2 ^ k) :
    growSplit size rounds split = none := by
  induction rounds generalizing split k with
  | zero => rfl
  | succ _ ih =>
    have hShift := toNat_shift hSplit
    have hk : k < 64 := (Nat.pow_lt_pow_iff_right (by decide : 1 < 2)).mp (hSplit ▸ split.toNat_lt)
    rw [growSplit]
    rcases Nat.lt_or_ge (k + 1) 64 with hNext | hLast
    · have hFits : 2 ^ (k + 1) ≤ 2 ^ 63 := Nat.pow_le_pow_right (by decide) (by omega)
      rw [Nat.mod_eq_of_lt (by omega)] at hShift
      rw [if_pos (by rw [lt_iff_toNat_lt, hShift]; omega)]
      exact ih hShift
    obtain rfl : k = 63 := by omega
    have hZero : split <<< 1 = 0 := UInt64.toNat_inj.mp hShift
    have hPos : 0 < size := lt_iff_toNat_lt.mpr (Nat.zero_lt_of_lt hSize)
    rw [hZero, if_pos hPos]
    exact growSplit_zero hPos

theorem countLevels_none (hSize : 2 ^ 63 < size.toNat) (hLevels : levels ≤ maxInclusionPath) :
    countLevels rounds more levels index size = none := by
  cases more with
  | zero => rfl
  | succ =>
    have hMany : 1 < size := lt_iff_toNat_lt.mpr (by rw [toNat_one]; omega)
    have hGrow : growSplit size rounds 1 = none := growSplit_none (k := 0) hSize rfl
    rw [countLevels, if_neg (by omega), if_pos hMany, descend, hGrow]
    rfl

theorem countLevels_le (h : countLevels rounds more levels index size = some (.ok required)) :
    required ≤ maxInclusionPath := by
  induction more generalizing index size levels with
  | zero => cases h
  | succ _ ih =>
    unfold countLevels at h
    split_ifs at h with hLong hMany
    · cases h
    · simp only [bind_eq_bind, bind_eq_some_iff] at h
      obtain ⟨next, -, hRest⟩ := h
      exact ih hRest
    · cases h
      exact Nat.not_lt.mp hLong

/-- Down to a size of one, or to a path that is too long. -/
theorem countLevels_isSome (index size : UInt64) (levels : Nat) (hSize : size.toNat ≤ 2 ^ 63)
    (hRounds : 64 ≤ rounds) (hLevels : levels ≤ maxInclusionPath + 1)
    (hMore : maxInclusionPath + 1 < levels + more) :
    ∃ result, countLevels rounds more levels index size = some result := by
  induction more generalizing index size levels with
  | zero => omega
  | succ _ ih =>
    rw [countLevels]
    split_ifs with hLong hMany
    · exact ⟨_, rfl⟩
    · have hMany : 1 < size.toNat := hMany
      obtain ⟨⟨left, index', size'⟩, hDown⟩ := descend_isSome index hMany hSize hRounds
      obtain ⟨rfl, -, hSize'⟩ := descend_eq hMany hDown
      have hLess := share_lt hMany (index.toNat < TreeHash.split size.toNat)
      obtain ⟨result, hCnt⟩ := ih index' size' (levels + 1) (by omega) (by omega) (by omega)
      exact ⟨result, by simp [hDown, hCnt]⟩
    · exact ⟨_, rfl⟩

/-- The size is one whose split can be found, or is refused before the walk. -/
def InclusionProof.Walkable (proof : InclusionProof) : Prop :=
  proof.treeSize.toNat ≤ 2 ^ 63 ∨ proof.treeSize ≤ proof.leafIndex

theorem expectedPathLength_isSome (h : proof.Walkable) :
    ∃ result, expectedPathLength 64 proof.leafIndex proof.treeSize = some result := by
  unfold expectedPathLength
  split_ifs with hZero hOutside
  · exact ⟨_, rfl⟩
  · exact ⟨_, rfl⟩
  · exact countLevels_isSome proof.leafIndex proof.treeSize 0 (h.resolve_right hOutside) le_rfl
      (Nat.zero_le _) (by decide)

theorem expectedPathLength_ok
    (h : expectedPathLength rounds proof.leafIndex proof.treeSize = some (.ok required)) :
    required = (sides proof.leafIndex.toNat proof.treeSize.toNat).length ∧
      required ≤ maxInclusionPath ∧ ¬ proof.treeSize ≤ proof.leafIndex := by
  unfold expectedPathLength at h
  split_ifs at h with hZero hOutside
  · cases h
  · cases h
  · exact ⟨(countLevels_eq h).trans (Nat.zero_add _), countLevels_le h, hOutside⟩

theorem expectedPathLength_none (h : ¬ proof.Walkable) (rounds : Nat) :
    expectedPathLength rounds proof.leafIndex proof.treeSize = none := by
  obtain ⟨hSize, hOutside⟩ := not_or.mp h
  rw [expectedPathLength, if_neg, if_neg hOutside]
  · exact countLevels_none (Nat.not_le.mp hSize) (by decide)
  · intro hZero
    simp [hZero] at hSize

/-- The verifier finishes exactly with the sizes up to `2 ^ 63`, with those it
refuses for their index, and where it does not look at the size. The sides it
records, and the digests it reads, are then within the path. -/
theorem verification_ends_iff (hash : Option HashFunction) (leaf root : LogDigest)
    (proof : InclusionProof) :
    ((∃ rounds, (expectedPathLength rounds proof.leafIndex proof.treeSize).isSome) ↔
      proof.Walkable) ∧
    ((∃ rounds, (verifyInclusion rounds hash leaf proof root).isSome) ↔
      hash = none ∨ maxInclusionPath < proof.pathLength.toNat ∨ proof.Walkable) ∧
    ∀ rounds required found,
      expectedPathLength rounds proof.leafIndex proof.treeSize = some (.ok required) →
      leafIsLeft rounds rounds proof.leafIndex proof.treeSize = some found →
        found.length ≤ maxInclusionPath := by
  have hForty : maxInclusionPath = 40 := rfl
  refine ⟨⟨?_, fun h => ⟨64, ?_⟩⟩, ⟨?_, fun h => ⟨64, ?_⟩⟩, ?_⟩
  · rintro ⟨rounds, hSome⟩
    by_contra hNot
    rw [expectedPathLength_none hNot] at hSome
    cases hSome
  · obtain ⟨result, hRes⟩ := expectedPathLength_isSome h
    rw [hRes]
    rfl
  · rintro ⟨rounds, hSome⟩
    by_contra hNot
    simp only [not_or] at hNot
    obtain ⟨hHash, hShort, hEndless⟩ := hNot
    obtain ⟨f, rfl⟩ := ne_none_iff_exists'.mp hHash
    unfold verifyInclusion at hSome
    dsimp only at hSome
    rw [if_neg hShort, expectedPathLength_none hEndless] at hSome
    cases hSome
  · cases hash with
    | none => rfl
    | some =>
      unfold verifyInclusion
      split_ifs with hLong
      · rfl
      · have hWalk : proof.Walkable := by
          rcases h with h | h | h
          · cases h
          · exact absurd h hLong
          · exact h
        obtain ⟨result, hRes⟩ := expectedPathLength_isSome hWalk
        rw [hRes]
        simp only [bind_eq_bind, bind_some]
        cases result with
        | error => rfl
        | ok =>
          obtain ⟨hLevels, hShort, hOutside⟩ := expectedPathLength_ok hRes
          dsimp only
          split_ifs with hLen
          · rfl
          · obtain ⟨-, found, hFound⟩ := descent_isSome proof.leafIndex proof.treeSize 0 64
              (hWalk.resolve_right hOutside) le_rfl (by omega) (by omega)
            rw [hFound]
            simp only [bind_some]
            split_ifs <;> rfl
  · intro rounds required found hExpected hFound
    obtain ⟨hLevels, hShort, -⟩ := expectedPathLength_ok hExpected
    rw [leafIsLeft_eq hFound]
    omega

/-- One more than `2 ^ 63` entries, and the first of them. -/
theorem two_pow_63_entries_never_end :
    ¬ ∃ rounds, (expectedPathLength rounds 0 0x8000000000000001).isSome := by
  have hOutside : ¬ (0x8000000000000001 : UInt64) ≤ 0 := by decide
  rintro ⟨rounds, hSome⟩
  rw [expectedPathLength, if_neg (by decide), if_neg hOutside,
    countLevels_none (by decide) (Nat.zero_le _)] at hSome
  cases hSome

end Enml.OsBoot
