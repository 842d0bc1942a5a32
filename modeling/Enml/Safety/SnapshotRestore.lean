import Enml.Invariant.NamespaceSnapshot

/-! A namespace snapshot gives back exactly what has been sealed, or changes
nothing. -/
namespace Enml.OsStorage.Snapshots

open Enml.Core Enml.OsKeys ProtectedNamespaceRegistry List ProtectedNamespaceSnapshotErrors
  ProtectedNamespaceSnapshotHeaderV1

section

variable {r target : ProtectedNamespaceRegistry}

/-- The entries of one user are free of duplicates. -/
theorem distinct_userEntries (h : r.Sound) (user : UserId) :
    (r.userEntries user).Pairwise Distinct := by
  have hNames : r.live.Pairwise fun a b => a.name ≠ b.name := pairwise_map.mp h.names
  have hObjects : r.live.Pairwise fun a b => a.object ≠ b.object := pairwise_map.mp h.objects
  rw [userEntries_eq]
  refine ((hNames.and hObjects).filter _).imp_of_mem ?_
  intro a b ha hb hPair
  have hUser : a.user = b.user := by
    have ha := (mem_filter.mp ha).2
    have hb := (mem_filter.mp hb).2
    rw [beq_iff_eq] at ha hb
    exact ha.trans hb.symm
  refine ⟨?_, ?_⟩
  · rintro ⟨hPrinc, hPath⟩
    exact hPair.1 (Prod.ext hPrinc (Prod.ext hUser hPath))
  · intro hObject
    exact hPair.2 (Prod.ext hUser hObject)

/-- What a replacement leaves of each user. -/
theorem userEntries_replaced {user : UserId} {entries : List ProtectedNamespaceEntry}
    (hOwned : ∀ e ∈ entries, e.valid = true ∧ e.user = user)
    (hLive : r.live = (target.live.filter fun e => e.user != user) ++ entries) :
    r.userEntries user = entries ∧
      ∀ other, other ≠ user → r.userEntries other = target.userEntries other := by
  constructor
  · have hNone : (target.live.filter fun e => e.user != user).filter (fun e => e.user == user) =
        [] := by
      rw [filter_filter, filter_eq_nil_iff]
      intro e _
      cases hUser : e.user == user <;> simp_all
    rw [userEntries_eq, hLive, filter_append, hNone, nil_append, filter_eq_self]
    intro e he
    rw [beq_iff_eq]
    exact (hOwned e he).2
  · intro other hOther
    have hNone : entries.filter (fun e => e.user == other) = [] := by
      rw [filter_eq_nil_iff]
      intro e he
      rw [beq_iff_eq, (hOwned e he).2]
      exact Ne.symm hOther
    rw [userEntries_eq, userEntries_eq, hLive, filter_append, hNone, append_nil, filter_filter]
    refine filter_congr fun e _ => ?_
    cases hUser : e.user == other with
    | false => rfl
    | true =>
      rw [beq_iff_eq] at hUser
      rw [hUser, Bool.true_and, bne_iff_ne]
      exact hOther

end

/-- Snapshots restore exactly and atomically. Over every run of the registry, names and
objects stay unique, and what has been sealed of it is restored, with matching evidence
and room for it, as it was sealed, while every other user keeps what the target had. An
opening that fails changes nothing. The plaintexts that are accepted are those that are
written for valid entries, as many as the header says. -/
theorem snapshots_restore_exactly (provider : KeyProvider) (hInverts : provider.Inverts) :
    (∀ (ops : List NamespaceOp) (r : ProtectedNamespaceRegistry), r = Run.after step {} ops →
        (r.live.map fun e => e.name).Nodup ∧ (r.live.map fun e => e.object).Nodup ∧
        ∀ key header scratch nonce output after size,
          sealSnapshot provider key header r scratch nonce output = (after, .ok size) →
          ∀ (evidence : ProtectedNamespaceFreshnessEvidence) (target : ProtectedNamespaceRegistry)
            (room : List UInt8), Matches evidence header →
            maxProtectedNamespaceSnapshotPlaintextBytes ≤ room.length →
            (target.live.filter fun e => e.user != header.user).length +
              (r.userEntries header.user).length ≤ maxProtectedNamespaceEntries →
            ∃ restored, openAndRestore provider key evidence (after.take size) room target =
                (restored, .ok header) ∧
              restored.userEntries header.user = r.userEntries header.user ∧
              ∀ user, user ≠ header.user → restored.userEntries user = target.userEntries user) ∧
    (∀ key evidence record room r after e,
      openAndRestore provider key evidence record room r = (after, .error e) → after = r) ∧
    ∀ (header : ProtectedNamespaceSnapshotHeaderV1) (plaintext out : List UInt8)
      (entries : List ProtectedNamespaceEntry), plaintext.length ≤ out.length →
      (decodeEntries header plaintext maxProtectedNamespaceEntries = .ok entries ↔
        header.entryCount.toNat ≤ maxProtectedNamespaceEntries ∧
          entries.length = header.entryCount.toNat ∧
          ∃ after, encodeEntries entries header.user out = (after, .ok plaintext.length) ∧
            after.take plaintext.length = plaintext) := by
  refine ⟨?_, ?_, ?_⟩
  · rintro ops r rfl
    have hSound := sound_of_run ops
    refine ⟨hSound.names, hSound.objects, ?_⟩
    intro key header scratch nonce output after size hSeal evidence target room hMatches
      hScratch hRoom
    obtain ⟨tag, ciphertext, hSealed, hRec⟩ := of_sealSnapshot hSeal
    have hOpen := openSnapshot_recordBytes hInverts hSealed hMatches hScratch
    have hUser : header.user ≠ 0 := by
      have hValid := hSealed.header
      simp only [valid, Bool.and_eq_true, bne_iff_ne] at hValid
      exact hValid.1.1.1.1
    obtain ⟨restored, hReplaced, hLive⟩ := replaceUserEntries_of
      ⟨hUser, hSealed.owned, distinct_userEntries hSound header.user, hRoom⟩
    refine ⟨restored, ?_, userEntries_replaced hSealed.owned hLive⟩
    rw [hRec, openAndRestore, hOpen]
    dsimp only
    rw [hReplaced]
  · intro key evidence record room r after e hFailed
    rcases openAndRestore_cases provider key evidence record room r with
      ⟨e', hErr⟩ | ⟨_, _, _, _, _, hOk⟩
    · rw [hErr] at hFailed
      cases hFailed
      rfl
    · rw [hOk] at hFailed
      cases hFailed
  · intro header plaintext out entries hRoom
    rw [decodeEntries_eq_ok_iff]
    refine and_congr_right fun _ => and_congr_right fun _ => ?_
    constructor
    · rintro ⟨hOwned, rfl⟩
      exact ⟨_, encodeEntries_eq_ok_iff.mpr ⟨hOwned, hRoom, rfl, rfl⟩, take_written rfl⟩
    · rintro ⟨after, hEncoded, hTake⟩
      obtain ⟨hOwned, -, rfl, hSize⟩ := encodeEntries_eq_ok_iff.mp hEncoded
      rw [hSize, take_written rfl] at hTake
      exact ⟨hOwned, hTake.symm⟩

/-- A tag that depends on everything that is authenticated. -/
def checksum (key : ProviderKeyReference) (envelopeAad callerAad plaintext : List UInt8)
    (nonce : AeadNonce) : AeadTag :=
  Vector.ofFn fun i =>
    (envelopeAad ++ callerAad ++ plaintext ++ nonce.toList).sum + key.toUInt8 + UInt8.ofNat i

/-- A provider without secrecy, which refuses what does not carry its tag. -/
def checksumProvider : KeyProvider where
  sealWith key _ envelopeAad callerAad plaintext nonce :=
    .ok (plaintext, checksum key envelopeAad callerAad plaintext nonce)
  openWith key _ envelopeAad callerAad nonce tag ciphertext :=
    if tag = checksum key envelopeAad callerAad ciphertext nonce then .ok ciphertext
    else .error (keyError OsKeys.Errors.accessDenied)

theorem checksumProvider_inverts : checksumProvider.Inverts := by
  intro key profile envelopeAad callerAad plaintext nonce ciphertext tag h
  have hMade : (plaintext, checksum key envelopeAad callerAad plaintext nonce) =
      (ciphertext, tag) := Except.ok.inj h
  rw [Prod.mk.injEq] at hMade
  obtain ⟨rfl, rfl⟩ := hMade
  simp [checksumProvider]

def notePath : RelativePath := ⟨[0x6E, 0x2F, 0x61], .inr rfl⟩

def listPath : RelativePath := ⟨[0x6C], .inr rfl⟩

def noteOps : List NamespaceOp := [.create ⟨0, 1⟩ 7 notePath (.ok ⟨0, 9⟩),
  .create ⟨0, 1⟩ 8 notePath (.ok ⟨0, 9⟩), .create ⟨0, 2⟩ 7 listPath (.ok ⟨0, 4⟩),
  .publishGeneration ⟨0, 1⟩ 7 notePath 1 5]

def noteEntry : ProtectedNamespaceEntry where
  principal := ⟨0, 1⟩
  user := 7
  path := notePath
  objectId := ⟨0, 9⟩
  generation := 5

def listEntry : ProtectedNamespaceEntry where
  principal := ⟨0, 2⟩
  user := 7
  path := listPath
  objectId := ⟨0, 4⟩
  generation := 1

def noteHeader : ProtectedNamespaceSnapshotHeaderV1 where
  user := 7
  securityEpoch := 3
  sequence := 4
  entryCount := 2

theorem userEntries_note : (Run.after step {} noteOps).userEntries 7 = [noteEntry, listEntry] := by
  decide +kernel

def noteEvidence : ProtectedNamespaceFreshnessEvidence where
  user := 7
  currentSecurityEpoch := 3
  minimumSequence := 2

/-- Another user creates an entry. -/
def otherOps : List NamespaceOp := [.create ⟨0, 3⟩ 8 listPath (.ok ⟨0, 2⟩)]

/-- Two entries are sealed, and restored beside the entry of another user. -/
theorem note_is_restored : ∃ output size restored, sealSnapshot checksumProvider 1 noteHeader
        (Run.after step {} noteOps)
        (replicate maxProtectedNamespaceSnapshotPlaintextBytes 0) (Vector.replicate _ 0)
        (replicate 400 0) = (output, .ok size) ∧
      openAndRestore checksumProvider 1 noteEvidence (output.take size)
        (replicate maxProtectedNamespaceSnapshotPlaintextBytes 0) (Run.after step {} otherOps) =
          (restored, .ok noteHeader) ∧
      restored.userEntries 7 = [noteEntry, listEntry] ∧
      restored.userEntries 8 = (Run.after step {} otherOps).userEntries 8 := by
  have hSealed : Sealed checksumProvider 1 noteHeader
      ((Run.after step {} noteOps).userEntries noteHeader.user)
      (Vector.replicate _ 0) (checksum 1 (layout (snapshotHeaderFields noteHeader)) []
        (entriesBytes [noteEntry, listEntry]) (Vector.replicate _ 0))
      (entriesBytes [noteEntry, listEntry]) := by
    rw [show noteHeader.user = 7 from rfl, userEntries_note]
    exact ⟨by decide, by decide, rfl, by decide, rfl, by decide, rfl⟩
  have hScratch : maxProtectedNamespaceSnapshotPlaintextBytes ≤
      (replicate maxProtectedNamespaceSnapshotPlaintextBytes (0 : UInt8)).length :=
    le_of_eq length_replicate.symm
  have hOutput : protectedNamespaceSnapshotOverheadBytes +
      (entriesBytes [noteEntry, listEntry]).length ≤ (replicate 400 (0 : UInt8)).length := by
    rw [length_replicate]
    decide
  have hRoom : ((Run.after step {} otherOps).live.filter fun e =>
      e.user != noteHeader.user).length +
      ((Run.after step {} noteOps).userEntries noteHeader.user).length ≤
        maxProtectedNamespaceEntries := by
    rw [show noteHeader.user = 7 from rfl, userEntries_note]
    decide +kernel
  obtain ⟨output, hSeal⟩ := exists_sealSnapshot hSealed hScratch hOutput
  obtain ⟨restored, hOpen, hEnts, hOthers⟩ :=
    ((snapshots_restore_exactly checksumProvider checksumProvider_inverts).1 noteOps _ rfl).2.2
      _ _ _ _ _ _ _ hSeal noteEvidence (Run.after step {} otherOps) _
      ⟨rfl, rfl, by decide, by decide⟩ hScratch hRoom
  exact ⟨output, _, restored, hSeal, hOpen, hEnts.trans userEntries_note, hOthers 8 (by decide)⟩

/-- The plaintext that entries take up. -/
def snapshotBytes (entries : List ProtectedNamespaceEntry) : Nat :=
  (entries.map fun e => entryHeaderBytes + e.path.view.length).sum

theorem length_entriesBytes (entries : List ProtectedNamespaceEntry) :
    (entriesBytes entries).length = snapshotBytes entries := by
  rw [entriesBytes, length_flatMap, snapshotBytes]
  exact congrArg sum (map_congr_left fun e _ => length_entryBytes e)

def tooLarge : Error := protectedNamespaceSnapshotError ProtectedNamespaceSnapshotErrors.tooLarge

section

variable {entries : List ProtectedNamespaceEntry} {user : UserId} {out after : List UInt8}
  {r : ProtectedNamespaceRegistry} {header : ProtectedNamespaceSnapshotHeaderV1}
  {key : ProviderKeyReference} {scratch output : List UInt8}

/-- Valid entries of the user are refused for want of room only. -/
theorem encodeEntriesFrom_error {cursor : Nat} {e : Error}
    (hOwned : ∀ e ∈ entries, e.valid = true ∧ e.user = user)
    (h : encodeEntriesFrom user entries cursor out = (after, .error e)) : e = tooLarge := by
  induction entries generalizing cursor out with
  | nil => cases h
  | cons entry _ ih =>
    obtain ⟨⟨hValid, hUser⟩, hRest⟩ := forall_mem_cons.mp hOwned
    have hPath := RelativePath.length_view (path_of_valid hValid)
    have hWord : maxRelativePathBytes < 0xFFFF := by decide
    have hNotEmpty : entry.path.view ≠ [] := RelativePath.view_ne_nil (path_of_valid hValid)
    have hFirst : ∀ {last e}, encodeEntry entry user cursor out = (last, .error e) →
        e = tooLarge := by
      intro last e hErr
      unfold encodeEntry at hErr
      rw [if_neg (by simp [hValid, hUser]), if_neg (by simp [hNotEmpty]; omega)] at hErr
      split_ifs at hErr <;> cases hErr
      rfl
    rw [encodeEntriesFrom] at h
    cases hStep : encodeEntry entry user cursor out with
    | mk _ result =>
      cases result with
      | error =>
        rw [Call.bind_of_error hStep] at h
        cases h
        exact hFirst hStep
      | ok =>
        rw [Call.bind_of_ok hStep] at h
        exact ih hRest h

/-- With spans of full size and a header that fits, sealing fails with `too_large`
exactly when the entries do. -/
theorem sealSnapshot_tooLarge_iff (provider : KeyProvider) (nonce : AeadNonce) (hSound : r.Sound)
    (hKey : key ≠ 0) (hHeader : header.valid = true)
    (hCnt : (r.userEntries header.user).length = header.entryCount.toNat)
    (hScratch : maxProtectedNamespaceSnapshotPlaintextBytes ≤ scratch.length)
    (hOutput : maxProtectedNamespaceSnapshotRecordBytes ≤ output.length) :
    (sealSnapshot provider key header r scratch nonce output).2 = .error tooLarge ↔
      maxProtectedNamespaceSnapshotPlaintextBytes < snapshotBytes (r.userEntries header.user) := by
  have hRec : maxProtectedNamespaceSnapshotRecordBytes =
      protectedNamespaceSnapshotOverheadBytes + maxProtectedNamespaceSnapshotPlaintextBytes := rfl
  have hOwned : ∀ e ∈ r.userEntries header.user, e.valid = true ∧ e.user = header.user := by
    intro e he
    rw [userEntries_eq, mem_filter, beq_iff_eq] at he
    exact ⟨hSound.valid e he.1, he.2⟩
  have hParts := hHeader
  simp only [valid, Bool.and_eq_true, bne_iff_ne, decide_eq_true_eq] at hParts
  have hCopied : r.copyUserEntries header.user maxProtectedNamespaceEntries =
      .ok (r.userEntries header.user) := by
    rw [copyUserEntries, if_neg hParts.1.1.1.1, if_neg (by omega)]
  have hFirst : ensure (key != 0 && header.valid &&
      decide (maxProtectedNamespaceSnapshotPlaintextBytes ≤ scratch.length) &&
      decide (protectedNamespaceSnapshotOverheadBytes ≤ output.length))
      (protectedNamespaceSnapshotError invalid) = .ok () := by
    simp only [ensure_eq_ok_iff, Bool.and_eq_true, bne_iff_ne, decide_eq_true_eq]
    exact ⟨⟨⟨hKey, hHeader⟩, hScratch⟩, by omega⟩
  have hSnd : ensure ((r.userEntries header.user).length == header.entryCount.toNat)
      (protectedNamespaceSnapshotError invalid) = .ok () := by
    rw [ensure_eq_ok_iff, beq_iff_eq]
    exact hCnt
  have hLen : (entriesBytes (r.userEntries header.user)).length ≤
      (scratch.take maxProtectedNamespaceSnapshotPlaintextBytes).length ↔
        snapshotBytes (r.userEntries header.user) ≤
          maxProtectedNamespaceSnapshotPlaintextBytes := by
    rw [length_entriesBytes, length_take, min_eq_left hScratch]
  cases hEncode : encodeEntries (r.userEntries header.user) header.user
      (scratch.take maxProtectedNamespaceSnapshotPlaintextBytes) with
  | mk filled result =>
    have hPlain : snapshotPlaintext key header r scratch output = result >>= fun size => ensure
        (decide (protectedNamespaceSnapshotOverheadBytes + size ≤ output.length)) tooLarge >>=
          fun _ => .ok (filled.take size) := by
      unfold snapshotPlaintext
      rw [hFirst]
      rw [hCopied]
      change (ensure _ _ >>= _) = _
      rw [hSnd, hEncode]
      cases result <;> rfl
    unfold sealSnapshot
    cases result with
    | error =>
      rw [hPlain, encodeEntriesFrom_error hOwned hEncode]
      refine iff_of_true rfl (Nat.lt_of_not_le fun hSmall => ?_)
      rw [encodeEntries_eq_ok_iff.mpr ⟨hOwned, hLen.mpr hSmall, rfl, rfl⟩] at hEncode
      cases hEncode
    | ok size =>
      obtain ⟨-, hSmall, -, hSize⟩ := encodeEntries_eq_ok_iff.mp hEncode
      rw [hLen] at hSmall
      rw [length_entriesBytes] at hSize
      have hRoom : ensure (decide (protectedNamespaceSnapshotOverheadBytes + size ≤ output.length))
          tooLarge = .ok () := by
        rw [ensure_eq_ok_iff, decide_eq_true_eq]
        omega
      change _ = (ensure _ _ >>= _) at hPlain
      rw [hRoom] at hPlain
      rw [hPlain]
      refine iff_of_false ?_ (Nat.not_lt.mpr hSmall)
      dsimp only [bind, Except.bind]
      rw [encodeHeader_eq hHeader (length_headerSpan (show _ + 0 ≤ _ by omega))]
      dsimp only
      cases provider.sealWith key .aes256GcmV1 _ [] _ nonce with
      | error => rintro ⟨⟩
      | ok =>
        dsimp only
        split_ifs
        all_goals rintro ⟨⟩

end

/-- Every reachable namespace can be sealed exactly when its entries fit the plaintext. -/
theorem sealable_iff_fits (ops : List NamespaceOp) (provider : KeyProvider)
    {key : ProviderKeyReference} {header : ProtectedNamespaceSnapshotHeaderV1}
    {scratch output : List UInt8} (nonce : AeadNonce) (hKey : key ≠ 0)
    (hHeader : header.valid = true)
    (hCnt : ((Run.after step {} ops).userEntries header.user).length = header.entryCount.toNat)
    (hScratch : maxProtectedNamespaceSnapshotPlaintextBytes ≤ scratch.length)
    (hOutput : maxProtectedNamespaceSnapshotRecordBytes ≤ output.length) :
    (sealSnapshot provider key header (Run.after step {} ops) scratch nonce output).2 ≠
        .error tooLarge ↔
      snapshotBytes ((Run.after step {} ops).userEntries header.user) ≤
        maxProtectedNamespaceSnapshotPlaintextBytes := by
  rw [ne_eq, sealSnapshot_tooLarge_iff provider nonce (sound_of_run ops) hKey hHeader hCnt
    hScratch hOutput, Nat.not_lt]

/-- Two short entries fit. -/
theorem note_is_sealed :
    (sealSnapshot checksumProvider 1 noteHeader (Run.after step {} noteOps)
      (replicate maxProtectedNamespaceSnapshotPlaintextBytes 0) (Vector.replicate _ 0)
      (replicate maxProtectedNamespaceSnapshotRecordBytes 0)).2 ≠ .error tooLarge := by
  refine (sealable_iff_fits noteOps checksumProvider _ (by decide) (by decide) ?_ ?_ ?_).mpr ?_
  · rw [show noteHeader.user = 7 from rfl, userEntries_note]
    rfl
  · rw [length_replicate]
  · rw [length_replicate]
  · rw [show noteHeader.user = 7 from rfl, userEntries_note]
    decide

/-- Three segments of 255 bytes and one of 250. -/
def longPath : RelativePath where
  view := let segment := replicate 255 0x61
    segment ++ slash :: segment ++ slash :: segment ++ slash :: replicate 250 0x61
  parsed := .inr (by decide +kernel)

/-- As many entries as fit the table, under one long path. -/
def longEntries : List ProtectedNamespaceEntry :=
  (range 64).map fun i =>
    { principal := ⟨0, UInt64.ofNat i + 1⟩, user := 7, path := longPath
      objectId := ⟨0, UInt64.ofNat i + 1⟩, generation := 1 }

/-- A namespace full of the longest paths passes every check and does not fit a snapshot. -/
theorem full_namespace_too_large : ¬ ∀ (ops : List NamespaceOp) (provider : KeyProvider)
    (key : ProviderKeyReference) (header : ProtectedNamespaceSnapshotHeaderV1)
    (scratch output : List UInt8) (nonce : AeadNonce), key ≠ 0 → header.valid = true →
    ((Run.after step {} ops).userEntries header.user).length = header.entryCount.toNat →
    maxProtectedNamespaceSnapshotPlaintextBytes ≤ scratch.length →
    maxProtectedNamespaceSnapshotRecordBytes ≤ output.length →
      (sealSnapshot provider key header (Run.after step {} ops) scratch nonce output).2 ≠
        .error tooLarge := by
  intro hAll
  obtain ⟨hOwned, hDist⟩ :=
    checkReplacement_eq_ok_iff.mp (by decide +kernel : checkReplacement 7 longEntries = .ok ())
  have hReplaces : Replaces 7 longEntries {} := ⟨by decide, hOwned, hDist, by decide +kernel⟩
  obtain ⟨after, hAfter, hLive⟩ := replaceUserEntries_of hReplaces
  have hRun : Run.after step {} [.replaceUserEntries 7 longEntries] = after :=
    congrArg Prod.fst hAfter
  have hEnts := (userEntries_replaced hReplaces.owned hLive).1
  refine hAll [.replaceUserEntries 7 longEntries] checksumProvider 1
    { noteHeader with entryCount := 64 } (replicate maxProtectedNamespaceSnapshotPlaintextBytes 0)
    (replicate maxProtectedNamespaceSnapshotRecordBytes 0) (Vector.replicate _ 0)
    (by decide) (by decide) ?_ (by rw [length_replicate]) (by rw [length_replicate]) ?_
  · rw [hRun, show noteHeader.user = 7 from rfl, hEnts]
    rfl
  · rw [sealSnapshot_tooLarge_iff _ _ (sound_of_run _) (by decide) (by decide),
      hRun, show noteHeader.user = 7 from rfl, hEnts]
    · decide +kernel
    · rw [hRun, show noteHeader.user = 7 from rfl, hEnts]
      rfl
    all_goals rw [length_replicate]

end Enml.OsStorage.Snapshots
