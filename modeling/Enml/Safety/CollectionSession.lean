import Enml.Invariant.CollectionRecords

/-! The records of a collection session between its two ends. Each has one encoding, and a
client is only handed the window of the revision it has asked for. -/
namespace Enml.OsCollection

open Enml.Core Enml.OsIpc Enml.OsUi Encoder List

/-- A record has one encoding. What an encoder accepts is returned by the decoder, what a
decoder accepts is what the encoder writes, and the prefix announces the size. -/
structure OneEncoding {α : Type} (encode : α → Call Encoder Nat) (decode : List UInt8 → Result α)
    (SameFields : α → α → Prop) : Prop where
  returned : ∀ value out e n, encode value { output := out } = (e, .ok n) →
    n = e.written.length ∧ (readU16Le e.written 2).toNat = n ∧
      ∃ again, decode e.written = .ok again ∧ SameFields value again
  canonical : ∀ payload value, decode payload = .ok value →
    (readU16Le payload 2).toNat = payload.length ∧ ∀ out : List UInt8, payload.length ≤ out.length →
        ∃ e, encode value { output := out } = (e, .ok payload.length) ∧ e.written = payload

/-- The bytes of a record settle both directions. -/
theorem oneEncoding_of_bytes {α : Type} {encode : α → Call Encoder Nat}
    {decode : List UInt8 → Result α} {SameFields : α → α → Prop} {valid : α → Bool}
    {bytes : α → List UInt8} (Plain : α → Prop)
    (hEncode : ∀ value, Encodes (encode value) (valid value) (bytes value))
    (hDecode : ∀ payload value,
      decode payload = .ok value ↔ (Plain value ∧ valid value = true) ∧ payload = bytes value)
    (hAgain : ∀ value, valid value = true → ∃ again, (Plain again ∧ valid again = true) ∧
      bytes again = bytes value ∧ SameFields value again)
    (hSize : ∀ value, valid value = true →
      (readU16Le (bytes value) 2).toNat = (bytes value).length) :
    OneEncoding encode decode SameFields where
  returned := by
    intro value out e n h
    obtain ⟨hValid, -, rfl, rfl⟩ := (hEncode value out e n).mp h
    obtain ⟨again, hPlain, hSame, hFields⟩ := hAgain value hValid
    rw [written_wrote]
    exact ⟨rfl, hSize value hValid, again, (hDecode _ _).mpr ⟨hPlain, hSame.symm⟩, hFields⟩
  canonical := by
    intro payload value h
    obtain ⟨⟨-, hValid⟩, rfl⟩ := (hDecode payload value).mp h
    refine ⟨hSize value hValid, fun out hRoom => ⟨wrote out (bytes value), ?_, ?_⟩⟩
    · exact (hEncode value out _ _).mpr ⟨hValid, hRoom, rfl, rfl⟩
    · rw [written_wrote]

/-- The form it has when the decoder returns the very value. -/
theorem oneEncoding_of_exact {α : Type} {encode : α → Call Encoder Nat}
    {decode : List UInt8 → Result α} {valid : α → Bool} {bytes : α → List UInt8}
    (hEncode : ∀ value, Encodes (encode value) (valid value) (bytes value))
    (hDecode : ∀ payload value,
      decode payload = .ok value ↔ valid value = true ∧ payload = bytes value)
    (hSize : ∀ value, (readU16Le (bytes value) 2).toNat = (bytes value).length) :
    OneEncoding encode decode (fun value again => again = value) :=
  oneEncoding_of_bytes (fun _ => True) hEncode
    (fun payload value => by rw [hDecode, true_and])
    (fun value hValid => ⟨value, ⟨trivial, hValid⟩, rfl, rfl⟩) fun value _ => hSize value

/-- The changes that count are the same. -/
structure SameChanges (c d : CollectionChangeSet) : Prop where
  fromRevision : d.fromRevision = c.fromRevision
  toRevision : d.toRevision = c.toRevision
  oldItemCount : d.oldItemCount = c.oldItemCount
  newItemCount : d.newItemCount = c.newItemCount
  count : d.count = c.count
  applied : d.applied = c.applied

/-- The labels are compared up to their lengths. -/
structure SameItem (item again : CollectionPublishedItem) : Prop where
  itemIndex : again.itemIndex = item.itemIndex
  itemKey : again.itemKey = item.itemKey
  enabled : again.content.enabled = item.content.enabled
  selected : again.content.selected = item.content.selected
  primaryLength : again.content.primaryLabel.length = item.content.primaryLabel.length
  primaryText : again.content.primaryLabel.view = item.content.primaryLabel.view
  secondaryLength : again.content.secondaryLabel.length = item.content.secondaryLabel.length
  secondaryText : again.content.secondaryLabel.view = item.content.secondaryLabel.view

structure SameWindow (w v : CollectionContentWindow) : Prop where
  revision : v.revision = w.revision
  window : v.window = w.window
  count : v.count = w.count
  items : List.Forall₂ SameItem w.published v.published

theorem same_trimItem {item : CollectionPublishedItem} (h : LabelsValid item) :
    SameItem item (trimItem item) := by
  obtain ⟨hView, hLen, -⟩ := labelOf_valid h.primary
  obtain ⟨hView', hLen', -⟩ := labelOf_valid h.secondary
  constructor
  all_goals simp only [trimItem, hLen, hView, hLen', hView']

theorem same_map_trimItem {items : List CollectionPublishedItem}
    (h : ∀ item ∈ items, LabelsValid item) : List.Forall₂ SameItem items (items.map trimItem) := by
  rw [forall₂_map_right_iff, forall₂_same]
  exact fun item hItem => same_trimItem (h item hItem)

theorem oneEncoding_changeSet : OneEncoding encodeChangeSetV1 decodeChangeSetV1 SameChanges := by
  refine oneEncoding_of_bytes PlainChanges encodes_changeSet
    (fun _ _ => decodeChangeSetV1_iff) ?_ ?_
  · intro c hValid
    obtain ⟨hPlain, hBytes, hApplied⟩ := trimChanges_spec hValid
    exact ⟨_, hPlain, hBytes, rfl, rfl, rfl, rfl, rfl, hApplied⟩
  intro c hValid
  have hCnt := count_le_of_valid hValid
  rw [length_changeSetBytes hCnt]
  exact announced_eq ((changeSetSize_le hCnt).trans (by decide)) _

theorem oneEncoding_contentWindow :
    OneEncoding encodeContentWindowV1 decodeContentWindowV1 SameWindow := by
  refine oneEncoding_of_bytes PlainWindow encodes_contentWindow
    (fun _ _ => decodeContentWindowV1_iff) ?_ ?_
  · intro w hValid
    have hParts := contentWindowParts hValid
    obtain ⟨hPlain, hBytes⟩ := trimWindow_spec hValid
    refine ⟨trimWindow w, hPlain, hBytes, ?_, ?_, ?_, ?_⟩
    iterate 3 rw [trimWindow]
    · rw [published_trimWindow hParts.few]
      exact same_map_trimItem hParts.labels
  · intro w hValid
    rw [length_contentWindowBytes]
    exact announced_eq ((contentWindowParts hValid).size_le.trans (by decide)) _

/-- The items of a window of a revision, one after the other. -/
structure Delivered (revision : UInt64) (window : CollectionWindow)
    (w : CollectionContentWindow) : Prop where
  ofRevision : w.revision = revision
  ofWindow : w.window = window
  complete : w.published.length = window.count.toNat
  indices : ∀ k item, w.published[k]? = some item →
    item.itemIndex.toNat = window.firstIndex.toNat + k
  keys : (w.published.map fun item => item.itemKey).Nodup
  someKey : ∀ item ∈ w.published, item.itemKey ≠ 0

variable {w : CollectionContentWindow}

theorem delivered_of_valid (h : contentWindowValid w = true) : Delivered w.revision w.window w := by
  have hParts := contentWindowParts h
  obtain ⟨hIndices, hItems, hKeys⟩ := itemsValid_spec hParts.items
  have hLen := length_published hParts.few
  refine ⟨rfl, rfl, ?_, ?_, ?_, fun item hItem => (hItems item hItem).1⟩
  · rw [hLen, hParts.count]
  · intro k item hItem
    have hk := (List.getElem?_eq_some_iff.mp hItem).1
    have hFew := hParts.few
    have hFirst := hParts.first
    rw [hLen] at hk
    unfold maxMaterializedCollectionItems maxUiChildrenPerNode at hFew
    unfold maxCollectionItems at hFirst
    rw [hIndices k item hItem, UInt32.toNat_add, UInt32.toNat_ofNat', length_nil]
    omega
  · exact hKeys nodup_nil

/-- Whatever comes back over the connection, it is compared with the request. -/
theorem contentWindow_eq_ok {session : CollectionSessionId}
    {call : UInt32 → UInt32 → List UInt8 → Result Response} {revision : UInt64}
    {window : CollectionWindow}
    (h : contentWindow session call revision window = .ok w) :
    contentWindowValid w = true ∧ w.revision = revision ∧ w.window = window := by
  rw [contentWindow] at h
  obtain ⟨-, h⟩ := guard_ok h
  split at h
  · cases h
  obtain ⟨response, -, h⟩ := bind_eq_ok_iff.mp h
  obtain ⟨-, h⟩ := guard_ok h
  obtain ⟨output, hDecode, h⟩ := bind_eq_ok_iff.mp h
  obtain ⟨hSame, h⟩ := guard_ok h
  cases h
  simp only [not_or, not_not] at hSame
  obtain ⟨hRevision, hFirst, hCnt, hOffset, hExtent, hContent⟩ := hSame
  obtain ⟨⟨-, hValid⟩, -⟩ := decodeContentWindowV1_iff.mp hDecode
  refine ⟨hValid, hRevision, ?_⟩
  cases hWindow : w.window with
  | mk =>
    cases window with
    | mk =>
      rw [hWindow] at hFirst hCnt hOffset hExtent hContent
      simp only at hFirst hCnt hOffset hExtent hContent
      rw [hFirst, hCnt, hOffset, hExtent, hContent]

/-- Every record and every request of a session has one encoding, every valid window can be
sent, and a client is handed nothing but the window it has asked for. -/
theorem session_records_have_one_encoding :
    OneEncoding encodeSnapshotV1 decodeSnapshotV1 (fun s again => again = s) ∧
    OneEncoding encodeChangeSetV1 decodeChangeSetV1 SameChanges ∧
    OneEncoding encodeContentWindowV1 decodeContentWindowV1 SameWindow ∧
    OneEncoding encodeSessionRequest decodeSessionRequest (fun session again => again = session) ∧
    OneEncoding (fun request => encodeChangesRequest request.1 request.2) decodeChangesRequest
      (fun request again => again = request) ∧
    OneEncoding (fun r => encodeContentRequest r.session r.revision r.window) decodeContentRequest
      (fun request again => again = request) ∧
    (∀ w, contentWindowValid w = true → ∃ size, size ≤ maxContentWindowSizeV1 ∧
      size ≤ maxInlinePayloadSize ∧ ∀ out : List UInt8, size ≤ out.length →
        ∃ e, encodeContentWindowV1 w { output := out } = (e, .ok size)) ∧
    ∀ session call revision window w, contentWindow session call revision window = .ok w →
      Delivered revision window w := by
  refine ⟨?_, oneEncoding_changeSet, oneEncoding_contentWindow, ?_, ?_, ?_, ?_, ?_⟩
  · refine oneEncoding_of_exact encodes_snapshot (fun _ _ => decodeSnapshotV1_iff) fun s => ?_
    rw [length_snapshotBytes]
    exact announced_eq (by decide) _
  · refine oneEncoding_of_exact encodes_sessionRequest (fun _ _ => decodeSessionRequest_iff)
      fun session => ?_
    rw [length_sessionRequestBytes]
    exact announced_eq (by decide) _
  · refine oneEncoding_of_exact encodes_changesRequest (fun _ _ => decodeChangesRequest_iff)
      fun request => ?_
    rw [length_changesRequestBytes]
    exact announced_eq (by decide) _
  · refine oneEncoding_of_exact encodes_contentRequest (fun _ _ => decodeContentRequest_iff)
      fun request => ?_
    rw [length_contentRequestBytes]
    exact announced_eq (by decide) _
  · intro w hValid
    have hSize := (contentWindowParts hValid).size_le
    refine ⟨contentWindowSize w, hSize, hSize.trans (by decide), fun out hRoom => ?_⟩
    have hLen := length_contentWindowBytes w
    exact ⟨_, (encodes_contentWindow w out _ _).mpr ⟨hValid, by omega, rfl, hLen.symm⟩⟩
  · intro session call revision window w h
    obtain ⟨hValid, rfl, rfl⟩ := contentWindow_eq_ok h
    exact delivered_of_valid hValid

end Enml.OsCollection
