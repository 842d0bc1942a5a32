import Enml.Invariant.Snapshot

/-! Reading a snapshot. A call that does not pass ends the reading and leaves the
directory as it was; what has been restored by then is given up. -/
namespace Enml.OsKeys

open Enml.Core Interruptible SlotTable KeyRegistry KeyRecord UInt32 Program World KeyDescriptor
  RecordHeader
open List hiding lookup_eq_none_iff lookup

variable {condition : Bool} {failure : Error → Error}

/-- The record as it comes back from a snapshot. -/
def KeyRecord.upTo (record : KeyRecord) (versions : List KeyVersionRecord) : KeyRecord :=
  { record with versions := packed {} maxKeyVersions versions }

def KeyRecord.reloaded (record : KeyRecord) : KeyRecord := record.upTo record.written

def KeyRegistry.ofLive (records : List KeyRecord) : KeyRegistry :=
  { records := packed {} maxKeyRecords records }

def KeyRegistry.reloaded (r : KeyRegistry) : KeyRegistry :=
  KeyRegistry.ofLive (r.live.map KeyRecord.reloaded)

/-- What a failure leaves. Before the call `p` nothing has been restored, so that
nothing is given up. -/
def World.Quiet (w : World) (p i : Nat) (u : World) : Prop := u.disk = w.disk ∧ (i < p → u = w)

/-- The program reads `a` with `n` calls, of which the first `p` may fail without any
consequence. -/
def Reads {α : Type} (x : Io α) (w : World) (n : Nat) (a : α) (p : Nat) : Prop :=
  Program.Runs x w n w a (w.Quiet p) fun _ u => u = w

section

variable {α β : Type} {w : World} {x : Io α} {f : α → Io β} {m n p : Nat} {a : α} {b : β}

theorem reads_pure (a : α) : Reads (pure a) w 0 a p := runs_pure a w

theorem Reads.bind (h : Reads x w m a p) (hNext : Reads (f a) w n b (p - m)) :
    Reads (x >>= f) w (m + n) b p := by
  refine Program.Runs.bind h (Program.Runs.weaken hNext ?_ fun _ _ _ h => h)
  rintro i u - ⟨hDisk, hSame⟩
  exact ⟨hDisk, fun hi => hSame (by omega)⟩

theorem Reads.returns (h : Reads x w n a p) (g : α → β) :
    Reads (x >>= fun a => pure (g a)) w n (g a) p := by
  have hBoth : Reads (x >>= fun a => pure (g a)) w (n + 0) (g a) p := h.bind (reads_pure (g a))
  exact hBoth

theorem Reads.required {e : Error} {f : Unit → Io β} (h : condition = true)
    (hNext : Reads (f ()) w n b p) : Reads (require condition e >>= f) w n b p := by
  have hBoth : Reads (require condition e >>= f) w (0 + n) b p :=
    Reads.bind (runs_require h w) hNext
  rwa [Nat.zero_add] at hBoth

theorem quiet_self (i : Nat) : w.Quiet p i w := ⟨rfl, fun _ => rfl⟩

theorem reads_asking {answer : World → Result α} (h : answer w = .ok a) :
    Reads (asking answer failure) w 1 a p := by
  refine runs_call ?_ (fun _ _ => quiet_self 0) fun _ => rfl
  rw [h]

end

/-- The world after these references have been passed to the provider. -/
def World.gave (w : World) (keys : List ProviderKeyReference) : World :=
  { w with destroyed := w.destroyed ++ keys.map fun key => (key, w.disk) }

theorem World.gave_nil (w : World) : w.gave [] = w := by simp [World.gave]

theorem World.gave_gave (w : World) (first second : List ProviderKeyReference) :
    (w.gave first).gave second = w.gave (first ++ second) := by simp [World.gave]

/-- How a destruction of keys ends: with all of them, or stopped after some. -/
def GaveUp (w : World) (keys : List ProviderKeyReference)
    (result : World × List (Fault Error) × Outcome Error Unit) : Prop :=
  (result.1 = w.gave keys ∧ result.2.2 = .done ()) ∨
    ∃ given, given <+: keys ∧ result.1 = w.gave given ∧ result.2.2 = .stopped

theorem gaveUp_destroyKey (key : ProviderKeyReference) (w : World) (script : List (Fault Error)) :
    GaveUp w [key] (destroyKey key w script) := by
  cases script with
  | nil => exact .inl ⟨rfl, rfl⟩
  | cons fault rest =>
    cases fault with
    | pass => exact .inl ⟨rfl, rfl⟩
    | fail => exact .inl ⟨rfl, rfl⟩
    | stop extent =>
      have hState : (destroyKey key w (.stop extent :: rest)).1 =
          if extent = 0 then w else w.gave [key] := rfl
      by_cases hNone : extent = 0
      · refine .inr ⟨[], nil_prefix, ?_, rfl⟩
        rw [hState, if_pos hNone, gave_nil]
      · refine .inr ⟨[key], prefix_rfl, ?_, rfl⟩
        rw [hState, if_neg hNone]

theorem gaveUp_destroyKeys (keys : List ProviderKeyReference) (w : World)
    (script : List (Fault Error)) : GaveUp w keys (destroyKeys keys w script) := by
  induction keys generalizing w script with
  | nil => exact .inl ⟨w.gave_nil.symm, rfl⟩
  | cons key keys ih =>
    have hFirst := gaveUp_destroyKey key w script
    have hBind : destroyKeys (key :: keys) w script =
        (destroyKey key >>= fun _ => destroyKeys keys) w script := rfl
    rw [hBind]
    rcases hRes : destroyKey key w script with ⟨u, rest, outcome⟩
    rw [hRes] at hFirst
    rcases hFirst with ⟨rfl, rfl⟩ | ⟨given, hGiven, rfl, rfl⟩
    · rw [bind_of_done hRes]
      rcases ih (w.gave [key]) rest with ⟨hState, hEnd⟩ | ⟨given, hGiven, hState, hEnd⟩
      · exact .inl ⟨by rw [hState, gave_gave]; rfl, hEnd⟩
      · refine .inr ⟨key :: given, cons_prefix_cons.mpr ⟨rfl, hGiven⟩, ?_, hEnd⟩
        rw [hState, gave_gave]
        rfl
    · have hCut : Program.Cut (destroyKey key w script) := by
        rw [hRes]
        nofun
      obtain ⟨hState, -, hEnd⟩ := bind_of_cut (f := fun _ => destroyKeys keys) hCut
      refine .inr ⟨given, hGiven.trans (prefix_append [key] keys), ?_, ?_⟩
      · rw [hState, hRes]
      · exact hEnd (by rw [hRes])

/-- Giving up what has been restored. -/
theorem quiet_cleanup {r : KeyRegistry} {w : World} {p i : Nat}
    (h : p = 0 ∨ providerReferences r = []) (script : List (Fault Error)) :
    w.Quiet p i (cleanupProviderReferences r w script).1 := by
  have hEnd := gaveUp_destroyKeys (providerReferences r) w script
  rcases h with rfl | hNone
  · refine ⟨?_, fun hi => absurd hi (Nat.not_lt_zero i)⟩
    rcases hEnd with ⟨hState, -⟩ | ⟨given, -, hState, -⟩
    all_goals
      rw [cleanupProviderReferences, hState]
      rfl
  · have hSame : (cleanupProviderReferences r w script).1 = w := by
      rw [cleanupProviderReferences, hNone]
      rfl
    rw [hSame]
    exact quiet_self i

section

variable {w : World} {p : Nat} {loader : Loader}

theorem reads_take {bytes more : List UInt8} {count : Nat} (hCnt : count = bytes.length)
    (hRest : loader.rest = bytes ++ more)
    (hRoom : loader.consumed + count ≤ maxKeyRegistrySnapshotBytes)
    (hQuiet : p = 0 ∨ providerReferences loader.registry = []) :
    Reads (loader.take count) w 1
      (bytes, { loader with rest := more, consumed := loader.consumed + count }) p := by
  have hRead : Program.Runs (readExact loader.rest count) w 1 w (bytes, more) (fun _ u => u = w)
      fun _ u => u = w := by
    refine runs_call ?_ (fun _ _ => rfl) fun _ => rfl
    rw [hRest, if_neg (by rw [length_append]; omega), hCnt, take_left, drop_left]
  unfold Loader.take
  rw [addSize_of_le hRoom]
  refine Runs.onFailure (hRead.bind (n := 0) (runs_pure _ w)) ?_ ?_
  · rintro i u rfl
    exact quiet_self i
  · rintro i u script rfl
    exact quiet_cleanup hQuiet script

theorem reads_guarded {α : Type} {answer : World → Result α} {a : α} {r : KeyRegistry}
    (h : answer w = .ok a) (hQuiet : p = 0 ∨ providerReferences r = []) :
    Reads (onFailure (asking answer failure) (cleanupProviderReferences r)) w 1 a p := by
  have hAsk : Program.Runs (asking answer failure) w 1 w a (fun _ u => u = w) fun _ u => u = w := by
    refine runs_call ?_ (fun _ _ => rfl) fun _ => rfl
    rw [h]
  refine hAsk.onFailure ?_ ?_
  · rintro i u rfl
    exact quiet_self i
  · rintro i u script rfl
    exact quiet_cleanup hQuiet script

theorem Reads.checked {β : Type} {e : Error} {f : Unit → Io β} {n : Nat} {b : β}
    (h : condition = true) (hNext : Reads (f ()) w n b p) :
    Reads (loader.check condition e >>= f) w n b p := by
  have hCheck : loader.check condition e = pure () := by rw [Loader.check, if_pos h]
  have hBoth : Reads ((pure () : Io Unit) >>= f) w (0 + n) b p := Reads.bind (reads_pure ()) hNext
  rwa [Nat.zero_add, ← hCheck] at hBoth

variable {restore : Restore} (wrap : Wrapping restore) {record : KeyRecord} {done : List KeyRecord}

/-- The record that is being read is the last one in the table. -/
theorem modify_last {x : KeyRecord} {id : KeyId}
    {f : KeyRecord → KeyRecord} (hDone : ∀ other ∈ done, other.descriptor.id ≠ id)
    (hUsed : x.occupied = true) (hId : x.descriptor.id = id) :
    (ofLive (done ++ [x])).modify id f = .ofLive (done ++ [f x]) := by
  have hFront : ∀ other ∈ done, decide (other.key = some id) = false := by
    intro other hOther
    refine decide_eq_false fun hKey => ?_
    exact hDone other hOther (key_eq_some.mp hKey).2
  have hLast : x.key = some id := key_eq_some.mpr ⟨hUsed, hId⟩
  rw [KeyRegistry.modify, KeyRegistry.ofLive, modify_packed rfl, SlotTable.modify,
    updateFirst_append_of_front hFront]
  simp [updateFirst, hLast, ofLive]

theorem reads_loadVersion (h : record.Intact) (hLive : record.destroyed = false)
    {v : KeyVersionRecord} (hv : v ∈ record.held) {more : List UInt8}
    (hRest : loader.rest = versionEntry wrap.persist record v ++ more)
    (hRoom : loader.consumed + (versionEntry wrap.persist record v).length ≤
      maxKeyRegistrySnapshotBytes)
    (hQuiet : p = 0 ∨ providerReferences loader.registry = []) :
    Reads (loadVersion restore record.owner record.descriptor v.version loader) w 3
      { registry := loader.registry.modify record.descriptor.id fun r =>
          { r with versions := r.versions.set (v.version.toNat - 1) v }
        rest := more
        consumed := loader.consumed + (versionEntry wrap.persist record v).length
        restoredVersions := loader.restoredVersions + 1 } p := by
  have hOcc := (mem_held.mp hv).2
  have hKept := h.kept hLive v hv
  have hKey := h.key_ne_zero hLive hv
  obtain ⟨binding, hBinding⟩ := makeBinding_of_sound h.toSound (h.version_ne_zero hLive hv)
  have hBlob : blobOf wrap.persist record v =
      wrap.persist v.providerKey record.descriptor.purpose binding := by
    rw [blobOf, hBinding]
    rfl
  obtain ⟨hSome, hShort⟩ := length_blobOf wrap record v
  have hNat : (UInt16.ofNat (blobOf wrap.persist record v).length).toNat =
      (blobOf wrap.persist record v).length := by
    have hSmall : maxPersistentProviderBlobBytes < 2 ^ 16 := by decide
    exact Nat.mod_eq_of_lt (by omega)
  have hQuiet' : p - 1 = 0 ∨ providerReferences loader.registry = [] :=
    hQuiet.imp_left fun hp => by omega
  rw [length_versionEntry] at hRoom ⊢
  refine Reads.bind (m := 1) (n := 2)
    (reads_take (length_versionBytes _ _).symm hRest (by omega) hQuiet) ?_
  obtain ⟨hVer, hSize, hResv⟩ :=
    read_versionBytes v.version (UInt16.ofNat (blobOf wrap.persist record v).length)
  dsimp only
  rw [hVer, hSize, hResv, hNat, hBinding]
  refine Reads.checked ?_ ?_
  · have hNonzero : UInt16.ofNat (blobOf wrap.persist record v).length ≠ 0 := by
      intro hZero
      rw [hZero] at hNat
      exact absurd hNat.symm (by simpa using ne_nil_of_length_pos hSome)
    simp [hNonzero, hShort]
  refine Reads.bind (m := 1) (n := 1)
    (reads_take rfl rfl (by dsimp only; omega) hQuiet') ?_
  have hRestore : restore record.descriptor.purpose binding (blobOf wrap.persist record v) =
      .ok v.providerKey := by
    rw [hBlob]
    exact wrap.inverts v.providerKey _ _ hKey
  have hVerRec : { occupied := true, version := v.version, providerKey := v.providerKey } = v := by
    rw [← hOcc, ← hKept]
  refine Reads.bind (m := 1) (n := 0) (reads_guarded (r := loader.registry) hRestore
    (hQuiet'.imp_left fun hp => by omega)) ?_
  refine Reads.checked (by simpa using hKey) ?_
  rw [hVerRec, Nat.add_assoc]
  exact reads_pure _

theorem reads_loadVersions (h : record.Intact) (hLive : record.destroyed = false)
    (hDone : ∀ other ∈ done, other.descriptor.id ≠ record.descriptor.id)
    (front vs : List KeyVersionRecord) (hSplit : record.held = front ++ vs) (more : List UInt8)
    (loader : Loader) (hReg : loader.registry = .ofLive (done ++ [record.upTo front]))
    (hRest : loader.rest = vs.flatMap (versionEntry wrap.persist record) ++ more)
    (hRoom : loader.consumed + (vs.flatMap (versionEntry wrap.persist record)).length ≤
      maxKeyRegistrySnapshotBytes)
    (hQuiet : p = 0 ∨ (providerReferences loader.registry = [] ∧ p ≤ 3)) :
    Reads (loadVersions restore record.owner record.descriptor vs.length
        (ofNat (front.length + 1)) loader) w (3 * vs.length)
      { registry := .ofLive (done ++ [record.upTo record.held])
        rest := more
        consumed := loader.consumed + (vs.flatMap (versionEntry wrap.persist record)).length
        restoredVersions := loader.restoredVersions + ofNat vs.length } p := by
  induction vs generalizing front loader p with
  | nil =>
    have hCnt : loader.restoredVersions + ofNat 0 = loader.restoredVersions := add_zero _
    have hAll : record.held = front := by rw [hSplit, append_nil]
    have hSame : loader = { registry := .ofLive (done ++ [record.upTo record.held]), rest := more
                            consumed := loader.consumed
                            restoredVersions := loader.restoredVersions } := by
      rw [hAll, ← hReg, show more = loader.rest from hRest.symm]
    simp only [length_nil, hCnt, flatMap_nil, Nat.add_zero]
    rw [← hSame]
    exact reads_pure loader
  | cons v rest ih =>
    have hMem : v ∈ record.held := by
      rw [hSplit]
      exact mem_append_right _ mem_cons_self
    have hNum := h.version_of_split hLive hSplit
    have hFew := h.version_le hLive
    have hShort : front.length < maxKeyVersions := by
      have hLen := congrArg List.length hSplit
      rw [length_append, length_cons] at hLen
      omega
    have hNat : (ofNat (front.length + 1)).toNat = front.length + 1 := by
      have hSmall : maxKeyVersions < 2 ^ 32 := by decide
      exact Nat.mod_eq_of_lt (by omega)
    rw [flatMap_cons, append_assoc] at hRest
    rw [flatMap_cons, length_append] at hRoom ⊢
    have hHead := reads_loadVersion wrap (w := w) h hLive hMem hRest (by omega)
      (hQuiet.imp_right And.left)
    rw [hNum] at hHead
    have hNext : ofNat (front.length + 1) + 1 = ofNat ((front ++ [v]).length + 1) := by
      rw [length_append, length_singleton, ofNat_add (front.length + 1) 1]
      rfl
    have hModified : (loader.registry.modify record.descriptor.id fun r =>
        { r with versions := r.versions.set ((ofNat (front.length + 1)).toNat - 1) v }) =
        .ofLive (done ++ [record.upTo (front ++ [v])]) := by
      rw [hReg, modify_last (x := record.upTo front) hDone h.occupied rfl, hNat, Nat.add_sub_cancel]
      simp only [upTo, set_packed hShort]
    rw [hModified] at hHead
    have hTail := ih (p := p - 3) (front ++ [v]) (by rw [hSplit, append_assoc]; rfl)
      { registry := .ofLive (done ++ [record.upTo (front ++ [v])])
        rest := rest.flatMap (versionEntry wrap.persist record) ++ more
        consumed := loader.consumed + (versionEntry wrap.persist record v).length
        restoredVersions := loader.restoredVersions + 1 } rfl rfl
      (by dsimp only; omega) (.inl (by omega))
    rw [← hNext] at hTail
    have hCnt : loader.restoredVersions + 1 + ofNat rest.length =
        loader.restoredVersions + ofNat (rest.length + 1) := by
      rw [ofNat_add, add_assoc, add_comm 1]
      rfl
    have hBoth := hHead.bind hTail
    rw [hCnt, Nat.add_assoc, Nat.add_comm 3] at hBoth
    exact hBoth

section

theorem find_ofLive {id : KeyId} (h : ∀ other ∈ done, other.descriptor.id ≠ id) :
    (ofLive done).find id = none := by
  rw [find, ofLive, lookup_packed rfl, lookup_eq_none_iff, mem_keys_iff]
  rintro ⟨other, hOther, hKey⟩
  exact h other hOther (key_eq_some.mp hKey).2

theorem full_ofLive (hUsed : ∀ other ∈ done, other.occupied = true)
    (hShort : done.length < maxKeyRecords) : (ofLive done).full = false := by
  rw [full, ofLive, all_packed rfl hUsed]
  simpa using hShort

theorem insert_ofLive (hUsed : ∀ other ∈ done, other.occupied = true)
    (hShort : done.length < maxKeyRecords) (x : KeyRecord) :
    ({ records := (insert key x (ofLive done).records).getD
        (ofLive done).records } : KeyRegistry) = .ofLive (done ++ [x]) := by
  have hIns : insert key x (packed {} maxKeyRecords done) =
      some (packed {} maxKeyRecords (done ++ [x])) := by
    refine insert_packed rfl ?_ hShort
    intro other hOther
    rw [isSome_key, hUsed other hOther]
  rw [ofLive, hIns]
  rfl

end

/-- The references that a record holds. -/
def KeyRecord.references (record : KeyRecord) : List ProviderKeyReference :=
  (record.versions.filter fun v => v.occupied && v.providerKey != 0).map fun v => v.providerKey

theorem references_ofLive (hUsed : ∀ other ∈ done, other.occupied = true) :
    providerReferences (.ofLive done) = done.flatMap references := by
  have hRest : (List.replicate (maxKeyRecords - done.length) ({} : KeyRecord)).filter
      (fun record => record.occupied) = [] := by
    rw [filter_eq_nil_iff]
    intro other hOther
    rw [eq_of_mem_replicate hOther]
    decide
  rw [providerReferences, ofLive, packed, filter_append, hRest, append_nil,
    filter_eq_self.mpr hUsed]
  rfl

theorem references_upTo_nil : (record.upTo []).references = [] := by rfl

theorem ofLive_nil : ofLive [] = {} := by rw [ofLive, packed_nil]

theorem references_empty : providerReferences {} = [] := by
  rw [← ofLive_nil]
  exact references_ofLive nofun

/-- The header that is read for a record. -/
def headerOf (record : KeyRecord) : RecordHeader where
  id := record.descriptor.id
  owner := record.owner
  currentVersion := record.descriptor.version
  purpose := record.descriptor.purpose
  rights := record.descriptor.rights
  versionCount := UInt16.ofNat record.written.length
  flags := if record.destroyed then recordFlagDestroyed else 0
  reserved := 0

theorem parse_recordBytes (h : record.Sound) :
    parse (recordBytes record (UInt16.ofNat record.written.length)) =
      headerOf record := by
  obtain ⟨hHigh, hLow, hPrincHigh, hPrincLow, hUser, hVer, hPurpose, hRights, hCnt,
    hFlags, hResv⟩ := read_recordBytes record (UInt16.ofNat record.written.length)
  have hKnown : validPurpose record.descriptor.purpose = true := by
    have hValid := h.descriptor
    simp only [valid, Bool.and_eq_true] at hValid
    exact hValid.1.2
  rw [parse, hHigh, hLow, hPrincHigh, hPrincLow, hUser, hVer, hPurpose,
    hRights, hCnt, hFlags, hResv, ofRaw_raw hKnown]
  rfl

theorem destroyed_headerOf : (headerOf record).destroyed = record.destroyed ∧
    (headerOf record).flags &&& ~~~recordKnownFlags = 0 := by
  show ((if record.destroyed then recordFlagDestroyed else 0) &&& recordFlagDestroyed != 0) =
      record.destroyed ∧
    (if record.destroyed then recordFlagDestroyed else 0) &&& ~~~recordKnownFlags = 0
  cases record.destroyed <;> decide

theorem record_headerOf (h : record.Sound) : (headerOf record).record = record.upTo [] := by
  rw [RecordHeader.record, destroyed_headerOf.1, ← h.occupied]
  rfl

theorem toNat_written (h : record.Sound) :
    (headerOf record).versionCount.toNat = record.written.length := by
  have hFew := h.length_written
  have hSmall : maxKeyVersions < 2 ^ 16 := by decide
  exact Nat.mod_eq_of_lt (by omega)

/-- A live record has as many versions as its number says. -/
theorem versionCount_headerOf (h : record.Sound) (hLive : record.destroyed = false) :
    (headerOf record).versionCount ≠ 0 ∧
      (headerOf record).versionCount.toUInt32 = record.descriptor.version := by
  have hNat := toNat_written h
  rw [written_of_live hLive, (h.version_le hLive).1] at hNat
  have hNonzero : record.descriptor.version ≠ 0 := by
    have hValid := h.descriptor
    simp only [valid, Bool.and_eq_true, bne_iff_ne] at hValid
    exact hValid.1.1.2
  constructor
  · intro hZero
    rw [hZero] at hNat
    exact hNonzero (UInt32.toNat_inj.mp hNat.symm)
  · rw [← UInt32.toNat_inj, UInt16.toNat_toUInt32, hNat]

theorem consistent_headerOf (h : record.Intact)
    (hDone : ∀ other ∈ done, other.descriptor.id ≠ record.descriptor.id) :
    (headerOf record).consistent (.ofLive done) = true := by
  have hValid := h.descriptor
  simp only [valid, Bool.and_eq_true, bne_iff_ne] at hValid
  obtain ⟨⟨⟨hId, hNonzero⟩, hKnown⟩, hGranted⟩ := hValid
  have hNew : (ofLive done).find (headerOf record).id = none := find_ofLive hDone
  have hFew : (headerOf record).versionCount.toNat ≤ maxKeyVersions := by
    rw [toNat_written h.toSound]
    exact h.length_written
  have hCounts : (!(record.destroyed && (headerOf record).versionCount != 0) &&
      !(!record.destroyed && ((headerOf record).versionCount == 0 ||
        decide (maxKeyVersions < (headerOf record).versionCount.toNat))) &&
      !(!record.destroyed && (headerOf record).versionCount.toUInt32 !=
        (headerOf record).currentVersion)) = true := by
    cases hDead : record.destroyed with
    | true =>
      have hZero : (headerOf record).versionCount = 0 := by
        show UInt16.ofNat record.written.length = 0
        rw [written_of_destroyed hDead]
        rfl
      simp [hZero]
    | false =>
      obtain ⟨hSome, hCur⟩ := versionCount_headerOf h.toSound hDead
      have hSame : (headerOf record).currentVersion = record.descriptor.version := rfl
      simp [hSome, hCur, hSame, hFew]
  unfold consistent
  rw [destroyed_headerOf.1, destroyed_headerOf.2, hNew]
  simp only [Bool.and_eq_true] at hCounts ⊢
  refine ⟨⟨⟨⟨⟨⟨⟨⟨⟨⟨hId, h.owner⟩, ?_⟩, hKnown⟩, hGranted⟩, rfl⟩, rfl⟩, rfl⟩, hCounts.1.1⟩,
    hCounts.1.2⟩, hCounts.2⟩
  exact bne_iff_ne.mpr hNonzero

theorem reads_loadRecord (h : record.Intact) (hUsed : ∀ other ∈ done, other.occupied = true)
    (hDone : ∀ other ∈ done, other.descriptor.id ≠ record.descriptor.id)
    (hShort : done.length < maxKeyRecords) (more : List UInt8) (loader : Loader)
    (hReg : loader.registry = .ofLive done)
    (hRest : loader.rest = recordEntry wrap.persist record ++ more)
    (hRoom : loader.consumed + (recordEntry wrap.persist record).length ≤
      maxKeyRegistrySnapshotBytes)
    (hQuiet : p = 0 ∨
      (providerReferences loader.registry = [] ∧ (record.destroyed = false → p ≤ 4))) :
    Reads (loadRecord restore loader) w (recordCalls record)
      { registry := .ofLive (done ++ [record.reloaded])
        rest := more
        consumed := loader.consumed + (recordEntry wrap.persist record).length
        restoredVersions := loader.restoredVersions + ofNat record.written.length } p := by
  have hLen : (recordEntry wrap.persist record).length = recordHeaderBytes +
      (record.written.flatMap (versionEntry wrap.persist record)).length := by
    rw [recordEntry, length_append, length_recordBytes]
  rw [hLen] at hRoom ⊢
  rw [recordEntry, append_assoc] at hRest
  refine Reads.bind (m := 1) (n := 3 * record.written.length)
    (reads_take (length_recordBytes _ _).symm hRest (by omega) (hQuiet.imp_right And.left)) ?_
  dsimp only
  rw [parse_recordBytes h.toSound, hReg]
  refine Reads.checked (consistent_headerOf h hDone) ?_
  refine Reads.checked ?_ ?_
  · rw [full_ofLive hUsed hShort]
    rfl
  rw [insert_ofLive hUsed hShort, record_headerOf h.toSound, toNat_written h.toSound,
    ← Nat.add_assoc]
  have hQuiet' : p - 1 = 0 ∨ (providerReferences (.ofLive (done ++ [record.upTo []])) = [] ∧
      (record.destroyed = false → p - 1 ≤ 3)) := by
    rcases hQuiet with hp | ⟨hNone, hp⟩
    · exact .inl (by omega)
    refine .inr ⟨?_, fun hLive => by have := hp hLive; omega⟩
    rw [hReg, references_ofLive hUsed] at hNone
    rw [references_ofLive, flatMap_append, hNone, flatMap_singleton, references_upTo_nil]
    · rfl
    intro other hOther
    rcases mem_append.mp hOther with hOther | hOther
    · exact hUsed other hOther
    · rw [mem_singleton.mp hOther]
      exact h.occupied
  cases hDead : record.destroyed with
  | true =>
    have hWritten := written_of_destroyed hDead
    have hNone : loader.restoredVersions + ofNat 0 = loader.restoredVersions := add_zero _
    rw [KeyRecord.reloaded, hWritten, length_nil, hNone]
    exact reads_pure _
  | false =>
    have hWritten := written_of_live hDead
    rw [hWritten] at hRoom
    rw [KeyRecord.reloaded, hWritten]
    refine reads_loadVersions wrap h hDead hDone [] record.held rfl more _ rfl rfl
      (by dsimp only; omega) ?_
    exact hQuiet'.imp_right fun hBoth => ⟨hBoth.1, hBoth.2 hDead⟩

theorem KeyRecord.Sound.written_ne_nil (h : record.Sound) (hLive : record.destroyed = false) :
    0 < record.written.length := by
  have hValid := h.descriptor
  simp only [valid, Bool.and_eq_true, bne_iff_ne] at hValid
  have hPos : record.descriptor.version.toNat ≠ 0 :=
    fun hZero => hValid.1.1.2 (UInt32.toNat_inj.mp hZero)
  rw [written_of_live hLive, (h.version_le hLive).1]
  omega

/-- How many calls come before the first reference is restored. -/
def quietCalls : List KeyRecord → Nat
  | [] => 0
  | record :: rest => if record.destroyed then 1 + quietCalls rest else 4

theorem references_reloaded_of_destroyed (hDead : record.destroyed = true) :
    record.reloaded.references = [] := by
  rw [KeyRecord.reloaded, KeyRecord.written_of_destroyed hDead, references_upTo_nil]

theorem reads_loadRecords (records : List KeyRecord) (h : ∀ record ∈ records, record.Intact)
    (done : List KeyRecord) (hUsed : ∀ other ∈ done, other.occupied = true)
    (hDist : ((done ++ records).map fun record => record.descriptor.id).Nodup)
    (hShort : done.length + records.length ≤ maxKeyRecords) (more : List UInt8) (loader : Loader)
    (hReg : loader.registry = .ofLive done)
    (hRest : loader.rest = body wrap.persist records ++ more)
    (hRoom : loader.consumed + (body wrap.persist records).length ≤ maxKeyRegistrySnapshotBytes)
    (hQuiet : p = 0 ∨ (providerReferences loader.registry = [] ∧ p ≤ quietCalls records)) :
    Reads (loadRecords restore records.length loader) w (records.map recordCalls).sum
      { registry := .ofLive (done ++ records.map KeyRecord.reloaded)
        rest := more
        consumed := loader.consumed + (body wrap.persist records).length
        restoredVersions := loader.restoredVersions +
          ofNat (records.map fun record => record.written.length).sum } p := by
  induction records generalizing done loader p with
  | nil =>
    have hNone : loader.restoredVersions + ofNat 0 = loader.restoredVersions := add_zero _
    have hSame : loader = { registry := .ofLive done, rest := more, consumed := loader.consumed
                            restoredVersions := loader.restoredVersions } := by
      rw [← hReg, show more = loader.rest from hRest.symm]
    simp only [map_nil, append_nil, sum_nil, hNone]
    rw [show loader.consumed + (body wrap.persist []).length = loader.consumed from rfl, ← hSame]
    exact reads_pure loader
  | cons record rest ih =>
    have hIntact := h record mem_cons_self
    have hOther : ∀ other ∈ done, other.descriptor.id ≠ record.descriptor.id := by
      intro other hMem hSame
      rw [map_append, map_cons, nodup_append] at hDist
      exact hDist.2.2 _ (mem_map_of_mem hMem) _ mem_cons_self hSame
    rw [length_cons] at hShort
    rw [body, flatMap_cons, append_assoc] at hRest
    rw [body, flatMap_cons, length_append] at hRoom
    have hHead := reads_loadRecord wrap (w := w) (p := p) hIntact hUsed hOther (by omega)
      (rest.flatMap (recordEntry wrap.persist) ++ more) loader hReg hRest (by omega) (by
        refine hQuiet.imp_right fun hBoth => ⟨hBoth.1, fun hLive => ?_⟩
        have hp := hBoth.2
        rwa [quietCalls, hLive, if_neg (by decide)] at hp)
    have hUsed' : ∀ other ∈ done ++ [record.reloaded], other.occupied = true := by
      intro other hMem
      rcases mem_append.mp hMem with hMem | hMem
      · exact hUsed other hMem
      · rw [mem_singleton.mp hMem]
        exact hIntact.occupied
    have hQuiet' : p - recordCalls record = 0 ∨
        (providerReferences (.ofLive (done ++ [record.reloaded])) = [] ∧
          p - recordCalls record ≤ quietCalls rest) := by
      rcases hQuiet with hp | ⟨hNone, hp⟩
      · exact .inl (by omega)
      cases hDead : record.destroyed with
      | false =>
        have hSome := hIntact.toSound.written_ne_nil hDead
        rw [quietCalls, hDead, if_neg (by decide)] at hp
        rw [recordCalls]
        exact .inl (by omega)
      | true =>
        rw [hReg, references_ofLive hUsed] at hNone
        rw [quietCalls, hDead, if_pos rfl] at hp
        rw [references_ofLive hUsed', flatMap_append, hNone, flatMap_singleton,
          references_reloaded_of_destroyed hDead, recordCalls]
        exact .inr ⟨rfl, by omega⟩
    have hTail := ih (p := p - recordCalls record)
      (fun other hMem => h other (mem_cons_of_mem _ hMem)) (done ++ [record.reloaded]) hUsed'
      (by
        rw [append_assoc, map_append] at *
        exact hDist)
      (by rw [length_append, length_singleton]; omega)
      { registry := .ofLive (done ++ [record.reloaded])
        rest := rest.flatMap (recordEntry wrap.persist) ++ more
        consumed := loader.consumed + (recordEntry wrap.persist record).length
        restoredVersions := loader.restoredVersions + ofNat record.written.length } rfl rfl
      (by rw [body]; dsimp only; omega) hQuiet'
    have hCnt : loader.restoredVersions + ofNat record.written.length +
        ofNat (rest.map fun record => record.written.length).sum =
        loader.restoredVersions + ofNat
          ((record :: rest).map fun record => record.written.length).sum := by
      rw [map_cons, sum_cons, ofNat_add, add_assoc]
    have hBoth := hHead.bind hTail
    rw [append_assoc, hCnt, Nat.add_assoc, ← length_append] at hBoth
    exact hBoth

variable {r : KeyRegistry}

theorem length_snapshotBytes : (snapshotBytes wrap.persist r).length =
    keyRegistrySnapshotHeaderSizeV1.toNat + (body wrap.persist r.live).length := by
  rw [snapshotBytes, length_append, length_snapshotHeader]

theorem sum_written_le {records : List KeyRecord} (h : ∀ record ∈ records, record.Sound) :
    (records.map fun record => record.written.length).sum ≤ records.length * maxKeyVersions := by
  induction records with
  | nil => exact Nat.zero_le _
  | cons record _ ih =>
    have hHead := (h record mem_cons_self).length_written
    have hRest := ih fun other hOther => h other (mem_cons_of_mem _ hOther)
    rw [map_cons, sum_cons, length_cons, Nat.add_mul]
    omega

/-- What the header says is what the file holds. -/
theorem tally_bounds (h : r.Sound) :
    (ofNat (startTally.plus wrap.persist r.live).totalSize).toNat =
        (snapshotBytes wrap.persist r).length ∧
      (startTally.plus wrap.persist r.live).recordCount.toNat = r.live.length ∧
      (startTally.plus wrap.persist r.live).totalVersionCount.toNat ≤
        maxKeyRecords * maxKeyVersions := by
  have hSize := length_snapshot_le wrap h
  have hFew := h.size
  have hVers := sum_written_le h.records
  have hMost := Nat.mul_le_mul_right maxKeyVersions hFew
  have hSmall : maxKeyRegistrySnapshotBytes < 2 ^ 32 ∧ maxKeyRecords < 2 ^ 16 ∧
      maxKeyRecords * maxKeyVersions < 2 ^ 32 := by decide
  refine ⟨?_, ?_, ?_⟩
  · rw [length_snapshotBytes]
    exact Nat.mod_eq_of_lt (by
      show keyRegistrySnapshotHeaderSizeV1.toNat + (body wrap.persist r.live).length < 2 ^ 32
      omega)
  · have hCnt : (startTally.plus wrap.persist r.live).recordCount = UInt16.ofNat r.live.length :=
      UInt16.zero_add _
    rw [hCnt]
    exact Nat.mod_eq_of_lt (by omega)
  have hCnt : (startTally.plus wrap.persist r.live).totalVersionCount =
      ofNat (r.live.map fun record => record.written.length).sum := zero_add _
  rw [hCnt, toNat_ofNat', Nat.mod_eq_of_lt (by omega)]
  omega

theorem headerConsistent_snapshot (h : r.Sound) :
    headerConsistent (snapshotHeader (startTally.plus wrap.persist r.live))
      (snapshotBytes wrap.persist r).length = true := by
  obtain ⟨-, -, hHeaderSize, hTotal, hCnt, hZero, hVers, hZero', hZero''⟩ :=
    read_snapshotHeader (startTally.plus wrap.persist r.live)
  obtain ⟨hSize, hRecs, hFew⟩ := tally_bounds wrap h
  have hFit := h.size
  rw [headerConsistent, hHeaderSize, hTotal, hCnt, hZero, hVers, hZero', hZero'', hSize, hRecs]
  simp [hFew, hFit]

theorem reads_loadFile (h : r.Intact) (hQuiet : p ≤ 1 + quietCalls r.live) :
    Reads (loadFile restore (snapshotBytes wrap.persist r)) w
      (1 + (r.live.map recordCalls).sum) r.reloaded p := by
  have hRoom := length_snapshot_le wrap h.toSound
  have hLen := length_snapshotBytes wrap (r := r)
  obtain ⟨hMagic, hVer, -, hTotal, hCnt, -, hVers, -⟩ :=
    read_snapshotHeader (startTally.plus wrap.persist r.live)
  obtain ⟨hSize, hRecs, -⟩ := tally_bounds wrap h.toSound
  refine Reads.required (decide_eq_true (by omega)) ?_
  refine Reads.required (decide_eq_true (by omega)) ?_
  refine Reads.bind (m := 1) (n := (r.live.map recordCalls).sum)
    (a := (snapshotHeader (startTally.plus wrap.persist r.live), body wrap.persist r.live)) ?_ ?_
  · refine reads_asking ?_
    have hHeader := length_snapshotHeader (startTally.plus wrap.persist r.live)
    rw [if_neg (by omega), snapshotBytes, ← hHeader, take_left, drop_left]
  dsimp only
  rw [hMagic, hVer, hTotal, hCnt, hVers, hRecs, hSize]
  refine Reads.required (beq_self_eq_true _) ?_
  refine Reads.required (beq_self_eq_true _) ?_
  refine Reads.required (headerConsistent_snapshot wrap h.toSound) ?_
  have hLoad := reads_loadRecords wrap (w := w) (p := p - 1) r.live h.intact [] nofun h.ids
    (by simpa using h.size) []
    { rest := body wrap.persist r.live, consumed := keyRegistrySnapshotHeaderSizeV1.toNat }
    ofLive_nil.symm (append_nil _).symm hRoom (.inr ⟨references_empty, by omega⟩)
  refine Reads.bind (n := 0) hLoad ?_
  refine Reads.checked ?_ (reads_pure _)
  have hRestored : (0 : UInt32) + ofNat (r.live.map fun record => record.written.length).sum =
      (startTally.plus wrap.persist r.live).totalVersionCount := rfl
  have hAll : recordCount (.ofLive (r.live.map reloaded)) = r.live.length := by
    rw [recordCount, ofLive, countP_packed rfl, length_map]
    intro record hRec
    obtain ⟨old, hOld, rfl⟩ := mem_map.mp hRec
    exact (h.records old hOld).occupied
  rw [nil_append, hAll, hRestored, ← hLen]
  simp

end

/-- The registry that a snapshot stands for. -/
inductive Holds (restore : Restore) : Option (List UInt8) → KeyRegistry → Prop where
  | absent : Holds restore none {}
  | stored (wrap : Wrapping restore) (r : KeyRegistry) :
      Holds restore (some (snapshotBytes wrap.persist r)) r

/-- How many calls `load_snapshot` makes. -/
def loadCalls (snapshot : Option (List UInt8)) (r : KeyRegistry) : Nat :=
  match snapshot with
  | none => 1
  | some _ => 3 + (r.live.map recordCalls).sum

/-- How many of them come before the first reference has been restored. -/
def loadQuiet (snapshot : Option (List UInt8)) (r : KeyRegistry) : Nat :=
  match snapshot with
  | none => 1
  | some _ => 3 + quietCalls r.live

theorem live_empty : ({} : KeyRegistry).live = [] := entries_replicate rfl _

section

variable {restore : Restore} {r : KeyRegistry} {w : World}

/-- Reading gives back the registry that the snapshot stands for. -/
theorem reads_loadSnapshot (h : r.Intact) (hHolds : Holds restore w.disk.snapshot r) :
    Reads (loadSnapshot restore) w (loadCalls w.disk.snapshot r) r.reloaded
      (loadQuiet w.disk.snapshot r) := by
  generalize hSnap : w.disk.snapshot = snapshot at hHolds
  cases hHolds with
  | absent =>
    refine Reads.bind (m := 1) (n := 0) (reads_asking (a := none) (by rw [hSnap])) ?_
    exact reads_pure _
  | stored wrap =>
    have hCalls : loadCalls (some (snapshotBytes wrap.persist r)) r =
        1 + (1 + (1 + (r.live.map recordCalls).sum)) := by
      rw [loadCalls]
      omega
    rw [hCalls]
    refine Reads.bind
      (reads_asking (a := some (snapshotBytes wrap.persist r)) (by rw [hSnap])) ?_
    refine Reads.bind (reads_asking rfl) ?_
    refine reads_loadFile wrap h ?_
    rw [loadQuiet]
    omega

theorem reads_openRegistry (h : r.Intact) (hHolds : Holds restore w.disk.snapshot r) :
    Reads (PersistentKeyRegistry.openRegistry restore) w (1 + loadCalls w.disk.snapshot r)
      r.reloaded (1 + loadQuiet w.disk.snapshot r) := by
  refine Reads.bind (m := 1) (reads_asking rfl) ?_
  rw [Nat.add_sub_cancel_left]
  exact reads_loadSnapshot h hHolds

end

/-- What `load_snapshot` makes of a snapshot when nothing goes wrong. -/
def decode (restore : Restore) (snapshot : Option (List UInt8)) : Option KeyRegistry :=
  match loadSnapshot restore { disk := { snapshot } } [] with
  | (_, _, .done r) => some r
  | _ => none

theorem decode_of_holds {restore : Restore} {snapshot : Option (List UInt8)} {r : KeyRegistry}
    (h : r.Intact) (hHolds : Holds restore snapshot r) :
    decode restore snapshot = some r.reloaded := by
  have hReads := reads_loadSnapshot (w := { disk := { snapshot } }) h hHolds
  rw [decode, hReads.passed [] (interruption_nil _)]

end Enml.OsKeys
