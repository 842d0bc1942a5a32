import Enml.Lib.Run
import Enml.OsStorage.Namespace

/-! What every namespace that the operations reach satisfies: each name and each
object of a user stands for one entry. -/
namespace Enml.OsStorage

open Enml.Core SlotTable NamespaceSlot List ProtectedNamespaceEntry

theorem NamespaceSlot.name_eq_some_iff {slot : NamespaceSlot}
    {name : PrincipalId × UserId × RelativePath} :
    slot.name = some name ↔ slot.occupied = true ∧ slot.entry.name = name := by
  rw [NamespaceSlot.name]
  split_ifs with h <;> simp [h]

theorem NamespaceSlot.name_isSome (slot : NamespaceSlot) : slot.name.isSome = slot.occupied := by
  rw [name]
  cases slot.occupied <;> rfl

namespace ProtectedNamespaceRegistry

variable {f : ProtectedNamespaceEntry → ProtectedNamespaceEntry}

/-- The entries, in the order of the slots. -/
def live (r : ProtectedNamespaceRegistry) : List ProtectedNamespaceEntry :=
  (entries name r.slots).map fun slot => slot.entry

/-- The invariant of the registry. -/
structure Sound (r : ProtectedNamespaceRegistry) : Prop where
  valid : ∀ e ∈ r.live, e.valid = true
  names : (r.live.map fun e => e.name).Nodup
  objects : (r.live.map fun e => e.object).Nodup

theorem sound_empty : Sound {} where
  valid := nofun
  names := nodup_nil
  objects := nodup_nil

variable {r : ProtectedNamespaceRegistry}
  {e entry : ProtectedNamespaceEntry} {principal : PrincipalId} {user : UserId}
  {path : RelativePath} {after : ProtectedNamespaceRegistry}
  {entries : List ProtectedNamespaceEntry}

theorem mem_live : e ∈ r.live ↔ ∃ slot ∈ r.slots, slot.occupied = true ∧ slot.entry = e := by
  rw [live, mem_map]
  constructor
  · rintro ⟨slot, hSlot, rfl⟩
    obtain ⟨hSlot, hUsed⟩ := mem_entries.mp hSlot
    exact ⟨slot, hSlot, by rwa [name_isSome] at hUsed, rfl⟩
  · rintro ⟨slot, hSlot, hUsed, rfl⟩
    exact ⟨slot, mem_entries.mpr ⟨hSlot, by rwa [name_isSome]⟩, rfl⟩

theorem userEntries_eq (user : UserId) :
    r.userEntries user = r.live.filter fun e => e.user == user := by
  rw [userEntries, live, entries, filter_map, filter_filter]
  refine congrArg (map _) (filter_congr fun slot _ => ?_)
  rw [name_isSome, Bool.and_comm]
  rfl

theorem not_mem_of_find (h : r.find principal user path = none) :
    (principal, user, path) ∉ r.live.map fun e => e.name := by
  intro hMem
  obtain ⟨e, he, hName⟩ := mem_map.mp hMem
  obtain ⟨slot, hSlot, hUsed, rfl⟩ := mem_live.mp he
  exact lookup_eq_none_iff.mp (Option.map_eq_none_iff.mp h)
    (mem_keys_iff.mpr ⟨slot, hSlot, name_eq_some_iff.mpr ⟨hUsed, hName⟩⟩)

theorem hasObject_eq_true_iff {objectId : ProtectedObjectId} :
    r.hasObject user objectId = true ↔ (user, objectId) ∈ r.live.map fun e => e.object := by
  rw [hasObject, any_eq_true, mem_map]
  constructor
  · rintro ⟨slot, hSlot, hSame⟩
    simp only [Bool.and_eq_true, beq_iff_eq] at hSame
    exact ⟨slot.entry, mem_live.mpr ⟨slot, hSlot, hSame.1.1, rfl⟩, Prod.ext hSame.1.2 hSame.2⟩
  rintro ⟨e, he, hObject⟩
  obtain ⟨slot, hSlot, hUsed, rfl⟩ := mem_live.mp he
  cases hObject
  exact ⟨slot, hSlot, by simp [hUsed]⟩

theorem live_place (h : r.place entry = some after) : after.live.Perm (entry :: r.live) := by
  unfold place at h
  split at h
  · cases h
  rename_i hIns
  cases h
  have hUsed : (name { occupied := true, entry }).isSome = true := name_isSome _
  exact (entries_insert hUsed hIns).map fun slot => slot.entry

/-- An entry with a fresh name and a fresh object keeps the registry sound. -/
theorem Sound.place
    (h : r.Sound) (hPlace : r.place entry = some after) (hValid : entry.valid = true)
    (hName : entry.name ∉ r.live.map fun e => e.name)
    (hObject : entry.object ∉ r.live.map fun e => e.object) : after.Sound := by
  have hLive := live_place hPlace
  refine ⟨?_, ?_, ?_⟩
  · intro e he
    rcases mem_cons.mp (hLive.mem_iff.mp he) with rfl | he
    · exact hValid
    · exact h.valid e he
  · exact ((hLive.map fun e => e.name).nodup_iff).mpr (nodup_cons.mpr ⟨hName, h.names⟩)
  · exact ((hLive.map fun e => e.object).nodup_iff).mpr (nodup_cons.mpr ⟨hObject, h.objects⟩)

theorem mem_live_update (h : e ∈ (r.update principal user path f).live) :
    e ∈ r.live ∨ ∃ before ∈ r.live, e = f before := by
  obtain ⟨slot, hSlot, hUsed, rfl⟩ := mem_live.mp h
  rcases mem_updateFirst hSlot with hSlot | ⟨before, hBefore, -, rfl⟩
  · exact .inl (mem_live.mpr ⟨slot, hSlot, hUsed, rfl⟩)
  · exact .inr ⟨before.entry, mem_live.mpr ⟨before, mem_of_find?_eq_some hBefore, hUsed, rfl⟩, rfl⟩

theorem map_live_update {α : Type} {g : ProtectedNamespaceEntry → α}
    (hName : ∀ e, (f e).name = e.name) (hRead : ∀ e, g (f e) = g e) :
    (r.update principal user path f).live.map g = r.live.map g := by
  have hKey : ∀ slot : NamespaceSlot, name { slot with entry := f slot.entry } = slot.name := by
    intro slot
    rw [NamespaceSlot.name, NamespaceSlot.name, hName]
  rw [live, live, map_map, map_map]
  exact map_entries_updateFirst hKey (fun slot => hRead slot.entry) r.slots

/-- A new generation keeps what the entries are found by. -/
theorem Sound.publish {generation : UInt64} (h : r.Sound) (hGen : generation ≠ 0) :
    (r.update principal user path fun e => { e with generation }).Sound where
  valid := by
    intro e he
    rcases mem_live_update he with he | ⟨before, hBefore, rfl⟩
    · exact h.valid e he
    · have hValid := h.valid before hBefore
      simp only [ProtectedNamespaceEntry.valid, Bool.and_eq_true, bne_iff_ne, ne_eq] at hValid ⊢
      exact ⟨hValid.1, hGen⟩
  names := by
    have hSame : (r.update principal user path fun e => { e with generation }).live.map
        (fun e => e.name) = r.live.map fun e => e.name :=
          map_live_update (fun _ => rfl) fun _ => rfl
    rw [hSame]
    exact h.names
  objects := by
    have hSame : (r.update principal user path fun e => { e with generation }).live.map
        (fun e => e.object) = r.live.map fun e => e.object :=
          map_live_update (fun _ => rfl) fun _ => rfl
    rw [hSame]
    exact h.objects

/-- Different names and objects, from the first entry on. -/
def Distinct (a b : ProtectedNamespaceEntry) : Prop :=
  ¬(a.principal = b.principal ∧ a.path = b.path) ∧ a.objectId ≠ b.objectId

theorem checkAgainst_eq_ok_iff {rest : List ProtectedNamespaceEntry} :
    checkAgainst entry rest = .ok () ↔ ∀ other ∈ rest, Distinct entry other := by
  induction rest with
  | nil => simp [checkAgainst]
  | cons _ _ ih =>
    rw [checkAgainst, forall_mem_cons, Distinct]
    split_ifs with hName hObject
    · simp [hName]
    · simp [hObject]
    · simp [hName, hObject, ih]

theorem checkReplacement_eq_ok_iff :
    checkReplacement user entries = .ok () ↔
      (∀ e ∈ entries, e.valid = true ∧ e.user = user) ∧ entries.Pairwise Distinct := by
  induction entries with
  | nil => simp [checkReplacement]
  | cons entry rest ih =>
    rw [checkReplacement, forall_mem_cons, pairwise_cons]
    split_ifs with hInvalid
    · rw [Bool.or_eq_true, Bool.not_eq_true', bne_iff_ne] at hInvalid
      constructor
      · nofun
      rintro ⟨⟨⟨hValid, hUser⟩, -⟩, -⟩
      rcases hInvalid with hInvalid | hOther
      · rw [hValid] at hInvalid
        cases hInvalid
      · exact absurd hUser hOther
    · have hValid : entry.valid = true ∧ entry.user = user := by simpa using hInvalid
      cases hAgainst : checkAgainst entry rest with
      | error =>
        have hClash : ¬∀ other ∈ rest, Distinct entry other := by
          rw [← checkAgainst_eq_ok_iff, hAgainst]
          nofun
        constructor
        · nofun
        · rintro ⟨-, hDist, -⟩
          exact absurd hDist hClash
      | ok =>
        have hDist := checkAgainst_eq_ok_iff.mp hAgainst
        rw [ih]
        constructor
        · rintro ⟨hAll, hPairs⟩
          exact ⟨⟨hValid, hAll⟩, hDist, hPairs⟩
        · rintro ⟨⟨-, hAll⟩, -, hPairs⟩
          exact ⟨hAll, hPairs⟩

/-- What may take the place of the entries of a user. -/
structure Replaces (user : UserId) (entries : List ProtectedNamespaceEntry)
    (r : ProtectedNamespaceRegistry) : Prop where
  user_ne : user ≠ 0
  owned : ∀ e ∈ entries, e.valid = true ∧ e.user = user
  distinct : entries.Pairwise Distinct
  room : (r.live.filter fun e => e.user != user).length + entries.length ≤
    maxProtectedNamespaceEntries

theorem length_otherSlots (user : UserId) :
    (r.otherSlots user).length = (r.live.filter fun e => e.user != user).length := by
  rw [otherSlots, live, entries, filter_map, length_map, filter_filter]
  refine congrArg length (filter_congr fun slot _ => ?_)
  rw [name_isSome, Bool.and_comm]
  rfl

theorem map_otherSlots (user : UserId) :
    (r.otherSlots user).map (fun slot => slot.entry) = r.live.filter fun e => e.user != user := by
  rw [otherSlots, live, entries, filter_map, filter_filter]
  refine congrArg (map _) (filter_congr fun slot _ => ?_)
  rw [name_isSome, Bool.and_comm]
  rfl

/-- The entries of the others stay, and the user's are the given ones. -/
theorem live_of_rebuilt (h : after.slots = r.rebuilt user entries) :
    after.live = (r.live.filter fun e => e.user != user) ++ entries := by
  have hUsed : ∀ slot ∈ r.otherSlots user ++ entries.map (fun entry => ⟨true, entry⟩),
      (name slot).isSome = true := by
    intro slot hSlot
    rw [name_isSome]
    rcases mem_append.mp hSlot with hSlot | hSlot
    · have hKept := (mem_filter.mp hSlot).2
      rw [Bool.and_eq_true] at hKept
      exact hKept.1
    · obtain ⟨entry, -, rfl⟩ := mem_map.mp hSlot
      rfl
  rw [live, h, rebuilt, entries_packed rfl hUsed, map_append, map_otherSlots, map_map]
  exact congrArg _ (map_id _)

/-- A replacement that goes through. -/
theorem replaceUserEntries_of (h : Replaces user entries r) :
    ∃ after, r.replaceUserEntries user entries = (after, .ok ()) ∧
      after.live = (r.live.filter fun e => e.user != user) ++ entries := by
  have hOthers := length_otherSlots (r := r) user
  have hRoom := h.room
  have hChecked := checkReplacement_eq_ok_iff.mpr ⟨h.owned, h.distinct⟩
  unfold replaceUserEntries
  rw [if_neg (by rw [not_or]; exact ⟨h.user_ne, by omega⟩), hChecked]
  rw [dif_neg (by omega)]
  exact ⟨_, rfl, live_of_rebuilt rfl⟩

/-- What a replacement does: nothing, or what it should. -/
theorem replaceUserEntries_cases (user : UserId) (entries : List ProtectedNamespaceEntry)
    (r : ProtectedNamespaceRegistry) :
    (∃ e, r.replaceUserEntries user entries = (r, .error e)) ∨
      ∃ after, r.replaceUserEntries user entries = (after, .ok ()) ∧ Replaces user entries r ∧
        after.live = (r.live.filter fun e => e.user != user) ++ entries := by
  by_cases h : Replaces user entries r
  · obtain ⟨after, hAfter, hLive⟩ := replaceUserEntries_of h
    exact .inr ⟨after, hAfter, h, hLive⟩
  left
  unfold replaceUserEntries
  by_cases hFirst : user = 0 ∨ maxProtectedNamespaceEntries < entries.length
  · rw [if_pos hFirst]
    exact ⟨_, rfl⟩
  rw [if_neg hFirst]
  cases hChecked : checkReplacement user entries with
  | error e => exact ⟨e, rfl⟩
  | ok =>
    obtain ⟨hOwned, hDist⟩ := checkReplacement_eq_ok_iff.mp hChecked
    have hOthers := length_otherSlots (r := r) user
    have hBound := r.otherSlots_le user
    rw [not_or] at hFirst
    have hFull : maxProtectedNamespaceEntries - (r.otherSlots user).length < entries.length := by
      by_contra hFits
      exact h ⟨hFirst.1, hOwned, hDist, by omega⟩
    rw [dif_pos hFull]
    exact ⟨_, rfl⟩

theorem nodup_of_distinct {α : Type} {g : ProtectedNamespaceEntry → α}
    (hOwned : ∀ e ∈ entries, e.valid = true ∧ e.user = user)
    (hDist : entries.Pairwise Distinct)
    (hRead : ∀ a b, a.user = b.user → Distinct a b → g a ≠ g b) : (entries.map g).Nodup := by
  rw [List.Nodup, pairwise_map]
  refine hDist.imp_of_mem ?_
  intro a b ha hb hPair
  exact hRead a b ((hOwned a ha).2.trans (hOwned b hb).2.symm) hPair

theorem nodup_replaced {α : Type} {g : ProtectedNamespaceEntry → α}
    (hBefore : (r.live.map g).Nodup) (hEnts : (entries.map g).Nodup)
    (hOwned : ∀ e ∈ entries, e.valid = true ∧ e.user = user)
    (hUser : ∀ a b, g a = g b → a.user = b.user) :
    (((r.live.filter fun e => e.user != user) ++ entries).map g).Nodup := by
  rw [map_append, nodup_append]
  refine ⟨hBefore.sublist (filter_sublist.map g), hEnts, ?_⟩
  intro x hx y hy hSame
  obtain ⟨a, ha, rfl⟩ := mem_map.mp hx
  obtain ⟨b, hb, rfl⟩ := mem_map.mp hy
  have hOther := (mem_filter.mp ha).2
  rw [bne_iff_ne] at hOther
  exact hOther ((hUser a b hSame).trans (hOwned b hb).2)

theorem Sound.replaced (h : r.Sound) (hReplaces : Replaces user entries r)
    (hLive : after.live = (r.live.filter fun e => e.user != user) ++ entries) : after.Sound := by
  have hOwned := hReplaces.owned
  refine ⟨?_, ?_, ?_⟩
  · intro e he
    rw [hLive] at he
    rcases mem_append.mp he with he | he
    · exact h.valid e (mem_filter.mp he).1
    · exact (hOwned e he).1
  · rw [hLive]
    refine nodup_replaced h.names ?_ hOwned ?_
    · refine nodup_of_distinct hOwned hReplaces.distinct ?_
      intro a b _ hPair hSame
      simp only [ProtectedNamespaceEntry.name, Prod.mk.injEq] at hSame
      exact hPair.1 ⟨hSame.1, hSame.2.2⟩
    · intro a b hSame
      simp only [ProtectedNamespaceEntry.name, Prod.mk.injEq] at hSame
      exact hSame.2.1
  · rw [hLive]
    refine nodup_replaced h.objects ?_ hOwned ?_
    · refine nodup_of_distinct hOwned hReplaces.distinct ?_
      intro a b _ hPair hSame
      simp only [object, Prod.mk.injEq] at hSame
      exact hPair.2 hSame.2
    · intro a b hSame
      simp only [object, Prod.mk.injEq] at hSame
      exact hSame.1

theorem Sound.create {next : Result ProtectedObjectId} (h : r.Sound) :
    (r.create principal user path next).1.Sound := by
  unfold ProtectedNamespaceRegistry.create
  split_ifs with hId hExists hFull
  iterate 3 exact h
  cases next with
  | error => exact h
  | ok objectId =>
    dsimp only
    split_ifs with hInvalid hDuplicate
    · exact h
    · exact h
    cases hPlace : r.place { principal, user, path, objectId, generation := 1 } with
    | none => exact h
    | some =>
      refine h.place hPlace ?_ ?_ ?_
      · simp only [Bool.or_eq_true, Bool.not_eq_true', beq_iff_eq, not_or, Bool.not_eq_false]
          at hId hInvalid
        simp [ProtectedNamespaceEntry.valid, hId, hInvalid]
      · exact not_mem_of_find (Option.not_isSome_iff_eq_none.mp hExists)
      · rw [hasObject_eq_true_iff] at hDuplicate
        exact hDuplicate

theorem Sound.publishGeneration {expectedGeneration newGeneration : UInt64} (h : r.Sound) :
    (r.publishGeneration principal user path expectedGeneration newGeneration).1.Sound := by
  unfold ProtectedNamespaceRegistry.publishGeneration
  cases r.find principal user path with
  | none => exact h
  | some =>
    dsimp only
    split_ifs with hConflict
    · exact h
    · rw [not_or, not_or] at hConflict
      exact h.publish hConflict.2.1

theorem Sound.replaceUserEntries (h : r.Sound) : (r.replaceUserEntries user entries).1.Sound := by
  rcases replaceUserEntries_cases user entries r with ⟨e, hErr⟩ | ⟨after, hOk, hReplaces, hLive⟩
  · rw [hErr]
    exact h
  · rw [hOk]
    exact h.replaced hReplaces hLive

theorem Sound.step (h : r.Sound) (op : NamespaceOp) : (r.step op).1.Sound := by
  cases op with
  | create principal user path next =>
    have hAfter : (r.create principal user path next).1.Sound := h.create
    unfold ProtectedNamespaceRegistry.step
    dsimp only
    generalize r.create principal user path next = result at hAfter
    obtain ⟨after, outcome⟩ := result
    cases outcome with
    | ok => exact hAfter
    | error => exact hAfter
  | publishGeneration => exact h.publishGeneration
  | replaceUserEntries => exact h.replaceUserEntries

theorem sound_of_run (ops : List NamespaceOp) :
    (Run.after ProtectedNamespaceRegistry.step {} ops).Sound :=
  Run.Always.final (Run.always_of_invariant sound_empty fun _ op h => Sound.step h op)

end ProtectedNamespaceRegistry

end Enml.OsStorage
