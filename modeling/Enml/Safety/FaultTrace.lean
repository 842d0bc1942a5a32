import Mathlib.Data.List.Find
import Mathlib.Data.List.Pairwise
import Enml.Lib.Run
import Enml.Invariant.Addresses
import Enml.OsKernel.FaultRegion

/-! What a pager learns from faults: at most two reports of each region in its
life, and of an address nothing but the region it is in. -/
namespace Enml.OsKernel

open SlotTable List Run

variable {op : FaultOperation}

/-- What a declaration fixes for good. -/
structure FaultRegion where
  id : FaultRegionId
  base : UInt64
  length : UInt64
  disclosure : FaultDisclosure
  deriving DecidableEq

namespace FaultRegion

def Covers (r : FaultRegion) (virtualAddress : UInt64) : Prop :=
  r.base.toNat ≤ virtualAddress.toNat ∧ virtualAddress.toNat < r.base.toNat + r.length.toNat

/-- No address is in both. -/
def Apart (a b : FaultRegion) : Prop :=
  ∀ virtualAddress, ¬(a.Covers virtualAddress ∧ b.Covers virtualAddress)

instance : Std.Symm Apart where
  symm _ _ h virtualAddress hBoth := h virtualAddress hBoth.symm

end FaultRegion

namespace FaultRegionTable

def Slot.region (s : Slot) : FaultRegion :=
  { id := s.id, base := s.base, length := s.length, disclosure := s.disclosure }

/-- The declared regions. -/
def regions (t : FaultRegionTable) : List FaultRegion := (entries Slot.key t.slots).map Slot.region

/-- The address is in the region named. -/
def Inside (t : FaultRegionTable) (region : FaultRegionId) (virtualAddress : UInt64) : Prop :=
  ∃ r ∈ t.regions, r.id = region ∧ r.Covers virtualAddress

structure Sound (t : FaultRegionTable) : Prop where
  apart : t.regions.Pairwise FaultRegion.Apart
  distinct : (t.regions.map FaultRegion.id).Nodup
  bounded : ∀ r ∈ t.regions, r.base.toNat + r.length.toNat < 2 ^ 64
  issued : ∀ r ∈ t.regions, 0 < r.id.toNat ∧ r.id.toNat < t.nextId.toNat
  next : 0 < t.nextId.toNat

variable {s : Slot}

theorem Slot.key_eq_some_iff {region : FaultRegionId} :
    s.key = some region ↔ s.occupied ∧ s.id = region := by
  simp [Slot.key]

theorem mem_regions {t : FaultRegionTable} {r : FaultRegion} :
    r ∈ t.regions ↔ ∃ s ∈ t.slots, s.occupied ∧ s.region = r := by
  simp [regions, mem_entries, Slot.key, and_assoc]

theorem keys_eq (t : FaultRegionTable) : keys Slot.key t.slots = t.regions.map FaultRegion.id := by
  rw [← keys_entries, regions, map_map]
  have hKey : ∀ s ∈ entries Slot.key t.slots, s.key = some s.id := by
    intro s hs
    have hOcc := (mem_entries.mp hs).2
    simpa [Slot.key] using hOcc
  rw [filterMap_congr hKey]
  exact filterMap_eq_map' ▸ rfl

theorem Slot.hit_iff {virtualAddress : UInt64} :
    s.hit virtualAddress ↔ s.occupied ∧ s.region.Covers virtualAddress := by
  simp only [Slot.hit, Bool.and_eq_true, decide_eq_true_eq, and_assoc, FaultRegion.Covers,
    Slot.region, UInt64.le_iff_toNat_le, UInt64.lt_iff_toNat_lt]
  refine and_congr_right fun _ => and_congr_right fun hBase => ?_
  rw [UInt64.toNat_sub_of_le _ _ (UInt64.le_iff_toNat_le.mpr hBase)]
  omega

namespace Sound

variable {t : FaultRegionTable} (h : t.Sound)
include h

variable {region : FaultRegionId} {a b : Slot} {virtualAddress : UInt64}

theorem lookup_iff :
    lookup Slot.key region t.slots = some s ↔
      s ∈ t.slots ∧ s.occupied ∧ s.id = region := by
  rw [lookup_eq_some_iff (by rw [keys_eq]; exact h.distinct), Slot.key_eq_some_iff]

theorem find_iff : t.find region = some s ↔ s ∈ t.slots ∧ s.occupied ∧ s.id = region := by
  unfold find
  split
  · rename_i hInvalid
    subst hInvalid
    simp only [reduceCtorEq, false_iff]
    rintro ⟨hMem, hOcc, hId⟩
    have := (h.issued _ (mem_regions.mpr ⟨s, hMem, hOcc, rfl⟩)).1
    rw [show s.region.id = s.id from rfl, hId] at this
    exact absurd this (by decide)
  · exact h.lookup_iff

/-- Two declared slots with one identifier are the same slot. -/
theorem eq_of_id (ha : a ∈ t.slots) (hb : b ∈ t.slots) (haOccupied : a.occupied)
    (hbOccupied : b.occupied) (hId : a.id = b.id) : a = b :=
  Option.some.inj ((h.lookup_iff.mpr ⟨ha, haOccupied, hId⟩).symm.trans
    (h.lookup_iff.mpr ⟨hb, hbOccupied, rfl⟩))

/-- The answer does not depend on the order of the search. -/
theorem eq_of_hit (ha : a ∈ t.slots) (hb : b ∈ t.slots) (haHit : a.hit virtualAddress)
    (hbHit : b.hit virtualAddress) : a = b := by
  obtain ⟨haOccupied, haCovers⟩ := Slot.hit_iff.mp haHit
  obtain ⟨hbOccupied, hbCovers⟩ := Slot.hit_iff.mp hbHit
  have haRegion := mem_regions.mpr ⟨a, ha, haOccupied, rfl⟩
  have hbRegion := mem_regions.mpr ⟨b, hb, hbOccupied, rfl⟩
  have hSame : a.region = b.region := by
    by_contra hNe
    exact h.apart.forall haRegion hbRegion hNe virtualAddress ⟨haCovers, hbCovers⟩
  exact h.eq_of_id ha hb haOccupied hbOccupied (congrArg FaultRegion.id hSame)

/-- The slot that answers is the slot of its identifier. -/
theorem updateFirst_hit (hs : s ∈ t.slots) (hHit : s.hit virtualAddress) (f : Slot → Slot) :
    updateFirst (Slot.hit virtualAddress) f t.slots =
      modify Slot.key s.id f t.slots := by
  have hOcc := (Slot.hit_iff.mp hHit).1
  refine updateFirst_congr ?_ f
  intro x hx
  rw [Bool.eq_iff_iff, decide_eq_true_eq, Slot.key_eq_some_iff]
  constructor
  · intro hxHit
    obtain rfl := h.eq_of_hit hx hs hxHit hHit
    exact ⟨hOcc, rfl⟩
  · rintro ⟨hxOccupied, hId⟩
    obtain rfl := h.eq_of_id hx hs hxOccupied hOcc hId
    exact hHit

end Sound

/-- The two announcements a region has to spend. -/
inductive Transition where
  | backing | privatising

namespace Transition

def announced : Transition → Slot → Bool
  | .backing, slot => slot.announcedBacking
  | .privatising, slot => slot.announcedPrivate

def announce : Transition → Slot → Slot
  | .backing => Slot.announceBacking
  | .privatising => Slot.announcePrivate

/-- The state a region is in when the fault announces this transition. -/
def origin : Transition → FaultRegionState
  | .backing => .unbacked
  | .privatising => .backedShared

end Transition

@[simp] theorem Transition.region_announce (k : Transition) (s : Slot) :
    (k.announce s).region = s.region := by
  cases k <;> rfl

@[simp] theorem Transition.key_announce (k : Transition) (s : Slot) :
    (k.announce s).key = s.key := by
  cases k <;> rfl

@[simp] theorem Transition.announced_announce (k : Transition) (s : Slot) :
    k.announced (k.announce s) := by
  cases k <;> rfl

theorem Transition.announced_mono {k : Transition} (j : Transition)
    (h : k.announced s) : k.announced (j.announce s) := by
  cases k <;> cases j <;> first | exact h | rfl

/-- The declared slot with its identifier rewritten. -/
def onSlot (t : FaultRegionTable) (region : FaultRegionId) (f : Slot → Slot) : FaultRegionTable :=
  { t with slots := modify Slot.key region f t.slots }

variable {t : FaultRegionTable}

/-- A fault answers nothing and changes nothing, or it spends one announcement of
the paged region that the address is in. -/
theorem Sound.resolve_cases (h : t.Sound) (virtualAddress : UInt64) (write : Bool) :
    t.resolve virtualAddress write = (t, { write }) ∨
    ∃ (s : Slot) (k : Transition), t.find s.id = some s ∧ s.region.Covers virtualAddress ∧
      s.disclosure = .paged ∧ s.state = k.origin ∧ (k = .privatising → write = true) ∧
      k.announced s = false ∧
      t.resolve virtualAddress write =
        (t.onSlot s.id k.announce, { region := s.id, disposition := .deliver, write }) := by
  unfold resolve
  cases hFind : t.slots.find? (Slot.hit virtualAddress) with
  | none => exact .inl rfl
  | some s =>
    have hs := mem_of_find?_eq_some hFind
    have hHit := find?_some hFind
    obtain ⟨hOcc, hCovers⟩ := Slot.hit_iff.mp hHit
    have hSlot := h.find_iff.mpr ⟨hs, hOcc, rfl⟩
    have hSpend := h.updateFirst_hit hs hHit
    dsimp only
    split
    · exact .inl rfl
    rename_i hDisclosure
    have hPaged : s.disclosure = .paged := by
      cases hs : s.disclosure <;> simp_all
    split
    · rename_i hState
      split
      · exact .inl rfl
      · rename_i hFresh
        exact .inr ⟨s, .backing, hSlot, hCovers, hPaged, hState, by simp,
          by simpa [Transition.announced] using hFresh, by rw [hSpend]; rfl⟩
    · split
      · rename_i hShared
        simp only [Bool.and_eq_true, beq_iff_eq] at hShared
        split
        · exact .inl rfl
        · rename_i hFresh
          exact .inr ⟨s, .privatising, hSlot, hCovers, hPaged, hShared.2, fun _ => hShared.1,
            by simpa [Transition.announced] using hFresh, by rw [hSpend]; rfl⟩
      · exact .inl rfl

theorem markBacked_cases (t : FaultRegionTable) (region : FaultRegionId)
    (state : FaultRegionState) :
    (t.markBacked region state).1 = t ∨
      (t.markBacked region state).1 = t.onSlot region fun slot => { slot with state } := by
  unfold markBacked
  split
  · exact .inl rfl
  · split
    · exact .inl rfl
    · exact .inr rfl

/-- A declaration is refused and changes nothing, or adds a region clear of all
the others under the next identifier. -/
theorem Sound.declare_cases (h : t.Sound) (base length : UInt64) (disclosure : FaultDisclosure) :
    (∃ e, t.declare base length disclosure = (t, .error e)) ∨
    ∃ slots, t.declare base length disclosure =
        ({ slots, occupied := t.occupied + 1, nextId := t.nextId + 1 }, .ok t.nextId) ∧
      insert Slot.key
        { base, length, id := t.nextId, disclosure, state := .unbacked, announcedBacking := false,
          announcedPrivate := false, occupied := true } t.slots = some slots ∧
      base.toNat + length.toNat < 2 ^ 64 ∧
      (∀ r ∈ t.regions, FaultRegion.Apart { id := t.nextId, base, length, disclosure } r) ∧
      (t.nextId + 1).toNat = t.nextId.toNat + 1 := by
  unfold declare
  split
  · exact .inl ⟨_, rfl⟩
  rename_i hRange
  split
  · exact .inl ⟨_, rfl⟩
  rename_i hOverlap
  split
  · exact .inl ⟨_, rfl⟩
  rename_i hNext
  cases hIns : insert Slot.key
      { base, length, id := t.nextId, disclosure, state := .unbacked, announcedBacking := false,
        announcedPrivate := false, occupied := true } t.slots with
  | none => exact .inl ⟨_, rfl⟩
  | some slots =>
    have hBounded : base.toNat + length.toNat < 2 ^ 64 := by
      simp only [Bool.or_eq_true, decide_eq_true_eq, not_or, max_sub_lt_iff] at hRange
      omega
    refine .inr ⟨slots, rfl, rfl, hBounded, ?_, ?_⟩
    · intro r hr virtualAddress hBoth
      obtain ⟨s, hs, hOcc, rfl⟩ := mem_regions.mp hr
      refine hOverlap (any_eq_true.mpr ⟨s, hs, ?_⟩)
      rw [hOcc, Bool.true_and]
      refine (overlaps_iff (h.bounded _ hr) hBounded).mpr ?_
      obtain ⟨⟨hLow, hHigh⟩, hLow', hHigh'⟩ := hBoth
      exact ⟨hLow'.trans_lt hHigh, hLow.trans_lt hHigh'⟩
    · have hLt := t.nextId.toNat_lt
      have hNe : t.nextId.toNat ≠ 0xFFFF := fun hEq => hNext (UInt16.toNat_inj.mp hEq)
      rw [UInt16.toNat_add, UInt16.toNat_one]
      omega

variable {f : Slot → Slot}

theorem regions_onSlot (t : FaultRegionTable) (region : FaultRegionId)
    (hKey : ∀ s, (f s).key = s.key) (hRegion : ∀ s, (f s).region = s.region) :
    (t.onSlot region f).regions = t.regions :=
  map_entries_updateFirst hKey hRegion t.slots

theorem Sound.onSlot (h : t.Sound) (region : FaultRegionId) (hKey : ∀ s, (f s).key = s.key)
    (hRegion : ∀ s, (f s).region = s.region) :
    (t.onSlot region f).Sound := by
  have hRegions := t.regions_onSlot region hKey hRegion
  constructor
  · rw [hRegions]
    exact h.apart
  · rw [hRegions]
    exact h.distinct
  · rw [hRegions]
    exact h.bounded
  · rw [hRegions]
    exact h.issued
  · exact h.next

theorem Sound.declared (h : t.Sound) {base length : UInt64}
    {disclosure : FaultDisclosure} {slots : List Slot} {occupied : Nat}
    (hIns : insert Slot.key
        { base, length, id := t.nextId, disclosure, state := .unbacked, announcedBacking := false,
          announcedPrivate := false, occupied := true } t.slots = some slots)
    (hBounded : base.toNat + length.toNat < 2 ^ 64)
    (hApart : ∀ r ∈ t.regions, FaultRegion.Apart { id := t.nextId, base, length, disclosure } r)
    (hNext : (t.nextId + 1).toNat = t.nextId.toNat + 1) :
    ({ slots, occupied, nextId := t.nextId + 1 } : FaultRegionTable).Sound := by
  have hRegions : ({ slots, occupied, nextId := t.nextId + 1 } : FaultRegionTable).regions.Perm
      ({ id := t.nextId, base, length, disclosure } :: t.regions) :=
    (entries_insert rfl hIns).map Slot.region
  constructor
  · exact hRegions.symm.pairwise (pairwise_cons.mpr ⟨hApart, h.apart⟩)
      fun hab => Std.Symm.symm _ _ hab
  · refine SlotTable.nodup_map_of_perm hRegions h.distinct fun r hr hId => ?_
    have hLt := (h.issued r hr).2
    rw [hId] at hLt
    exact lt_irrefl _ hLt
  · intro r hr
    rcases mem_cons.mp (hRegions.mem_iff.mp hr) with rfl | hOld
    · exact hBounded
    · exact h.bounded r hOld
  · intro r hr
    rw [hNext]
    rcases mem_cons.mp (hRegions.mem_iff.mp hr) with rfl | hOld
    · exact ⟨h.next, Nat.lt_succ_self _⟩
    · have := h.issued r hOld
      omega
  · show 0 < (t.nextId + 1).toNat
    omega

theorem sound_fresh : ({} : FaultRegionTable).Sound := by
  have hRegions : ({} : FaultRegionTable).regions = [] := by
    simp [regions, entries_replicate, Slot.key]
  constructor
  all_goals simp [hRegions]

theorem Sound.step (h : t.Sound) (op : FaultOperation) : (t.step op).1.Sound := by
  cases op with
  | declare base length disclosure =>
    rcases h.declare_cases base length disclosure with
      ⟨e, hDeclare⟩ | ⟨slots, hDeclare, hIns, hBounded, hApart, hNext⟩
    · simpa [FaultRegionTable.step, hDeclare] using h
    · simpa [FaultRegionTable.step, hDeclare] using h.declared hIns hBounded hApart hNext
  | markBacked region state =>
    show (t.markBacked region state).1.Sound
    rcases t.markBacked_cases region state with hMark | hMark
    · rwa [hMark]
    · rw [hMark]
      exact h.onSlot region (fun _ => rfl) fun _ => rfl
  | resolve virtualAddress write =>
    show (t.resolve virtualAddress write).1.Sound
    rcases h.resolve_cases virtualAddress write with hResolve | ⟨s, k, -, -, -, -, -, -, hResolve⟩
    · rwa [hResolve]
    · rw [hResolve]
      exact h.onSlot s.id k.key_announce k.region_announce

theorem find_onSlot (t : FaultRegionTable) (region other : FaultRegionId)
    (hKey : ∀ s, (f s).key = s.key) :
    (t.onSlot region f).find other =
      if other = region then (t.find other).map f else t.find other := by
  unfold find
  split
  · simp
  split
  · rename_i hSame
    subst hSame
    exact lookup_modify_self fun s hs => (hKey s).trans hs
  rename_i hOther
  refine lookup_modify_ne hOther fun s hs hEq => hOther ?_
  rw [hKey, hs] at hEq
  exact (Option.some.inj hEq).symm

/-- A declared region keeps its extent, and what it has announced. -/
theorem Sound.find_step (h : t.Sound) (op : FaultOperation) {region : FaultRegionId}
    (hFind : t.find region = some s) :
    ∃ s', (t.step op).1.find region = some s' ∧ s'.region = s.region ∧
      ∀ k : Transition, k.announced s → k.announced s' := by
  cases op with
  | declare base length disclosure =>
    rcases h.declare_cases base length disclosure with
      ⟨e, hDeclare⟩ | ⟨slots, hDeclare, hIns, -, -, -⟩
    · exact ⟨s, by simpa [FaultRegionTable.step, hDeclare] using hFind, rfl, fun _ hk => hk⟩
    refine ⟨s, ?_, rfl, fun _ hk => hk⟩
    obtain ⟨hs, hOcc, hId⟩ := h.find_iff.mp hFind
    have hRegion := mem_regions.mpr ⟨s, hs, hOcc, rfl⟩
    have hOld : region ≠ t.nextId := by
      rintro rfl
      have hLt := (h.issued _ hRegion).2
      rw [show s.region.id = t.nextId from hId] at hLt
      exact lt_irrefl _ hLt
    have hKept : lookup Slot.key region slots = lookup Slot.key region t.slots :=
      lookup_insert_ne rfl hOld hIns
    simp only [FaultRegionTable.step, hDeclare]
    rw [← hFind, find, find, hKept]
  | markBacked region' state =>
    rcases t.markBacked_cases region' state with hMark | hMark
    · exact ⟨s, by simpa [FaultRegionTable.step, hMark] using hFind, rfl, fun _ hk => hk⟩
    simp only [FaultRegionTable.step, hMark]
    rw [find_onSlot]
    · rw [hFind]
      split
      · refine ⟨_, rfl, rfl, fun k hk => ?_⟩
        cases k <;> exact hk
      · exact ⟨s, rfl, rfl, fun _ hk => hk⟩
    · exact fun _ => rfl
  | resolve virtualAddress write =>
    rcases h.resolve_cases virtualAddress write with hResolve | ⟨x, j, -, -, -, -, -, -, hResolve⟩
    · exact ⟨s, by simpa [FaultRegionTable.step, hResolve] using hFind, rfl, fun _ hk => hk⟩
    simp only [FaultRegionTable.step, hResolve]
    rw [t.find_onSlot x.id region j.key_announce, hFind]
    split
    · exact ⟨_, rfl, j.region_announce s, fun k hk => Transition.announced_mono j hk⟩
    · exact ⟨s, rfl, rfl, fun _ hk => hk⟩

end FaultRegionTable

/-- One operation: the table before it, the operation and its outcome. -/
abbrev FaultEvent := FaultRegionTable × FaultOperation × FaultOutcome

/-- The event asks a pager about the region. -/
def FaultEvent.delivers (region : FaultRegionId) (e : FaultEvent) : Bool :=
  match e.2.2 with
  | .reported report => report.deliverable && report.region == region
  | _ => false

/-- The state the region was in before the event. -/
def FaultEvent.found (region : FaultRegionId) (state : FaultRegionState) (e : FaultEvent) : Bool :=
  (e.1.find region).any fun s => s.state == state

namespace FaultRegionTable

variable {t : FaultRegionTable}

/-- A report spends an announcement that was still there. -/
theorem Sound.delivers_step (h : t.Sound) {region : FaultRegionId}
    (hDelivers : FaultEvent.delivers region (t, op, (t.step op).2)) :
    ∃ virtualAddress write, ∃ (s : Slot) (k : Transition),
      op = .resolve virtualAddress write ∧ t.find region = some s ∧
      s.region.Covers virtualAddress ∧ s.disclosure = .paged ∧ s.state = k.origin ∧
      (k = .privatising → write = true) ∧ k.announced s = false ∧
      (t.step op).1.find region = some (k.announce s) := by
  cases op with
  | declare | markBacked => cases hDelivers
  | resolve virtualAddress write =>
    rcases h.resolve_cases virtualAddress write with
      hResolve | ⟨s, k, hFind, hCovers, hPaged, hState, hWrite, hFresh, hResolve⟩
    · simp [FaultEvent.delivers, FaultRegionTable.step, hResolve, FaultReport.deliverable]
        at hDelivers
    have hRegion : s.id = region := by
      simp only [FaultEvent.delivers, FaultRegionTable.step, hResolve, Bool.and_eq_true,
        beq_iff_eq] at hDelivers
      exact hDelivers.2
    subst hRegion
    refine ⟨virtualAddress, write, s, k, rfl, hFind, hCovers, hPaged, hState, hWrite, hFresh, ?_⟩
    simp only [FaultRegionTable.step, hResolve]
    rw [t.find_onSlot s.id s.id k.key_announce, if_pos rfl, hFind]
    rfl

/-- An announcement the region has not spent. One that is not declared yet has
both. -/
def credit (t : FaultRegionTable) (region : FaultRegionId) (k : Transition) : ℕ :=
  if (t.find region).any k.announced then 0 else 1

theorem Sound.credit_step (h : t.Sound) (op : FaultOperation) (region : FaultRegionId)
    (k : Transition) : (t.step op).1.credit region k ≤ t.credit region k := by
  unfold credit
  cases hFind : t.find region with
  | none =>
    simp only [Option.any_none]
    split <;> simp
  | some s =>
    obtain ⟨s', hFind', -, hKeeps⟩ := h.find_step op hFind
    rw [hFind', Option.any_some, Option.any_some]
    cases hs : k.announced s with
    | false => split <;> simp
    | true => simp [hKeeps k hs]

/-- The report costs the announcement of the state that it was made in. -/
theorem Sound.credit_spent (h : t.Sound) {region : FaultRegionId}
    (hDelivers : FaultEvent.delivers region (t, op, (t.step op).2)) :
    ∃ k : Transition, FaultEvent.found region k.origin (t, op, (t.step op).2) ∧
      t.credit region k = 1 ∧ (t.step op).1.credit region k = 0 ∧
      ∀ j : Transition, FaultEvent.found region j.origin (t, op, (t.step op).2) → j = k := by
  obtain ⟨_, _, s, k, -, hFind, -, -, hState, -, hFresh, hAfter⟩ := h.delivers_step hDelivers
  refine ⟨k, ?_, ?_, ?_, ?_⟩
  · simp [FaultEvent.found, hFind, hState]
  · simp [credit, hFind, hFresh]
  · simp [credit, hAfter]
  · intro j hj
    simp only [FaultEvent.found, hFind, Option.any_some, hState, beq_iff_eq] at hj
    cases j <;> cases k <;> first | rfl | cases hj

theorem Sound.spend_one (h : t.Sound) (op : FaultOperation) (region : FaultRegionId)
    (k : Transition) :
    (if FaultEvent.delivers region (t, op, (t.step op).2) &&
        FaultEvent.found region k.origin (t, op, (t.step op).2) then 1 else 0) +
      (t.step op).1.credit region k ≤ t.credit region k := by
  split
  · rename_i hSpent
    obtain ⟨hDelivers, hFound⟩ := Bool.and_eq_true_iff.mp hSpent
    obtain ⟨j, -, hBefore, hAfter, hOnly⟩ := h.credit_spent hDelivers
    obtain rfl := hOnly k hFound
    omega
  · have := h.credit_step op region k
    omega

theorem Sound.spend_any (h : t.Sound) (op : FaultOperation) (region : FaultRegionId) :
    (if FaultEvent.delivers region (t, op, (t.step op).2) then 1 else 0) +
      ((t.step op).1.credit region .backing + (t.step op).1.credit region .privatising) ≤
        t.credit region .backing + t.credit region .privatising := by
  have hBack := h.credit_step op region .backing
  have hPrivate := h.credit_step op region .privatising
  split
  · rename_i hDelivers
    obtain ⟨k, -, hBefore, hAfter, -⟩ := h.credit_spent hDelivers
    cases k with
    | backing | privatising => omega
  · omega

theorem credit_le_one (t : FaultRegionTable) (region : FaultRegionId) (k : Transition) :
    t.credit region k ≤ 1 := by
  unfold credit
  split <;> simp

end FaultRegionTable

/-- The identifier a declaration handed out. -/
def FaultOutcome.issued : FaultOutcome → Option FaultRegionId
  | .declared (.ok id) => some id
  | _ => none

namespace FaultRegionTable

variable {t : FaultRegionTable}

theorem Sound.issued_step (h : t.Sound) (op : FaultOperation) :
    (t.step op).2.issued = none ∧ (t.step op).1.nextId = t.nextId ∨
    (t.step op).2.issued = some t.nextId ∧
      (t.step op).1.nextId.toNat = t.nextId.toNat + 1 := by
  cases op with
  | declare base length disclosure =>
    rcases h.declare_cases base length disclosure with
      ⟨e, hDeclare⟩ | ⟨slots, hDeclare, -, -, -, hNext⟩
    · exact .inl (by simp [FaultRegionTable.step, hDeclare, FaultOutcome.issued])
    · exact .inr (by simp [FaultRegionTable.step, hDeclare, FaultOutcome.issued, hNext])
  | markBacked region state =>
    refine .inl ⟨rfl, ?_⟩
    show (t.markBacked region state).1.nextId = t.nextId
    rcases t.markBacked_cases region state with hMark | hMark
    · rw [hMark]
    · rw [hMark]
      rfl
  | resolve virtualAddress write =>
    refine .inl ⟨rfl, ?_⟩
    show (t.resolve virtualAddress write).1.nextId = t.nextId
    rcases h.resolve_cases virtualAddress write with hResolve | ⟨s, k, -, -, -, -, -, -, hResolve⟩
    · rw [hResolve]
    · rw [hResolve]
      rfl

/-- Every identifier handed out from here on is new, and they all differ. -/
theorem Sound.issued_outputs (h : t.Sound) (ops : List FaultOperation) :
    ((outputs FaultRegionTable.step t ops).filterMap FaultOutcome.issued).Nodup ∧
      ∀ id ∈ (outputs FaultRegionTable.step t ops).filterMap FaultOutcome.issued,
        t.nextId.toNat ≤ id.toNat := by
  induction ops generalizing t with
  | nil => simp [outputs, history]
  | cons op rest ih =>
    obtain ⟨hNodup, hLater⟩ := ih (h.step op)
    have hOutputs : outputs FaultRegionTable.step t (op :: rest) =
        (t.step op).2 :: outputs FaultRegionTable.step (t.step op).1 rest := rfl
    rw [hOutputs]
    rcases h.issued_step op with ⟨hNone, hNext⟩ | ⟨hSome, hNext⟩
    · rw [filterMap_cons_none hNone]
      rw [hNext] at hLater
      exact ⟨hNodup, hLater⟩
    rw [filterMap_cons_some hSome]
    rw [hNext] at hLater
    refine ⟨nodup_cons.mpr ⟨fun hUsed => ?_, hNodup⟩, fun id hId => ?_⟩
    · have := hLater _ hUsed
      omega
    rcases mem_cons.mp hId with rfl | hOld
    · exact le_refl _
    · have := hLater id hOld
      omega

/-- Operations that differ at most in where inside the same regions an address
is. -/
def SameRegions (t t' : FaultRegionTable) : FaultOperation → FaultOperation → Prop
  | .resolve virtualAddress write, .resolve virtualAddress' write' =>
    write = write' ∧ ∀ region, t.Inside region virtualAddress ↔ t'.Inside region virtualAddress'
  | op, op' => op = op'

theorem Sound.hit_congr (h : t.Sound) {a b : UInt64}
    (hInside : ∀ region, t.Inside region a → t.Inside region b) {s : Slot} (hs : s ∈ t.slots)
    (hHit : s.hit a) : s.hit b := by
  obtain ⟨hOcc, hCovers⟩ := Slot.hit_iff.mp hHit
  obtain ⟨r, hr, hId, hCovers'⟩ :=
    hInside s.id ⟨s.region, mem_regions.mpr ⟨s, hs, hOcc, rfl⟩, rfl, hCovers⟩
  obtain ⟨x, hx, hxOccupied, rfl⟩ := mem_regions.mp hr
  obtain rfl := h.eq_of_id hx hs hxOccupied hOcc hId
  exact Slot.hit_iff.mpr ⟨hOcc, hCovers'⟩

theorem Sound.resolve_congr (h : t.Sound) {a b : UInt64}
    (hInside : ∀ region, t.Inside region a ↔ t.Inside region b) (write : Bool) :
    t.resolve a write = t.resolve b write := by
  have hHit : ∀ s ∈ t.slots, s.hit a = s.hit b := by
    intro s hs
    rw [Bool.eq_iff_iff]
    exact ⟨h.hit_congr (fun r => (hInside r).mp) hs, h.hit_congr (fun r => (hInside r).mpr) hs⟩
  have hFind : t.slots.find? (Slot.hit a) = t.slots.find? (Slot.hit b) := find?_congr hHit
  unfold resolve
  simp only [hFind, updateFirst_congr hHit]

theorem Sound.step_congr (h : t.Sound) {op' : FaultOperation} (hSame : SameRegions t t op op') :
    t.step op = t.step op' := by
  cases op with
  | declare base length disclosure =>
    have hEq : FaultOperation.declare base length disclosure = op' := by
      simpa [SameRegions] using hSame
    rw [hEq]
  | markBacked region state =>
    have hEq : FaultOperation.markBacked region state = op' := by simpa [SameRegions] using hSame
    rw [hEq]
  | resolve =>
    cases op' with
    | declare => cases hSame
    | markBacked => cases hSame
    | resolve =>
      obtain ⟨rfl, hInside⟩ := hSame
      rw [FaultRegionTable.step, FaultRegionTable.step, h.resolve_congr hInside]

/-- In every run from an empty table the regions are disjoint, their identifiers
are distinct and each is handed out once. A region is reported at most once
while unbacked and at most once for a write while shared, never when sealed and
never for an address outside it. Two runs that fault in the same regions with
the same accesses get the same answers. -/
theorem fault_reports_disclose_regions (ops : List FaultOperation) :
    Run.Always step (fun t => t.regions.Pairwise FaultRegion.Apart ∧
      (t.regions.map FaultRegion.id).Nodup) {} ops ∧
    ((outputs step {} ops).filterMap FaultOutcome.issued).Nodup ∧
    (∀ region, (history step {} ops).countP (FaultEvent.delivers region) ≤ 2 ∧
      ((history step {} ops).countP fun e =>
        FaultEvent.delivers region e && FaultEvent.found region .unbacked e) ≤ 1 ∧
      ((history step {} ops).countP fun e =>
        FaultEvent.delivers region e && FaultEvent.found region .backedShared e) ≤ 1) ∧
    (∀ e ∈ history step {} ops, ∀ region, FaultEvent.delivers region e →
      ∃ virtualAddress write s, e.2.1 = .resolve virtualAddress write ∧
        e.1.find region = some s ∧ s.disclosure = .paged ∧ s.region.Covers virtualAddress ∧
        (s.state = .unbacked ∨ write = true ∧ s.state = .backedShared)) ∧
    ∀ ops', Run.Paired step SameRegions {} {} ops ops' →
      outputs step {} ops = outputs step {} ops' := by
  have hStep : ∀ (t : FaultRegionTable) op, t.Sound → (t.step op).1.Sound := fun _ op h => h.step op
  refine ⟨?_, (sound_fresh.issued_outputs ops).1, ?_, ?_, ?_⟩
  · intro n
    have hSound : (after step {} (ops.take n)).Sound := always_of_invariant sound_fresh hStep n
    exact ⟨hSound.apart, hSound.distinct⟩
  · intro region
    have hOne (k : Transition) : ((history step {} ops).countP fun e =>
        FaultEvent.delivers region e && FaultEvent.found region k.origin e) ≤ 1 :=
      (countP_history_le (fun t => t.credit region k) sound_fresh hStep
        fun t op h => h.spend_one op region k).trans (credit_le_one _ region k)
    refine ⟨?_, hOne .backing, hOne .privatising⟩
    refine (countP_history_le
      (fun t => t.credit region .backing + t.credit region .privatising) sound_fresh hStep
      fun t op h => h.spend_any op region).trans ?_
    exact Nat.add_le_add (credit_le_one _ region .backing) (credit_le_one _ region .privatising)
  · intro e he region hDelivers
    obtain ⟨t, op, outcome⟩ := e
    obtain ⟨hSound, hOutcome⟩ := of_mem_history sound_fresh hStep he
    dsimp only at hSound hOutcome
    subst hOutcome
    obtain ⟨virtualAddress, write, s, k, hOp, hFind, hCovers, hPaged, hState, hWrite, -, -⟩ :=
      hSound.delivers_step hDelivers
    refine ⟨virtualAddress, write, s, hOp, hFind, hPaged, hCovers, ?_⟩
    cases k with
    | backing => exact .inl hState
    | privatising => exact .inr ⟨hWrite rfl, hState⟩
  · intro ops' hPaired
    refine outputs_eq_of_paired (R := fun t t' => t = t' ∧ t.Sound) ?_ ⟨rfl, sound_fresh⟩
      hPaired
    rintro t _ op op' ⟨rfl, hSound⟩ hSame
    rw [hSound.step_congr hSame]
    exact ⟨rfl, rfl, hSound.step_congr hSame ▸ hSound.step op⟩

end FaultRegionTable

end Enml.OsKernel
