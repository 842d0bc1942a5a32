import Enml.Safety.StrandedInterrupt

/-! Conservation of interrupts. What a source asserts is handed to its driver in
batches whose counts stop at a ceiling, and the line is masked while any of it is
outstanding. -/
namespace Enml.OsKernel

open Enml.Core SlotTable List InterruptTable
open InterruptTable (Slot)

inductive InterruptOp where
  | attach (driver : ThreadId) (source : InterruptSource)
  | detach (driver : ThreadId) (source : InterruptSource)
  | dispatch (source : InterruptSource)
  | beginService (driver : ThreadId) (source : InterruptSource)
  | endService (driver : ThreadId) (source : InterruptSource)
  | detachAllOwnedBy (driver : ThreadId)

/-- What a source has asserted since it was attached and what its driver was
told of it. `batch` is what arrived since the last collection. -/
structure InterruptLine where
  arrived : ℕ := 0
  collected : ℕ := 0
  batch : ℕ := 0
  flagged : Bool := false
  serving : Bool := false

structure WatchedLine where
  table : InterruptTable := {}
  line : InterruptLine := {}

namespace WatchedLine

/-- A call about `s` that is granted changes the line of `source` if that is `s`. -/
def record {α : Type} (source s : InterruptSource) (w : WatchedLine)
    (done : InterruptTable × Result α) (change : α → InterruptLine → InterruptLine) :
    WatchedLine × Unit :=
  match done with
  | (table, .ok value) =>
    ({ table, line := if s = source then change value w.line else w.line }, ())
  | (table, .error _) => ({ w with table }, ())

def step (source : InterruptSource) (w : WatchedLine) : InterruptOp → WatchedLine × Unit
  | .attach driver s => record source s w (w.table.attach driver s) fun _ _ => {}
  | .detach driver s => ({ w with table := (w.table.detach driver s).1 }, ())
  | .dispatch s => record source s w (w.table.dispatch s) fun _ l =>
      { l with arrived := l.arrived + 1, batch := l.batch + 1 }
  | .beginService driver s => record source s w (w.table.beginService driver s) fun service l =>
      { l with
        collected := l.collected + service.assertions.toNat
        batch := 0
        flagged := l.flagged || service.saturated
        serving := true }
  | .endService driver s => record source s w (w.table.endService driver s) fun _ l =>
      { l with serving := false }
  | .detachAllOwnedBy driver => ({ w with table := (w.table.detachAllOwnedBy driver).1 }, ())

/-- Nothing is lost but what a count at its ceiling says was lost. -/
structure Conserved (source : InterruptSource) (w : WatchedLine) : Prop where
  balanced : ∀ slot, w.table.find source = some slot → w.line.flagged = false →
    slot.saturated = false → w.line.arrived = w.line.collected + slot.assertions.toNat
  told : ∀ driver service, (w.table.beginService driver source).2 = .ok service →
    0 < service.assertions ∧ service.assertions.toNat = min w.line.batch (2 ^ 32 - 1) ∧
      (service.saturated = true ↔ service.assertions.toNat < w.line.batch)
  unmasked : w.table.isMasked source = .ok false ↔
    (w.table.find source).isSome = true ∧ w.line.batch = 0 ∧ w.line.serving = false
  again : ∀ driver again, (w.table.endService driver source).2 = .ok again →
    (again = true ↔ 0 < w.line.batch)

/-- The slot holds what the line says is outstanding. -/
structure Tallies (slot : Slot) (l : InterruptLine) : Prop where
  counted : slot.assertions.toNat = min l.batch (2 ^ 32 - 1)
  dropped : slot.saturated = decide (2 ^ 32 - 1 < l.batch)
  phase : slot.state =
    if l.serving then .inService else if l.batch = 0 then .attached else .pending
  balanced : l.flagged = false → l.arrived = l.collected + l.batch

variable {slot : Slot} {l : InterruptLine}

theorem Tallies.first (h : Tallies slot l) (hState : slot.state = .attached) :
    Tallies { slot with state := .pending, assertions := 1, saturated := false }
      { l with arrived := l.arrived + 1, batch := l.batch + 1 } := by
  obtain ⟨-, -, hPhase, hBalanced⟩ := h
  rw [hState] at hPhase
  split_ifs at hPhase with hServing hBatch
  refine ⟨?_, ?_, ?_, ?_⟩
  · simp [hBatch]
  · simp [hBatch]
  · simp [hServing]
  intro hFlagged
  have hSum := hBalanced hFlagged
  dsimp only
  omega

theorem Tallies.recordAssertion (h : Tallies slot l) (hState : slot.state ≠ .attached) :
    Tallies slot.recordAssertion
      { l with arrived := l.arrived + 1, batch := l.batch + 1 } := by
  obtain ⟨hCounted, hDropped, hPhase, hBalanced⟩ := h
  have hCeiling : slot.assertions = assertionCeiling ↔ 2 ^ 32 - 1 ≤ l.batch := by
    rw [← UInt32.toNat_inj, hCounted]
    simp [assertionCeiling]
  have hKept : slot.state =
      if l.serving then .inService else if l.batch + 1 = 0 then .attached else .pending := by
    rw [if_neg l.batch.succ_ne_zero, hPhase]
    split_ifs with hServing hBatch
    · rfl
    · simp [hPhase, hServing, hBatch] at hState
    · rfl
  have hSum : l.flagged = false → l.arrived + 1 = l.collected + (l.batch + 1) := by
    intro hFlagged
    have := hBalanced hFlagged
    omega
  unfold Slot.recordAssertion
  split
  · rename_i hFull
    refine ⟨?_, ?_, hKept, hSum⟩
    · dsimp only
      rw [hCeiling] at hFull
      omega
    · exact (decide_eq_true (Nat.lt_succ_of_le (hCeiling.mp hFull))).symm
  · rename_i hRoom
    rw [hCeiling] at hRoom
    refine ⟨?_, ?_, hKept, hSum⟩
    · dsimp only
      rw [UInt32.toNat_add, hCounted, UInt32.toNat_one]
      omega
    · dsimp only
      rw [hDropped, decide_eq_decide]
      omega

theorem Tallies.beginService (h : Tallies slot l) :
    Tallies { slot with state := .inService, assertions := 0, saturated := false }
      { l with
        collected := l.collected + slot.assertions.toNat
        batch := 0
        flagged := l.flagged || slot.saturated
        serving := true } := by
  refine ⟨rfl, rfl, rfl, ?_⟩
  intro hFlagged
  rw [Bool.or_eq_false_iff, h.dropped, decide_eq_false_iff_not] at hFlagged
  have hSum := h.balanced hFlagged.1
  have hCounted := h.counted
  dsimp only
  omega

theorem Tallies.pos_iff (h : Tallies slot l) : 0 < slot.assertions ↔ 0 < l.batch := by
  have hCounted := h.counted
  rw [UInt32.lt_iff_toNat_lt, UInt32.toNat_zero]
  omega

theorem Tallies.endService (h : Tallies slot l) {state : InterruptState}
    (hState : state = if 0 < slot.assertions then .pending else .attached) :
    Tallies { slot with state } { l with serving := false } := by
  refine ⟨h.counted, h.dropped, ?_, h.balanced⟩
  subst hState
  simp only [h.pos_iff, Bool.false_eq_true, if_false]
  split_ifs <;> first | rfl | omega

theorem key_recordAssertion (slot : Slot) : slot.recordAssertion.key = slot.key := by
  unfold Slot.recordAssertion
  split <;> rfl

/-- No source has two slots, and the slot of `source` tallies with its line. -/
def Agrees (source : InterruptSource) (w : WatchedLine) : Prop :=
  (keys Slot.key w.table.slots).Nodup ∧
    ∀ slot ∈ w.table.slots, slot.key = some source → Tallies slot w.line

variable {t : InterruptTable} {source s : InterruptSource}

theorem Agrees.tallies (h : Agrees source ⟨t, l⟩) (hFind : t.find source = some slot) :
    Tallies slot l := by
  unfold find at hFind
  split_ifs at hFind
  obtain ⟨hMem, hKey⟩ := mem_of_lookup hFind
  exact h.2 slot hMem hKey

theorem find_modify {f : Slot → Slot} (hKey : ∀ slot, (f slot).key = slot.key)
    (hFind : t.find s = some slot) : (t.modify s f).find s = some (f slot) := by
  unfold find at hFind ⊢
  split_ifs at hFind ⊢ with hSrc
  unfold InterruptTable.modify
  rw [lookup_modify_self fun slot hs => (hKey slot).trans hs, hFind]
  rfl

/-- A rewrite of the slot of `s` that keeps its key. -/
theorem Agrees.modify {f : Slot → Slot} {after : InterruptLine} (h : Agrees source ⟨t, l⟩)
    (hKey : ∀ slot, (f slot).key = slot.key) (hFind : t.find s = some slot)
    (hf : Tallies slot l → Tallies (f slot) after) :
    Agrees source ⟨t.modify s f, if s = source then after else l⟩ := by
  obtain ⟨hDist, hTallies⟩ := h
  unfold find at hFind
  split_ifs at hFind
  refine ⟨?_, ?_⟩
  · unfold InterruptTable.modify
    rwa [keys_modify fun slot hs => (hKey slot).trans hs]
  intro x hMem hx
  rw [InterruptTable.modify, modify_eq_map hDist, mem_map] at hMem
  obtain ⟨before, hBefore, rfl⟩ := hMem
  split_ifs at hx ⊢ with hFirst hSame hSame
  · have hFound := (lookup_eq_some_iff hDist).mpr ⟨hBefore, hFirst⟩
    rw [hFind, Option.some.injEq] at hFound
    subst hSame hFound
    exact hf (hTallies slot hBefore hFirst)
  · rw [hKey, hFirst] at hx
    exact absurd (Option.some.inj hx) hSame
  · exact absurd (hx.trans (congrArg some hSame.symm)) hFirst
  · exact hTallies before hBefore hx

theorem Agrees.free (h : Agrees source ⟨t, l⟩) (p : Slot → Bool) (occupied : Nat) :
    Agrees source
      ⟨{ t with slots := t.slots.map fun slot => if p slot then {} else slot, occupied }, l⟩ := by
  refine ⟨?_, ?_⟩
  · rw [← keys_entries, entries_map_free rfl]
    refine List.Nodup.sublist (List.Sublist.filterMap _ filter_sublist) ?_
    rw [keys_entries]
    exact h.1
  intro x hMem hx
  simp only [mem_map] at hMem
  obtain ⟨before, hBefore, rfl⟩ := hMem
  split_ifs at hx ⊢
  · cases hx
  · exact h.2 before hBefore hx

theorem Agrees.attach (h : Agrees source ⟨t, l⟩) {new : Slot} {slots : List Slot}
    (hKey : new.key = some s) (hTallies : Tallies new {})
    (hNew : s ∉ keys Slot.key t.slots)
    (hIns : insert Slot.key new t.slots = some slots) (occupied : Nat) :
    Agrees source ⟨{ t with slots, occupied }, if s = source then {} else l⟩ := by
  refine ⟨?_, ?_⟩
  · rw [(keys_insert hKey hIns).nodup_iff]
    exact nodup_cons.mpr ⟨hNew, h.1⟩
  intro x hMem hx
  rcases (mem_insert hIns (by simp [hx])).mp hMem with hOld | rfl
  · rw [if_neg ?_]
    · exact h.2 x hOld hx
    · rintro rfl
      exact hNew (mem_keys_iff.mpr ⟨x, hOld, hx⟩)
  · rwa [if_pos (Option.some.inj (hKey.symm.trans hx))]

theorem agrees_step {w : WatchedLine} (h : Agrees source w) (op : InterruptOp) :
    Agrees source (step source w op).1 := by
  obtain ⟨t, l⟩ := w
  cases op with
  | attach driver s =>
    simp only [step, InterruptTable.attach]
    split_ifs with hDriver hSrc hTaken
    iterate 3 exact h
    split
    · rename_i hIns
      refine h.attach rfl ⟨rfl, rfl, rfl, fun _ => rfl⟩ ?_ hIns _
      rwa [find, if_neg hSrc, SlotTable.lookup_isSome_iff] at hTaken
    · exact h
  | detach driver s =>
    simp only [step, detach]
    split
    · exact h
    · rw [modify_eq_map h.1]
      simpa using h.free (fun slot => decide (slot.key = some s)) _
  | dispatch s =>
    simp only [step, dispatch]
    by_cases hSrc : s = invalidInterruptSource
    · rw [if_pos hSrc]
      exact h
    rw [if_neg hSrc]
    split
    · rename_i hNone
      rw [find, if_neg hSrc, SlotTable.lookup_eq_none_iff] at hNone
      refine ⟨h.1, fun slot hMem hKey => ?_⟩
      dsimp only [record]
      rw [if_neg ?_]
      · exact h.2 slot hMem hKey
      · rintro rfl
        exact hNone (mem_keys_iff.mpr ⟨slot, hMem, hKey⟩)
    · rename_i slot hFind
      split_ifs with hState
      · exact h.modify (fun _ => rfl) hFind fun hTallies => hTallies.first hState
      · exact h.modify key_recordAssertion hFind fun hTallies => hTallies.recordAssertion hState
  | beginService driver s =>
    simp only [step, beginService]
    split
    · exact h
    rename_i slot hOwned
    obtain ⟨-, -, hFind, -⟩ := ownedSlot_ok hOwned
    split_ifs
    · exact h
    · exact h.modify (fun _ => rfl) hFind Tallies.beginService
  | endService driver s =>
    simp only [step, endService]
    split
    · exact h
    rename_i hOwned
    obtain ⟨-, -, hFind, -⟩ := ownedSlot_ok hOwned
    split_ifs with hState hAgain
    · exact h
    · exact h.modify (fun _ => rfl) hFind fun hTallies => hTallies.endService (if_pos hAgain).symm
    · exact h.modify (fun _ => rfl) hFind fun hTallies => hTallies.endService (if_neg hAgain).symm
  | detachAllOwnedBy driver =>
    simp only [step, detachAllOwnedBy]
    split_ifs
    · exact h
    · exact h.free _ _

/-- Whatever calls are made, every assertion is still counted or was handed to
the driver, unless a count that stopped at its ceiling tells otherwise. -/
theorem interrupts_conserved (source : InterruptSource) (ops : List InterruptOp) :
    Conserved source (Run.after (step source) {} ops) := by
  have hStart : Agrees source {} := by
    refine ⟨by simp [SlotTable.keys, Slot.key], fun slot hMem hKey => ?_⟩
    rw [eq_of_mem_replicate hMem] at hKey
    cases hKey
  have hRun : Run.Always (step source) (Agrees source) {} ops :=
    Run.always_of_invariant hStart fun _ op h => agrees_step h op
  have hAgrees := hRun.final
  generalize Run.after (step source) {} ops = w at hAgrees
  obtain ⟨t, l⟩ := w
  refine ⟨?_, ?_, ?_, ?_⟩
  · intro slot hFind hFlagged hSaturated
    obtain ⟨hCounted, hDropped, -, hBalanced⟩ := hAgrees.tallies hFind
    have hSum := hBalanced hFlagged
    rw [hDropped, decide_eq_false_iff_not] at hSaturated
    dsimp only
    omega
  · intro driver service hBegin
    simp only [beginService] at hBegin
    split at hBegin
    · cases hBegin
    rename_i slot hOwned
    obtain ⟨-, -, hFind, -⟩ := ownedSlot_ok hOwned
    have hTallies := hAgrees.tallies hFind
    split_ifs at hBegin with hPending
    cases hBegin
    have hPhase := hTallies.phase
    rw [not_not.mp hPending] at hPhase
    split_ifs at hPhase with hServing hBatch
    refine ⟨hTallies.pos_iff.mpr (Nat.pos_of_ne_zero hBatch), hTallies.counted, ?_⟩
    rw [hTallies.dropped, decide_eq_true_eq, hTallies.counted]
    dsimp only
    omega
  · unfold isMasked
    split
    · rename_i hNone
      simp [hNone]
    · rename_i slot hFind
      rw [(hAgrees.tallies hFind).phase, hFind]
      cases hServing : l.serving <;> by_cases hBatch : l.batch = 0 <;> simp [hBatch]
  · intro driver again hEnd
    simp only [endService] at hEnd
    split at hEnd
    · cases hEnd
    rename_i hOwned
    obtain ⟨-, -, hFind, -⟩ := ownedSlot_ok hOwned
    rw [← (hAgrees.tallies hFind).pos_iff]
    split_ifs at hEnd with hState hAgain <;> cases hEnd <;> simp [hAgain]

/-- Assertions dropped at the ceiling while nobody collects are in neither count. -/
theorem uncollected_assertions_dropped : ¬ ∀ (source : InterruptSource) (ops : List InterruptOp)
    (slot : Slot), (Run.after (step source) {} ops).table.find source = some slot →
      (Run.after (step source) {} ops).line.flagged = false →
      (Run.after (step source) {} ops).line.arrived =
        (Run.after (step source) {} ops).line.collected + slot.assertions.toNat := by
  intro hAll
  have hFlood : ∀ n, ∃ t, (t.find 5).isSome = true ∧
      Run.after (step 5) {} (.attach 1 5 :: List.replicate n (.dispatch 5)) =
        ⟨t, { arrived := n, batch := n }⟩ := by
    intro n
    induction n with
    | zero => exact ⟨_, rfl, rfl⟩
    | succ n ih =>
      obtain ⟨t, hFind, hRun⟩ := ih
      obtain ⟨slot, hFind⟩ := Option.isSome_iff_exists.mp hFind
      rw [replicate_succ', ← cons_append, Run.after_append, hRun]
      simp only [Run.after, foldl_cons, foldl_nil, step, dispatch, hFind]
      rw [if_neg (by decide)]
      split_ifs <;> refine ⟨_, Option.isSome_of_eq_some (find_modify ?_ hFind), rfl⟩
      · exact fun _ => rfl
      · exact key_recordAssertion
  obtain ⟨t, hFind, hRun⟩ := hFlood (2 ^ 32)
  obtain ⟨slot, hFind⟩ := Option.isSome_iff_exists.mp hFind
  have hSum := hAll 5 (.attach 1 5 :: List.replicate (2 ^ 32) (.dispatch 5)) slot
    (by rw [hRun, hFind]) (by rw [hRun])
  rw [hRun] at hSum
  have hBound := slot.assertions.toNat_lt
  dsimp only at hSum
  omega

end WatchedLine

end Enml.OsKernel
