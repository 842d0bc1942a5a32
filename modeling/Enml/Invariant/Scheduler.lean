import Enml.Invariant.Rendezvous
import Enml.OsKernel.Scheduler

/-! The scheduler as a cache. `cached` is what it holds about a thread and
`Rendezvous.expected` is what it ought to hold. -/
namespace Enml.OsKernel

open Enml.Core SlotTable List

namespace Scheduler

variable {f : Slot → Slot}

/-- The threads that occupy a slot, in table order. -/
def ids (s : Scheduler) : List ThreadId := keys Slot.key s.slots

/-- The two fields the rendezvous decides. -/
def Slot.cache (slot : Slot) : Bool × Priority := (slot.runnable, slot.effective)

def cached (s : Scheduler) (thread : ThreadId) : Option (Bool × Priority) :=
  (s.find thread).map Slot.cache

theorem find_eq_lookup (s : Scheduler) {t : ThreadId} (ht : t ≠ invalidThread) :
    s.find t = lookup Slot.key t s.slots := by
  rw [find, if_neg ht]

@[simp] theorem find_invalid (s : Scheduler) : s.find invalidThread = none := by
  rw [find, if_pos rfl]

variable {s s' : Scheduler} {t : ThreadId} {p : Priority}

theorem cached_isSome_iff (h0 : invalidThread ∉ s.ids) : (s.cached t).isSome ↔ t ∈ s.ids := by
  rcases eq_or_ne t invalidThread with rfl | ht
  · simp [cached, h0]
  · rw [cached, Option.isSome_map, find_eq_lookup s ht]
    exact lookup_isSome_iff

theorem find_modify (s : Scheduler) (t u : ThreadId) (hf : ∀ slot, (f slot).key = slot.key) :
    (s.modify t f).find u = if u = t then (s.find t).map f else s.find u := by
  rcases eq_or_ne u invalidThread with rfl | hu
  · split_ifs with h
    · simp [← h]
    · simp
  rw [find_eq_lookup _ hu, find_eq_lookup s hu]
  split_ifs with h
  · subst h
    rw [find_eq_lookup s hu]
    exact lookup_modify_self fun slot hs => (hf slot).trans hs
  apply lookup_modify_ne h
  intro slot hs hs'
  rw [hf slot, hs] at hs'
  exact h (Option.some.inj hs').symm

theorem ids_modify (s : Scheduler) (t : ThreadId) (hf : ∀ slot, (f slot).key = slot.key) :
    (s.modify t f).ids = s.ids :=
  keys_modify fun slot hs => (hf slot).trans hs

/-- A write that spares the two cached fields is invisible through `cached`. -/
theorem cached_modify (s : Scheduler) (t : ThreadId) (hf : ∀ slot, (f slot).key = slot.key)
    (hc : ∀ slot, (f slot).cache = slot.cache) (u : ThreadId) :
    (s.modify t f).cached u = s.cached u := by
  rw [cached, find_modify s t u hf, cached]
  split_ifs with h
  · subst h
    cases s.find u with
    | none => rfl
    | some slot => simp [hc]
  · rfl

theorem cached_update (s : Scheduler) (t u : ThreadId) (runnable : Bool) (effective : Priority) :
    (s.update t runnable effective).1.cached u =
      if u = t then (s.cached t).map fun _ => (runnable, effective) else s.cached u := by
  unfold update
  split
  · rename_i ht
    subst ht
    split_ifs with h
    · subst h
      simp [cached]
    · rfl
  · cases hFind : s.find t with
    | none =>
      split_ifs with h
      · subst h
        simp [cached, hFind]
      · rfl
    | some slot =>
      rw [cached, find_modify, cached, cached]
      · split_ifs with h
        · rw [hFind]
          rfl
        · rfl
      · intro slot
        rfl

theorem ids_update (s : Scheduler) (t : ThreadId) (runnable : Bool) (effective : Priority) :
    (s.update t runnable effective).1.ids = s.ids := by
  unfold update
  split
  · rfl
  split
  · rfl
  · exact ids_modify s t fun _ => rfl

@[simp] theorem length_update (s : Scheduler) (t : ThreadId) (runnable : Bool)
    (effective : Priority) :
    (s.update t runnable effective).1.slots.length = s.slots.length := by
  unfold update
  split
  · rfl
  split
  · rfl
  · simp [modify]

theorem admitThread_ok (h : s.admitThread t p = (s', .ok ())) :
    t ≠ invalidThread ∧ s.find t = none ∧ insert Slot.key
        { thread := t, effective := p, runnable := true, remaining := defaultSliceNanoseconds,
          sequence := s.nextSequence, occupied := true } s.slots = some s'.slots := by
  unfold admitThread at h
  split at h
  · cases h
  rename_i ht
  split at h
  · cases h
  rename_i hFind
  split at h
  · rename_i hIns
    cases h
    exact ⟨ht, by simpa using hFind, hIns⟩
  · cases h

/-- Admission cannot fail for a new thread while there is room. -/
theorem admitThread_of_room (p : Priority) (ht : t ≠ invalidThread) (hNew : t ∉ s.ids)
    (hRoom : s.ids.length < s.slots.length) : ∃ s', s.admitThread t p = (s', .ok ()) := by
  have hFind : s.find t = none := by
    rw [find_eq_lookup s ht]
    exact lookup_eq_none_iff.mpr hNew
  obtain ⟨slots, hIns⟩ : ∃ slots, insert Slot.key
      { thread := t, effective := p, runnable := true, remaining := defaultSliceNanoseconds,
        sequence := s.nextSequence, occupied := true } s.slots = some slots :=
    Option.isSome_iff_exists.mp (insert_isSome_iff.mpr hRoom)
  refine ⟨{ s with slots, occupied := s.occupied + 1, nextSequence := s.nextSequence + 1 }, ?_⟩
  rw [admitThread, if_neg ht, hFind]
  simp [hIns]

theorem ids_admitThread (h : s.admitThread t p = (s', .ok ())) : s'.ids.Perm (t :: s.ids) :=
  keys_insert rfl (admitThread_ok h).2.2

theorem length_admitThread (h : s.admitThread t p = (s', .ok ())) :
    s'.slots.length = s.slots.length :=
  length_insert (admitThread_ok h).2.2

theorem cached_admitThread_ne {u : ThreadId} (h : s.admitThread t p = (s', .ok ())) (hu : u ≠ t) :
    s'.cached u = s.cached u := by
  obtain ⟨-, -, hIns⟩ := admitThread_ok h
  rcases eq_or_ne u invalidThread with rfl | hu0
  · simp [cached]
  · have hLookup := lookup_insert_ne (by rfl) hu hIns
    rw [cached, cached, find_eq_lookup _ hu0, find_eq_lookup _ hu0, hLookup]

theorem ids_retire (s : Scheduler) {t : ThreadId} (h0 : invalidThread ∉ s.ids) :
    (s.retire t).1.ids = s.ids.erase t := by
  unfold retire
  split
  · rename_i ht
    subst ht
    exact (erase_of_not_mem h0).symm
  rename_i ht
  cases hFind : s.find t with
  | none =>
    rw [find_eq_lookup s ht, SlotTable.lookup_eq_none_iff] at hFind
    exact (erase_of_not_mem hFind).symm
  | some => exact keys_modify_free fun _ _ => rfl

@[simp] theorem length_retire (s : Scheduler) (t : ThreadId) :
    (s.retire t).1.slots.length = s.slots.length := by
  unfold retire
  split
  · rfl
  split
  · rfl
  · simp

theorem cached_yieldSlice (s : Scheduler) (t u : ThreadId) :
    (s.yieldSlice t).1.cached u = s.cached u := by
  unfold yieldSlice
  split
  · rfl
  split
  · rfl
  apply cached_modify
  all_goals
    intro slot
    rfl

theorem ids_yieldSlice (s : Scheduler) (t : ThreadId) : (s.yieldSlice t).1.ids = s.ids := by
  unfold yieldSlice
  split
  · rfl
  split
  · rfl
  · exact ids_modify s t fun _ => rfl

@[simp] theorem length_yieldSlice (s : Scheduler) (t : ThreadId) :
    (s.yieldSlice t).1.slots.length = s.slots.length := by
  unfold yieldSlice
  split
  · rfl
  split
  · rfl
  · simp [modify]

theorem lookup_replenish (slots : List Slot) (sequence : UInt64) (t : ThreadId) :
    (lookup Slot.key t (replenish slots sequence).1).map Slot.cache =
      (lookup Slot.key t slots).map Slot.cache := by
  induction slots generalizing sequence with
  | nil => rfl
  | cons x _ ih =>
    unfold SlotTable.lookup at ih ⊢
    unfold replenish
    split
    · rw [find?_cons, find?_cons]
      split
      · rfl
      · exact ih sequence
    have hKey : Slot.key { x with remaining := defaultSliceNanoseconds, sequence := sequence } =
        x.key := rfl
    rw [find?_cons, find?_cons, hKey]
    split
    · rfl
    · exact ih (sequence + 1)

theorem keys_replenish (slots : List Slot) (sequence : UInt64) :
    keys Slot.key (replenish slots sequence).1 = keys Slot.key slots := by
  induction slots generalizing sequence with
  | nil => rfl
  | cons x _ ih =>
    unfold SlotTable.keys at ih ⊢
    unfold replenish
    split
    · rw [filterMap_cons, filterMap_cons, ih sequence]
    · have hKey : Slot.key { x with remaining := defaultSliceNanoseconds, sequence := sequence } =
          x.key := rfl
      rw [filterMap_cons, filterMap_cons, hKey, ih (sequence + 1)]

theorem length_replenish (slots : List Slot) (sequence : UInt64) :
    (replenish slots sequence).1.length = slots.length := by
  induction slots generalizing sequence with
  | nil => rfl
  | cons _ _ ih =>
    unfold replenish
    split
    · simp [ih sequence]
    · simp [ih (sequence + 1)]

theorem cached_charge (s : Scheduler) (now : UInt64) (u : ThreadId) :
    (s.charge now).cached u = s.cached u := by
  unfold charge
  split
  · apply cached_modify
    all_goals
      intro slot
      rfl
  · rfl

theorem ids_charge (s : Scheduler) (now : UInt64) : (s.charge now).ids = s.ids := by
  unfold charge
  split
  · exact ids_modify s _ fun _ => rfl
  · rfl

@[simp] theorem length_charge (s : Scheduler) (now : UInt64) :
    (s.charge now).slots.length = s.slots.length := by
  unfold charge
  split
  · simp [modify]
  · rfl

/-- A decision spends and refills slices and leaves the cache alone. -/
theorem cached_choose (s : Scheduler) (now : UInt64) (u : ThreadId) :
    (s.choose now).1.cached u = s.cached u := by
  rcases eq_or_ne u invalidThread with rfl | hu
  · simp [cached]
  have hReplenish := lookup_replenish (s.charge now).slots (s.charge now).nextSequence u
  have hCharge := cached_charge s now u
  rw [cached, find_eq_lookup _ hu] at hCharge
  rw [cached, find_eq_lookup _ hu]
  exact hReplenish.trans hCharge

theorem ids_choose (s : Scheduler) (now : UInt64) : (s.choose now).1.ids = s.ids := by
  have hReplenish := keys_replenish (s.charge now).slots (s.charge now).nextSequence
  exact hReplenish.trans (ids_charge s now)

@[simp] theorem length_choose (s : Scheduler) (now : UInt64) :
    (s.choose now).1.slots.length = s.slots.length := by
  have hReplenish := length_replenish (s.charge now).slots (s.charge now).nextSequence
  exact hReplenish.trans (length_charge s now)

theorem find_eq_some_iff (hNodup : s.ids.Nodup) (hInvalid : invalidThread ∉ s.ids) {slot : Slot} :
    s.find t = some slot ↔ slot ∈ s.slots ∧ slot.occupied = true ∧ slot.thread = t := by
  rcases eq_or_ne t invalidThread with rfl | ht
  · rw [find_invalid]
    constructor
    · intro h
      cases h
    · rintro ⟨hMem, hOcc, hThr⟩
      refine absurd (mem_keys_iff.mpr ⟨slot, hMem, ?_⟩) hInvalid
      rw [Slot.key, if_pos hOcc, hThr]
  · rw [find_eq_lookup _ ht, lookup_eq_some_iff hNodup, Slot.key]
    split_ifs with hOcc <;> simp [hOcc]

/-- The fold over the slots keeps a runnable one than which none comes earlier. -/
theorem foldl_prefer (slots : List Slot) :
    (∀ slot ∈ slots, slot.occupied = true ∧ slot.runnable = true →
      ∃ best : Slot, slots.foldl prefer none = some best ∧ (slot.effective < best.effective ∨
        slot.effective = best.effective ∧ best.sequence ≤ slot.sequence)) ∧
    ∀ best, slots.foldl prefer none = some best →
      best ∈ slots ∧ best.occupied = true ∧ best.runnable = true := by
  constructor
  · refine foldl_covers (fun chosen slot => slot.occupied = true ∧ slot.runnable = true →
      ∃ best : Slot, chosen = some best ∧ (slot.effective < best.effective ∨
        slot.effective = best.effective ∧ best.sequence ≤ slot.sequence)) ?_ ?_ none slots
    all_goals unfold prefer; grind
  · apply foldlRecOn (motive := fun chosen => ∀ best, chosen = some best →
      best ∈ slots ∧ best.occupied = true ∧ best.runnable = true)
    · rintro _ ⟨⟩
    · unfold prefer
      grind

theorem remaining_replenish {slots : List Slot} {sequence : UInt64} {slot : Slot}
    (h : slot ∈ (replenish slots sequence).1) (hLive : slot.occupied = true) :
    slot.remaining ≠ 0 := by
  induction slots generalizing sequence with
  | nil => cases h
  | cons x rest ih =>
    unfold replenish at h
    split at h
    · rename_i hKept
      rcases mem_cons.mp h with rfl | h
      · simpa [hLive] using hKept
      · exact ih h
    · rcases mem_cons.mp h with rfl | h
      · exact (by decide : defaultSliceNanoseconds ≠ 0)
      · exact ih h

end Scheduler

/-- A decision against what is said of the threads: it is for one that is ready,
and no ready thread has a higher priority; or no thread is ready. -/
def Decision.Serves (d : Decision) (view : ThreadId → Option (Bool × Priority)) : Prop :=
  (∃ p, view d.thread = some (true, p) ∧ ∀ t q, view t = some (true, q) → q ≤ p) ∨
    d.thread = invalidThread ∧ ∀ t p, view t ≠ some (true, p)

/-- The thread that is served comes first among its equals, its slice is not spent,
and the timer is set for what is left of it when another thread competes. -/
def Decision.InTurn (d : Decision) (s : Scheduler) : Prop :=
  ∀ slot, s.find d.thread = some slot → slot.remaining ≠ 0 ∧
    d.timerNanoseconds = (if Scheduler.contended s.slots slot then slot.remaining else 0) ∧
    ∀ t other, s.find t = some other → other.runnable = true →
      other.effective = slot.effective → slot.sequence ≤ other.sequence

theorem Scheduler.choose_spec {s s' : Scheduler} {d : Decision} {now : UInt64}
    (hNodup : s.ids.Nodup) (hInvalid : invalidThread ∉ s.ids) (h : s.choose now = (s', d)) :
    d.Serves s.cached ∧ d.InTurn s' := by
  have hIds := ids_choose s now
  have hCached := cached_choose s now
  have hDecided : (s.choose now).2.thread =
      ((s.choose now).1.slots.foldl prefer none).elim invalidThread (fun slot => slot.thread) ∧
      (s.choose now).2.timerNanoseconds =
        ((s.choose now).1.slots.foldl prefer none).elim 0 fun slot =>
          if contended (s.choose now).1.slots slot then slot.remaining else 0 := by
    unfold choose
    dsimp only
    cases foldl prefer none (replenish (s.charge now).slots (s.charge now).nextSequence).1 with
    | none | some => exact ⟨rfl, rfl⟩
  have hSpent : ∀ slot ∈ (s.choose now).1.slots, slot.occupied = true → slot.remaining ≠ 0 :=
    fun _ => remaining_replenish
  simp only [h] at hIds hCached hDecided hSpent
  obtain ⟨hThread, hTimer⟩ := hDecided
  have hFind := fun {t slot} =>
    (s'.find_eq_some_iff (hIds ▸ hNodup) (hIds ▸ hInvalid) : s'.find t = some slot ↔ _)
  obtain ⟨hFirst, hBest⟩ := foldl_prefer s'.slots
  have hView : ∀ {t p}, s.cached t = some (true, p) ↔
      ∃ slot, s'.find t = some slot ∧ slot.runnable = true ∧ slot.effective = p := by
    intro t p
    rw [← hCached, cached, Option.map_eq_some_iff]
    simp [Slot.cache]
  cases hChosen : s'.slots.foldl prefer none with
  | none =>
    rw [hChosen, Option.elim_none] at hThread
    refine ⟨.inr ⟨hThread, fun t p hReady => ?_⟩, fun slot hSlot => ?_⟩
    · obtain ⟨slot, hSlot, hRuns, -⟩ := hView.mp hReady
      obtain ⟨hMem, hOcc, -⟩ := hFind.mp hSlot
      obtain ⟨best, hSome, -⟩ := hFirst slot hMem ⟨hOcc, hRuns⟩
      rw [hChosen] at hSome
      cases hSome
    · rw [hThread, find_invalid] at hSlot
      cases hSlot
  | some best =>
    rw [hChosen, Option.elim_some] at hThread hTimer
    obtain ⟨hMem, hOcc, hRuns⟩ := hBest best hChosen
    have hServed : s'.find d.thread = some best := hFind.mpr ⟨hMem, hOcc, hThread.symm⟩
    have hOrder : ∀ {t other}, s'.find t = some other → other.runnable = true →
        other.effective < best.effective ∨
          other.effective = best.effective ∧ best.sequence ≤ other.sequence := by
      intro t other hOther hRunsToo
      obtain ⟨hMemToo, hOccToo, -⟩ := hFind.mp hOther
      obtain ⟨_, hSome, hBefore⟩ := hFirst other hMemToo ⟨hOccToo, hRunsToo⟩
      cases hChosen.symm.trans hSome
      exact hBefore
    refine ⟨.inl ⟨best.effective, hView.mpr ⟨best, hServed, hRuns, rfl⟩, fun t q hReady => ?_⟩,
      fun slot hSlot => ?_⟩
    · obtain ⟨other, hOther, hRunsToo, rfl⟩ := hView.mp hReady
      rcases hOrder hOther hRunsToo with hLess | ⟨hSame, -⟩
      · exact UInt8.le_of_lt hLess
      · exact UInt8.le_of_eq hSame
    · cases hServed.symm.trans hSlot
      refine ⟨hSpent best hMem hOcc, hTimer, fun t other hOther hRunsToo hSame => ?_⟩
      rcases hOrder hOther hRunsToo with hLess | ⟨-, hLe⟩
      · exact absurd hLess (by simp [hSame])
      · exact hLe

namespace Rendezvous

def expected (r : Rendezvous) (thread : ThreadId) : Option (Bool × Priority) :=
  (r.find thread).map fun slot => (slot.state == .ready, r.inheritedPriority thread)

variable {r r' : Rendezvous} {a b : ThreadId} {e : Error} {t : ThreadId} {f : Slot → Slot}

theorem expected_isSome_iff (hr : r.Distinct) : (r.expected t).isSome ↔ t ∈ r.ids := by
  rw [expected, Option.isSome_map]
  exact find_isSome_iff hr

/-- A write matters to another thread's priority only through who it waits on. -/
theorem inheritedPriority_modify (r : Rendezvous) (ht : t ≠ invalidThread) (u : ThreadId)
    (hf : ∀ s, (f s).thread = s.thread ∧ (f s).occupied = s.occupied ∧ (f s).base = s.base)
    (hWait : ∀ s, r.find t = some s → t ≠ u → (f s).waitingOn u = s.waitingOn u) :
    (r.modify t f).inheritedPriority u = r.inheritedPriority u := by
  have hKey : ∀ s, (f s).key = s.key := by
    intro s
    rw [Slot.key, Slot.key, (hf s).1, (hf s).2.1]
  have hFold : ∀ b, (r.modify t f).slots.foldl (raisePriority u) b =
      r.slots.foldl (raisePriority u) b := by
    intro b
    apply foldl_updateFirst
    intro s hs b
    have hFind : r.find t = some s := by
      rw [find_eq_lookup r ht]
      exact hs
    obtain ⟨hThr, hOcc, hBase⟩ := hf s
    unfold raisePriority
    rw [hBase, hThr, hOcc]
    rcases eq_or_ne t u with rfl | htu
    · simp [(thread_of_find hFind).1]
    · rw [hWait s hFind htu]
  unfold inheritedPriority
  rw [find_modify r t u hKey]
  split_ifs with h
  · subst h
    cases r.find u with
    | none => rfl
    | some s => simp [hFold, (hf s).2.2]
  · simp only [hFold]

/-- `r'` differs from `r`, as far as the scheduler can tell, in `a` and `b` only. -/
structure SameExcept (a b : ThreadId) (r r' : Rendezvous) : Prop where
  ids : r'.ids = r.ids
  length : r'.slots.length = r.slots.length
  expected : ∀ u, u ≠ a → u ≠ b → r'.expected u = r.expected u

theorem SameExcept.refl (a b : ThreadId) (r : Rendezvous) : SameExcept a b r r :=
  ⟨rfl, rfl, fun _ _ _ => rfl⟩

theorem SameExcept.trans {r₁ r₂ : Rendezvous} (h : SameExcept a b r r₁)
    (h' : SameExcept a b r₁ r₂) : SameExcept a b r r₂ :=
  ⟨h'.ids.trans h.ids, h'.length.trans h.length,
    fun u ha hb => (h'.expected u ha hb).trans (h.expected u ha hb)⟩

/-- One write, judged by the thread it hits: either that thread is excepted or
its state is kept, and nobody outside the exception gains or loses a waiter. -/
theorem sameExcept_modify (r : Rendezvous) (ht : t ≠ invalidThread)
    (hf : ∀ s, (f s).thread = s.thread ∧ (f s).occupied = s.occupied ∧ (f s).base = s.base)
    (hState : t = a ∨ t = b ∨ ∀ s, (f s).state = s.state)
    (hWait : ∀ s, r.find t = some s → ∀ u, u ≠ a → u ≠ b → t ≠ u →
      (f s).waitingOn u = s.waitingOn u) : SameExcept a b r (r.modify t f) := by
  have hKey : ∀ s, (f s).key = s.key := by
    intro s
    rw [Slot.key, Slot.key, (hf s).1, (hf s).2.1]
  refine ⟨ids_modify r t hKey, length_modify r t f, ?_⟩
  intro u ha hb
  have hPrio := inheritedPriority_modify r ht u hf fun s hs htu => hWait s hs u ha hb htu
  unfold Rendezvous.expected
  rw [find_modify r t u hKey, hPrio]
  split_ifs with h
  · subst h
    rcases hState with rfl | rfl | hState
    · exact absurd rfl ha
    · exact absurd rfl hb
    · cases r.find u with
      | none => rfl
      | some => simp [hState]
  · rfl

theorem sameExcept_clearWake (a b : ThreadId) (r : Rendezvous)
    (ht : t ≠ invalidThread) : SameExcept a b r (r.modify t fun s => { s with wake := .none }) := by
  apply sameExcept_modify r ht
  · intro s
    exact ⟨rfl, rfl, rfl⟩
  · exact .inr (.inr fun _ => rfl)
  · intro s _ u _ _ _
    rfl

/-- A write to an excepted thread in a known state. -/
theorem sameExcept_write {s : Slot} (hs : r.find t = some s) (hEnd : t = a ∨ t = b)
    (hf : ∀ s, (f s).thread = s.thread ∧ (f s).occupied = s.occupied ∧ (f s).base = s.base)
    (hWait : ∀ u, u ≠ a → u ≠ b → ((f s).waitingOn u = true ↔ s.waitingOn u = true)) :
    SameExcept a b r (r.modify t f) := by
  apply sameExcept_modify r (ne_invalid_of_find hs) hf (hEnd.imp_right .inl)
  intro s' hs' u hua hub _
  rw [hs] at hs'
  cases hs'
  exact Bool.eq_iff_iff.mpr (hWait u hua hub)

theorem sameExcept_blockSend (h : r.blockSend a b = (r', .ok ())) : SameExcept a b r r' := by
  obtain ⟨-, sa, -, ha, -, hReady, rfl⟩ := blockSend_ok h
  refine sameExcept_write ha (.inl rfl) (fun _ => ⟨rfl, rfl, rfl⟩) fun u _ hub => ?_
  simp [Slot.waitingOn_iff, hReady, Ne.symm hub]

theorem sameExcept_waitReceive (h : r.waitReceive a = (r', .ok ())) : SameExcept a b r r' := by
  obtain ⟨sa, ha, hReady, -, rfl⟩ := waitReceive_ok h
  refine sameExcept_write ha (.inl rfl) (fun _ => ⟨rfl, rfl, rfl⟩) fun u _ _ => ?_
  simp [Slot.waitingOn_iff, hReady]

theorem find_modify_of_ne {s : Slot} (hab : a ≠ b) (hf : ∀ s, (f s).key = s.key)
    (hb : r.find b = some s) : (r.modify a f).find b = some s := by
  rw [find_modify r a b hf, if_neg hab.symm, hb]

theorem sameExcept_deliverWaitingReceiver (h : r.deliverWaitingReceiver a b = (r', .ok ())) :
    SameExcept a b r r' := by
  obtain ⟨hab, sa, sb, ha, hb, hReady, hWaiting, -, rfl⟩ := deliverWaitingReceiver_ok h
  have hFirst : SameExcept a b r (r.modify a fun s =>
      { s with wake := .none, state := .replyBlocked, partner := b }) := by
    refine sameExcept_write ha (.inl rfl) (fun _ => ⟨rfl, rfl, rfl⟩) fun u _ hub => ?_
    simp [Slot.waitingOn_iff, hReady, Ne.symm hub]
  have hFind := find_modify_of_ne (f := fun s =>
    { s with wake := .none, state := .replyBlocked, partner := b }) hab (fun _ => rfl) hb
  refine hFirst.trans (sameExcept_write hFind (.inr rfl) (fun _ => ⟨rfl, rfl, rfl⟩) ?_)
  intro u _ _
  simp [Slot.waitingOn_iff, hWaiting]

theorem sameExcept_acceptSender (h : r.acceptSender a b = (r', .ok ())) : SameExcept a b r r' := by
  obtain ⟨hab, sa, sb, ha, hb, -, hBlocked, hPeer, rfl⟩ := acceptSender_ok h
  have hFind := find_modify_of_ne (f := fun s => { s with wake := .none }) hab (fun _ => rfl) hb
  refine (sameExcept_clearWake a b r (ne_invalid_of_find ha)).trans
    (sameExcept_write hFind (.inr rfl) (fun _ => ⟨rfl, rfl, rfl⟩) ?_)
  intro u _ _
  simp [Slot.waitingOn_iff, hBlocked]

theorem sameExcept_clearPartner {s : Slot} (hs : r.find a = some s) (hReady : s.state = .ready) :
    SameExcept a b r (r.modify a fun s => { s with partner := invalidThread }) := by
  refine sameExcept_write hs (.inl rfl) (fun _ => ⟨rfl, rfl, rfl⟩) fun u _ _ => ?_
  simp [Slot.waitingOn_iff, hReady]

theorem sameExcept_reply (h : r.reply a b = (r', .ok ())) : SameExcept a b r r' := by
  obtain ⟨-, -, sb, -, hb, hBlocked, hPeer, rfl⟩ := reply_ok h
  refine sameExcept_write hb (.inr rfl) (fun _ => ⟨rfl, rfl, rfl⟩) fun u hua _ => ?_
  simp [Slot.waitingOn_iff, hPeer, Ne.symm hua]

theorem sameExcept_startThread (h : r.startThread a = (r', .ok ())) : SameExcept a b r r' := by
  obtain ⟨sa, ha, hState, rfl⟩ := startThread_ok h
  refine sameExcept_write ha (.inl rfl) (fun _ => ⟨rfl, rfl, rfl⟩) fun u _ _ => ?_
  simp [Slot.waitingOn_iff, hState]

/-- Both orders of a send, and the pair it may touch. -/
theorem sameExcept_send (h : r.send a b = (r', .ok ())) : SameExcept a b r r' := by
  unfold send at h
  split at h
  · split at h
    · exact sameExcept_deliverWaitingReceiver h
    · exact sameExcept_blockSend h
  · exact sameExcept_blockSend h

theorem send_error (h : r.send a b = (r', .error e)) : r' = r := by
  unfold send at h
  split at h
  · split at h
    · exact deliverWaitingReceiver_error h
    · exact blockSend_error h
  · exact blockSend_error h

/-- A refused receive may still have cleared the receiver's wake reason. -/
theorem receive_error (h : r.receive a = (r', .error e)) :
    r' = r ∨ a ≠ invalidThread ∧ r' = r.modify a fun s => { s with wake := .none } := by
  unfold receive at h
  split at h
  · cases h
    exact .inl rfl
  rename_i ha0
  split at h
  · cases h
    exact .inl rfl
  split at h
  · cases h
    exact .inl rfl
  dsimp only at h
  split at h
  · cases h
  split at h
  · split at h
    · rename_i hAccept
      cases h
      exact .inr ⟨ha0, acceptSender_error hAccept⟩
    · cases h
  · split at h
    · rename_i hWait
      cases h
      exact .inr ⟨ha0, waitReceive_error hWait⟩
    · cases h

/-- A receive touches the receiver and the thread it reports. -/
theorem sameExcept_receive (h : r.receive a = (r', .ok b)) : SameExcept a b r r' := by
  unfold receive at h
  split at h
  · cases h
  rename_i ha0
  split at h
  · cases h
  rename_i s hs
  split at h
  · cases h
  rename_i hReady
  have hReady : s.state = .ready := by simpa using hReady
  have hWake := sameExcept_clearWake a b r ha0
  have hFind : (r.modify a fun s => { s with wake := .none }).find a =
      some { s with wake := .none } := by
    rw [find_modify, if_pos rfl, hs]
    · rfl
    · intro s
      rfl
  dsimp only at h
  split at h
  · cases h
    exact hWake.trans (sameExcept_clearPartner hFind hReady)
  split at h
  · split at h
    · cases h
    · rename_i hAccept
      cases h
      exact hWake.trans (sameExcept_acceptSender hAccept)
  · split at h
    · cases h
    · rename_i hWait
      cases h
      exact hWake.trans (sameExcept_waitReceive hWait)

/-- A new thread waits on nobody, so nobody else is expected to change. -/
theorem expected_createIn_ne {state : ThreadState} {u : ThreadId} {p : Priority}
    (h : r.createIn state t p = (r', .ok ())) (hState : state = .ready ∨ state = .admitted)
    (hu : u ≠ t) : r'.expected u = r.expected u := by
  obtain ⟨-, -, hIns, -⟩ := createIn_ok h
  obtain ⟨front, free, back, hs, -, hFree, hs'⟩ := insert_eq_some hIns
  have hFreeOcc : free.occupied = false := by
    unfold Slot.key at hFree
    split_ifs at hFree with hOcc
    simpa using hOcc
  have hSkip : ∀ b : Priority, raisePriority u b free = b := by
    intro b
    simp [raisePriority, hFreeOcc]
  have hNew : ∀ b : Priority,
      raisePriority u b { thread := t, state, base := p, occupied := true } = b := by
    intro b
    have hNot : Slot.waitingOn { thread := t, state, base := p, occupied := true } u = false := by
      rw [Bool.eq_false_iff, ne_eq, Slot.waitingOn_iff]
      rcases hState with rfl | rfl <;> simp
    simp [raisePriority, hNot]
  have hFold : ∀ b, r'.slots.foldl (raisePriority u) b = r.slots.foldl (raisePriority u) b := by
    intro b
    rw [hs', hs, foldl_append, foldl_append, foldl_cons, foldl_cons, hSkip, hNew]
  unfold expected inheritedPriority
  rw [find_createIn_ne h hu]
  simp only [hFold]

end Rendezvous

end Enml.OsKernel
