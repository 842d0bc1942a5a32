import Enml.Invariant.Scheduler
import Enml.OsKernel.Operation

/-! The three lists of threads a kernel keeps, and what synchronisation does to
the scheduler's. -/
namespace Enml.OsKernel

open List Rendezvous Scheduler

variable {t : ThreadId}

/-- The rendezvous, the scheduler and the live list hold the same threads, each
once, and none of the arrays has changed its size. -/
structure SameThreads (r : Rendezvous) (s : Scheduler) (live : List ThreadId) (count : Nat) :
    Prop where
  distinct : r.Distinct
  threadSlots : r.slots.length = maxThreads
  schedulerSlots : s.slots.length = maxThreads
  liveSlots : live.length = maxThreads
  count_le : count ≤ maxThreads
  live_perm : (live.take count).Perm r.ids
  scheduler_perm : s.ids.Perm r.ids

namespace SameThreads

variable {r r' : Rendezvous} {s s' : Scheduler} {live : List ThreadId} {count : Nat}
  {state : ThreadState} {p : Priority}

theorem invalid_not_mem (h : SameThreads r s live count) : invalidThread ∉ s.ids := by
  rw [h.scheduler_perm.mem_iff]
  exact h.distinct.valid

theorem cached_isSome (h : SameThreads r s live count) (t : ThreadId) :
    (s.cached t).isSome = (r.expected t).isSome := by
  rw [Bool.eq_iff_iff, cached_isSome_iff h.invalid_not_mem,
    expected_isSome_iff h.distinct, h.scheduler_perm.mem_iff]

theorem count_eq (h : SameThreads r s live count) : count = r.ids.length := by
  rw [← h.live_perm.length_eq, length_take, h.liveSlots]
  exact (Nat.min_eq_left h.count_le).symm

theorem of_ids (h : SameThreads r s live count) (hIds : r'.ids = r.ids)
    (hLength : r'.slots.length = r.slots.length) : SameThreads r' s live count where
  distinct := ⟨hIds ▸ h.distinct.nodup, hIds ▸ h.distinct.valid⟩
  threadSlots := hLength.trans h.threadSlots
  schedulerSlots := h.schedulerSlots
  liveSlots := h.liveSlots
  count_le := h.count_le
  live_perm := hIds ▸ h.live_perm
  scheduler_perm := hIds ▸ h.scheduler_perm

theorem of_scheduler_ids (h : SameThreads r s live count) (hIds : s'.ids = s.ids)
    (hLength : s'.slots.length = s.slots.length) : SameThreads r s' live count where
  distinct := h.distinct
  threadSlots := h.threadSlots
  schedulerSlots := hLength.trans h.schedulerSlots
  liveSlots := h.liveSlots
  count_le := h.count_le
  live_perm := h.live_perm
  scheduler_perm := hIds ▸ h.scheduler_perm

/-- Both tables take the new thread, because both are equally full. -/
theorem admit_of_create (h : SameThreads r s live count)
    (hCreate : r.createIn state t p = (r', .ok ())) :
    ∃ s', s.admitThread t p = (s', .ok ()) := by
  obtain ⟨ht, hFind, hIns, -⟩ := createIn_ok hCreate
  have hNew : t ∉ r.ids := by
    rw [← find_isSome_iff h.distinct, hFind]
    simp
  have hRoom : r.ids.length < r.slots.length :=
    SlotTable.insert_isSome_iff.mp (Option.isSome_iff_exists.mpr ⟨_, hIns⟩)
  apply admitThread_of_room p ht
  · rwa [h.scheduler_perm.mem_iff]
  · rw [h.scheduler_perm.length_eq, h.schedulerSlots, ← h.threadSlots]
    exact hRoom

theorem create (h : SameThreads r s live count) (hCreate : r.createIn state t p = (r', .ok ()))
    (hAdmit : s.admitThread t p = (s', .ok ())) :
    SameThreads r' s' (live.set count t) (count + 1) := by
  have hIds := ids_createIn hCreate
  obtain ⟨-, -, hIns, -⟩ := createIn_ok hCreate
  have hRoom : r.ids.length < r.slots.length :=
    SlotTable.insert_isSome_iff.mp (Option.isSome_iff_exists.mpr ⟨_, hIns⟩)
  have hCnt : count < live.length := by
    rw [h.count_eq, h.liveSlots, ← h.threadSlots]
    exact hRoom
  refine ⟨h.distinct.createIn hCreate, (length_createIn hCreate).trans h.threadSlots,
    (length_admitThread hAdmit).trans h.schedulerSlots, by simp [h.liveSlots], ?_, ?_, ?_⟩
  · rw [← h.liveSlots]
    exact hCnt
  · have hTake : (live.set count t).take (count + 1) = live.take count ++ [t] := by
      rw [take_add_one, take_set_of_le (Nat.le_refl count)]
      simp [hCnt]
    rw [hTake]
    exact (perm_append_singleton t _).trans ((h.live_perm.cons t).trans hIds.symm)
  · exact (ids_admitThread hAdmit).trans ((h.scheduler_perm.cons t).trans hIds.symm)

end SameThreads

/-- Overwriting a member with the last one and dropping the last removes it. -/
theorem swapRemove_perm {live : List ThreadId} {count i : Nat} (hCnt : count ≤ live.length)
    (hi : i < count) (hGet : live[i]? = some t) :
    (((live.set i (live.getD (count - 1) invalidThread)).set (count - 1) invalidThread).take
      (count - 1)).Perm ((live.take count).erase t) := by
  obtain ⟨n, rfl⟩ : ∃ n, count = n + 1 := ⟨count - 1, by omega⟩
  have hn : n < live.length := by omega
  have hLast : live.getD n invalidThread = live[n] := by simp [hn]
  rw [Nat.add_sub_cancel, take_set_of_le (Nat.le_refl n), hLast, take_set]
  have hTake : live.take (n + 1) = live.take n ++ [live[n]] := take_succ_eq_append_getElem hn
  have hMem : t ∈ live.take (n + 1) := by
    apply mem_of_getElem? (i := i)
    rw [getElem?_take_of_lt hi]
    exact hGet
  have hGoal : (t :: (live.take n).set i live[n]).Perm (live.take (n + 1)) := by
    rcases Nat.lt_or_ge i n with hin | hin
    · have hLen : i < (live.take n).length := by
        rw [length_take]
        omega
      have hSplit := set_eq_take_append_cons_drop (l := live.take n) (i := i) (a := live[n])
      rw [if_pos hLen] at hSplit
      have hWhole : live.take n = (live.take n).take i ++ t :: (live.take n).drop (i + 1) := by
        have hAt : (live.take n)[i] = t := by
          have := (List.getElem?_eq_some_iff.mp hGet).2
          simpa using this
        rw [← hAt, getElem_cons_drop, take_append_drop]
      rw [hTake, hSplit]
      conv_rhs => rw [hWhole]
      rw [append_assoc, cons_append]
      refine List.Perm.trans ?_ perm_middle.symm
      refine List.Perm.cons t ?_
      refine perm_middle.trans ?_
      rw [← append_assoc]
      exact (perm_append_singleton _ _).symm
    · have hin : i = n := by omega
      subst hin
      have hAt : live[i] = t := (List.getElem?_eq_some_iff.mp hGet).2
      rw [hTake, hAt, set_eq_of_length_le (by simp)]
      exact (perm_append_singleton t _).symm
  exact cons_perm_iff_perm_erase.mp hGoal |>.2

namespace SameThreads

variable {r r' : Rendezvous} {s : Scheduler}

theorem exit {k : Kernel} (h : SameThreads r s k.live k.liveCount) {n : Nat}
    (hExit : r.exitThread t = (r', .ok n)) :
    SameThreads r' (s.retire t).1 (k.untrack t).live (k.untrack t).liveCount := by
  have hIds := ids_exitThread hExit
  have hMem : t ∈ k.liveThreads := by
    rw [Kernel.liveThreads, h.live_perm.mem_iff, ← find_isSome_iff h.distinct]
    exact (exitThread_ok hExit).1
  obtain ⟨i, hi⟩ : ∃ i, k.liveThreads.findIdx? (fun id => id == t) = some i := by
    rw [← Option.isSome_iff_exists, findIdx?_isSome, any_eq_true]
    exact ⟨t, hMem, by simp⟩
  obtain ⟨hLt, hAt⟩ : i < k.liveCount ∧ k.live[i]? = some t := by
    obtain ⟨hLt, hAt, -⟩ := findIdx?_eq_some_iff_getElem.mp hi
    have hLt' : i < k.liveCount := by
      rw [Kernel.liveThreads, length_take] at hLt
      omega
    refine ⟨hLt', ?_⟩
    have hAt : k.liveThreads[i]? = some t := by
      rw [getElem?_eq_getElem hLt]
      simpa using hAt
    rwa [Kernel.liveThreads, getElem?_take_of_lt hLt'] at hAt
  have hUntrack : k.untrack t = { k with
      live := (k.live.set i (k.live.getD (k.liveCount - 1) invalidThread)).set
        (k.liveCount - 1) invalidThread
      liveCount := k.liveCount - 1 } := by
    rw [Kernel.untrack, hi]
  have hCntLe : k.liveCount ≤ k.live.length := by
    rw [h.liveSlots]
    exact h.count_le
  have hSwap := swapRemove_perm hCntLe hLt hAt
  rw [hUntrack]
  refine ⟨h.distinct.exitThread hExit, (length_exitThread hExit).trans h.threadSlots,
    by simp [h.schedulerSlots], by simp [h.liveSlots], ?_, ?_, ?_⟩
  · have hLe := h.count_le
    dsimp only
    omega
  · rw [hIds]
    exact hSwap.trans (h.live_perm.erase t)
  · rw [ids_retire s h.invalid_not_mem, hIds]
    exact h.scheduler_perm.erase t

end SameThreads

/-- The scheduler after one thread has been brought into line with `r`. -/
def syncWith (r : Rendezvous) (s : Scheduler) (t : ThreadId) : Scheduler :=
  match r.expected t with
  | none => s
  | some (runnable, effective) => (s.update t runnable effective).1

theorem ids_syncWith (r : Rendezvous) (s : Scheduler) (t : ThreadId) :
    (syncWith r s t).ids = s.ids := by
  unfold syncWith
  split
  · rfl
  · exact ids_update s t _ _

theorem length_syncWith (r : Rendezvous) (s : Scheduler) (t : ThreadId) :
    (syncWith r s t).slots.length = s.slots.length := by
  unfold syncWith
  split
  · rfl
  · exact length_update s t _ _

theorem cached_syncWith_ne (r : Rendezvous) (s : Scheduler) {u : ThreadId} (hu : u ≠ t) :
    (syncWith r s t).cached u = s.cached u := by
  unfold syncWith
  split
  · rfl
  · rw [cached_update, if_neg hu]

theorem cached_syncWith_self {r : Rendezvous} {s : Scheduler}
    (h : (s.cached t).isSome = (r.expected t).isSome) :
    (syncWith r s t).cached t = r.expected t := by
  unfold syncWith
  cases hExp : r.expected t with
  | none =>
    rw [hExp] at h
    simpa using h
  | some =>
    rw [hExp] at h
    obtain ⟨c, hc⟩ := Option.isSome_iff_exists.mp h
    rw [cached_update, if_pos rfl, hc]
    rfl

/-- A thread that is in line stays in line whatever else is synchronised. -/
theorem cached_syncWith_of_eq {r : Rendezvous} {s : Scheduler} {u : ThreadId}
    (h : s.cached u = r.expected u) (t : ThreadId) : (syncWith r s t).cached u = r.expected u := by
  rcases eq_or_ne u t with rfl | hu
  · exact cached_syncWith_self (by rw [h])
  · rw [cached_syncWith_ne r s hu, h]

namespace Kernel

theorem synchroniseThread_eq (k : Kernel) (t : ThreadId) :
    k.synchroniseThread t = { k with scheduler := syncWith k.threads k.scheduler t } := by
  unfold synchroniseThread syncWith expected stateOf
    effectivePriorityOf
  cases hFind : k.threads.find t with
  | none => rfl
  | some => simp

theorem synchronisePair_eq (k : Kernel) (a b : ThreadId) :
    k.synchronisePair a b =
      { k with scheduler := if b ≠ a then syncWith k.threads (syncWith k.threads k.scheduler a) b
                            else syncWith k.threads k.scheduler a } := by
  unfold synchronisePair
  split_ifs
  · rw [synchroniseThread_eq, synchroniseThread_eq]
  · rw [synchroniseThread_eq]

theorem foldl_synchroniseThread (ts : List ThreadId) (k : Kernel) :
    ts.foldl synchroniseThread k =
      { k with scheduler := ts.foldl (syncWith k.threads) k.scheduler } := by
  induction ts generalizing k with
  | nil => rfl
  | cons _ _ ih => rw [foldl_cons, ih, synchroniseThread_eq, foldl_cons]

theorem synchronise_eq (k : Kernel) :
    k.synchronise = { k with scheduler := k.liveThreads.foldl (syncWith k.threads) k.scheduler } :=
  foldl_synchroniseThread _ _

end Kernel

theorem ids_foldl_syncWith (r : Rendezvous) (ts : List ThreadId) (s : Scheduler) :
    (ts.foldl (syncWith r) s).ids = s.ids := by
  induction ts generalizing s with
  | nil => rfl
  | cons _ _ ih => rw [foldl_cons, ih, ids_syncWith]

theorem length_foldl_syncWith (r : Rendezvous) (ts : List ThreadId) (s : Scheduler) :
    (ts.foldl (syncWith r) s).slots.length = s.slots.length := by
  induction ts generalizing s with
  | nil => rfl
  | cons _ _ ih => rw [foldl_cons, ih, length_syncWith]

variable {r : Rendezvous} {s : Scheduler} {u : ThreadId} {live : List ThreadId} {count : Nat}

theorem cached_foldl_syncWith_of_eq (h : s.cached u = r.expected u) (ts : List ThreadId) :
    (ts.foldl (syncWith r) s).cached u = r.expected u := by
  induction ts generalizing s with
  | nil => exact h
  | cons t _ ih => exact ih (cached_syncWith_of_eq h t)

/-- Every thread that the loop visits ends in line. -/
theorem cached_foldl_syncWith {ts : List ThreadId} (hu : u ∈ ts)
    (h : (s.cached u).isSome = (r.expected u).isSome) :
    (ts.foldl (syncWith r) s).cached u = r.expected u := by
  induction ts generalizing s with
  | nil => cases hu
  | cons t rest ih =>
    rw [foldl_cons]
    rcases eq_or_ne u t with rfl | hut
    · exact cached_foldl_syncWith_of_eq (cached_syncWith_self h) rest
    · apply ih
      · exact (mem_cons.mp hu).resolve_left hut
      · rw [cached_syncWith_ne r s hut, h]

/-- Synchronising the live threads brings the whole cache into line. -/
theorem SameThreads.cached_synchronise (h : SameThreads r s live count) (u : ThreadId) :
    ((live.take count).foldl (syncWith r) s).cached u = r.expected u := by
  by_cases hu : u ∈ live.take count
  · exact cached_foldl_syncWith hu (h.cached_isSome u)
  have hNone : r.expected u = none := by
    rw [h.live_perm.mem_iff, ← expected_isSome_iff h.distinct] at hu
    simpa using hu
  have hCached : s.cached u = r.expected u := by
    have hSome := h.cached_isSome u
    rw [hNone] at hSome ⊢
    simpa using hSome
  exact cached_foldl_syncWith_of_eq hCached _

/-- Synchronising a pair is enough when nobody else has changed. -/
theorem SameThreads.cached_synchronisePair {r' : Rendezvous} (h : SameThreads r' s live count)
    {a b : ThreadId} (hSame : Rendezvous.SameExcept a b r r')
    (hCached : ∀ u, s.cached u = r.expected u) (u : ThreadId) :
    (if b ≠ a then syncWith r' (syncWith r' s a) b else syncWith r' s a).cached u =
      r'.expected u := by
  have hOne : u = a → (syncWith r' s a).cached u = r'.expected u := by
    rintro rfl
    exact cached_syncWith_self (h.cached_isSome u)
  have hOther : u ≠ a → u ≠ b → (syncWith r' s a).cached u = r'.expected u := by
    intro ha hb
    rw [cached_syncWith_ne r' s ha, hCached u, hSame.expected u ha hb]
  split_ifs with hba
  · rcases eq_or_ne u b with rfl | hub
    · apply cached_syncWith_self
      rw [cached_syncWith_ne r' s hba, h.cached_isSome u]
    · apply cached_syncWith_of_eq
      rcases eq_or_ne u a with hua | hua
      · exact hOne hua
      · exact hOther hua hub
  · rcases eq_or_ne u a with hua | hua
    · exact hOne hua
    · have hba : b = a := not_not.mp hba
      exact hOther hua (hba ▸ hua)

end Enml.OsKernel
