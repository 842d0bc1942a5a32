import Enml.Lib.Run
import Enml.OsTime.Protection
import Mathlib.Data.List.Nodup
import Mathlib.Data.List.Perm.Basic
import Mathlib.Tactic.SplitIfs

/-! Partition units are conserved: what the holders have and what is left make up
the reservable part of the capacity, after any calls. -/
namespace Enml.OsTime.PartitionLedger

open Enml.Core Run List PartitionReservation Errors

theorem compact_perm {holders : List PartitionReservation} {i : Nat} (h : i < holders.length) :
    (holders[i] :: compact holders i).Perm holders := by
  rcases eq_nil_or_concat' holders with rfl | ⟨front, last, rfl⟩
  · cases h
  rw [length_append, length_singleton] at h
  unfold compact
  rw [List.getLast?_concat, Option.getD_some]
  by_cases hLast : i < front.length
  · rw [set_append_left _ _ hLast, dropLast_concat, getElem_append_left hLast]
    refine (List.Perm.cons _ (set_perm_cons_eraseIdx hLast last)).trans ?_
    refine (List.Perm.swap ..).trans ?_
    exact ((getElem_cons_eraseIdx_perm hLast).cons last).trans
      (perm_append_singleton last front).symm
  · obtain rfl : i = front.length := by omega
    rw [set_append_right _ _ (Nat.le_refl _), Nat.sub_self, set_cons_zero,
      dropLast_concat, getElem_concat_length rfl]
    exact (perm_append_singleton last front).symm

/-- The units of all the holders. -/
def held (holders : List PartitionReservation) : Nat := (holders.map fun r => r.units.toNat).sum

structure Conserved (l : PartitionLedger) : Prop where
  distinct : (l.holders.map principal).Nodup
  real : ∀ r ∈ l.holders, validPrincipal r.principal = true ∧ r.units ≠ 0
  total : l.reserved.toNat = held l.holders
  within : l.reserved.toNat + l.sharedFloor.toNat ≤ l.capacity.toNat
  floor : l.capacity ≠ 0 → l.sharedFloor ≠ 0

variable {l : PartitionLedger} {p q : PrincipalId} {units : UInt32} {i : Nat}

theorem Conserved.toNat_pool (h : l.Conserved) :
    (l.capacity - l.sharedFloor).toNat = l.capacity.toNat - l.sharedFloor.toNat :=
  UInt32.toNat_sub_of_le _ _ (UInt32.le_iff_toNat_le.mpr (by have := h.within; omega))

theorem Conserved.toNat_available (h : l.Conserved) :
    l.available.toNat = l.capacity.toNat - l.sharedFloor.toNat - l.reserved.toNat := by
  have hPool := h.toNat_pool
  unfold available
  split_ifs with hNone hFull
  · rw [UInt32.le_iff_toNat_le] at hNone
    rw [UInt32.toNat_zero]
    omega
  · rw [UInt32.le_iff_toNat_le, hPool] at hFull
    rw [UInt32.toNat_zero]
    omega
  · rw [UInt32.toNat_sub_of_le _ _ (UInt32.le_of_lt (UInt32.not_le.mp hFull)), hPool]

theorem indexOf_eq_some (h : l.indexOf p = some i) :
    ∃ hi : i < l.holders.length, l.holders[i].principal = p := by
  obtain ⟨hi, hAt, -⟩ := List.findIdx?_eq_some_iff_getElem.mp h
  exact ⟨hi, of_decide_eq_true hAt⟩

theorem indexOf_eq_none_iff : l.indexOf p = none ↔ ∀ r ∈ l.holders, r.principal ≠ p := by
  simp [indexOf, List.findIdx?_eq_none_iff]

theorem unitsFor_of_absent (h : ∀ r ∈ l.holders, r.principal ≠ p) : l.unitsFor p = 0 := by
  rw [unitsFor, indexOf_eq_none_iff.mpr h]

theorem unitsFor_of_mem (hDist : (l.holders.map principal).Nodup)
    {r : PartitionReservation} (h : r ∈ l.holders) : l.unitsFor r.principal = r.units := by
  unfold unitsFor
  cases hIdx : l.indexOf r.principal with
  | none => exact absurd rfl (indexOf_eq_none_iff.mp hIdx r h)
  | some i =>
    obtain ⟨hi, hAt⟩ := indexOf_eq_some hIdx
    have hSame : l.holders[i] = r := inj_on_of_nodup_map hDist (getElem_mem hi) h hAt
    show (l.holders.getD i {}).units = _
    rw [getD_eq_getElem?_getD, List.getElem?_eq_getElem hi, Option.getD_some, hSame]

/-- The holder taken out, and the others. -/
theorem reclaim_spec (h : l.indexOf p = some i) :
    ∃ r, r.principal = p ∧ (l.reclaim p).2 = r.units ∧
      (r :: (l.reclaim p).1.holders).Perm l.holders ∧
      (l.reclaim p).1 = { l with
        holders := (l.reclaim p).1.holders, reserved := l.reserved - r.units } := by
  obtain ⟨hi, hAt⟩ := indexOf_eq_some h
  refine ⟨l.holders[i], hAt, ?_⟩
  rw [reclaim, h]
  dsimp only
  rw [getD_eq_getElem?_getD, List.getElem?_eq_getElem hi, Option.getD_some]
  exact ⟨rfl, compact_perm hi, rfl⟩

/-- A holder among distinct ones, and the units of it and the others. -/
theorem Conserved.without (h : l.Conserved) {r : PartitionReservation}
    {rest : List PartitionReservation} (hPerm : (r :: rest).Perm l.holders) :
    Conserved { l with holders := rest, reserved := l.reserved - r.units } ∧
      (l.reserved - r.units).toNat + r.units.toNat = l.reserved.toNat := by
  have hTotal : r.units.toNat + held rest = l.reserved.toNat := by
    rw [h.total, held, held, ← (hPerm.map _).sum_nat]
    rfl
  have hLess : (l.reserved - r.units).toNat = l.reserved.toNat - r.units.toNat :=
    UInt32.toNat_sub_of_le _ _ (UInt32.le_iff_toNat_le.mpr (by omega))
  have hDist := (hPerm.map principal).nodup_iff.mpr h.distinct
  have hWithin := h.within
  refine ⟨⟨(nodup_cons.mp hDist).2,
    fun s hs => h.real s (hPerm.mem_iff.mp (mem_cons_of_mem _ hs)), ?_, ?_, h.floor⟩, ?_⟩
  · show (l.reserved - r.units).toNat = held rest
    omega
  · show (l.reserved - r.units).toNat + l.sharedFloor.toNat ≤ l.capacity.toNat
    omega
  · omega

/-- What taking back the units of a principal does. -/
structure Returned (l : PartitionLedger) (p : PrincipalId) : Prop where
  units : (l.reclaim p).2 = l.unitsFor p
  back : (l.reclaim p).1.reserved.toNat + (l.unitsFor p).toNat = l.reserved.toNat
  gone : (l.reclaim p).1.unitsFor p = 0
  others : ∀ q, q ≠ p → (l.reclaim p).1.unitsFor q = l.unitsFor q

theorem Conserved.reclaim (h : l.Conserved) (p : PrincipalId) :
    (l.reclaim p).1.Conserved ∧ l.Returned p := by
  cases hIdx : l.indexOf p with
  | none =>
    have hAbsent : l.unitsFor p = 0 := by rw [unitsFor, hIdx]
    have hSame : l.reclaim p = (l, 0) := by rw [PartitionLedger.reclaim, hIdx]
    rw [hSame]
    refine ⟨h, ⟨?_, ?_, ?_, ?_⟩⟩ <;> simp [hSame, hAbsent]
  | some i =>
    obtain ⟨r, rfl, hUnits, hPerm, hAfter⟩ := reclaim_spec hIdx
    obtain ⟨hConserved, hBack⟩ := h.without hPerm
    rw [← hAfter] at hConserved
    have hHeld : l.unitsFor r.principal = r.units :=
      unitsFor_of_mem h.distinct (hPerm.mem_iff.mp mem_cons_self)
    have hApart := (nodup_cons.mp
      ((hPerm.map principal).nodup_iff.mpr h.distinct)).1
    refine ⟨hConserved, ⟨hUnits.trans hHeld.symm, ?_, ?_, ?_⟩⟩
    · rw [hAfter, hHeld]
      exact hBack
    · exact unitsFor_of_absent fun s hs hSame => hApart (mem_map.mpr ⟨s, hs, hSame⟩)
    intro q hOther
    by_cases hq : ∃ s ∈ (l.reclaim r.principal).1.holders, s.principal = q
    · obtain ⟨s, hs, rfl⟩ := hq
      rw [unitsFor_of_mem hConserved.distinct hs,
        unitsFor_of_mem h.distinct (hPerm.mem_iff.mp (mem_cons_of_mem _ hs))]
    rw [unitsFor_of_absent fun s hs hSame => hq ⟨s, hs, hSame⟩, unitsFor_of_absent]
    intro s hs hSame
    rcases mem_cons.mp (hPerm.mem_iff.mpr hs) with rfl | hRest
    · exact hOther hSame.symm
    · exact hq ⟨s, hRest, hSame⟩

/-- The checks of a reservation that come before its units are compared. -/
def Considers (l : PartitionLedger) (p : PrincipalId) (units : UInt32) : Prop :=
  validPrincipal p = true ∧ units ≠ 0 ∧ l.capacity ≠ 0 ∧ l.capabilities ≠ 0 ∧
    l.indexOf p = none ∧ l.holders.length < maxPartitionHolders

/-- Everything a reservation can be answered with. -/
theorem reserve_cases (l : PartitionLedger) (p : PrincipalId) (units : UInt32) :
    (¬l.Considers p units ∧ ∃ e, l.reserve p units = (l, .error e) ∧
        e ≠ timeError wouldStarveShared) ∨
      (l.Considers p units ∧ l.reserve p units =
        if l.available < units then
          if l.capacity - l.sharedFloor < units then
            (l, .error (timeError wouldStarveShared))
          else (l, .error (timeError insufficientCapacity))
        else ({ l with holders := l.holders ++ [⟨p, units⟩], reserved := l.reserved + units },
          .ok ())) := by
  by_cases h : l.Considers p units
  · refine .inr ⟨h, ?_⟩
    obtain ⟨hValid, hSome, hCapacity, hBacked, hNew, hRoom⟩ := h
    simp [reserve, hValid, hSome, hCapacity, hBacked, hNew, Nat.not_le.mpr hRoom]
  refine .inl ⟨h, ?_⟩
  unfold reserve
  split_ifs with hValid hNone hBacked hHeld hRoom
  iterate 5 exact ⟨_, rfl, by decide⟩
  all_goals
    refine absurd ⟨by simpa using hValid, hNone, mt .inl hBacked, mt .inr hBacked,
      by simpa using hHeld, Nat.not_le.mp hRoom⟩ h

theorem Conserved.reserve (h : l.Conserved) (p : PrincipalId) (units : UInt32) :
    (l.reserve p units).1.Conserved := by
  rcases l.reserve_cases p units with ⟨-, e, hSame, -⟩ | ⟨hConsiders, hAns⟩
  · rwa [hSame]
  rw [hAns]
  split_ifs with hShort
  · exact h
  · exact h
  rw [UInt32.lt_iff_toNat_lt, h.toNat_available] at hShort
  have hWithin := h.within
  have hBound : l.capacity.toNat < 2 ^ 32 := l.capacity.toNat_lt
  have hMore : (l.reserved + units).toNat = l.reserved.toNat + units.toNat := by
    rw [UInt32.toNat_add]
    exact Nat.mod_eq_of_lt (by omega)
  refine ⟨?_, ?_, ?_, ?_, h.floor⟩
  · show ((l.holders ++ [_]).map _).Nodup
    rw [map_append, nodup_append_comm]
    refine nodup_cons.mpr ⟨fun hMem => ?_, h.distinct⟩
    obtain ⟨r, hr, hSame⟩ := mem_map.mp hMem
    exact indexOf_eq_none_iff.mp hConsiders.2.2.2.2.1 r hr hSame
  · exact forall_mem_append.mpr ⟨h.real, forall_mem_singleton.mpr ⟨hConsiders.1, hConsiders.2.1⟩⟩
  · show (l.reserved + units).toNat = held (l.holders ++ [_])
    rw [hMore, h.total, held, held, map_append, sum_append]
    simp
  · show (l.reserved + units).toNat + l.sharedFloor.toNat ≤ l.capacity.toNat
    omega

theorem release_eq (l : PartitionLedger) (p : PrincipalId) : (l.release p).1 = (l.reclaim p).1 := by
  unfold release reclaim
  cases l.indexOf p <;> rfl

def releaseAll (l : PartitionLedger) (ps : List PrincipalId) : PartitionLedger :=
  ps.foldl (fun l p => (l.release p).1) l

/-- The books of a ledger, and what the next call does with them. -/
structure Sound (l : PartitionLedger) : Prop where
  books : l.Conserved
  pool : l.reserved.toNat + l.available.toNat = l.capacity.toNat - l.sharedFloor.toNat
  refused : ∀ op, (l.step op).2.Refused → (l.step op).1 = l
  released : ∀ p, (l.release p).1 = (l.reclaim p).1
  returned : ∀ p, l.Returned p
  starves : ∀ p units, l.reserve p units = (l, .error (timeError wouldStarveShared)) ↔
    l.Considers p units ∧ ∀ ps, ((l.releaseAll ps).reserve p units).2 ≠ .ok ()

theorem Conserved.step (h : l.Conserved) (op : PartitionOp) : (l.step op).1.Conserved := by
  cases op with
  | reserve p units => exact h.reserve p units
  | release p =>
    show (l.release p).1.Conserved
    rw [release_eq]
    exact (h.reclaim p).1
  | reclaim p => exact (h.reclaim p).1

theorem refused_step (l : PartitionLedger) (op : PartitionOp) (h : (l.step op).2.Refused) :
    (l.step op).1 = l := by
  cases op with
  | reserve p units =>
    change PartitionReply.Refused (.done (l.reserve p units).2) at h
    show (l.reserve p units).1 = l
    rcases l.reserve_cases p units with ⟨-, e, hSame, -⟩ | ⟨-, hAns⟩
    · rw [hSame]
    rw [hAns] at h ⊢
    split_ifs at h ⊢ with hShort
    · rfl
    · rfl
    · exact h.elim
  | release p =>
    change PartitionReply.Refused (.done (l.release p).2) at h
    show (l.release p).1 = l
    unfold release at h ⊢
    cases hIdx : l.indexOf p with
    | none => rfl
    | some i =>
      rw [hIdx] at h
      exact h.elim
  | reclaim p => exact h.elim

end Enml.OsTime.PartitionLedger
