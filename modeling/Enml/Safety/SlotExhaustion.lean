import Enml.Safety.DeadNames

/-! What a slot that has used up its generations does to the slots around it.
Address spaces and memory grants are given the first free slot, and are refused
when that one is used up, whatever stands behind it. -/
namespace Enml.OsKernel

open Enml.Core List AddressSpaceEpochAuthority MemoryGrantAuthority

/-- No further generation, in any of the tables that count them in 32 bits. -/
def lastGeneration (g : UInt32) : Bool := g == 0xFFFFFFFF

theorem ofNat_ne_last {n : ℕ} (h : n < 0xFFFFFFFF) : UInt32.ofNat n ≠ 0xFFFFFFFF := by
  intro hEq
  have hNat := congrArg UInt32.toNat hEq
  simp at hNat
  omega

theorem succ_ne_zero {g : UInt32} (h : g ≠ 0xFFFFFFFF) : g + 1 ≠ 0 := by
  intro hEq
  have hNext := toNat_succ h
  simp [hEq] at hNext

/-- Nothing is in the way before the counter of one slot can have run out. -/
theorem unblocked_of_le {σ : Type} {isFree : σ → Bool} {generation : σ → UInt32} {slots : List σ}
    {n : ℕ} (h : ∀ s ∈ slots, (generation s).toNat ≤ n) (hShort : n < 0xFFFFFFFF) :
    Generation.Unblocked isFree (fun s => lastGeneration (generation s)) slots := by
  rintro i k ⟨s, hCell, -, hSpent⟩ _
  have hLe := h s (mem_of_getElem? hCell)
  have hLast : generation s = 0xFFFFFFFF := by simpa [lastGeneration] using hSpent
  simp [hLast] at hLe
  omega

namespace AddressSpaceEpochAuthority

def Slot.isFree (s : Slot) : Bool := s.state == .free

def Usable (a : AddressSpaceEpochAuthority) : ℕ → Prop :=
  Generation.Usable Slot.isFree (fun s => lastGeneration s.generation) a.slots

def Unblocked (a : AddressSpaceEpochAuthority) : Prop :=
  Generation.Unblocked Slot.isFree (fun s => lastGeneration s.generation) a.slots

/-- Reached from boot by a history with `n` acquisitions. -/
inductive Reached : ℕ → AddressSpaceEpochAuthority → Prop
  | boot : Reached 0 {}
  | acquire {n a} (h : Reached n a) : Reached (n + 1) a.acquire.1
  | beginRetire {n a} (h : Reached n a) (epoch : AddressSpaceEpoch) :
      Reached n (a.beginRetire epoch).1
  | completeRetire {n a} (h : Reached n a) (retiring : RetiringAddressSpaceEpoch) :
      Reached n (a.completeRetire retiring).1

variable {a : AddressSpaceEpochAuthority} {n : ℕ}

theorem acquire_iff (a : AddressSpaceEpochAuthority) :
    ((∃ k, a.Usable k) → ∃ e, a.acquire.2 = .ok e) ↔ a.Unblocked := by
  rw [Unblocked, ← Generation.first_free_iff_unblocked]
  apply imp_congr_right
  intro _
  unfold acquire
  change _ ↔ ∃ s i, (a.slots.zipIdx.find? fun entry => entry.1.state == .free) = some (s, i) ∧ _
  cases a.slots.zipIdx.find? fun entry => entry.1.state == .free with
  | none => simp
  | some entry =>
    obtain ⟨s, i⟩ := entry
    by_cases hLast : s.generation = 0xFFFFFFFF <;> simp [hLast, lastGeneration]

theorem Reached.generation_le (h : Reached n a) : ∀ s ∈ a.slots, s.generation.toNat ≤ n := by
  induction h with
  | boot => simp +decide
  | @acquire n a _ ih =>
    obtain ⟨e, hRefused⟩ | ⟨i, slot, hCell, -, hLast, hAcquire⟩ := a.acquire_cases
    · rw [hRefused]
      exact fun s hs => (ih s hs).trans (Nat.le_succ n)
    rw [hAcquire]
    intro s hs
    rcases mem_or_eq_of_mem_set hs with hs | rfl
    · exact (ih s hs).trans (Nat.le_succ n)
    · have hOld := ih slot (mem_of_getElem? hCell)
      simp only [UInt32.toNat_add, UInt32.toNat_one]
      omega
  | @beginRetire n a _ epoch ih =>
    obtain ⟨e, hRefused⟩ | ⟨slot, hCell, -, -, -, hBegin⟩ := a.beginRetire_cases epoch
    · rwa [hRefused]
    rw [hBegin]
    intro s hs
    rcases mem_or_eq_of_mem_set hs with hs | rfl
    · exact ih s hs
    · exact ih slot (mem_of_getElem? hCell)
  | @completeRetire n a _ retiring ih =>
    obtain ⟨e, hRefused⟩ | ⟨-, hComplete⟩ := a.completeRetire_cases retiring
    · rwa [hRefused]
    rw [hComplete]
    intro s hs
    obtain ⟨t, ht, hEq⟩ : ∃ t ∈ a.slots, s.generation = t.generation := by
      obtain ⟨j, hj⟩ := mem_iff_getElem?.mp hs
      rw [getElem?_modify] at hj
      obtain ⟨t, ht, rfl⟩ := Option.map_eq_some_iff.mp hj
      exact ⟨t, mem_of_getElem? ht, by split <;> rfl⟩
    rw [hEq]
    exact ih t ht

/-- The first slot after `n` lifetimes, with all others untouched. -/
def cycled (n : ℕ) : AddressSpaceEpochAuthority :=
  { slots := { generation := UInt32.ofNat n } :: replicate 62 {} }

theorem reached_cycled (hn : n ≤ 0xFFFFFFFF) : Reached n (cycled n) := by
  induction n with
  | zero => exact .boot
  | succ n ih =>
    have hRoom := ofNat_ne_last (n := n) (by omega)
    have hValid := succ_ne_zero hRoom
    have hSucc : UInt32.ofNat (n + 1) = UInt32.ofNat n + 1 := by simp
    have hNext := ((ih (by omega)).acquire.beginRetire
      { slot := 0, generation := UInt32.ofNat n + 1, asid := 1 }).completeRetire
      { epoch := { slot := 0, generation := UInt32.ofNat n + 1, asid := 1 } }
    rw [cycled, hSucc]
    simpa [cycled, acquire, hRoom, beginRetire, completeRetire, AddressSpaceEpoch.valid,
      hValid, maxAddressSpaceEpochs, kernelReservedAsid, asidForSlot, retiring, inState]
      using hNext

end AddressSpaceEpochAuthority

namespace MemoryGrantAuthority

def Usable (a : MemoryGrantAuthority) : ℕ → Prop :=
  Generation.Usable (fun s : Slot => !s.occupied) (fun s => lastGeneration s.generation) a.slots

def Unblocked (a : MemoryGrantAuthority) : Prop :=
  Generation.Unblocked (fun s : Slot => !s.occupied) (fun s => lastGeneration s.generation) a.slots

/-- A range that does not wrap and meets no range handed out. -/
def Admits (a : MemoryGrantAuthority) (physicalBase length : UInt64) : Prop :=
  length ≠ 0 ∧ length ≤ 0xFFFFFFFFFFFFFFFF - physicalBase ∧
    ∀ s ∈ a.slots, s.occupied = true → overlaps s.physicalBase s.length physicalBase length = false

/-- Reached from boot by a history with `n` creations. -/
inductive Reached : ℕ → MemoryGrantAuthority → Prop
  | boot : Reached 0 {}
  | create {n a} (h : Reached n a) (physicalBase length : UInt64) :
      Reached (n + 1) (a.create physicalBase length).1
  | revoke {n a} (h : Reached n a) (identity : MemoryGrantIdentity) :
      Reached n (a.revoke identity).1

variable {a : MemoryGrantAuthority} {n : ℕ}

theorem create_of_admits {physicalBase length : UInt64} (h : a.Admits physicalBase length) :
    a.create physicalBase length =
      match a.slots.zipIdx.find? fun entry => !entry.1.occupied with
      | none => (a, .error (kernelError MemoryGrantErrors.exhausted))
      | some (slot, i) =>
        if slot.generation = 0xFFFFFFFF then
          (a, .error (kernelError MemoryGrantErrors.generationExhausted))
        else
          ({ slots := a.slots.set i
               { physicalBase, length, generation := slot.generation + 1, occupied := true }
             live := a.live + 1 },
            .ok { identity := { slot := UInt16.ofNat i, generation := slot.generation + 1 }
                  physicalBase, length }) := by
  obtain ⟨hLen, hFits, hApart⟩ := h
  have hOverlaps : ¬ (a.slots.any fun slot =>
      slot.occupied && overlaps slot.physicalBase slot.length physicalBase length) = true := by
    simpa using hApart
  rw [create, if_neg (by simp [hLen, hFits]), if_neg hOverlaps]
  cases a.slots.zipIdx.find? fun entry => !entry.1.occupied with
  | none => rfl
  | some entry =>
    obtain ⟨s, i⟩ := entry
    by_cases hLast : s.generation = 0xFFFFFFFF
    · simp [hLast]
    · simp [hLast, succ_ne_zero hLast]

theorem create_iff {physicalBase length : UInt64} (h : a.Admits physicalBase length) :
    ((∃ k, a.Usable k) → ∃ g, (a.create physicalBase length).2 = .ok g) ↔ a.Unblocked := by
  rw [Unblocked, ← Generation.first_free_iff_unblocked, create_of_admits h]
  apply imp_congr_right
  intro _
  cases a.slots.zipIdx.find? fun entry => !entry.1.occupied with
  | none => simp
  | some entry =>
    obtain ⟨s, i⟩ := entry
    by_cases hLast : s.generation = 0xFFFFFFFF <;> simp [hLast, lastGeneration]

theorem Reached.generation_le (h : Reached n a) : ∀ s ∈ a.slots, s.generation.toNat ≤ n := by
  induction h with
  | boot => simp +decide
  | @create n a _ physicalBase length ih =>
    have hOld : ∀ s ∈ a.slots, s.generation.toNat ≤ n + 1 := fun s hs =>
      (ih s hs).trans (Nat.le_succ n)
    have hSet : ∀ i slot new, a.slots[i]? = some slot → new.generation = slot.generation + 1 →
        ∀ s ∈ a.slots.set i new, s.generation.toNat ≤ n + 1 := by
      intro i slot new hCell hNew s hs
      rcases mem_or_eq_of_mem_set hs with hs | rfl
      · exact hOld s hs
      · have hSlot := ih slot (mem_of_getElem? hCell)
        simp only [hNew, UInt32.toNat_add, UInt32.toNat_one]
        omega
    unfold MemoryGrantAuthority.create
    split_ifs
    · exact hOld
    · exact hOld
    cases hFind : a.slots.zipIdx.find? fun entry => !entry.1.occupied with
    | none => exact hOld
    | some entry =>
      obtain ⟨slot, i⟩ := entry
      have hCell : a.slots[i]? = some slot :=
        (@Generation.find?_zipIdx _ _ _ (fun s : Slot => !s.occupied) _ hFind).1
      dsimp only
      split_ifs
      · exact hOld
      all_goals exact hSet i slot _ hCell rfl
  | @revoke n a _ identity ih =>
    unfold MemoryGrantAuthority.revoke
    split
    · exact ih
    rename_i slot hSlot
    intro s hs
    rcases mem_or_eq_of_mem_set hs with hs | rfl
    · exact ih s hs
    · exact ih slot (mem_of_getElem? (slotFor_eq_some hSlot).1)

/-- The first slot after `n` grants, with all others untouched. -/
def cycled (n : ℕ) : MemoryGrantAuthority :=
  { slots := { generation := UInt32.ofNat n } :: replicate 63 {} }

theorem reached_cycled (hn : n ≤ 0xFFFFFFFF) : Reached n (cycled n) := by
  induction n with
  | zero => exact .boot
  | succ n ih =>
    have hRoom := ofNat_ne_last (n := n) (by omega)
    have hValid := succ_ne_zero hRoom
    have hNext := ((ih (by omega)).create 0x1000 0x1000).revoke
      { slot := 0, generation := UInt32.ofNat n + 1 }
    have hSucc : UInt32.ofNat (n + 1) = UInt32.ofNat n + 1 := by simp
    rw [cycled, hSucc]
    simpa [cycled, MemoryGrantAuthority.create, hRoom, hValid, MemoryGrantAuthority.revoke,
      slotFor, MemoryGrantIdentity.valid, maxMemoryGrants] using hNext

end MemoryGrantAuthority

/-- An acquisition, and the creation of a grant over a permitted range, succeed
whenever some free slot has a generation left exactly when no free slot without
one stands before all of those, which no history shorter than one full count of
generations can bring about. -/
theorem slot_exhaustion_iff (a : AddressSpaceEpochAuthority) (g : MemoryGrantAuthority)
    {physicalBase length : UInt64} (h : g.Admits physicalBase length) :
    (((∃ k, a.Usable k) → ∃ e, a.acquire.2 = .ok e) ↔ a.Unblocked) ∧
      (((∃ k, g.Usable k) → ∃ m, (g.create physicalBase length).2 = .ok m) ↔ g.Unblocked) ∧
      ∀ n, n < 0xFFFFFFFF → (AddressSpaceEpochAuthority.Reached n a → a.Unblocked) ∧
        (MemoryGrantAuthority.Reached n g → g.Unblocked) :=
  ⟨a.acquire_iff, create_iff h,
    fun _ hn => ⟨fun hReached => unblocked_of_le hReached.generation_le hn,
      fun hReached => unblocked_of_le hReached.generation_le hn⟩⟩

/-- The first slot of either table has been used before, and a grant is out. -/
theorem slot_exhaustion_cycled :
    (∃ e, (AddressSpaceEpochAuthority.cycled 7).acquire.2 = .ok e) ∧
      ∃ m, (((MemoryGrantAuthority.cycled 3).create 0x1000 0x1000).1.create 0x8000 0x1000).2 =
        .ok m := by
  have hAdmits : ((MemoryGrantAuthority.cycled 3).create 0x1000 0x1000).1.Admits 0x8000 0x1000 :=
    ⟨by decide, by decide, by decide +kernel⟩
  obtain ⟨hAcquire, hCreate, hShort⟩ := slot_exhaustion_iff (.cycled 7) _ hAdmits
  have hSpaces := (hShort 7 (by decide)).1 (reached_cycled (by decide))
  have hGrants := (hShort 4 (by decide)).2
    ((MemoryGrantAuthority.reached_cycled (by decide)).create 0x1000 0x1000)
  exact ⟨hAcquire.mpr hSpaces ⟨1, {}, rfl, rfl, rfl⟩, hCreate.mpr hGrants ⟨1, {}, rfl, rfl, rfl⟩⟩

/-- After one full count of generations the first slot refuses for all the
others, none of which has ever been used. -/
theorem first_slot_blocks :
    (∃ a : AddressSpaceEpochAuthority, AddressSpaceEpochAuthority.Reached 0xFFFFFFFF a ∧
      a.Usable 1 ∧ ∀ e, a.acquire.2 ≠ .ok e) ∧
    ∃ a : MemoryGrantAuthority, MemoryGrantAuthority.Reached 0xFFFFFFFF a ∧ a.Usable 1 ∧
      a.Admits 0x1000 0x1000 ∧ ∀ g, (a.create 0x1000 0x1000).2 ≠ .ok g := by
  constructor
  · refine ⟨_, reached_cycled le_rfl, ⟨{}, rfl, rfl, rfl⟩, ?_⟩
    simp [AddressSpaceEpochAuthority.acquire, AddressSpaceEpochAuthority.cycled]
  · refine ⟨_, reached_cycled le_rfl, ⟨{}, rfl, rfl, rfl⟩,
      ⟨by decide, by decide, by simp +decide⟩, ?_⟩
    simp [MemoryGrantAuthority.create, MemoryGrantAuthority.cycled]

end Enml.OsKernel
