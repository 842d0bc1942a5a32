import Enml.Invariant.Connection
import Enml.Lib.Run

/-! Grants over whole runs. Every entry of the table was put there by an admission
under the lock generation it names, and nothing has taken it out since. What a holder
presents is a value of its own, and it is compared with the table in its number only. -/
namespace Enml.OsSupervisor

open GrantSlot ConnectionAdmissionAuthority

variable {place : Nat}

/-- A cell of the table with a grant in it. -/
def GrantSlot.holding (grant : ConnectionGrant) : GrantSlot := { inUse := true, grant }

inductive AdmissionOp where
  | admitPort (transport : ConnectionTransport) (purpose : ConnectionPurpose)
      (proof : UserPresenceProof) (currentLockGeneration : UInt64)
  | release (grant : ConnectionGrant)
  | revokeAll

inductive AdmissionReply where
  | granted (grant : ConnectionGrant)
  | released (done : Bool)
  | revoked

namespace ConnectionAdmissionAuthority

def step (a : ConnectionAdmissionAuthority) :
    AdmissionOp → ConnectionAdmissionAuthority × AdmissionReply
  | .admitPort transport purpose proof current =>
    ((a.admitPort transport purpose proof current).1,
      .granted (a.admitPort transport purpose proof current).2)
  | .release grant => ((a.release grant).1, .released (a.release grant).2)
  | .revokeAll => (a.revokeAll, .revoked)

variable {a : ConnectionAdmissionAuthority}

theorem Sound.step (h : a.Sound) (op : AdmissionOp) : (a.step op).1.Sound := by
  cases op with
  | admitPort transport purpose proof current => exact h.admitPort transport purpose proof current
  | release grant => exact h.release grant
  | revokeAll => exact h.revokeAll

/-- A cell that is in use after a call was so before it, or the call filled it. -/
theorem slot_step (h : a.Sound) {op : AdmissionOp} {s : GrantSlot}
    (hAt : (a.step op).1.slots[place]? = some s) (hUse : s.inUse = true) :
    (a.slots[place]? = some s ∧ op ≠ .revokeAll) ∨
      ∃ proof, op = .admitPort s.grant.transport s.grant.purpose proof s.grant.lockGeneration ∧
        Entered a s.grant.transport s.grant.purpose proof s.grant.lockGeneration (a.step op).1
          s.grant ∧ (a.step op).2 = .granted s.grant := by
  cases op with
  | admitPort transport purpose proof current =>
    rcases a.admit_cases transport purpose proof current with ⟨-, hSame | hSame⟩ | hEntered
    · rw [step, hSame] at hAt
      exact .inl ⟨hAt, nofun⟩
    · rw [step, hSame] at hAt
      exact .inl ⟨hAt, nofun⟩
    obtain ⟨front, free, back, hSlots, -, -, hSlots'⟩ := SlotTable.insert_eq_some hEntered.stored
    have hCell : (front ++ holding (a.admitPort transport purpose proof current).2 ::
        back)[place]? = some s := by
      rw [holding, ← hSlots']
      exact hAt
    rw [hSlots]
    rcases Nat.lt_trichotomy place front.length with hFront | rfl | hBack
    · rw [List.getElem?_append_left hFront] at hCell ⊢
      exact .inl ⟨hCell, nofun⟩
    · rw [List.getElem?_append_right (Nat.le_refl _), Nat.sub_self, List.getElem?_cons_zero,
        Option.some.injEq] at hCell
      have hGrant : s.grant = (a.admitPort transport purpose proof current).2 := by
        rw [← hCell]
        rfl
      have hFields := hGrant.trans hEntered.fields
      have hTransport : s.grant.transport = transport := by rw [hFields]
      have hPurpose : s.grant.purpose = purpose := by rw [hFields]
      have hLock : s.grant.lockGeneration = current := by rw [hFields]
      refine .inr ⟨proof, ?_, ?_, ?_⟩
      · rw [hTransport, hPurpose, hLock]
      · rw [hTransport, hPurpose, hLock, hGrant]
        exact hEntered
      · rw [hGrant]
        rfl
    · obtain ⟨rest, hRest⟩ : ∃ rest, place - front.length = rest + 1 :=
        ⟨place - front.length - 1, by omega⟩
      rw [List.getElem?_append_right (Nat.le_of_lt hBack), hRest,
        List.getElem?_cons_succ] at hCell ⊢
      exact .inl ⟨hCell, nofun⟩
  | release grant =>
    refine .inl ⟨?_, nofun⟩
    rcases release_cases h grant with hSame | ⟨-, hReleased⟩
    · rw [step, hSame] at hAt
      exact hAt
    have hSlots : (a.step (.release grant)).1.slots = a.slots.set
        (a.slots.findIdx fun s => decide (s.key = some grant.id)) {} := by
      show (a.release grant).1.slots = _
      rw [hReleased.result]
      exact SlotTable.updateFirst_eq_set hReleased.found _
    rw [hSlots, List.getElem?_set] at hAt
    split_ifs at hAt with hHere hBound
    · rw [← Option.some.inj hAt] at hUse
      cases hUse
    · exact hAt
  | revokeAll =>
    have hSlots : (a.slots.map fun _ => ({} : GrantSlot))[place]? = some s := hAt
    rw [List.getElem?_map, Option.map_eq_some_iff] at hSlots
    obtain ⟨_, -, rfl⟩ := hSlots
    cases hUse

end ConnectionAdmissionAuthority

/-- A run of the authority, from its construction on. -/
structure AdmissionRun where
  ops : List AdmissionOp

namespace AdmissionRun

/-- The authority after the first `n` calls. -/
def reached (r : AdmissionRun) (n : Nat) : ConnectionAdmissionAuthority :=
  Run.after step {} (r.ops.take n)

/-- The grant `given` was returned by the admission at place `m`, under a proof for its lock
generation. The table cell it was put into has held it ever since, and there has been no
revocation. -/
structure HeldSince (r : AdmissionRun) (m n : Nat) (given : ConnectionGrant) : Prop where
  earlier : m < n
  admitted : ∃ proof,
    r.ops[m]? = some (.admitPort given.transport given.purpose proof given.lockGeneration) ∧
      proof.valid = true ∧ proof.duressAuthentication = false ∧
      proof.lockGeneration = given.lockGeneration ∧
      ((r.reached m).admitPort given.transport given.purpose proof given.lockGeneration).2 = given
  kept : ∃ place : Nat, ∀ k, m < k → k ≤ n → (r.reached k).slots[place]? = some (.holding given)
  unrevoked : ∀ k, m < k → k < n → r.ops[k]? ≠ some .revokeAll

/-- A grant with the number, transport and purpose of what is presented was given out
under the lock generation, and has been neither released nor revoked. -/
def Vouched (r : AdmissionRun) (n : Nat) (grant : ConnectionGrant) (current : UInt64) : Prop :=
  ∃ m given, r.HeldSince m n given ∧ given.id = grant.id ∧ given.transport = grant.transport ∧
    given.purpose = grant.purpose ∧ given.lockGeneration = current

/-- What is accepted as a data connection has been admitted. -/
def AcceptsOnlyAdmitted (r : AdmissionRun) (n : Nat) (grant : ConnectionGrant) (current : UInt64) :
    Prop :=
  (((r.reached n).active grant current = true ∧ grant.dataSignaling = true) →
    r.Vouched n grant current) ∧
    (((r.reached n).requiredDomain grant current).isSome = true → r.Vouched n grant current)

/-- A well-formed grant for the current generations whose number is in the table is an
entry of the table, field by field. -/
def Unaltered (a : ConnectionAdmissionAuthority) (grant : ConnectionGrant) (current : UInt64) :
    Prop :=
  grant.valid = true → grant.dataSignaling = true → grant.generation = a.generation →
    grant.lockGeneration = current → (∃ s ∈ a.slots, s.inUse = true ∧ s.grant.id = grant.id) →
    holding grant ∈ a.slots

variable {r : AdmissionRun}

theorem sound_reached (r : AdmissionRun) (n : Nat) : (r.reached n).Sound :=
  Run.always_of_invariant sound_start (fun _ op h => h.step op) n

theorem HeldSince.succ {m n : Nat} {given : ConnectionGrant} (h : r.HeldSince m n given)
    (hKept : ∀ k, m < k → k ≤ n → (r.reached k).slots[place]? = some (.holding given))
    (hAt : (r.reached (n + 1)).slots[place]? = some (.holding given))
    (hOp : r.ops[n]? ≠ some .revokeAll) : r.HeldSince m (n + 1) given := by
  refine ⟨Nat.lt_succ_of_lt h.earlier, h.admitted, ⟨place, ?_⟩, ?_⟩
  · intro k hmk hkn
    rcases Nat.le_succ_iff.mp hkn with hEarlier | rfl
    · exact hKept k hmk hEarlier
    · exact hAt
  intro k hmk hkn
  rcases Nat.lt_succ_iff_lt_or_eq.mp hkn with hEarlier | rfl
  · exact h.unrevoked k hmk hEarlier
  · exact hOp

/-- Every entry of the table has its admission. -/
theorem heldSince_of_slot (n : Nat) {s : GrantSlot}
    (hAt : (r.reached n).slots[place]? = some s) (hUse : s.inUse = true) :
    ∃ m, r.HeldSince m n s.grant ∧ ∀ k, m < k → k ≤ n →
      (r.reached k).slots[place]? = some s := by
  induction n generalizing s with
  | zero =>
    have hStart : (List.replicate maxActiveGrants ({} : GrantSlot))[place]? = some s := hAt
    rw [List.getElem?_replicate] at hStart
    split_ifs at hStart
    rw [← Option.some.inj hStart] at hUse
    cases hUse
  | succ n ih =>
    have hSelf : s = .holding s.grant := by rw [holding, ← hUse]
    have hExtend : (r.reached n).slots[place]? = some s → r.ops[n]? ≠ some .revokeAll →
        ∃ m, r.HeldSince m (n + 1) s.grant ∧ ∀ k, m < k → k ≤ n + 1 →
          (r.reached k).slots[place]? = some s := by
      intro hBefore hOp
      obtain ⟨m, hHeld, hKept⟩ := ih hBefore hUse
      refine ⟨m, hHeld.succ (hSelf ▸ hKept) (hSelf ▸ hAt) hOp, ?_⟩
      intro k hmk hkn
      rcases Nat.le_succ_iff.mp hkn with hEarlier | rfl
      · exact hKept k hmk hEarlier
      · exact hAt
    cases hOp : r.ops[n]? with
    | none =>
      have hStill : r.reached (n + 1) = r.reached n := by
        rw [reached, Run.take_succ_of_none hOp]
        rfl
      rw [hStill] at hAt
      exact hExtend hAt (by rw [hOp]; exact nofun)
    | some op =>
      have hNext : r.reached (n + 1) = ((r.reached n).step op).1 := Run.after_take_succ hOp
      have hCell := hAt
      rw [hNext] at hCell
      rcases slot_step (r.sound_reached n) hCell hUse with
        ⟨hBefore, hNot⟩ | ⟨proof, rfl, hEntered, hReply⟩
      · refine hExtend hBefore ?_
        rw [hOp]
        exact fun hSame => hNot (Option.some.inj hSame)
      have hHere : ∀ k, n < k → k ≤ n + 1 → (r.reached k).slots[place]? = some s := by
        intro k hnk hkn
        obtain rfl : k = n + 1 := by omega
        exact hAt
      refine ⟨n, ⟨Nat.lt_succ_self n, ⟨proof, hOp, hEntered.unlocked.1, ?_,
        hEntered.unlocked.2, AdmissionReply.granted.inj hReply⟩, ⟨place, hSelf ▸ hHere⟩, ?_⟩,
        hHere⟩
      · have hValid := hEntered.unlocked.1
        rw [UserPresenceProof.valid, Bool.and_eq_true] at hValid
        simpa using hValid.2
      · intro k hnk hkn
        omega

/-- What is accepted is vouched for exactly when it is an entry of the table. -/
theorem acceptsOnlyAdmitted_iff (r : AdmissionRun) (n : Nat) (grant : ConnectionGrant)
    (current : UInt64) :
    r.AcceptsOnlyAdmitted n grant current ↔ Unaltered (r.reached n) grant current := by
  have hSound := r.sound_reached n
  have hDomain : ((r.reached n).requiredDomain grant current).isSome = true →
      (r.reached n).active grant current = true ∧ grant.dataSignaling = true := by
    unfold requiredDomain
    split_ifs with hRefused
    · exact nofun
    · intro _
      simpa using hRefused
  constructor
  · rintro ⟨hAccepts, -⟩ hValid hData hGen hLock ⟨s, hs, hUse, hId⟩
    have hEntry := mem_entries.mpr ⟨hs, hUse⟩
    have hActive := (active_iff hSound hData).mpr
      ⟨hValid, hGen, hLock, s, hEntry, hId⟩
    obtain ⟨m, given, hHeld, hSame, hTransport, hPurpose, hCur⟩ := hAccepts ⟨hActive, hData⟩
    obtain ⟨place, hKept⟩ := hHeld.kept
    have hMem := List.mem_of_getElem? (hKept n hHeld.earlier (Nat.le_refl n))
    obtain ⟨-, hGivenData, hGivenGen⟩ := hSound.grants _ (mem_entries.mpr ⟨hMem, rfl⟩)
    have hGrant : given = grant := by
      have hGens := hGivenGen.trans hGen.symm
      have hLocks := hCur.trans hLock.symm
      have hDatas := hGivenData.trans hData.symm
      unfold holding at hGens hDatas
      cases given
      cases grant
      simp_all
    exact hGrant ▸ hMem
  · intro hUnaltered
    have hVouched : (r.reached n).active grant current = true ∧ grant.dataSignaling = true →
        r.Vouched n grant current := by
      rintro ⟨hActive, hData⟩
      obtain ⟨hValid, hGen, hLock, s, hs, hId⟩ := (active_iff hSound hData).mp hActive
      obtain ⟨hMem, hUse⟩ := mem_entries.mp hs
      obtain ⟨place, hAt⟩ := List.getElem?_of_mem
        (hUnaltered hValid hData hGen hLock ⟨s, hMem, hUse, hId⟩)
      obtain ⟨m, hHeld, -⟩ := heldSince_of_slot n hAt rfl
      exact ⟨m, grant, hHeld, rfl, rfl, rfl, hLock⟩
    exact ⟨hVouched, fun hSome => hVouched (hDomain hSome)⟩

/-- In every run the count is that of the entries in use, and a value that is presented
is accepted only for a connection that was admitted if and only if it does not differ
from the entry with its number. -/
theorem accepts_admitted_iff_unaltered (r : AdmissionRun) :
    (∀ n, (r.reached n).activeGrants.toNat = (r.reached n).slots.countP fun s => s.inUse) ∧
      ∀ n grant current,
        r.AcceptsOnlyAdmitted n grant current ↔ Unaltered (r.reached n) grant current := by
  refine ⟨?_, r.acceptsOnlyAdmitted_iff⟩
  intro n
  rw [(r.sound_reached n).count, entries, SlotTable.entries, List.countP_eq_length_filter]
  simp only [isSome_key]

def ninthUnlock : UserPresenceProof :=
  { authenticationGeneration := 5, lockGeneration := 9, passwordOrPinVerified := true }

/-- One file transfer is admitted. -/
def fileTransferRun : AdmissionRun where
  ops := [.admitPort .usb .fileTransfer ninthUnlock 9]

/-- The grant of the file transfer, rewritten for debugging after the next lock. -/
def rewrittenGrant : ConnectionGrant :=
  { id := 1, generation := 1, lockGeneration := 10, transport := .debugLink, purpose := .debug
    dataSignaling := true }

/-- The rewritten grant is active at a lock generation under which nobody was admitted. -/
theorem rewritten_grant_is_accepted :
    (fileTransferRun.reached 1).active rewrittenGrant 10 = true ∧
      (fileTransferRun.reached 1).requiredDomain rewrittenGrant 10 = some .usbData ∧
      ¬fileTransferRun.AcceptsOnlyAdmitted 1 rewrittenGrant 10 := by
  have hActive : (fileTransferRun.reached 1).active rewrittenGrant 10 = true := by decide +kernel
  refine ⟨hActive, by decide +kernel, ?_⟩
  rintro ⟨hAccepts, -⟩
  obtain ⟨m, given, hHeld, -, -, -, hCur⟩ := hAccepts ⟨hActive, rfl⟩
  obtain ⟨proof, hOp, -⟩ := hHeld.admitted
  obtain rfl : m = 0 := by have := hHeld.earlier; omega
  rw [hCur] at hOp
  simp [fileTransferRun] at hOp

end AdmissionRun

end Enml.OsSupervisor
