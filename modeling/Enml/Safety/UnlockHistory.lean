import Enml.Invariant.Unlock
import Mathlib.Tactic.IntervalCases
import Mathlib.Tactic.Ring

/-! Whole histories of the unlock authority beside the protected domain it
guards. The domain is gone once a directive has been issued, and is what the key
service finds at a restart. -/
namespace Enml.OsShell

open UnlockAuthority UInt64 Run UInt32 List

/-- Times stay clear of the end of the clock by the longest lock, and a restart
is told what the key service found. -/
def UnlockOp.Sensible : UnlockOp → Prop
  | .submit now _ _ => now.toNat + maximumBackoffNanoseconds.toNat < 2 ^ 64
  | .configureErasure _ _ => True
  | .noteEnrollment => True
  | .restart _ presence => presence ≠ .unrecognised
  | .reload presence => presence ≠ .unrecognised

/-- A submission whose time leaves room for the longest lock, or anything else
short of a restart. -/
def UnlockOp.Timely : UnlockOp → Prop
  | .submit now _ _ => now.toNat + maximumBackoffNanoseconds.toNat < 2 ^ 64
  | .restart _ _ => False
  | _ => True

/-- A restore that reports the domain present. -/
def UnlockOp.ReportsPresent (op : UnlockOp) : Prop :=
  (∃ erasure, op = .restart erasure .present) ∨ op = .reload .present

structure Device where
  authority : UnlockAuthority
  present : Bool

namespace Device

def start (erasure : PlatformErasure) : Device where
  authority := create erasure
  present := true

/-- The domain after an operation and the reply to it. -/
def presentAfter (present : Bool) : UnlockOp → UnlockReply → Bool
  | .submit _ _ _, .submitted (.ok outcome) => present && !outcome.destroyProtectedDomain
  | .restart _ presence, _ => presence == .present
  | .reload presence, _ => presence == .present
  | _, _ => present

def step (d : Device) (op : UnlockOp) : Device × UnlockReply :=
  let (authority, reply) := d.authority.step op
  ({ authority, present := presentAfter d.present op reply }, reply)

/-- The operation is answered with the directive. -/
def Issues (d : Device) (op : UnlockOp) : Prop :=
  ∃ outcome, (d.step op).2 = .submitted (.ok outcome) ∧ outcome.destroyProtectedDomain = true

/-- The authority knows whether the domain is there, and holds settings it could
have chosen. -/
structure Synced (d : Device) : Prop where
  configured : d.authority.Configured
  destroyed : d.authority.destroyed = !d.present

theorem synced_start (erasure : PlatformErasure) : (start erasure).Synced :=
  ⟨configured_create erasure, rfl⟩

theorem destroyed_afterDestruction (a : UnlockAuthority) : a.afterDestruction.destroyed = true := by
  unfold afterDestruction
  split_ifs with h
  · exact h
  · rfl

theorem destroyed_reacted (a : UnlockAuthority) (c : CredentialClass) :
    (a.reacted c).destroyed = (a.destroyed || c == .duress) := by
  unfold reacted
  split_ifs with h
  · rw [destroyed_afterDestruction, h]
    simp
  · simp [h]

variable {d : Device} {op : UnlockOp} {now length time : UInt64} {tag tag' : CredentialTag}
  {a b : UnlockAuthority} {c : CredentialClass}

theorem synced_submit (h : d.Synced) (now : UInt64) (c : CredentialClass) (tag : CredentialTag) :
    (d.step (.submit now c tag)).1.Synced := by
  refine ⟨h.configured.step (.submit now c tag), ?_⟩
  show (d.authority.submit now c tag).1.destroyed =
    !presentAfter d.present (.submit now c tag) (.submitted (d.authority.submit now c tag).2)
  have hAns := d.authority.submit_answer now c tag
  generalize d.authority.submit now c tag = done at hAns
  have hBefore := h.destroyed
  cases hAns with
  | refused => exact hBefore
  | locked => simpa [presentAfter, seen] using hBefore
  | threshold =>
    show d.authority.afterDestruction.destroyed = _
    rw [destroyed_afterDestruction]
    simp [presentAfter, hBefore]
  | mistaken => simpa [presentAfter, seen] using hBefore
  | iterated | accepted =>
    show (d.authority.reacted c).destroyed = _
    rw [destroyed_reacted]
    cases hPresent : d.present <;> simp [presentAfter, hBefore, hPresent]

theorem absent_eq {presence : DomainPresence} (h : presence ≠ .unrecognised) :
    (presence == .absent) = !(presence == .present) := by
  cases presence with
  | present | absent => rfl
  | unrecognised => exact absurd rfl h

theorem Synced.step (h : d.Synced) (hOp : op.Sensible) : (d.step op).1.Synced := by
  cases op with
  | submit now c tag => exact synced_submit h now c tag
  | configureErasure enabled threshold =>
    refine ⟨h.configured.step (.configureErasure enabled threshold), ?_⟩
    show (d.authority.configureErasure enabled threshold).1.destroyed = !d.present
    unfold configureErasure
    split_ifs <;> exact h.destroyed
  | noteEnrollment => exact ⟨h.configured.step .noteEnrollment, h.destroyed⟩
  | restart erasure presence =>
    refine ⟨h.configured.step (.restart erasure presence), ?_⟩
    show ((create erasure).restore d.authority.persistedState presence).1.destroyed =
      !(presence == .present)
    rw [restore_persisted h.configured, if_neg hOp]
    exact absent_eq hOp
  | reload presence =>
    refine ⟨h.configured.step (.reload presence), ?_⟩
    show (d.authority.restore d.authority.persistedState presence).1.destroyed =
      !(presence == .present)
    rw [restore_persisted h.configured, if_neg hOp]
    exact absent_eq hOp

variable {ops : List UnlockOp}

/-- The device after any sensible operations. -/
theorem synced_after (erasure : PlatformErasure) (h : ∀ op ∈ ops, op.Sensible) :
    (after step (start erasure) ops).Synced := by
  have hRun : Run.Always step Synced (start erasure) ops :=
    always_of_step (C := fun _ op => op.Sensible) (synced_start erasure)
      (fun _ _ hd hOp => hd.step hOp) (fun _ op hAt => h op (mem_of_getElem? hAt))
  exact hRun.final

theorem synced_prefix (erasure : PlatformErasure) (h : ∀ op ∈ ops, op.Sensible)
    {before : List UnlockOp} (hPrefix : before <+: ops) :
    (after step (start erasure) before).Synced :=
  synced_after erasure fun op hMem => h op (hPrefix.subset hMem)

/-- The attempt is interpreted: it is well formed, in order and not made during a
lock. -/
def Evaluated (d : Device) (op : UnlockOp) : Prop :=
  ∃ now c tag, op = .submit now c tag ∧ d.authority.Evaluates now c tag

structure StepSafe (d : Device) (op : UnlockOp) : Prop where
  /-- A wrong credential is granted only when nothing is left to protect. -/
  granted : ∀ now tag, op = .submit now .invalid tag → d.authority.Grants op →
    d.Issues op ∨ d.present = false
  /-- A duress credential is obeyed whatever the attempt is answered. -/
  duress : ∀ now tag, op = .submit now .duress tag →
    d.authority.Evaluates now .duress tag → d.present = true → d.Issues op
  /-- An attempt during a lock leaves no trace but its time. -/
  during : ∀ now c tag, op = .submit now c tag → now < d.authority.lockedUntil →
    ∃ time, (d.step op).1 = { d with authority := { d.authority with lastSubmit := time } }
  /-- Only a granted guess and a restart shorten a lock. -/
  lock : ¬(d.authority.Guess op ∧ d.authority.Grants op) →
    (∀ erasure presence, op ≠ .restart erasure presence) →
    d.authority.lockedUntil ≤ (d.step op).1.authority.lockedUntil

theorem reply_submit (d : Device) (now : UInt64) (c : CredentialClass) (tag : CredentialTag) :
    (d.step (.submit now c tag)).2 = .submitted (d.authority.submit now c tag).2 := rfl

theorem authority_submit (d : Device) (now : UInt64) (c : CredentialClass) (tag : CredentialTag) :
    (d.step (.submit now c tag)).1.authority = (d.authority.submit now c tag).1 := rfl

/-- A guess at a present domain that reaches the threshold. -/
theorem issues_of_reaches (h : d.authority.Guess op) (hReached : d.authority.ReachesThreshold)
    (hDestroyed : d.authority.destroyed = false) : d.Issues op := by
  obtain ⟨now, tag, rfl, hEvaluates⟩ := h
  unfold Issues
  rw [reply_submit]
  have hAns := d.authority.submit_answer now .invalid tag
  generalize d.authority.submit now .invalid tag = done at hAns
  cases hAns with
  | refused e hNot => exact absurd ⟨hEvaluates.1, hEvaluates.2.1⟩ hNot
  | locked _ _ hLock => exact absurd hLock (UInt64.not_lt.mpr hEvaluates.2.2)
  | threshold => exact ⟨_, rfl, by simp [hDestroyed]⟩
  | mistaken _ _ hNot => exact absurd hReached hNot
  | iterated _ hClass | accepted _ hClass => exact absurd rfl hClass

theorem issues_of_duress (h : d.authority.Evaluates now .duress tag)
    (hDestroyed : d.authority.destroyed = false) : d.Issues (.submit now .duress tag) := by
  unfold Issues
  rw [reply_submit]
  have hAns := d.authority.submit_answer now .duress tag
  generalize d.authority.submit now .duress tag = done at hAns
  cases hAns with
  | refused e hNot => exact absurd ⟨h.1, h.2.1⟩ hNot
  | locked _ _ hLock => exact absurd hLock (UInt64.not_lt.mpr h.2.2)
  | threshold _ hClass | mistaken _ hClass => cases hClass
  | iterated | accepted => exact ⟨_, rfl, by simp [hDestroyed]⟩

/-- The directive is issued only for a domain that is there, and takes it away. -/
theorem Issues.present (h : d.Synced) (hIssues : d.Issues op) :
    d.present = true ∧ (d.step op).1.present = false := by
  obtain ⟨outcome, hReply, hDirective⟩ := hIssues
  cases op with
  | submit now c tag =>
    have hAfter : (d.step (.submit now c tag)).1.present = false := by
      show presentAfter d.present (.submit now c tag) (d.step (.submit now c tag)).2 = false
      rw [hReply]
      simp [presentAfter, hDirective]
    refine ⟨?_, hAfter⟩
    rw [reply_submit] at hReply
    have hKnown := h.destroyed
    have hAns := d.authority.submit_answer now c tag
    generalize d.authority.submit now c tag = done at hAns hReply
    cases hAns <;> cases hReply <;> simp_all
  | configureErasure | noteEnrollment | restart | reload => cases hReply

theorem submit_during_lock (h : now < a.lockedUntil) :
    ∃ time, (a.submit now c tag).1 = { a with lastSubmit := time } ∧
      ∀ outcome, (a.submit now c tag).2 = .ok outcome → outcome.destroyProtectedDomain = false := by
  have hAns := a.submit_answer now c tag
  generalize a.submit now c tag = done at hAns
  have hUnread : ¬a.Evaluates now c tag := fun hRead => absurd h (UInt64.not_lt.mpr hRead.2.2)
  cases hAns with
  | refused => exact ⟨a.lastSubmit, rfl, fun _ hOk => nomatch hOk⟩
  | locked =>
    refine ⟨now, rfl, ?_⟩
    intro outcome hOk
    cases hOk
    rfl
  | threshold hRead | mistaken hRead | iterated hRead | accepted hRead => exact absurd hRead hUnread

theorem step_during_lock (h : now < d.authority.lockedUntil) :
    ∃ time, (d.step (.submit now c tag)).1 =
      { d with authority := { d.authority with lastSubmit := time } } := by
  have hLocked : ∃ time, (d.authority.submit now c tag).1 =
      { d.authority with lastSubmit := time } ∧ ∀ outcome,
        (d.authority.submit now c tag).2 = .ok outcome → outcome.destroyProtectedDomain = false :=
    submit_during_lock h
  obtain ⟨time, hState, hQuiet⟩ := hLocked
  refine ⟨time, ?_⟩
  have hPresent : presentAfter d.present (.submit now c tag)
      (.submitted (d.authority.submit now c tag).2) = d.present := by
    cases hRes : (d.authority.submit now c tag).2 with
    | error => rfl
    | ok outcome => simp [presentAfter, hQuiet outcome hRes]
  show Device.mk (d.authority.submit now c tag).1 _ = _
  rw [hState]
  exact congrArg (Device.mk _) hPresent

/-- Doubling from below the ceiling gives the exact power, cut off there. -/
theorem toNat_doubled (steps : Nat) {backoff : UInt64}
    (h : backoff.toNat ≤ maximumBackoffNanoseconds.toNat) :
    (doubled steps backoff).toNat =
      min (backoff.toNat * 2 ^ steps) maximumBackoffNanoseconds.toNat := by
  have hMost : maximumBackoffNanoseconds.toNat = 3600000000000 := rfl
  have hHalf : (maximumBackoffNanoseconds / 2).toNat = 1800000000000 := rfl
  induction steps generalizing backoff with
  | zero =>
    rw [doubled, if_neg (UInt64.not_lt.mpr (UInt64.le_iff_toNat_le.mpr h))]
    omega
  | succ steps ih =>
    have hPower : backoff.toNat * 2 ^ (steps + 1) = backoff.toNat * 2 * 2 ^ steps := by
      rw [Nat.pow_succ']
      ring
    rw [doubled, hPower]
    by_cases hFull : maximumBackoffNanoseconds / 2 ≤ backoff
    · rw [if_pos hFull]
      rw [UInt64.le_iff_toNat_le, hHalf] at hFull
      have hPos : 0 < 2 ^ steps := Nat.two_pow_pos steps
      have hAbove : 3600000000000 * 1 ≤ backoff.toNat * 2 * 2 ^ steps :=
        Nat.mul_le_mul (by omega) hPos
      omega
    · rw [if_neg hFull]
      rw [UInt64.le_iff_toNat_le, hHalf] at hFull
      have hTwice : (backoff * 2).toNat = backoff.toNat * 2 := by
        rw [UInt64.toNat_mul]
        exact Nat.mod_eq_of_lt (by simp only [UInt64.reduceToNat]; omega)
      rw [ih (by omega), hTwice]

theorem backoffFor_le (attempts : UInt32) : backoffFor attempts ≤ maximumBackoffNanoseconds := by
  unfold backoffFor
  split_ifs
  · decide
  · rw [UInt64.le_iff_toNat_le, toNat_doubled _ (by decide)]
    exact Nat.min_le_right _ _

/-- A lock set from a sensible time ends after it. -/
theorem toNat_lock (h : now.toNat + maximumBackoffNanoseconds.toNat < 2 ^ 64)
    (hLen : length ≤ maximumBackoffNanoseconds) :
    (now + length).toNat = now.toNat + length.toNat := by
  have hBound : length.toNat ≤ maximumBackoffNanoseconds.toNat := le_iff_toNat_le.mp hLen
  rw [UInt64.toNat_add, Nat.mod_eq_of_lt (by omega)]

theorem le_lock (h : now.toNat + maximumBackoffNanoseconds.toNat < 2 ^ 64)
    (hLen : length ≤ maximumBackoffNanoseconds) : now ≤ now + length := by
  rw [UInt64.le_iff_toNat_le, toNat_lock h hLen]
  omega

theorem lock_submit (hTimes : now.toNat + maximumBackoffNanoseconds.toNat < 2 ^ 64)
    (hNot : ¬(a.Guess (.submit now c tag) ∧ a.Grants (.submit now c tag))) :
    a.lockedUntil ≤ (a.submit now c tag).1.lockedUntil := by
  have hGrants : ∀ outcome, (a.submit now c tag).2 = .ok outcome →
      outcome.disposition = .granted → a.Grants (.submit now c tag) := by
    intro outcome hOk hGranted
    exact ⟨outcome, congrArg UnlockReply.submitted hOk, hGranted⟩
  have hAns := a.submit_answer now c tag
  generalize a.submit now c tag = done at hAns hGrants
  cases hAns with
  | refused | locked => exact UInt64.le_refl _
  | threshold hRead hClass =>
    subst hClass
    exact absurd ⟨⟨now, tag, rfl, hRead⟩, hGrants _ rfl rfl⟩ hNot
  | mistaken hRead =>
    unfold nextLock
    split_ifs
    · exact UInt64.le_trans hRead.2.2 (le_lock hTimes (backoffFor_le _))
    · exact UInt64.le_refl _
  | iterated hRead => exact UInt64.le_trans hRead.2.2 (le_lock hTimes (by decide))
  | accepted => exact UInt64.le_of_eq (a.sameHistory_reacted c).locked.symm

/-- What a restore leaves of the lock and of the count. -/
theorem restore_keeps (a : UnlockAuthority) (presence : DomainPresence) :
    (a.restore a.persistedState presence).1.lockedUntil = a.lockedUntil ∧
      (a.restore a.persistedState presence).1.invalidAttempts = a.invalidAttempts := by
  unfold restore
  split_ifs <;> exact ⟨rfl, rfl⟩

theorem configureErasure_keeps (a : UnlockAuthority) (enabled : Bool) (threshold : UInt32) :
    (a.configureErasure enabled threshold).1.lockedUntil = a.lockedUntil ∧
      (a.configureErasure enabled threshold).1.invalidAttempts = a.invalidAttempts := by
  unfold configureErasure
  split_ifs <;> exact ⟨rfl, rfl⟩

/-- Short of a granted guess or a restart a lock is only extended. -/
theorem lock_step (hOp : op.Sensible) (hNot : ¬(d.authority.Guess op ∧ d.authority.Grants op))
    (hRestart : ∀ erasure presence, op ≠ .restart erasure presence) :
    d.authority.lockedUntil ≤ (d.step op).1.authority.lockedUntil := by
  cases op with
  | submit => exact lock_submit hOp hNot
  | configureErasure enabled threshold =>
    exact UInt64.le_of_eq (configureErasure_keeps d.authority enabled threshold).1.symm
  | noteEnrollment => exact UInt64.le_refl _
  | restart erasure presence => exact absurd rfl (hRestart erasure presence)
  | reload presence => exact UInt64.le_of_eq (restore_keeps d.authority presence).1.symm

/-- A wrong credential that is granted has been evaluated. -/
theorem guess_of_grants (h : a.Grants (.submit now .invalid tag)) :
    a.Guess (.submit now .invalid tag) := by
  obtain ⟨outcome, hReply, hGranted⟩ := h
  have hOk : (a.submit now .invalid tag).2 = .ok outcome := UnlockReply.submitted.inj hReply
  have hAns := a.submit_answer now .invalid tag
  generalize a.submit now .invalid tag = done at hAns hOk
  cases hAns with
  | refused => cases hOk
  | locked =>
    cases hOk
    cases hGranted
  | threshold hRead | mistaken hRead => exact ⟨now, tag, rfl, hRead⟩
  | iterated _ hClass | accepted _ hClass => exact absurd rfl hClass

theorem Synced.stepSafe (h : d.Synced) (hOp : op.Sensible) : d.StepSafe op where
  granted := by
    intro now tag hSubmit hGrants
    subst hSubmit
    have hGuess := guess_of_grants hGrants
    have hReached := hGuess.grants_iff.1.mp hGrants
    cases hPresent : d.present with
    | false => exact .inr rfl
    | true => exact .inl (issues_of_reaches hGuess hReached (by rw [h.destroyed, hPresent]; rfl))
  duress := by
    intro now tag hSubmit hRead hPresent
    subst hSubmit
    exact issues_of_duress hRead (by rw [h.destroyed, hPresent]; rfl)
  during := by
    intro now c tag hSubmit hLock
    subst hSubmit
    exact step_during_lock hLock
  lock := lock_step hOp

/-- Between two directives of a run the domain is reported present. -/
def IssuedOnce (d : Device) (ops : List UnlockOp) : Prop :=
  ∀ before first between second rest, ops = before ++ first :: (between ++ second :: rest) →
    (after step d before).Issues first →
    (after step d (before ++ first :: between)).Issues second →
    ∃ op ∈ between, op.ReportsPresent

/-- A domain that is gone stays gone until it is reported present. -/
theorem absent_step (h : d.present = false) (hNot : ¬op.ReportsPresent) :
    (d.step op).1.present = false := by
  cases op with
  | submit now c tag =>
    show presentAfter d.present (.submit now c tag) (d.step (.submit now c tag)).2 = false
    rw [h, reply_submit]
    cases (d.authority.submit now c tag).2 <;> rfl
  | configureErasure | noteEnrollment => exact h
  | restart erasure presence =>
    show (presence == .present) = false
    rw [beq_eq_false_iff_ne]
    intro hPresent
    exact hNot (.inl ⟨erasure, by rw [hPresent]⟩)
  | reload presence =>
    show (presence == .present) = false
    rw [beq_eq_false_iff_ne]
    intro hPresent
    exact hNot (.inr (by rw [hPresent]))

theorem issuedOnce (erasure : PlatformErasure) (h : ∀ op ∈ ops, op.Sensible) :
    IssuedOnce (start erasure) ops := by
  intro before first between second rest hOps hFirst hSnd
  by_contra hNone
  subst hOps
  have hBefore := synced_prefix erasure h (prefix_append before _)
  have hMiddle : (after step (start erasure) (before ++ first :: between)).Synced :=
    synced_prefix erasure h (by simp)
  have hGone : Run.Always step (fun d => d.present = false)
      ((after step (start erasure) before).step first).1 between :=
    always_of_step (C := fun _ op => ¬op.ReportsPresent) (hFirst.present hBefore).2
      (fun _ _ hAbsent hNot => absent_step hAbsent hNot)
      (fun _ op hAt hReports => hNone ⟨op, mem_of_getElem? hAt, hReports⟩)
  have hPresent := (hSnd.present hMiddle).1
  rw [after_append] at hPresent
  exact absurd (hGone.final.symm.trans hPresent) (by decide)

instance (a : UnlockAuthority) : (op : UnlockOp) → Decidable (a.Guess op)
  | .submit now c tag =>
    decidable_of_iff (c = .invalid ∧ a.Evaluates now c tag) ⟨
      fun h => ⟨now, tag, by rw [h.1], h.1 ▸ h.2⟩,
      fun ⟨_, _, hOp, hRead⟩ => by cases hOp; exact ⟨rfl, hRead⟩⟩
  | .configureErasure _ _ => isFalse fun ⟨_, _, hOp, _⟩ => nomatch hOp
  | .noteEnrollment => isFalse fun ⟨_, _, hOp, _⟩ => nomatch hOp
  | .restart _ _ => isFalse fun ⟨_, _, hOp, _⟩ => nomatch hOp
  | .reload _ => isFalse fun ⟨_, _, hOp, _⟩ => nomatch hOp

/-- How many of the operations are guesses. -/
def guesses (d : Device) : List UnlockOp → Nat
  | [] => 0
  | op :: rest => (if d.authority.Guess op then 1 else 0) + guesses (d.step op).1 rest

/-- After a stretch with the domain present in which nothing but guesses is
evaluated, the guess that brings their number to the threshold in force is
answered with the directive. Restarts may stand anywhere in the stretch. -/
def ThresholdIssues (d : Device) (ops : List UnlockOp) : Prop :=
  ∀ before stretch last rest, ops = before ++ (stretch ++ last :: rest) →
    Run.Always step (fun d => d.present = true) (after step d before) stretch →
    Run.EachStep step (fun d op => d.Evaluated op → d.authority.Guess op)
      (after step d before) stretch →
    (after step d (before ++ stretch)).authority.Guess last →
    (after step d (before ++ stretch)).authority.erasureEnabled = true →
    (after step d (before ++ stretch)).authority.erasureThreshold.toNat ≤
      guesses (after step d before) stretch + 1 →
    (after step d (before ++ stretch)).Issues last

theorem toNat_counted (attempts : UInt32) :
    (counted attempts).toNat =
      if attempts.toNat < maximumCountedAttempts.toNat then attempts.toNat + 1
      else attempts.toNat := by
  have hCap : maximumCountedAttempts.toNat = 1024 := rfl
  unfold counted
  by_cases h : attempts < maximumCountedAttempts
  · have hNat := lt_iff_toNat_lt.mp h
    rw [if_pos h, if_pos hNat, UInt32.toNat_add, UInt32.toNat_one, Nat.mod_eq_of_lt (by omega)]
  · rw [if_neg h, if_neg (mt UInt32.lt_iff_toNat_lt.mpr h)]

/-- The count keeps up with the guesses, as far as it goes. -/
theorem attempts_submit (hReached : a.Guess (.submit now c tag) → ¬a.ReachesThreshold)
    (hOnly : a.Evaluates now c tag → a.Guess (.submit now c tag)) :
    min maximumCountedAttempts.toNat
        (a.invalidAttempts.toNat + if a.Guess (.submit now c tag) then 1 else 0) ≤
      (a.submit now c tag).1.invalidAttempts.toNat := by
  have hUnread : ¬a.Evaluates now c tag → ¬a.Guess (.submit now c tag) := by
    rintro hNot ⟨_, _, hOp, hRead⟩
    cases hOp
    exact hNot hRead
  have hAns := a.submit_answer now c tag
  generalize a.submit now c tag = done at hAns
  cases hAns with
  | refused e hNot =>
    rw [if_neg (hUnread fun hRead => hNot ⟨hRead.1, hRead.2.1⟩)]
    exact Nat.min_le_right _ _
  | locked _ _ hLock =>
    rw [if_neg (hUnread fun hRead => absurd hLock (UInt64.not_lt.mpr hRead.2.2))]
    exact Nat.min_le_right _ _
  | threshold hRead _ hThere => exact absurd hThere (hReached (hOnly hRead))
  | mistaken hRead =>
    rw [toNat_counted]
    split_ifs <;> omega
  | iterated hRead hClass | accepted hRead hClass =>
    obtain ⟨_, _, hOp, _⟩ := hOnly hRead
    cases hOp
    exact absurd rfl hClass

/-- The count keeps up with the operation, as far as it goes. -/
def Counts (d : Device) (op : UnlockOp) : Prop :=
  min maximumCountedAttempts.toNat
      (d.authority.invalidAttempts.toNat + if d.authority.Guess op then 1 else 0) ≤
    (d.step op).1.authority.invalidAttempts.toNat

/-- Nothing but guesses short of the threshold in force is evaluated. -/
def OnlyGuesses (d : Device) (op : UnlockOp) : Prop :=
  d.Evaluated op → d.authority.Guess op ∧ ¬d.authority.ReachesThreshold

theorem counts_of_same (hNot : ¬d.authority.Guess op)
    (hSame : (d.step op).1.authority.invalidAttempts = d.authority.invalidAttempts) :
    d.Counts op := by
  rw [Counts, if_neg hNot, hSame]
  exact Nat.min_le_right _ _

theorem counts_step (hOp : ∀ erasure presence, op ≠ .restart erasure presence)
    (hOnly : d.OnlyGuesses op) : d.Counts op := by
  cases op with
  | submit now c tag =>
    refine attempts_submit ?_ fun hRead => (hOnly ⟨now, c, tag, rfl, hRead⟩).1
    rintro ⟨_, _, hSubmit, hRead⟩
    cases hSubmit
    exact (hOnly ⟨_, _, _, rfl, hRead⟩).2
  | configureErasure enabled threshold =>
    exact counts_of_same (fun ⟨_, _, hSubmit, _⟩ => nomatch hSubmit)
      (configureErasure_keeps d.authority enabled threshold).2
  | noteEnrollment => exact counts_of_same (fun ⟨_, _, hSubmit, _⟩ => nomatch hSubmit) rfl
  | restart => exact absurd rfl (hOp _ _)
  | reload presence =>
    exact counts_of_same (fun ⟨_, _, hSubmit, _⟩ => nomatch hSubmit)
      (restore_keeps d.authority presence).2

/-- With the domain present before and after, a guess has not reached the
threshold. -/
theorem counts_present (h : d.Synced) (hOp : op.Sensible) (hBefore : d.present = true)
    (hAfter : (d.step op).1.present = true) (hOnly : d.Evaluated op → d.authority.Guess op) :
    d.Counts op := by
  by_cases hRestart : ∃ erasure presence, op = .restart erasure presence
  · obtain ⟨erasure, presence, rfl⟩ := hRestart
    refine counts_of_same (fun ⟨_, _, hSubmit, _⟩ => nomatch hSubmit) ?_
    show ((create erasure).restore d.authority.persistedState presence).1.invalidAttempts = _
    rw [restore_persisted h.configured, if_neg hOp]
    rfl
  · refine counts_step (fun erasure presence hSame => hRestart ⟨erasure, presence, hSame⟩) ?_
    refine fun hRead => ⟨hOnly hRead, fun hReached => ?_⟩
    have hIssues := issues_of_reaches (hOnly hRead) hReached (by rw [h.destroyed, hBefore]; rfl)
    rw [(hIssues.present h).2] at hAfter
    cases hAfter

/-- The count after a stretch that it keeps up with. -/
theorem guesses_le_attempts {stretch : List UnlockOp} (h : Run.EachStep step Counts d stretch) :
    min maximumCountedAttempts.toNat (d.authority.invalidAttempts.toNat + guesses d stretch) ≤
      (after step d stretch).authority.invalidAttempts.toNat := by
  induction stretch generalizing d with
  | nil => exact Nat.min_le_right _ _
  | cons op rest ih =>
    have hFirst : d.Counts op := h 0 op rfl
    have hRest := ih (d := (d.step op).1) fun n => h (n + 1)
    unfold Counts at hFirst
    show min _ (_ + (_ + guesses (d.step op).1 rest)) ≤
      (after step (d.step op).1 rest).authority.invalidAttempts.toNat
    omega

theorem thresholdIssues (erasure : PlatformErasure) (h : ∀ op ∈ ops, op.Sensible) :
    ThresholdIssues (start erasure) ops := by
  intro before stretch last rest hOps hPresent hOnly hGuess hEnabled hCnt
  subst hOps
  have hBefore := synced_prefix erasure h (prefix_append before _)
  have hThere : (after step (start erasure) (before ++ stretch)).Synced :=
    synced_prefix erasure h (by simp)
  have hSynced : Run.Always step Synced (after step (start erasure) before) stretch :=
    always_of_step (C := fun _ op => op.Sensible) hBefore (fun _ _ hd hOp => hd.step hOp)
      fun _ op hAt => h op (by simp [mem_of_getElem? hAt])
  have hAttempts := guesses_le_attempts fun n op hAt =>
    counts_present (hSynced n) (h op (by simp [mem_of_getElem? hAt])) (hPresent n)
      (after_take_succ hAt ▸ hPresent (n + 1)) (hOnly n op hAt)
  have hStill := hPresent.final
  rw [← after_append] at hAttempts hStill
  have hBounds := (hThere.configured hEnabled).2
  have hHigh : (after step (start erasure) (before ++ stretch)).authority.erasureThreshold.toNat ≤
      maximumErasureThreshold.toNat := by
    unfold thresholdInBounds at hBounds
    simp only [Bool.not_eq_true', Bool.or_eq_false_iff, decide_eq_false_iff_not,
      UInt32.not_lt] at hBounds
    exact UInt32.le_iff_toNat_le.mp hBounds.2
  refine issues_of_reaches hGuess ⟨hEnabled, ?_⟩ (by rw [hThere.destroyed, hStill]; rfl)
  have hCap : maximumCountedAttempts.toNat = 1024 := rfl
  have hMost : maximumErasureThreshold.toNat = 20 := rfl
  rw [UInt32.le_iff_toNat_le, toNat_counted]
  split_ifs <;> omega

/-- The lock after `n` invalid attempts in a row, by its doubling law. -/
def lockAfter (n : Nat) : Nat :=
  min (initialBackoffNanoseconds.toNat * 2 ^ (n - attemptsBeforeBackoff.toNat))
    maximumBackoffNanoseconds.toNat

theorem lockAfter_mono {m n : Nat} (h : m ≤ n) : lockAfter m ≤ lockAfter n :=
  min_le_min_right _ (Nat.mul_le_mul_left _ (Nat.pow_le_pow_right two_pos (by omega)))

theorem toNat_backoffFor {attempts : UInt32} (h : attemptsBeforeBackoff ≤ attempts) :
    (backoffFor attempts).toNat = lockAfter attempts.toNat := by
  rw [backoffFor, if_neg (UInt32.not_lt.mpr h), toNat_doubled _ (by decide),
    UInt32.toNat_sub_of_le _ _ h]
  rfl

theorem backoffFor_mono {fewer more : UInt32} (h : fewer ≤ more) :
    backoffFor fewer ≤ backoffFor more := by
  by_cases hFew : fewer < attemptsBeforeBackoff
  · rw [backoffFor, if_pos hFew]
    exact UInt64.zero_le
  · have hMany := UInt32.le_trans (UInt32.not_lt.mp hFew) h
    rw [UInt64.le_iff_toNat_le, toNat_backoffFor (UInt32.not_lt.mp hFew), toNat_backoffFor hMany]
    exact lockAfter_mono (UInt32.le_iff_toNat_le.mp h)

/-- The turns the doubling loop takes before it returns. -/
def turns : Nat → UInt64 → Nat
  | 0, _ => 0
  | steps + 1, backoff =>
    if maximumBackoffNanoseconds / 2 ≤ backoff then 1 else turns steps (backoff * 2) + 1

theorem turns_le (steps : Nat) : turns steps initialBackoffNanoseconds ≤ 7 := by
  by_cases h : steps < 7
  · interval_cases steps <;> decide
  · obtain ⟨more, rfl⟩ := Nat.exists_eq_add_of_le (Nat.not_lt.mp h)
    rw [Nat.add_comm]
    exact Nat.le_of_eq rfl

/-- In a block of guesses of a run, the time from one guess to the next, with
nothing evaluated between them. -/
def Spaced (d : Device) (ops : List UnlockOp) : Prop :=
  ∀ before stretch now tag between now' tag' rest,
    ops = before ++ (stretch ++ .submit now .invalid tag ::
      (between ++ .submit now' .invalid tag' :: rest)) →
    Run.EachStep step OnlyGuesses (after step d before) (stretch ++ [.submit now .invalid tag]) →
    (after step d (before ++ stretch)).authority.Guess (.submit now .invalid tag) →
    Run.EachStep step (fun d op => ¬d.Evaluated op)
      (after step d (before ++ (stretch ++ [.submit now .invalid tag]))) between →
    (after step d (before ++ (stretch ++ [.submit now .invalid tag]) ++ between)).authority.Guess
      (.submit now' .invalid tag') →
    attemptsBeforeBackoff.toNat ≤
      guesses (after step d before) (stretch ++ [.submit now .invalid tag]) →
    now.toNat + lockAfter (guesses (after step d before) (stretch ++ [.submit now .invalid tag])) ≤
      now'.toNat

theorem evaluated_of_guess (h : d.authority.Guess op) : d.Evaluated op := by
  obtain ⟨now, tag, hSubmit, hRead⟩ := h
  exact ⟨now, .invalid, tag, hSubmit, hRead⟩

/-- Whatever is not evaluated leaves the lock as it is. -/
theorem lock_unread (hOp : op.Timely) (hUnread : ¬d.Evaluated op) :
    (d.step op).1.authority.lockedUntil = d.authority.lockedUntil := by
  cases op with
  | submit now c tag =>
    rw [authority_submit]
    have hNot : ¬d.authority.Evaluates now c tag := fun h => hUnread ⟨now, c, tag, rfl, h⟩
    have hAns := d.authority.submit_answer now c tag
    generalize d.authority.submit now c tag = done at hAns
    cases hAns with
    | refused => rfl
    | locked => rfl
    | threshold h => exact absurd h hNot
    | mistaken h => exact absurd h hNot
    | iterated h => exact absurd h hNot
    | accepted h => exact absurd h hNot
  | configureErasure enabled threshold =>
    exact (configureErasure_keeps d.authority enabled threshold).1
  | noteEnrollment => rfl
  | restart => exact hOp.elim
  | reload presence => exact (restore_keeps d.authority presence).1

/-- A guess short of the threshold sets the lock its count calls for. -/
theorem lock_guess (h : d.authority.Guess (.submit now .invalid tag))
    (hShort : ¬d.authority.ReachesThreshold) :
    (d.step (.submit now .invalid tag)).1.authority.invalidAttempts =
        counted d.authority.invalidAttempts ∧
      (d.step (.submit now .invalid tag)).1.authority.lockedUntil = d.authority.nextLock now := by
  obtain ⟨_, _, hSubmit, hRead⟩ := h
  cases hSubmit
  rw [authority_submit]
  have hAns := d.authority.submit_answer now .invalid tag
  generalize d.authority.submit now .invalid tag = done at hAns
  cases hAns with
  | refused e hNot => exact absurd ⟨hRead.1, hRead.2.1⟩ hNot
  | locked _ _ hLock => exact absurd hLock (UInt64.not_lt.mpr hRead.2.2)
  | threshold _ _ hReached => exact absurd hReached hShort
  | mistaken => exact ⟨rfl, rfl⟩
  | iterated _ hClass | accepted _ hClass => exact absurd rfl hClass

theorem lockAfter_saturates (n : Nat) :
    lockAfter n ≤ lockAfter (min maximumCountedAttempts.toNat n) := by
  rcases Nat.le_total n maximumCountedAttempts.toNat with h | h
  · rw [Nat.min_eq_right h]
  · rw [Nat.min_eq_left h]
    have hFull : maximumBackoffNanoseconds.toNat ≤ lockAfter 12 := by decide
    exact (Nat.min_le_right _ _).trans (hFull.trans (lockAfter_mono (by decide)))

/-- The lock a guess sets is no shorter than the number of guesses asks for. -/
theorem nextLock_ge {n : Nat} (hTimes : now.toNat + maximumBackoffNanoseconds.toNat < 2 ^ 64)
    (hEnough : attemptsBeforeBackoff.toNat ≤ n)
    (hCnt : min maximumCountedAttempts.toNat n ≤ (counted a.invalidAttempts).toNat) :
    now.toNat + lockAfter n ≤ (a.nextLock now).toNat := by
  have hFew : attemptsBeforeBackoff.toNat = 5 := rfl
  have hCap : maximumCountedAttempts.toNat = 1024 := rfl
  have hLen : (backoffFor (counted a.invalidAttempts)).toNat =
      lockAfter (counted a.invalidAttempts).toNat :=
    toNat_backoffFor (UInt32.le_iff_toNat_le.mpr (by omega))
  have hLong : lockAfter n ≤ (backoffFor (counted a.invalidAttempts)).toNat := by
    rw [hLen]
    exact (lockAfter_saturates n).trans (lockAfter_mono hCnt)
  have hSome : 0 < lockAfter n := by
    have hLeast : 0 < lockAfter attemptsBeforeBackoff.toNat := by decide
    exact Nat.lt_of_lt_of_le hLeast (lockAfter_mono hEnough)
  have hLocks : backoffFor (counted a.invalidAttempts) ≠ 0 := by
    intro hNone
    rw [hNone, UInt64.toNat_zero] at hLong
    omega
  rw [nextLock, if_pos hLocks, toNat_lock hTimes (backoffFor_le _)]
  omega

theorem spaced (d : Device) (h : ∀ op ∈ ops, op.Timely) : d.Spaced ops := by
  intro before stretch now tag between now' tag' rest hOps hOnly hGuess hQuiet hNext hEnough
  subst hOps
  have hCnt := guesses_le_attempts fun n op hAt => counts_step (fun _ _ hRestart => by
    have hTimely : op.Timely := h op (by
      have hMem := mem_of_getElem? hAt
      simp only [mem_append, mem_cons, not_mem_nil, or_false] at hMem ⊢
      tauto)
    rwa [hRestart] at hTimely) (hOnly n op hAt)
  have hShort := hOnly stretch.length (.submit now .invalid tag) (by simp)
  rw [take_left' rfl, ← after_append] at hShort
  obtain ⟨hCounted, hLock⟩ := lock_guess hGuess (hShort (evaluated_of_guess hGuess)).2
  have hStill : Run.Always step (fun d' => d'.authority.lockedUntil =
      (after step d (before ++ (stretch ++ [.submit now .invalid tag]))).authority.lockedUntil)
      (after step d (before ++ (stretch ++ [.submit now .invalid tag]))) between :=
    always_of_step (C := fun d op => op.Timely ∧ ¬d.Evaluated op) rfl
      (fun _ _ hSame hOp => (lock_unread hOp.1 hOp.2).trans hSame)
      (fun n op hAt => ⟨h op (by simp [mem_of_getElem? hAt]), hQuiet n op hAt⟩)
  obtain ⟨_, _, hSubmit, hRead⟩ := hNext
  cases hSubmit
  have hOver := UInt64.le_iff_toNat_le.mp hRead.2.2
  have hFirst : after step d (before ++ (stretch ++ [.submit now .invalid tag])) =
      ((after step d (before ++ stretch)).step (.submit now .invalid tag)).1 := by
    rw [← append_assoc, after_append]
    rfl
  rw [after_append, hStill.final, hFirst, hLock] at hOver
  rw [← after_append, hFirst, hCounted] at hCnt
  exact (nextLock_ge (h (.submit now .invalid tag) (by simp)) hEnough (by omega)).trans hOver

/-- The rate at which guesses can be made. -/
structure GuessRate (d : Device) : Prop where
  spaced : ∀ ops, (∀ op ∈ ops, op.Timely) → d.Spaced ops
  exactly : ∀ attempts, attemptsBeforeBackoff ≤ attempts →
    (backoffFor attempts).toNat = lockAfter attempts.toNat
  monotone : ∀ fewer more, fewer ≤ more → backoffFor fewer ≤ backoffFor more
  bounded : ∀ steps, turns steps initialBackoffNanoseconds ≤ 7
  /-- An attempt during a lock is no guess and leaves the count. -/
  during : ∀ now c tag, now < d.authority.lockedUntil → ¬d.authority.Guess (.submit now c tag) ∧
      (d.step (.submit now c tag)).1.authority.invalidAttempts = d.authority.invalidAttempts

/-- From every state of the authority. -/
theorem guess_rate (d : Device) : d.GuessRate where
  spaced _ h := spaced d h
  exactly _ h := toNat_backoffFor h
  monotone _ _ h := backoffFor_mono h
  bounded := turns_le
  during := by
    intro now c tag h
    constructor
    · rintro ⟨_, _, hSubmit, hRead⟩
      cases hSubmit
      exact absurd h (UInt64.not_lt.mpr hRead.2.2)
    · obtain ⟨time, hAfter⟩ : ∃ time, (d.step (.submit now c tag)).1 = _ := step_during_lock h
      rw [hAfter]

/-- Five guesses, the last at time 5. -/
def fiveGuesses : List UnlockOp :=
  [.submit 1 .invalid 0, .submit 2 .invalid 0, .submit 3 .invalid 0, .submit 4 .invalid 0,
    .submit 5 .invalid 0]

theorem onlyGuesses_fiveGuesses :
    Run.EachStep step OnlyGuesses (start .effaceable) fiveGuesses := by
  intro n op hAt hRead
  have hn : n < 5 := (List.getElem?_eq_some_iff.mp hAt).1
  interval_cases n
  all_goals
    cases hAt
    decide

/-- The sixth guess, after one the lock turned away. -/
theorem sixth_guess_waits :
    (after step (start .effaceable) (fiveGuesses ++ [.submit 6 .invalid 0])).authority.Guess
        (.submit 30000000005 .invalid 0) ∧ 5 + lockAfter 5 ≤ 30000000005 := by
  have hQuiet : Run.EachStep step (fun d op => ¬d.Evaluated op)
      (after step (start .effaceable) fiveGuesses) [.submit 6 .invalid 0] := by
    intro n op hAt
    cases n with
    | succ n => cases hAt
    | zero =>
      cases hAt
      rintro ⟨_, _, _, hOp, hRead⟩
      cases hOp
      revert hRead
      decide
  refine ⟨by decide, ?_⟩
  exact (guess_rate (start .effaceable)).spaced
    (fiveGuesses ++ [.submit 6 .invalid 0, .submit 30000000005 .invalid 0])
    (by simp [fiveGuesses, UnlockOp.Timely, maximumBackoffNanoseconds]) [] (fiveGuesses.take 4)
    5 0 [.submit 6 .invalid 0] 30000000005 0 [] rfl onlyGuesses_fiveGuesses (by decide) hQuiet
    (by decide) (by decide)

/-- Two valid attempts of a run with different credentials, the second inside the
window of the first and with neither an enrollment nor a restart between them:
the second one is answered `locked` and starts the lock. -/
def IterationLocks (d : Device) (ops : List UnlockOp) : Prop :=
  ∀ before now c tag between now' c' tag' rest,
    ops = before ++ .submit now c tag :: (between ++ .submit now' c' tag' :: rest) →
    c ≠ .invalid → c' ≠ .invalid → tag ≠ tag' →
    now'.toNat ≤ now.toNat + iterationWindowNanoseconds.toNat →
    .noteEnrollment ∉ between → (∀ erasure presence, .restart erasure presence ∉ between) →
    (after step d before).authority.Evaluates now c tag →
    (after step d (before ++ .submit now c tag :: between)).authority.Evaluates now' c' tag' →
    ∃ outcome, ((after step d (before ++ .submit now c tag :: between)).step
        (.submit now' c' tag')).2 = .submitted (.ok outcome) ∧ outcome.disposition = .locked ∧
      ((after step d (before ++ .submit now c tag :: between)).step
        (.submit now' c' tag')).1.authority.lockedUntil.toNat =
          now'.toNat + iterationLockNanoseconds.toNat

/-- The credential seen at `now` is still the last one, or nothing is evaluated
before its window is over. -/
def Marked (now : UInt64) (tag : CredentialTag) (a : UnlockAuthority) : Prop :=
  (a.haveValidHistory = true ∧ a.lastValidTag = tag ∧ now ≤ a.lastValidAt ∧
      a.lastValidAt ≤ a.lastSubmit) ∨
    now.toNat + iterationWindowNanoseconds.toNat < max a.lockedUntil.toNat a.lastSubmit.toNat

theorem Marked.of_same (h : Marked now tag a) (hSame : a.SameHistory b) : Marked now tag b := by
  rw [Marked, hSame.tag, hSame.at_eq, hSame.have_eq, hSame.locked, hSame.submit]
  exact h

/-- A later time moves the mark only forward, if the lock is not in the way. -/
theorem Marked.later (h : Marked now tag a) (hTime : a.lastSubmit ≤ time)
    (hSubmit : b.lastSubmit = time) (hLock : a.lockedUntil ≤ time ∨ b.lockedUntil = a.lockedUntil)
    (hHave : b.haveValidHistory = a.haveValidHistory) (hTag : b.lastValidTag = a.lastValidTag)
    (hAt : b.lastValidAt = a.lastValidAt) : Marked now tag b := by
  rw [Marked, hHave, hTag, hAt, hSubmit]
  rcases h with ⟨hHistory, hSame, hFrom, hTo⟩ | hOver
  · exact .inl ⟨hHistory, hSame, hFrom, UInt64.le_trans hTo hTime⟩
  right
  rw [UInt64.le_iff_toNat_le] at hTime
  rcases hLock with hLock | hLock
  · rw [UInt64.le_iff_toNat_le] at hLock
    omega
  · rw [hLock]
    omega

theorem toNat_elapsed {then' : UInt64} (h : then' ≤ now) :
    now - then' ≤ iterationWindowNanoseconds ↔
      now.toNat ≤ then'.toNat + iterationWindowNanoseconds.toNat := by
  rw [UInt64.le_iff_toNat_le, UInt64.toNat_sub_of_le _ _ h]
  omega

/-- A valid attempt is inside the window of the last one, or its own time is past
it. -/
theorem not_iterates (hHave : a.haveValidHistory = true) (hTime : a.lastValidAt ≤ now)
    (h : ¬a.Iterates now tag) :
    tag = a.lastValidTag ∨ a.lastValidAt.toNat + iterationWindowNanoseconds.toNat < now.toNat := by
  by_cases hTag : tag = a.lastValidTag
  · exact .inl hTag
  right
  by_contra hNear
  refine h ⟨?_, hTag⟩
  rw [withinWindow, hHave, Bool.true_and, decide_eq_true_eq, toNat_elapsed hTime]
  omega

theorem marked_valid (h : Marked now tag a) (hTime : a.lastSubmit ≤ time)
    (hLock : a.lockedUntil ≤ time) (hNot : ¬a.Iterates time tag')
    (hHave : b.haveValidHistory = true) (hTag : b.lastValidTag = tag')
    (hAt : b.lastValidAt = time) (hSubmit : b.lastSubmit = time) : Marked now tag b := by
  rw [UInt64.le_iff_toNat_le] at hLock
  rcases h with ⟨hHistory, hSame, hFrom, hTo⟩ | hOver
  · have hSince := UInt64.le_trans hTo hTime
    rcases not_iterates hHistory hSince hNot with hAgain | hPast
    · left
      rw [hAt, hSubmit]
      exact ⟨hHave, hTag.trans (hAgain.trans hSame), UInt64.le_trans hFrom hSince, UInt64.le_refl _⟩
    right
    rw [hSubmit]
    rw [UInt64.le_iff_toNat_le] at hFrom
    omega
  · right
    rw [hSubmit]
    rw [UInt64.le_iff_toNat_le] at hTime
    omega

theorem marked_submit (h : Marked now tag a)
    (hTimes : time.toNat + maximumBackoffNanoseconds.toNat < 2 ^ 64) :
    Marked now tag (a.submit time c tag').1 := by
  have hAns := a.submit_answer time c tag'
  generalize a.submit time c tag' = done at hAns
  cases hAns with
  | refused => exact h
  | locked _ hTime => exact h.later hTime rfl (.inr rfl) rfl rfl rfl
  | threshold hRead =>
    have hSame := a.sameHistory_afterDestruction
    exact h.later hRead.2.1 rfl (.inl hRead.2.2) hSame.have_eq hSame.tag hSame.at_eq
  | mistaken hRead => exact h.later hRead.2.1 rfl (.inl hRead.2.2) rfl rfl rfl
  | iterated hRead =>
    right
    rw [toNat_lock hTimes (by decide)]
    have hWindow : iterationWindowNanoseconds.toNat < iterationLockNanoseconds.toNat := by decide
    have hTime := le_iff_toNat_le.mp hRead.2.1
    have hLock := le_iff_toNat_le.mp hRead.2.2
    rcases h with ⟨-, -, hFrom, hTo⟩ | hOver
    · rw [UInt64.le_iff_toNat_le] at hFrom hTo
      omega
    · omega
  | accepted hRead _ hNot => exact marked_valid h hRead.2.1 hRead.2.2 hNot rfl rfl rfl rfl

theorem marked_step (hSynced : d.Synced) (h : Marked now tag d.authority)
    (hOp : op.Sensible) (hEnrollment : op ≠ .noteEnrollment)
    (hRestart : ∀ erasure presence, op ≠ .restart erasure presence) :
    Marked now tag (d.step op).1.authority := by
  cases op with
  | submit => exact marked_submit h hOp
  | configureErasure enabled threshold =>
    show Marked now tag (d.authority.configureErasure enabled threshold).1
    unfold configureErasure
    split_ifs <;> exact h.of_same ⟨rfl, rfl, rfl, rfl, rfl⟩
  | noteEnrollment => exact absurd rfl hEnrollment
  | restart erasure presence => exact absurd rfl (hRestart erasure presence)
  | reload presence =>
    show Marked now tag (d.authority.restore d.authority.persistedState presence).1
    rw [restore_persisted hSynced.configured, if_neg hOp]
    exact h.of_same ⟨rfl, rfl, rfl, rfl, rfl⟩

/-- A valid attempt leaves its own mark. -/
theorem marked_of_valid (h : a.Evaluates now c tag) (hClass : c ≠ .invalid) :
    Marked now tag (a.submit now c tag).1 := by
  have hAns := a.submit_answer now c tag
  generalize a.submit now c tag = done at hAns
  cases hAns with
  | refused e hNot => exact absurd ⟨h.1, h.2.1⟩ hNot
  | locked _ _ hLock => exact absurd hLock (UInt64.not_lt.mpr h.2.2)
  | threshold _ hInvalid | mistaken _ hInvalid => exact absurd hInvalid hClass
  | iterated | accepted => exact .inl ⟨rfl, rfl, UInt64.le_refl _, UInt64.le_refl _⟩

/-- A second credential inside the window of a mark. -/
theorem Marked.iterates (h : Marked now tag a) (hTime : a.lastSubmit ≤ time)
    (hLock : a.lockedUntil ≤ time)
    (hWindow : time.toNat ≤ now.toNat + iterationWindowNanoseconds.toNat) (hTag : tag ≠ tag') :
    a.Iterates time tag' := by
  rcases h with ⟨hHave, hSame, hFrom, hTo⟩ | hOver
  · by_contra hNot
    rcases not_iterates hHave (UInt64.le_trans hTo hTime) hNot with hAgain | hPast
    · exact hTag (hSame.symm.trans hAgain.symm)
    · rw [UInt64.le_iff_toNat_le] at hFrom
      omega
  · rw [UInt64.le_iff_toNat_le] at hTime hLock
    omega

theorem iterationLocks (erasure : PlatformErasure) (h : ∀ op ∈ ops, op.Sensible) :
    IterationLocks (start erasure) ops := by
  intro before now c tag between now' c' tag' rest hOps hClass hClass' hTags hWindow hEnrollment
    hRestart hFirst hSnd
  subst hOps
  have hBefore := synced_prefix erasure h (prefix_append before _)
  have hSensible : UnlockOp.Sensible (.submit now c tag) := h _ (by simp)
  have hSensible' : UnlockOp.Sensible (.submit now' c' tag') := h _ (by simp)
  have hRun : Run.Always step (fun d => d.Synced ∧ Marked now tag d.authority)
      ((after step (start erasure) before).step (.submit now c tag)).1 between := by
    refine always_of_step (C := fun _ op => op ∈ between)
      ⟨hBefore.step hSensible, marked_of_valid hFirst hClass⟩ ?_
      (fun _ op hAt => mem_of_getElem? hAt)
    rintro d op ⟨hSynced, hMarked⟩ hMem
    have hOp := h op (by simp [hMem])
    refine ⟨hSynced.step hOp, marked_step hSynced hMarked hOp ?_ ?_⟩
    · rintro rfl
      exact hEnrollment hMem
    · rintro erasure presence rfl
      exact hRestart erasure presence hMem
  have hMarked := hRun.final.2
  rw [after_append] at hSnd ⊢
  generalize hThere : after step (after step (start erasure) before)
    (.submit now c tag :: between) = there at hSnd ⊢
  replace hMarked : Marked now tag there.authority := by
    rw [← hThere]
    exact hMarked
  have hIterates := hMarked.iterates hSnd.2.1 hSnd.2.2 hWindow hTags
  rw [reply_submit, authority_submit]
  have hAns := there.authority.submit_answer now' c' tag'
  generalize there.authority.submit now' c' tag' = done at hAns
  cases hAns with
  | refused e hNot => exact absurd ⟨hSnd.1, hSnd.2.1⟩ hNot
  | locked _ _ hLock => exact absurd hLock (UInt64.not_lt.mpr hSnd.2.2)
  | threshold _ hInvalid | mistaken _ hInvalid => exact absurd hInvalid hClass'
  | iterated => exact ⟨_, rfl, rfl, toNat_lock hSensible' (by decide)⟩
  | accepted _ _ hNot => exact absurd hIterates hNot

/-- Over every history of sensible operations. -/
theorem unlock_safety (erasure : PlatformErasure) (ops : List UnlockOp)
    (h : ∀ op ∈ ops, op.Sensible) :
    Run.EachStep step StepSafe (start erasure) ops ∧ IssuedOnce (start erasure) ops ∧
      ThresholdIssues (start erasure) ops ∧ IterationLocks (start erasure) ops := by
  refine ⟨?_, issuedOnce erasure h, thresholdIssues erasure h, iterationLocks erasure h⟩
  intro n op hAt
  have hThere : (after step (start erasure) (ops.take n)).Synced :=
    synced_after erasure fun op' hMem => h op' (mem_of_mem_take hMem)
  exact hThere.stepSafe (h op (mem_of_getElem? hAt))

/-- Erasure on, two guesses, a restart that finds the domain, and the user's two
credentials one after the other. -/
def restartedRun : List UnlockOp :=
  [.configureErasure true 5, .submit 1 .invalid 0, .submit 2 .invalid 0,
    .restart .effaceable .present, .submit 3 .nominal 7, .submit 4 .duress 9]

/-- A run across a restart, with both credentials. -/
theorem restartedRun_safe :
    (∀ op ∈ restartedRun, op.Sensible) ∧
      Run.EachStep step StepSafe (start .effaceable) restartedRun ∧
      IssuedOnce (start .effaceable) restartedRun ∧
      ThresholdIssues (start .effaceable) restartedRun ∧
      IterationLocks (start .effaceable) restartedRun := by
  have hSensible : ∀ op ∈ restartedRun, op.Sensible := by
    simp [restartedRun, UnlockOp.Sensible, maximumBackoffNanoseconds]
  exact ⟨hSensible, unlock_safety .effaceable restartedRun hSensible⟩

end Device

end Enml.OsShell
