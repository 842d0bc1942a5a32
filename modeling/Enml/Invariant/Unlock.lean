import Enml.OsShell.Unlock

/-! What one call does to an unlock authority, branch by branch, and the facts
about its settings that every call keeps. -/
namespace Enml.OsShell.UnlockAuthority

open Enml.Core

/-- A class and a tag that `submit` interprets. -/
def WellFormed (c : CredentialClass) (tag : CredentialTag) : Prop :=
  c ≠ .unrecognised ∧ (c = .invalid ↔ tag = invalidCredentialTagValue)

/-- The attempt is well formed, in order, and not made during a lock. -/
def Evaluates (a : UnlockAuthority) (now : UInt64) (c : CredentialClass) (tag : CredentialTag) :
    Prop :=
  WellFormed c tag ∧ a.lastSubmit ≤ now ∧ a.lockedUntil ≤ now

/-- One more invalid attempt reaches the owner's threshold. -/
def ReachesThreshold (a : UnlockAuthority) : Prop :=
  a.erasureEnabled = true ∧ a.erasureThreshold ≤ counted a.invalidAttempts

instance (c : CredentialClass) (tag : CredentialTag) : Decidable (WellFormed c tag) :=
  inferInstanceAs (Decidable (_ ∧ _))

instance (a : UnlockAuthority) (now : UInt64) (c : CredentialClass) (tag : CredentialTag) :
    Decidable (a.Evaluates now c tag) :=
  inferInstanceAs (Decidable (_ ∧ _))

instance (a : UnlockAuthority) : Decidable a.ReachesThreshold := inferInstanceAs (Decidable (_ ∧ _))

/-- The error an attempt is refused with before anything is written. -/
def refusal (a : UnlockAuthority) (now : UInt64) (c : CredentialClass) (tag : CredentialTag) :
    Option Error :=
  if !validCredentialClass c then some (shellError Errors.invalidCredentialClass)
  else if (c != .invalid) == (tag == invalidCredentialTagValue) then
    some (shellError Errors.invalidCredentialTag)
  else if now < a.lastSubmit then some (shellError Errors.unlockTimeReversed)
  else none

/-- The authority once the time of the attempt has been taken down. -/
def seen (a : UnlockAuthority) (now : UInt64) : UnlockAuthority := { a with lastSubmit := now }

/-- The lock in force after an invalid attempt that is refused. -/
def nextLock (a : UnlockAuthority) (now : UInt64) : UInt64 :=
  if backoffFor (counted a.invalidAttempts) ≠ 0 then now + backoffFor (counted a.invalidAttempts)
  else a.lockedUntil

/-- The authority after a destruction, if there is still something to destroy. -/
def afterDestruction (a : UnlockAuthority) : UnlockAuthority :=
  if a.destroyed then a else a.forgetAfterDestruction

/-- A valid credential other than the last one, inside the window. -/
def Iterates (a : UnlockAuthority) (now : UInt64) (tag : CredentialTag) : Prop :=
  a.withinWindow now = true ∧ tag ≠ a.lastValidTag

instance (a : UnlockAuthority) (now : UInt64) (tag : CredentialTag) :
    Decidable (a.Iterates now tag) :=
  inferInstanceAs (Decidable (_ ∧ _))

/-- The history a valid credential leaves. -/
def remember (a : UnlockAuthority) (now : UInt64) (tag : CredentialTag) : UnlockAuthority :=
  { a with lastValidTag := tag, lastValidAt := now, haveValidHistory := true, invalidAttempts := 0 }

/-- A duress credential destroys first, whatever the attempt is answered. -/
def reacted (a : UnlockAuthority) (c : CredentialClass) : UnlockAuthority :=
  if c = .duress then a.afterDestruction else a

/-- The fields that neither a destruction nor a change of settings touches. -/
structure SameHistory (a b : UnlockAuthority) : Prop where
  tag : b.lastValidTag = a.lastValidTag
  at_eq : b.lastValidAt = a.lastValidAt
  have_eq : b.haveValidHistory = a.haveValidHistory
  locked : b.lockedUntil = a.lockedUntil
  submit : b.lastSubmit = a.lastSubmit

theorem sameHistory_afterDestruction (a : UnlockAuthority) : a.SameHistory a.afterDestruction := by
  unfold afterDestruction forgetAfterDestruction
  split_ifs <;> exact ⟨rfl, rfl, rfl, rfl, rfl⟩

theorem sameHistory_reacted (a : UnlockAuthority) (c : CredentialClass) :
    a.SameHistory (a.reacted c) := by
  unfold reacted
  split_ifs
  · exact a.sameHistory_afterDestruction
  · exact ⟨rfl, rfl, rfl, rfl, rfl⟩

theorem afterDestruction_submitted (a : UnlockAuthority) (now : UInt64) :
    (a.seen now).afterDestruction =
      a.afterDestruction.seen now := by
  unfold afterDestruction seen
  split_ifs <;> rfl

theorem reacted_submitted (a : UnlockAuthority) (now : UInt64) (c : CredentialClass) :
    (a.seen now).reacted c =
      (a.reacted c).seen now := by
  unfold reacted
  split_ifs
  · exact a.afterDestruction_submitted now
  · rfl

section Equations

variable {a : UnlockAuthority} {now : UInt64} {c : CredentialClass} {tag : CredentialTag}

theorem refusal_eq_none_iff :
    a.refusal now c tag = none ↔ WellFormed c tag ∧ a.lastSubmit ≤ now := by
  have hTag : (tag == invalidCredentialTagValue) = true ↔ tag = invalidCredentialTagValue :=
    beq_iff_eq
  unfold refusal WellFormed validCredentialClass
  cases hBlank : tag == invalidCredentialTagValue <;> rw [hBlank] at hTag <;>
    cases c <;> simp [← hTag]

theorem submit_of_refusal {e : Error} (h : a.refusal now c tag = some e) :
    a.submit now c tag = (a, .error e) := by
  unfold refusal at h
  unfold submit
  split_ifs at h ⊢ <;> simp_all

theorem submit_of_none (h : a.refusal now c tag = none) :
    a.submit now c tag =
      if now < a.lockedUntil then
        (a.seen now, .ok ⟨.locked, false, now + uniformUnlockNanoseconds,
          laterOf (now + uniformUnlockNanoseconds) a.lockedUntil⟩)
      else if c = .invalid then
        (((a.seen now).submitInvalid now (now + uniformUnlockNanoseconds)).1,
          .ok ((a.seen now).submitInvalid now (now + uniformUnlockNanoseconds)).2)
      else
        (((a.seen now).submitValid now (now + uniformUnlockNanoseconds) c tag).1,
          .ok ((a.seen now).submitValid now (now + uniformUnlockNanoseconds)
            c tag).2) := by
  unfold refusal at h
  unfold submit
  split_ifs at h with h₁ h₂ h₃
  rw [if_neg h₁, if_neg h₂, if_neg h₃]
  rfl

theorem submitInvalid_eq (a : UnlockAuthority) (now releaseAt : UInt64) :
    a.submitInvalid now releaseAt =
      if a.ReachesThreshold then
        ({ a.afterDestruction with lockedUntil := 0, invalidAttempts := 0 },
          ⟨.granted, !a.destroyed, releaseAt, releaseAt⟩)
      else
        ({ a with invalidAttempts := counted a.invalidAttempts, lockedUntil := a.nextLock now },
          ⟨.refused, false, releaseAt, laterOf releaseAt (a.nextLock now)⟩) := by
  unfold submitInvalid nextLock afterDestruction forgetAfterDestruction
  by_cases hReached : a.ReachesThreshold
  · have hAll : (a.erasureEnabled && decide (a.erasureThreshold ≤ counted a.invalidAttempts)) =
        true := by
      simpa [ReachesThreshold] using hReached
    rw [if_pos hReached]
    by_cases hBackoff : backoffFor (counted a.invalidAttempts) = 0 <;>
      cases hDestroyed : a.destroyed <;> simp_all
  · have hNot : (a.erasureEnabled && decide (a.erasureThreshold ≤ counted a.invalidAttempts)) =
        false := by
      simpa [ReachesThreshold] using hReached
    rw [if_neg hReached]
    by_cases hBackoff : backoffFor (counted a.invalidAttempts) = 0 <;> simp_all

theorem submitValid_eq (a : UnlockAuthority) (now releaseAt : UInt64) (c : CredentialClass)
    (tag : CredentialTag) :
    a.submitValid now releaseAt c tag =
      if a.Iterates now tag then
        ({ (a.reacted c).remember now tag with lockedUntil := now + iterationLockNanoseconds },
          ⟨.locked, c == .duress && !a.destroyed, releaseAt,
            laterOf releaseAt (now + iterationLockNanoseconds)⟩)
      else
        ((a.reacted c).remember now tag,
          ⟨.granted, c == .duress && !a.destroyed, releaseAt, releaseAt⟩) := by
  have hReacted : (if (c == .duress && !a.destroyed) = true then a.forgetAfterDestruction else a) =
      a.reacted c := by
    unfold reacted afterDestruction
    cases a.destroyed <;> by_cases hDuress : c = .duress <;> simp [hDuress]
  have hIterated : ((a.reacted c).withinWindow now && tag != (a.reacted c).lastValidTag) =
      decide (a.Iterates now tag) := by
    obtain ⟨hTag, hAt, hHave, -, -⟩ := a.sameHistory_reacted c
    rw [withinWindow, hTag, hAt, hHave, Bool.eq_iff_iff, Bool.and_eq_true, decide_eq_true_eq,
      bne_iff_ne]
    rfl
  unfold submitValid
  dsimp only
  rw [hReacted, hIterated]
  by_cases hIterates : a.Iterates now tag
  all_goals simp [hIterates, remember]

end Equations

/-- Everything `submit` can do. -/
inductive Answer (a : UnlockAuthority) (now : UInt64) (c : CredentialClass) (tag : CredentialTag) :
    UnlockAuthority × Result UnlockOutcome → Prop
  | refused (e : Error) (h : ¬(WellFormed c tag ∧ a.lastSubmit ≤ now)) :
      Answer a now c tag (a, .error e)
  | locked (hForm : WellFormed c tag) (hTime : a.lastSubmit ≤ now) (hLock : now < a.lockedUntil) :
      Answer a now c tag (a.seen now, .ok ⟨.locked, false, now + uniformUnlockNanoseconds,
          laterOf (now + uniformUnlockNanoseconds) a.lockedUntil⟩)
  | threshold (h : a.Evaluates now c tag) (hClass : c = .invalid) (hReached : a.ReachesThreshold) :
      Answer a now c tag
        ({ a.afterDestruction.seen now with lockedUntil := 0, invalidAttempts := 0 },
          .ok ⟨.granted, !a.destroyed, now + uniformUnlockNanoseconds,
            now + uniformUnlockNanoseconds⟩)
  | mistaken (h : a.Evaluates now c tag) (hClass : c = .invalid) (hNot : ¬a.ReachesThreshold) :
      Answer a now c tag
        ({ a.seen now with
            invalidAttempts := counted a.invalidAttempts
            lockedUntil := a.nextLock now },
          .ok ⟨.refused, false, now + uniformUnlockNanoseconds,
            laterOf (now + uniformUnlockNanoseconds) (a.nextLock now)⟩)
  | iterated (h : a.Evaluates now c tag) (hClass : c ≠ .invalid) (hIterates : a.Iterates now tag) :
      Answer a now c tag
        ({ ((a.reacted c).seen now).remember now tag with
            lockedUntil := now + iterationLockNanoseconds },
          .ok ⟨.locked, c == .duress && !a.destroyed, now + uniformUnlockNanoseconds,
            laterOf (now + uniformUnlockNanoseconds) (now + iterationLockNanoseconds)⟩)
  | accepted (h : a.Evaluates now c tag) (hClass : c ≠ .invalid) (hNot : ¬a.Iterates now tag) :
      Answer a now c tag
        (((a.reacted c).seen now).remember now tag,
          .ok ⟨.granted, c == .duress && !a.destroyed, now + uniformUnlockNanoseconds,
            now + uniformUnlockNanoseconds⟩)

theorem submit_answer (a : UnlockAuthority) (now : UInt64) (c : CredentialClass)
    (tag : CredentialTag) : Answer a now c tag (a.submit now c tag) := by
  cases hRefusal : a.refusal now c tag with
  | some e =>
    rw [submit_of_refusal hRefusal]
    refine .refused e fun hForm => ?_
    rw [refusal_eq_none_iff.mpr hForm] at hRefusal
    cases hRefusal
  | none =>
    obtain ⟨hForm, hTime⟩ := refusal_eq_none_iff.mp hRefusal
    rw [submit_of_none hRefusal]
    split_ifs with hLock hClass
    · exact .locked hForm hTime hLock
    · have hEvaluates : a.Evaluates now c tag := ⟨hForm, hTime, UInt64.not_lt.mp hLock⟩
      rw [submitInvalid_eq]
      by_cases hReached : a.ReachesThreshold
      · have hSame : (a.seen now).ReachesThreshold := hReached
        rw [if_pos hSame, afterDestruction_submitted]
        exact .threshold hEvaluates hClass hReached
      · have hSame : ¬(a.seen now).ReachesThreshold := hReached
        rw [if_neg hSame]
        exact .mistaken hEvaluates hClass hReached
    · have hEvaluates : a.Evaluates now c tag := ⟨hForm, hTime, UInt64.not_lt.mp hLock⟩
      rw [submitValid_eq, reacted_submitted]
      by_cases hIterates : a.Iterates now tag
      · have hSame : (a.seen now).Iterates now tag := hIterates
        rw [if_pos hSame]
        exact .iterated hEvaluates hClass hIterates
      · have hSame : ¬(a.seen now).Iterates now tag := hIterates
        rw [if_neg hSame]
        exact .accepted hEvaluates hClass hIterates

/-- The operation is an invalid attempt that is evaluated. -/
def Guess (a : UnlockAuthority) (op : UnlockOp) : Prop :=
  ∃ now tag, op = .submit now .invalid tag ∧ a.Evaluates now .invalid tag

/-- The attempt is answered `granted`. -/
def Grants (a : UnlockAuthority) (op : UnlockOp) : Prop :=
  ∃ outcome, (a.step op).2 = .submitted (.ok outcome) ∧ outcome.disposition = .granted

variable {a : UnlockAuthority}

/-- A guess is granted exactly if it reaches the threshold, and then the count
starts anew. -/
theorem Guess.grants_iff {op : UnlockOp} (h : a.Guess op) :
    (a.Grants op ↔ a.ReachesThreshold) ∧
      (a.Grants op → (a.step op).1.invalidAttempts = 0) := by
  obtain ⟨now, tag, rfl, hEvaluates⟩ := h
  have hStep : a.step (.submit now .invalid tag) =
      ((a.submit now .invalid tag).1, .submitted (a.submit now .invalid tag).2) := rfl
  have hAns := a.submit_answer now .invalid tag
  unfold Grants
  rw [hStep]
  generalize a.submit now .invalid tag = done at hAns
  cases hAns with
  | refused e hNot => exact absurd ⟨hEvaluates.1, hEvaluates.2.1⟩ hNot
  | locked _ _ hLock => exact absurd hLock (UInt64.not_lt.mpr hEvaluates.2.2)
  | threshold _ _ hReached => exact ⟨iff_of_true ⟨_, rfl, rfl⟩ hReached, fun _ => rfl⟩
  | mistaken _ _ hNot =>
    have hRefused : ∀ {attempted : UnlockAuthority} {outcome : UnlockOutcome},
        outcome.disposition = .refused →
        ¬∃ o, (attempted, UnlockReply.submitted (.ok outcome)).2 = .submitted (.ok o) ∧
          o.disposition = .granted := by
      rintro attempted outcome hShown ⟨o, hSame, hGranted⟩
      cases hSame
      rw [hShown] at hGranted
      cases hGranted
    exact ⟨iff_of_false (hRefused rfl) hNot, fun hGranted => absurd hGranted (hRefused rfl)⟩
  | iterated _ hClass | accepted _ hClass => exact absurd rfl hClass

/-- Erasure is on only by a choice, and with a threshold inside its bounds. -/
def Configured (a : UnlockAuthority) : Prop :=
  a.erasureEnabled = true → a.erasureChosen = true ∧ thresholdInBounds a.erasureThreshold = true

/-- The authority `b` with what the record of `a` carries over. -/
def carryOver (b a : UnlockAuthority) (presence : DomainPresence) : UnlockAuthority :=
  { b with
    invalidAttempts := a.invalidAttempts
    destroyed := presence == .absent
    erasureEnabled := a.erasureEnabled
    erasureChosen := a.erasureChosen
    erasureThreshold := a.erasureThreshold }

/-- A record the authority wrote itself is refused only for the presence it is
restored with. -/
theorem restore_persisted (h : a.Configured) (b : UnlockAuthority) (presence : DomainPresence) :
    b.restore a.persistedState presence =
      if presence = .unrecognised then (b, .error (shellError Errors.invalidDomainPresence))
      else (b.carryOver a presence, .ok ()) := by
  unfold restore validDomainPresence persistedState
  by_cases hPresence : presence = .unrecognised
  · simp [hPresence]
  cases hEnabled : a.erasureEnabled with
  | false => simp [hPresence, hEnabled, carryOver]
  | true =>
    obtain ⟨hChosen, hBounds⟩ := h hEnabled
    simp [hPresence, hEnabled, hChosen, hBounds, carryOver]

theorem configured_create (erasure : PlatformErasure) : (create erasure).Configured := by
  intro hEnabled
  cases hEnabled

theorem configured_afterDestruction (h : a.Configured) : a.afterDestruction.Configured := by
  unfold afterDestruction
  split_ifs
  · exact h
  · intro hEnabled
    cases hEnabled

theorem configured_reacted (h : a.Configured) (c : CredentialClass) : (a.reacted c).Configured := by
  unfold reacted
  split_ifs
  · exact configured_afterDestruction h
  · exact h

theorem configured_submit (h : a.Configured) (now : UInt64) (c : CredentialClass)
    (tag : CredentialTag) : (a.submit now c tag).1.Configured := by
  have hAns := a.submit_answer now c tag
  generalize a.submit now c tag = done at hAns
  cases hAns with
  | refused | locked => exact h
  | threshold => exact configured_afterDestruction h
  | mistaken => exact h
  | iterated | accepted => exact configured_reacted h c

theorem configured_carryOver (h : a.Configured) (b : UnlockAuthority)
    (presence : DomainPresence) : (b.carryOver a presence).Configured := h

theorem Configured.step (h : a.Configured) (op : UnlockOp) : (a.step op).1.Configured := by
  cases op with
  | submit now c tag => exact configured_submit h now c tag
  | configureErasure enabled threshold =>
    show (a.configureErasure enabled threshold).1.Configured
    unfold configureErasure
    split_ifs with hBad hEnabled
    · exact h
    · intro _
      refine ⟨rfl, ?_⟩
      simpa [hEnabled] using hBad
    · intro hOn
      exact absurd hOn hEnabled
  | noteEnrollment => exact h
  | restart erasure presence =>
    show ((create erasure).restore a.persistedState presence).1.Configured
    rw [restore_persisted h]
    split_ifs
    · exact configured_create erasure
    · exact configured_carryOver h _ presence
  | reload presence =>
    show (a.restore a.persistedState presence).1.Configured
    rw [restore_persisted h]
    split_ifs
    · exact h
    · exact configured_carryOver h _ presence

theorem configured_run (erasure : PlatformErasure) (ops : List UnlockOp) :
    Run.Always step Configured (create erasure) ops :=
  Run.always_of_invariant (configured_create erasure) fun _ op h => h.step op

end Enml.OsShell.UnlockAuthority
