import Enml.Invariant.Unlock

/-! Two runs of the unlock authority that differ only in which of the user's own
credentials are duress ones. What they show is the same until an invalid attempt
meets an erasure setting that a destruction has cleared in one of them. -/
namespace Enml.OsShell

open Enml.Core UnlockReply Run

namespace UnlockOp

/-- The same operation, up to the class of a valid credential. -/
inductive Twin : UnlockOp → UnlockOp → Prop
  | attempt (now : UInt64) (c : CredentialClass) (tag : CredentialTag) :
      Twin (.submit now c tag) (.submit now c tag)
  | reclassified (now : UInt64) {c c' : CredentialClass} (tag : CredentialTag)
      (h : c = .nominal ∨ c = .duress) (h' : c' = .nominal ∨ c' = .duress) :
      Twin (.submit now c tag) (.submit now c' tag)
  | configureErasure (enabled : Bool) (threshold : UInt32) :
      Twin (.configureErasure enabled threshold) (.configureErasure enabled threshold)
  | noteEnrollment : Twin .noteEnrollment .noteEnrollment

end UnlockOp

/-- What an onlooker gets from a reply: everything about an attempt but the
directive. -/
def UnlockReply.shown : UnlockReply → Option (Result (UnlockDisposition × UInt64 × UInt64))
  | .submitted result => some (result.map fun outcome =>
    (outcome.disposition, outcome.releaseAtNanoseconds, outcome.acceptingAgainAtNanoseconds))
  | .done _ => none

namespace UnlockAuthority

/-- Alike in everything but the domain and the erasure settings. -/
structure Alike (a b : UnlockAuthority) : Prop extends a.SameHistory b where
  attempts : b.invalidAttempts = a.invalidAttempts

theorem Alike.refl (a : UnlockAuthority) : a.Alike a := ⟨⟨rfl, rfl, rfl, rfl, rfl⟩, rfl⟩

/-- An invalid attempt that is evaluated reaches the threshold in both runs or
in neither. -/
def ThresholdsAgree (a b : UnlockAuthority) (op _op' : UnlockOp) : Prop :=
  ∀ now tag, op = .submit now .invalid tag → a.Evaluates now .invalid tag →
    (a.ReachesThreshold ↔ b.ReachesThreshold)

section Step

variable {a b : UnlockAuthority} {now : UInt64} {c c' : CredentialClass} {tag : CredentialTag}

theorem Alike.refusal_eq (h : a.Alike b) (hInvalid : c = .invalid ↔ c' = .invalid)
    (hKnown : c = .unrecognised ↔ c' = .unrecognised) :
    b.refusal now c' tag = a.refusal now c tag := by
  have hClass : (c' != .invalid) = (c != .invalid) := by
    rw [Bool.eq_iff_iff, bne_iff_ne, bne_iff_ne, ne_eq, ne_eq, hInvalid]
  have hValid : validCredentialClass c' = validCredentialClass c := by
    rw [Bool.eq_iff_iff, validCredentialClass, validCredentialClass, bne_iff_ne, bne_iff_ne, ne_eq,
      ne_eq, hKnown]
  rw [refusal, refusal, hClass, hValid, h.submit]

theorem Alike.iterates_iff (h : a.Alike b) : b.Iterates now tag ↔ a.Iterates now tag := by
  rw [Iterates, Iterates, withinWindow, withinWindow, h.tag, h.at_eq, h.have_eq]

theorem Alike.seen (h : a.Alike b) (now : UInt64) : (a.seen now).Alike (b.seen now) :=
  ⟨⟨h.tag, h.at_eq, h.have_eq, h.locked, rfl⟩, h.attempts⟩

/-- A valid credential is answered alike whatever its class, and leaves the two
authorities alike. -/
theorem Alike.submit_valid (h : a.Alike b) (hc : c = .nominal ∨ c = .duress)
    (hc' : c' = .nominal ∨ c' = .duress) :
    shown (.submitted (a.submit now c tag).2) = shown (.submitted (b.submit now c' tag).2) ∧
      (a.submit now c tag).1.Alike (b.submit now c' tag).1 := by
  have hNot : c ≠ .invalid := by rcases hc with rfl | rfl <;> decide
  have hNot' : c' ≠ .invalid := by rcases hc' with rfl | rfl <;> decide
  have hSame : b.refusal now c' tag = a.refusal now c tag :=
    h.refusal_eq (iff_of_false hNot hNot')
      (by rcases hc with rfl | rfl <;> rcases hc' with rfl | rfl <;> decide)
  cases hRefusal : a.refusal now c tag with
  | some =>
    rw [submit_of_refusal hRefusal, submit_of_refusal (hSame.trans hRefusal)]
    exact ⟨rfl, h⟩
  | none =>
    rw [submit_of_none hRefusal, submit_of_none (hSame.trans hRefusal), h.locked, if_neg hNot,
      if_neg hNot']
    split_ifs with hLock
    · exact ⟨rfl, h.seen now⟩
    have hLocked : (b.reacted c').lockedUntil = (a.reacted c).lockedUntil := by
      rw [(b.sameHistory_reacted c').locked, (a.sameHistory_reacted c).locked, h.locked]
    rw [submitValid_eq, submitValid_eq, reacted_submitted, reacted_submitted]
    by_cases hIterates : a.Iterates now tag
    · have hTwin : (b.seen now).Iterates now tag := h.iterates_iff.mpr hIterates
      have hSelf : (a.seen now).Iterates now tag := hIterates
      rw [if_pos hSelf, if_pos hTwin]
      exact ⟨rfl, ⟨rfl, rfl, rfl, rfl, rfl⟩, rfl⟩
    have hTwin : ¬(b.seen now).Iterates now tag := fun hb => hIterates (h.iterates_iff.mp hb)
    have hSelf : ¬(a.seen now).Iterates now tag := hIterates
    rw [if_neg hSelf, if_neg hTwin]
    exact ⟨rfl, ⟨rfl, rfl, rfl, hLocked, rfl⟩, rfl⟩

/-- An invalid attempt is answered alike exactly if the thresholds agree on it. -/
theorem Alike.submit_invalid (h : a.Alike b) :
    (shown (.submitted (a.submit now .invalid tag).2) =
        shown (.submitted (b.submit now .invalid tag).2) ↔
      (a.Evaluates now .invalid tag → (a.ReachesThreshold ↔ b.ReachesThreshold))) ∧
    ((a.Evaluates now .invalid tag → (a.ReachesThreshold ↔ b.ReachesThreshold)) →
      (a.submit now .invalid tag).1.Alike (b.submit now .invalid tag).1) := by
  have hSame : b.refusal now .invalid tag = a.refusal now .invalid tag :=
    h.refusal_eq Iff.rfl Iff.rfl
  cases hRefusal : a.refusal now .invalid tag with
  | some =>
    have hUnread : ¬a.Evaluates now .invalid tag := by
      intro hEvaluates
      rw [refusal_eq_none_iff.mpr ⟨hEvaluates.1, hEvaluates.2.1⟩] at hRefusal
      cases hRefusal
    rw [submit_of_refusal hRefusal, submit_of_refusal (hSame.trans hRefusal)]
    exact ⟨iff_of_true rfl fun hRead => absurd hRead hUnread, fun _ => h⟩
  | none =>
    obtain ⟨hForm, hTime⟩ := refusal_eq_none_iff.mp hRefusal
    rw [submit_of_none hRefusal, submit_of_none (hSame.trans hRefusal), h.locked, if_pos rfl,
      if_pos rfl]
    split_ifs with hLock
    · have hUnread : ¬a.Evaluates now .invalid tag := fun hRead =>
        absurd hLock (UInt64.not_lt.mpr hRead.2.2)
      exact ⟨iff_of_true rfl fun hRead => absurd hRead hUnread, fun _ => h.seen now⟩
    have hRead : a.Evaluates now .invalid tag := ⟨hForm, hTime, UInt64.not_lt.mp hLock⟩
    have hNext : b.nextLock now = a.nextLock now := by rw [nextLock, nextLock, h.attempts, h.locked]
    have hLockedA := (a.sameHistory_afterDestruction)
    have hLockedB := (b.sameHistory_afterDestruction)
    rw [submitInvalid_eq, submitInvalid_eq, afterDestruction_submitted,
      afterDestruction_submitted, imp_iff_right hRead]
    by_cases hA : (a.seen now).ReachesThreshold <;> by_cases hB : (b.seen now).ReachesThreshold
    · rw [if_pos hA, if_pos hB]
      refine ⟨iff_of_true rfl (iff_of_true hA hB), fun _ => ⟨⟨?_, ?_, ?_, rfl, rfl⟩, rfl⟩⟩
      · exact hLockedB.tag.trans (h.tag.trans hLockedA.tag.symm)
      · exact hLockedB.at_eq.trans (h.at_eq.trans hLockedA.at_eq.symm)
      · exact hLockedB.have_eq.trans (h.have_eq.trans hLockedA.have_eq.symm)
    · rw [if_pos hA, if_neg hB]
      refine ⟨iff_of_false ?_ (fun hSame => hB (hSame.mp hA)), fun hSame => absurd (hSame.mp hA) hB⟩
      intro hShown
      cases hShown
    · rw [if_neg hA, if_pos hB]
      refine ⟨iff_of_false ?_ (fun hSame => hA (hSame.mpr hB)), fun hSame =>
        absurd (hSame.mpr hB) hA⟩
      intro hShown
      cases hShown
    · rw [if_neg hA, if_neg hB]
      refine ⟨iff_of_true ?_ (iff_of_false hA hB),
        fun _ => ⟨⟨h.tag, h.at_eq, h.have_eq, hNext, rfl⟩, ?_⟩⟩
      · simp only [shown, Except.map]
        rw [show (b.seen now).nextLock now = b.nextLock now from rfl, hNext]
        rfl
      · show counted b.invalidAttempts = counted a.invalidAttempts
        rw [h.attempts]

end Step

variable {a b : UnlockAuthority} {now : UInt64} {tag : CredentialTag} {op' : UnlockOp}

theorem Alike.configureErasure (h : a.Alike b) (enabled : Bool) (threshold : UInt32) :
    (a.configureErasure enabled threshold).1.Alike (b.configureErasure enabled threshold).1 := by
  unfold UnlockAuthority.configureErasure
  split_ifs
  · exact h
  all_goals exact ⟨⟨h.tag, h.at_eq, h.have_eq, h.locked, h.submit⟩, h.attempts⟩

theorem thresholdsAgree_of_valid {c : CredentialClass} (h : c ≠ .invalid) :
    ThresholdsAgree a b (.submit now c tag) op' := by
  intro _ _ hOp
  cases hOp
  exact absurd rfl h

theorem thresholdsAgree_iff :
    ThresholdsAgree a b (.submit now .invalid tag) op' ↔
      (a.Evaluates now .invalid tag → (a.ReachesThreshold ↔ b.ReachesThreshold)) := by
  constructor
  · intro h
    exact h now tag rfl
  · intro h _ _ hOp
    cases hOp
    exact h

/-- One step of two runs that are alike so far. -/
theorem Alike.step {op : UnlockOp} (h : a.Alike b) (hTwin : op.Twin op') :
    ((a.step op).2.shown = (b.step op').2.shown ↔ ThresholdsAgree a b op op') ∧
      (ThresholdsAgree a b op op' → (a.step op).1.Alike (b.step op').1) := by
  have hValid : ∀ {now c c' tag}, (c = .nominal ∨ c = .duress) → (c' = .nominal ∨ c' = .duress) →
      ((a.step (.submit now c tag)).2.shown = (b.step (.submit now c' tag)).2.shown ↔
        ThresholdsAgree a b (.submit now c tag) (.submit now c' tag)) ∧
      (ThresholdsAgree a b (.submit now c tag) (.submit now c' tag) →
        (a.step (.submit now c tag)).1.Alike (b.step (.submit now c' tag)).1) := by
    intro now c c' tag hc hc'
    obtain ⟨hShown, hNext⟩ := h.submit_valid hc hc'
    have hNot : c ≠ .invalid := by rcases hc with rfl | rfl <;> decide
    exact ⟨iff_of_true hShown (thresholdsAgree_of_valid hNot), fun _ => hNext⟩
  cases hTwin with
  | attempt _ c =>
    cases c with
    | nominal => exact hValid (.inl rfl) (.inl rfl)
    | duress => exact hValid (.inr rfl) (.inr rfl)
    | invalid =>
      rw [thresholdsAgree_iff]
      exact h.submit_invalid
    | unrecognised => exact ⟨iff_of_true rfl (thresholdsAgree_of_valid (by decide)), fun _ => h⟩
  | reclassified _ _ hc hc' => exact hValid hc hc'
  | configureErasure enabled threshold =>
    exact ⟨iff_of_true rfl (fun _ _ hOp => nomatch hOp),
      fun _ => h.configureErasure enabled threshold⟩
  | noteEnrollment =>
    exact ⟨iff_of_true rfl (fun _ _ hOp => nomatch hOp),
      fun _ => ⟨⟨rfl, rfl, rfl, h.locked, h.submit⟩, h.attempts⟩⟩

/-- From one state, two runs that differ only in which valid credentials are
duress ones show the same at every attempt exactly if at every invalid attempt
that is evaluated the settings in force in the two runs agree on whether it
reaches the threshold. -/
theorem duress_unobservable_iff (a : UnlockAuthority) {ops ops' : List UnlockOp}
    (hTwins : List.Forall₂ UnlockOp.Twin ops ops') :
    (outputs step a ops).map shown = (outputs step a ops').map shown ↔
      Run.Paired step ThresholdsAgree a a ops ops' :=
  outputs_eq_iff_paired (fun _ _ _ _ h hTwin => (h.step hTwin).1)
    (fun _ _ _ _ h hTwin hAgree => (h.step hTwin).2 hAgree) (Alike.refl a) hTwins

/-- An owner with erasure on opens the device, and then five guesses are made. -/
def coercedRun (c : CredentialClass) : List UnlockOp :=
  [.configureErasure true 5, .submit 0 c 7, .submit 1 .invalid 0, .submit 2 .invalid 0,
    .submit 3 .invalid 0, .submit 4 .invalid 0, .submit 5 .invalid 0]

theorem coercedRun_twins : List.Forall₂ UnlockOp.Twin (coercedRun .nominal) (coercedRun .duress) :=
  .cons (.configureErasure true 5) (.cons (.reclassified 0 7 (.inl rfl) (.inr rfl))
    (.cons (.attempt ..) (.cons (.attempt ..) (.cons (.attempt ..) (.cons (.attempt ..)
      (.cons (.attempt ..) .nil))))))

/-- With the class of the second operation as the only difference the last guess
is granted in one run and refused in the other. -/
theorem coercedRun_distinguished :
    ¬∀ (a : UnlockAuthority) (ops ops' : List UnlockOp), List.Forall₂ UnlockOp.Twin ops ops' →
      (outputs step a ops).map shown =
        (outputs step a ops').map shown := by
  intro h
  have hSame := h {} _ _ coercedRun_twins
  revert hSame
  decide +kernel

/-- Without the setting the same guesses show nothing. -/
theorem duress_unobservable_off :
    (outputs step {} (coercedRun .nominal).tail).map shown =
      (outputs step {} (coercedRun .duress).tail).map shown := by
  refine (duress_unobservable_iff {} ?_).mpr ?_
  · obtain _ | ⟨_, hTail⟩ := coercedRun_twins
    exact hTail
  · refine ⟨?_, ?_, ?_, ?_, ?_, ?_, trivial⟩ <;>
      · intro _ _ _ _
        decide

/-- `later` is a guess that follows a granted guess of the run, with no change of
settings between them, and is made in the state `there`. -/
def FollowsGrant (a : UnlockAuthority) (ops : List UnlockOp) (there : UnlockAuthority)
    (later : UnlockOp) : Prop :=
  ∃ before first between rest, ops = before ++ first :: (between ++ later :: rest) ∧
    (after step a before).Guess first ∧ (after step a before).Grants first ∧
    (∀ enabled threshold, .configureErasure enabled threshold ∉ between) ∧
    there = after step a (before ++ first :: between) ∧ there.Guess later

/-- Every guess after a granted one is granted too, and starts no lock. -/
def KeepsPresenting (a : UnlockAuthority) (ops : List UnlockOp) : Prop :=
  ∀ there later, FollowsGrant a ops there later →
    there.Grants later ∧ (there.step later).1.lockedUntil ≤ there.lockedUntil

/-- The run goes on to another guess after one that reached the threshold, with
no change of settings between them. -/
def GuessesOn (a : UnlockAuthority) (ops : List UnlockOp) : Prop :=
  ∃ before first between later rest, ops = before ++ first :: (between ++ later :: rest) ∧
    (after step a before).Guess first ∧ (after step a before).ReachesThreshold ∧
    (∀ enabled threshold, .configureErasure enabled threshold ∉ between) ∧
    (after step a (before ++ first :: between)).Guess later

theorem guessesOn_iff {ops : List UnlockOp} :
    GuessesOn a ops ↔ ∃ there later, FollowsGrant a ops there later := by
  constructor
  · rintro ⟨before, first, between, later, rest, hOps, hGuess, hReached, hSettings, hLater⟩
    exact ⟨_, later, before, first, between, rest, hOps, hGuess, hGuess.grants_iff.1.mpr hReached,
      hSettings, rfl, hLater⟩
  · rintro ⟨_, later, before, first, between, rest, hOps, hGuess, hGranted, hSettings, rfl, hLater⟩
    exact ⟨before, first, between, later, rest, hOps, hGuess, hGuess.grants_iff.1.mp hGranted,
      hSettings, hLater⟩

theorem counted_zero : counted 0 = 1 := by decide

theorem not_reaches_of_zero (h : a.Configured) (hZero : a.invalidAttempts = 0) :
    ¬a.ReachesThreshold := by
  rintro ⟨hEnabled, hReached⟩
  have hBounds := (h hEnabled).2
  rw [hZero, counted_zero] at hReached
  have hLow : minimumErasureThreshold ≤ a.erasureThreshold := by
    unfold thresholdInBounds at hBounds
    simp only [Bool.not_eq_true', Bool.or_eq_false_iff, decide_eq_false_iff_not,
      UInt32.not_lt] at hBounds
    exact hBounds.1
  exact absurd (UInt32.le_trans hLow hReached) (by decide)

/-- Nothing but a guess raises the count. -/
theorem attempts_step (h : a.Configured) (hZero : a.invalidAttempts = 0) {op : UnlockOp}
    (hNot : ¬a.Guess op) : (a.step op).1.invalidAttempts = 0 := by
  cases op with
  | submit now c tag =>
    show (a.submit now c tag).1.invalidAttempts = 0
    have hAns := a.submit_answer now c tag
    generalize a.submit now c tag = done at hAns
    cases hAns with
    | refused => exact hZero
    | locked => exact hZero
    | threshold => rfl
    | mistaken hEvaluates hClass =>
      subst hClass
      exact absurd ⟨now, tag, rfl, hEvaluates⟩ hNot
    | iterated => rfl
    | accepted => rfl
  | configureErasure enabled threshold =>
    show (a.configureErasure enabled threshold).1.invalidAttempts = 0
    unfold configureErasure
    split_ifs <;> exact hZero
  | noteEnrollment => exact hZero
  | restart erasure presence =>
    show ((create erasure).restore a.persistedState presence).1.invalidAttempts = 0
    rw [restore_persisted h]
    split_ifs
    · rfl
    · exact hZero
  | reload presence =>
    show (a.restore a.persistedState presence).1.invalidAttempts = 0
    rw [restore_persisted h]
    split_ifs
    all_goals exact hZero

/-- The first guess of a stretch that starts with no failures. -/
theorem first_guess (h : a.Configured) (hZero : a.invalidAttempts = 0) {between : List UnlockOp}
    {later : UnlockOp} (hLater : (after step a between).Guess later) :
    ∃ front x, (after step a front).Guess x ∧ ¬(after step a front).Grants x ∧
      (front = between ∧ x = later ∨ ∃ back, between = front ++ x :: back) := by
  have hRefused : ∀ {op}, a.Guess op → ¬a.Grants op := fun hGuess hGranted =>
    not_reaches_of_zero h hZero (hGuess.grants_iff.1.mp hGranted)
  induction between generalizing a with
  | nil => exact ⟨[], later, hLater, hRefused hLater, .inl ⟨rfl, rfl⟩⟩
  | cons op between ih =>
    by_cases hGuess : a.Guess op
    · exact ⟨[], op, hGuess, hRefused hGuess, .inr ⟨between, rfl⟩⟩
    have hNext := attempts_step h hZero hGuess
    obtain ⟨front, x, hx, hNotGranted, hPlace⟩ := ih (h.step op) hNext hLater
      (fun hGuess hGranted =>
        not_reaches_of_zero (h.step op) hNext (hGuess.grants_iff.1.mp hGranted))
    refine ⟨op :: front, x, hx, hNotGranted, ?_⟩
    rcases hPlace with ⟨rfl, rfl⟩ | ⟨back, rfl⟩
    · exact .inl ⟨rfl, rfl⟩
    · exact .inr ⟨back, rfl⟩

/-- In every run a granted guess is followed by granted guesses only if it is
followed by none before the owner's next change of settings: the first one after
it is refused. -/
theorem keepsPresenting_iff (erasure : PlatformErasure) (ops : List UnlockOp) :
    KeepsPresenting (create erasure) ops ↔ ¬GuessesOn (create erasure) ops := by
  rw [guessesOn_iff, not_exists]
  simp only [not_exists]
  constructor
  · rintro hKeeps _ later
      ⟨before, first, between, rest, rfl, hGuess, hGranted, hSettings, rfl, hLater⟩
    have hConfigured : (after step (create erasure) before).Configured := by
      have hRun := configured_run erasure before
      exact hRun.final
    rw [after_append] at hLater
    obtain ⟨front, x, hx, hRefused, hPlace⟩ := first_guess (hConfigured.step first)
      (hGuess.grants_iff.2 hGranted) hLater
    have hThere : after step (create erasure) (before ++ first :: front) =
        after step ((after step (create erasure) before).step first).1 front :=
      after_append ..
    have hFollows : FollowsGrant (create erasure) (before ++ first :: (between ++ later :: rest))
        (after step ((after step (create erasure) before).step first).1 front) x := by
      rw [← hThere] at hx ⊢
      rcases hPlace with ⟨rfl, rfl⟩ | ⟨back, rfl⟩
      · exact ⟨before, first, front, rest, rfl, hGuess, hGranted, hSettings, rfl, hx⟩
      · refine ⟨before, first, front, back ++ later :: rest, by simp, hGuess, hGranted, ?_, rfl, hx⟩
        intro enabled threshold hMem
        exact hSettings enabled threshold (List.mem_append_left _ hMem)
    exact hRefused (hKeeps _ _ hFollows).1
  · intro hNone there later hFollows
    exact absurd hFollows (hNone there later)

/-- Erasure on at five, five guesses, and one more. -/
def guessingRun : List UnlockOp :=
  [.configureErasure true 5, .submit 1 .invalid 0, .submit 2 .invalid 0, .submit 3 .invalid 0,
    .submit 4 .invalid 0, .submit 5 .invalid 0, .submit 6 .invalid 0]

/-- The fifth guess is granted and the sixth refused. -/
theorem guessingRun_reverts : ¬∀ ops, KeepsPresenting (create .effaceable) ops := by
  intro h
  have hFollows : FollowsGrant (create .effaceable) guessingRun
      (after step (create .effaceable) (guessingRun.take 6)) (.submit 6 .invalid 0) := by
    refine ⟨guessingRun.take 5, .submit 5 .invalid 0, [], [], rfl, ⟨5, 0, rfl, ?_⟩,
      ⟨_, rfl, ?_⟩, ?_,
      rfl, ⟨6, 0, rfl, ?_⟩⟩
    · decide
    · decide
    · simp
    · decide
  obtain ⟨⟨outcome, hReply, hGranted⟩, -⟩ := h guessingRun _ _ hFollows
  have hRefused : ((after step (create .effaceable) (guessingRun.take 6)).step
      (.submit 6 .invalid 0)).2 = .submitted (.ok ⟨.refused, false, 750000006, 750000006⟩) := by
    decide
  rw [hRefused] at hReply
  cases hReply
  cases hGranted

end UnlockAuthority

end Enml.OsShell
