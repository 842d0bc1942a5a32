import Enml.Lib.Run
import Enml.OsBoot.Attestation

/-! The device never spends its anonymity twice: the grants of every history of
epochs and authorisations, for each epoch and verifier. -/
namespace Enml.OsBoot.AttestationPolicy

open SlotTable Run AttestationRecord
open List hiding lookup_eq_none_iff lookup

/-- Everything one call can do. -/
inductive Outcome (a : AttestationPolicy) :
    AttestationOp → AttestationPolicy × AttestationReply → Prop
  | refused (op : AttestationOp) (reply : AttestationReply) (h : reply.Refused)
      (hNone : reply.grant = none) : Outcome a op (a, reply)
  | began (epoch : AttestationEpoch) (h : a.epoch < epoch) :
      Outcome a (.beginEpoch epoch)
        ({ records := a.records.map fun _ => {}, occupied := 0, epoch }, .began (.ok ()))
  | again (verifier : VerifierTag) (record : AttestationRecord)
      (h : a.find verifier = some record) (hLinked : record.linkage ≠ .unlinkable) :
      Outcome a (.authorise verifier .userLinked)
        (a, .authorised (.ok ⟨a.epoch, verifier, .userLinked, true⟩))
  | first (verifier : VerifierTag) (linkage : LinkagePolicy) (records : List AttestationRecord)
      (hValid : linkage ≠ .unrecognised) (hReal : verifier ≠ invalidVerifier)
      (h : a.find verifier = none)
      (hIns : insert key ⟨verifier, linkage, true⟩ a.records = some records) :
      Outcome a (.authorise verifier linkage)
        ({ a with records, occupied := a.occupied + 1 },
          .authorised (.ok ⟨a.epoch, verifier, linkage, linkage == .userLinked⟩))

theorem step_outcome (a : AttestationPolicy) (op : AttestationOp) : a.Outcome op (a.step op) := by
  cases op with
  | beginEpoch epoch =>
    unfold step beginEpoch
    dsimp only
    split_ifs with hNone hOld
    · exact .refused _ _ trivial rfl
    · exact .refused _ _ trivial rfl
    · exact .began epoch (UInt64.not_le.mp hOld)
  | authorise verifier linkage =>
    show a.Outcome (.authorise verifier linkage)
      ((a.authorise verifier linkage).1, .authorised (a.authorise verifier linkage).2)
    unfold authorise
    by_cases hEpoch : a.epoch = invalidEpoch
    · rw [if_pos hEpoch]
      exact .refused _ _ trivial rfl
    by_cases hReal : verifier = invalidVerifier
    · rw [if_neg hEpoch, if_pos hReal]
      exact .refused _ _ trivial rfl
    rw [if_neg hEpoch, if_neg hReal]
    cases hFind : a.find verifier with
    | some record =>
      cases linkage with
      | unlinkable | unrecognised => exact .refused _ _ trivial rfl
      | userLinked =>
        by_cases hSpent : record.linkage = .unlinkable
        · simp only [hSpent]
          exact .refused _ _ trivial rfl
        · simp only [hSpent]
          exact .again verifier record hFind hSpent
    | none =>
      cases hIns : insert key ⟨verifier, linkage, true⟩ a.records with
      | none => cases linkage <;> exact .refused _ _ trivial rfl
      | some records =>
        cases linkage with
        | unrecognised => exact .refused _ _ trivial rfl
        | unlinkable | userLinked => exact .first verifier _ records nofun hReal hFind hIns

/-- The grants of a run, in order. -/
def grants (a : AttestationPolicy) (ops : List AttestationOp) : List AttestationGrant :=
  (outputs step a ops).filterMap AttestationReply.grant

theorem grants_cons (a : AttestationPolicy) (op : AttestationOp) (rest : List AttestationOp) :
    a.grants (op :: rest) = (a.step op).2.grant.toList ++ (a.step op).1.grants rest := by
  show ((a.step op).2 :: outputs step (a.step op).1 rest).filterMap _ = _
  cases h : (a.step op).2.grant with
  | none => rw [filterMap_cons_none h]; rfl
  | some grant => rw [filterMap_cons_some h]; rfl

/-- The grants to one verifier in one epoch. -/
def grantsTo (granted : List AttestationGrant) (epoch : AttestationEpoch)
    (verifier : VerifierTag) : List AttestationGrant :=
  granted.filter fun g => decide (g.epoch = epoch ∧ g.verifier = verifier)

/-- One unlinkable grant and nothing else, or linked ones only. -/
def SpentOnce (granted : List AttestationGrant) : Prop :=
  (∃ g, granted = [g] ∧ g.linkage = .unlinkable) ∨ ∀ g ∈ granted, g.linkage = .userLinked

/-- The grants so far beside the records of the current epoch. -/
structure Accounted (granted : List AttestationGrant) (a : AttestationPolicy) : Prop where
  past : ∀ g ∈ granted, g.epoch ≤ a.epoch
  fresh : ∀ verifier, a.find verifier = none →
    ∀ g ∈ granted, g.epoch = a.epoch → g.verifier ≠ verifier
  linked : ∀ verifier record, a.find verifier = some record → record.linkage ≠ .unlinkable →
    ∀ g ∈ grantsTo granted a.epoch verifier, g.linkage = .userLinked
  spent : ∀ epoch verifier, SpentOnce (grantsTo granted epoch verifier)
  reveals : ∀ g ∈ granted, g.revealsContinuity = true ↔ g.linkage = .userLinked

variable {a b : AttestationPolicy} {granted : List AttestationGrant} {verifier : VerifierTag}
  {linkage : LinkagePolicy} {record : AttestationRecord} {records : List AttestationRecord}

theorem grantsTo_append (granted : List AttestationGrant) (g : AttestationGrant)
    (epoch : AttestationEpoch) (verifier : VerifierTag) :
    grantsTo (granted ++ [g]) epoch verifier = grantsTo granted epoch verifier ++
      if g.epoch = epoch ∧ g.verifier = verifier then [g] else [] := by
  rw [grantsTo, filter_append, filter_singleton, Bool.cond_decide]
  rfl

theorem find_of_blank (h : b.records = a.records.map fun _ => {}) : b.find verifier = none := by
  unfold find
  split_ifs with hReal
  · rfl
  · rw [lookup_eq_none_iff, h]
    simp [SlotTable.keys, key]

/-- What is found once a verifier has been recorded. -/
theorem find_recorded (hReal : verifier ≠ invalidVerifier) (hNone : a.find verifier = none)
    (hIns : insert key ⟨verifier, linkage, true⟩ a.records = some records) (other : VerifierTag) :
    find { a with records, occupied := a.occupied + 1 } other =
      if other = verifier then some ⟨verifier, linkage, true⟩ else a.find other := by
  split_ifs with hSame
  · rw [find, if_neg hReal] at hNone
    rw [hSame, find, if_neg hReal]
    exact lookup_insert_self rfl hNone hIns
  have hLookup : lookup key other records = lookup _ other a.records :=
    lookup_insert_ne rfl hSame hIns
  unfold find
  rw [hLookup]

theorem Accounted.began (h : Accounted granted a) {epoch : AttestationEpoch}
    (hLater : a.epoch < epoch) :
    Accounted granted { records := a.records.map fun _ => {}, occupied := 0, epoch } where
  past g hg := UInt64.le_trans (h.past g hg) (UInt64.le_of_lt hLater)
  fresh := by
    intro verifier _ g hg (hEpoch : g.epoch = epoch)
    exact absurd (hEpoch ▸ h.past g hg) (UInt64.not_le.mpr hLater)
  linked := by
    intro verifier record hFind
    rw [find_of_blank rfl] at hFind
    cases hFind
  spent := h.spent
  reveals := h.reveals

/-- One more grant in the current epoch, and the records it leaves. -/
theorem Accounted.append {g : AttestationGrant} (h : Accounted granted a)
    (hEpoch : g.epoch = a.epoch) (hSame : b.epoch = a.epoch)
    (hFresh : ∀ v, b.find v = none → a.find v = none ∧ g.verifier ≠ v)
    (hLinked : ∀ v record, b.find v = some record → record.linkage ≠ .unlinkable →
      (∀ old ∈ grantsTo granted a.epoch v, old.linkage = .userLinked) ∧
        (g.verifier = v → g.linkage = .userLinked))
    (hSpent : SpentOnce (grantsTo granted a.epoch g.verifier ++ [g]))
    (hReveals : g.revealsContinuity = true ↔ g.linkage = .userLinked) :
    Accounted (granted ++ [g]) b where
  past := by
    rw [hSame]
    exact forall_mem_append.mpr
      ⟨h.past, forall_mem_singleton.mpr (UInt64.le_of_eq hEpoch)⟩
  fresh := by
    intro v hNone
    rw [hSame]
    exact forall_mem_append.mpr ⟨h.fresh v (hFresh v hNone).1,
      forall_mem_singleton.mpr fun _ => (hFresh v hNone).2⟩
  linked := by
    intro v record hFind hOld
    rw [hSame, grantsTo_append]
    refine forall_mem_append.mpr ⟨(hLinked v record hFind hOld).1, ?_⟩
    split_ifs with hIts
    · exact forall_mem_singleton.mpr ((hLinked v record hFind hOld).2 hIts.2)
    · exact forall_mem_nil _
  spent := by
    intro epoch v
    rw [grantsTo_append]
    split_ifs with hIts
    · rw [← hIts.1, ← hIts.2, hEpoch]
      exact hSpent
    · rw [append_nil]
      exact h.spent epoch v
  reveals := forall_mem_append.mpr ⟨h.reveals, forall_mem_singleton.mpr hReveals⟩

theorem Accounted.again (h : Accounted granted a) (hFind : a.find verifier = some record)
    (hLinked : record.linkage ≠ .unlinkable) :
    Accounted (granted ++ [⟨a.epoch, verifier, .userLinked, true⟩]) a := by
  refine h.append rfl rfl (fun v hNone => ⟨hNone, ?_⟩)
    (fun v found hFound hOld => ⟨h.linked v found hFound hOld, fun _ => rfl⟩) (.inr ?_)
    (iff_of_true rfl rfl)
  · rintro rfl
    rw [hFind] at hNone
    cases hNone
  · exact forall_mem_append.mpr
      ⟨h.linked verifier record hFind hLinked, forall_mem_singleton.mpr rfl⟩

theorem Accounted.first (h : Accounted granted a) (hValid : linkage ≠ .unrecognised)
    (hReal : verifier ≠ invalidVerifier) (hNone : a.find verifier = none)
    (hIns : insert key ⟨verifier, linkage, true⟩ a.records = some records) :
    Accounted (granted ++ [⟨a.epoch, verifier, linkage, linkage == .userLinked⟩])
      { a with records, occupied := a.occupied + 1 } := by
  have hEmpty : grantsTo granted a.epoch verifier = [] :=
    filter_eq_nil_iff.mpr fun g hg hIts => h.fresh verifier hNone g hg
      (of_decide_eq_true hIts).1 (of_decide_eq_true hIts).2
  refine h.append rfl rfl ?_ ?_ ?_ beq_iff_eq
  · intro v hFresh
    rw [find_recorded hReal hNone hIns] at hFresh
    split_ifs at hFresh with hSame
    exact ⟨hFresh, Ne.symm hSame⟩
  · intro v found hFound hOld
    rw [find_recorded hReal hNone hIns] at hFound
    split_ifs at hFound with hSame
    · cases hFound
      rw [hSame, hEmpty]
      refine ⟨forall_mem_nil _, fun _ => ?_⟩
      cases linkage with
      | unlinkable => exact absurd rfl hOld
      | userLinked => rfl
      | unrecognised => exact absurd rfl hValid
    · exact ⟨h.linked v found hFound hOld, fun hIts => absurd hIts.symm hSame⟩
  · rw [hEmpty, nil_append]
    cases linkage with
    | unlinkable => exact .inl ⟨_, rfl, rfl⟩
    | userLinked => exact .inr (forall_mem_singleton.mpr rfl)
    | unrecognised => exact absurd rfl hValid

theorem Accounted.step (h : Accounted granted a) (op : AttestationOp) :
    Accounted (granted ++ (a.step op).2.grant.toList) (a.step op).1 := by
  have hOutcome := a.step_outcome op
  generalize a.step op = done at hOutcome
  cases hOutcome with
  | refused _ reply hRefused hNone =>
    rw [hNone, Option.toList_none, append_nil]
    exact h
  | began epoch hLater =>
    show Accounted (granted ++ []) _
    rw [append_nil]
    exact h.began hLater
  | again verifier record hFind hLinked => exact h.again hFind hLinked
  | first verifier linkage records hValid hReal hNone hIns => exact h.first hValid hReal hNone hIns

theorem Accounted.run {ops : List AttestationOp} (h : Accounted granted a) :
    Accounted (granted ++ a.grants ops) (after AttestationPolicy.step a ops) := by
  induction ops generalizing a granted with
  | nil =>
    show Accounted (granted ++ []) a
    rwa [append_nil]
  | cons op rest ih =>
    rw [grants_cons, ← append_assoc]
    exact ih (h.step op)

theorem accounted_start : Accounted [] {} where
  past _ hg := nomatch hg
  fresh _ _ _ hg := nomatch hg
  linked _ _ _ _ _ hg := nomatch hg
  spent _ _ := .inr fun _ hg => nomatch hg
  reveals _ hg := nomatch hg

/-- A step within an epoch keeps what is recorded in it, and no step goes back. -/
theorem step_keeps (a : AttestationPolicy) (op : AttestationOp) :
    a.epoch ≤ (a.step op).1.epoch ∧ ((a.step op).2.Refused → (a.step op).1 = a) ∧
      ((a.step op).1.epoch = a.epoch → ∀ verifier record,
        a.find verifier = some record → (a.step op).1.find verifier = some record) := by
  have hOutcome := a.step_outcome op
  generalize a.step op = done at hOutcome
  cases hOutcome with
  | refused | again => exact ⟨UInt64.le_refl _, fun _ => rfl, fun _ _ _ h => h⟩
  | began epoch hLater =>
    refine ⟨UInt64.le_of_lt hLater, fun hRefused => hRefused.elim, fun hSame => ?_⟩
    exact absurd (hSame ▸ hLater) (UInt64.lt_irrefl _)
  | first verifier linkage records hValid hReal hNone hIns =>
    refine ⟨UInt64.le_refl _, fun hRefused => hRefused.elim, fun _ other record hFind => ?_⟩
    rw [find_recorded hReal hNone hIns, if_neg]
    · exact hFind
    · rintro rfl
      rw [hNone] at hFind
      cases hFind

/-- The epochs only increase, and a record stays for the whole of its epoch. -/
theorem run_keeps (ops : List AttestationOp) (a : AttestationPolicy) :
    a.epoch ≤ (after step a ops).epoch ∧ ((after step a ops).epoch = a.epoch → ∀ verifier record,
        a.find verifier = some record → (after step a ops).find verifier = some record) := by
  induction ops generalizing a with
  | nil => exact ⟨UInt64.le_refl _, fun _ _ _ h => h⟩
  | cons op rest ih =>
    obtain ⟨hEpoch, -, hKept⟩ := a.step_keeps op
    obtain ⟨hEpochs, hRest⟩ := ih (a.step op).1
    refine ⟨UInt64.le_trans hEpoch hEpochs, fun hSame verifier record hFind => ?_⟩
    have hMiddle : (a.step op).1.epoch = a.epoch := UInt64.le_antisymm (hSame ▸ hEpochs) hEpoch
    exact hRest (hSame.trans hMiddle.symm) verifier record (hKept hMiddle verifier record hFind)

/-- What a history of calls on a new policy hands out and keeps. -/
structure AnonymityOnce (ops : List AttestationOp) : Prop where
  spent : ∀ epoch verifier, SpentOnce (grantsTo (grants {} ops) epoch verifier)
  reveals : ∀ g ∈ grants {} ops, g.revealsContinuity = true ↔ g.linkage = .userLinked
  forward : ∀ before rest, ops = before ++ rest →
    (after step {} before).epoch ≤ (after step {} ops).epoch
  refused : ∀ before op rest, ops = before ++ op :: rest →
    ((after step {} before).step op).2.Refused →
    ((after step {} before).step op).1 = after step {} before
  /-- A verifier recorded before the rest of the run is recorded after it, if the
  epoch is still the same. -/
  remembered : ∀ before rest, ops = before ++ rest →
    (after step {} ops).epoch = (after step {} before).epoch → ∀ verifier record,
      (after step {} before).find verifier = some record →
      (after step {} ops).find verifier = some record

/-- In every run a verifier gets one unlinkable grant an epoch or linked ones only, the epoch
never goes back, and a refused call changes nothing. -/
theorem anonymity_once (ops : List AttestationOp) : AnonymityOnce ops where
  spent := accounted_start.run.spent
  reveals := accounted_start.run.reveals
  forward := by
    intro before rest hOps
    rw [hOps, after_append]
    exact (run_keeps rest _).1
  refused := by
    intro before op rest _
    exact (step_keeps _ op).2.1
  remembered := by
    intro before rest hOps
    rw [hOps, after_append]
    exact (run_keeps rest _).2

end Enml.OsBoot.AttestationPolicy
