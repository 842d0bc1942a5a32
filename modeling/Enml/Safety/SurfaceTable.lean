import Enml.Invariant.Compositor
import Enml.Lib.Run

/-! The surface table over whole runs. Every state of a run is coherent, and what
the table says of a frame is tied to the calls that were accepted: a surface shows
the buffer of the last submission, as long as its bounds have not changed since. -/
namespace Enml.OsDisplay

open Enml.Core SlotTable Compositor List

variable {s : Slot} {op : CompositorOp}

namespace Compositor

variable {c c' : Compositor}

/-- How a surface `s` after an accepted call relates to the table before it. -/
inductive Origin (c : Compositor) (op : CompositorOp) (s : Slot) : Prop where
  /-- It is the one that was added, and has no frame. -/
  | fresh (valid : c.valid = true) (serial : c.nextSurfaceSerial ≠ 0)
      (id : s.descriptor.id =
        makeDisplayObjectValue c.objectGeneration.toUInt64 c.nextSurfaceSerial)
      (blank : s.hasFrame = false)
  /-- It was there, with the same frame or with one that has been taken off. -/
  | kept {t : Slot} (mem : t ∈ c.surfaces) (id : t.descriptor.id = s.descriptor.id)
      (sequence : s.frameSequence = t.frameSequence)
      (frame : s.hasFrame = true → t.hasFrame = true ∧ t.buffer = s.buffer ∧
        ∀ caller bounds, op ≠ .setBounds caller s.descriptor.id bounds)
      (other : ∀ caller submission nowNs, op = .submitFrame caller submission nowNs →
        submission.surface ≠ s.descriptor.id)
  /-- It was there, and a frame was submitted to it. -/
  | submitted {t : Slot} {caller : PeerIdentity} {submission : FrameSubmission} {nowNs : UInt64}
      (mem : t ∈ c.surfaces) (id : t.descriptor.id = s.descriptor.id)
      (call : op = .submitFrame caller submission nowNs)
      (surface : submission.surface = s.descriptor.id)
      (later : t.frameSequence < submission.sequence)
      (sequence : s.frameSequence = submission.sequence) (buffer : s.buffer = submission.buffer)

/-- A surface that a call has not touched. -/
theorem Origin.same (hs : s ∈ c.surfaces)
    (hBounds : ∀ caller bounds, op ≠ .setBounds caller s.descriptor.id bounds)
    (hSubmit : ∀ caller submission nowNs, op = .submitFrame caller submission nowNs →
      submission.surface ≠ s.descriptor.id) : Origin c op s :=
  .kept hs rfl rfl (fun hFrame => ⟨hFrame, rfl, hBounds⟩) hSubmit

/-- A surface of the rewritten table is a surface of the old one, rewritten when it
is the one that is named. -/
theorem mem_surfaces_modifySlot (h : c.Coherent) {surface : SurfaceId} {f : Slot → Slot}
    (hs : s ∈ (c.modifySlot surface f).surfaces)
    (hf : Keeps f := by constructor <;> exact fun _ => rfl) :
    ∃ t ∈ c.surfaces, (t.descriptor.id = surface ∧ s = f t) ∨
      (t.descriptor.id ≠ surface ∧ s = t) := by
  rw [surfaces, modifySlot_slots h, entries_map (hf.ite fun s => s.key = some surface).key] at hs
  obtain ⟨t, ht, rfl⟩ := mem_map.mp hs
  have hKey : t.key = some t.descriptor.id := key_of_occupied (mem_surfaces.mp ht).2
  refine ⟨t, ht, ?_⟩
  by_cases hSame : t.descriptor.id = surface
  · exact .inl ⟨hSame, if_pos (by rw [hKey, hSame])⟩
  · refine .inr ⟨hSame, if_neg ?_⟩
    rw [hKey]
    exact fun hEq => hSame (Option.some.inj hEq)

theorem Change.origin (h : c.Sound) (hChange : Change c op c') (hs : s ∈ c'.surfaces) :
    Origin c op s := by
  cases hChange with
  | @created owner request _ v hAdded =>
    rcases mem_cons.mp (hAdded.perm.mem_iff.mp hs) with rfl | hOld
    · exact .fresh hAdded.valid hAdded.serial hAdded.id hAdded.blank.1
    · exact .same hOld (by simp) (by simp)
  | destroyed hOwned =>
    rw [surfaces_destroySurface h.toCoherent hOwned] at hs
    exact .same (mem_filter.mp hs).1 (by simp) (by simp)
  | @moved caller surface bounds _ hBounds hOwned =>
    obtain ⟨t, ht, ⟨hSame, rfl⟩ | ⟨hOther, rfl⟩⟩ := mem_surfaces_modifySlot h.toCoherent hs
    · exact .kept ht rfl rfl (by simp) (by simp)
    · refine .same ht ?_ (by simp)
      rintro caller' bounds' ⟨⟩
      exact hOther rfl
  | shown =>
    obtain ⟨t, ht, ⟨hSame, rfl⟩ | ⟨hOther, rfl⟩⟩ := mem_surfaces_modifySlot h.toCoherent hs
    · exact .kept ht rfl rfl (fun hFrame => ⟨hFrame, rfl, by simp⟩) (by simp)
    · exact .same ht (by simp) (by simp)
  | @activated op surface root hFind hRole hSerial hOp =>
    have hBounds : ∀ caller id bounds, op ≠ .setBounds caller id bounds := by
      rcases hOp with ⟨caller, rfl⟩ | ⟨caller, owner, rfl⟩
      all_goals simp
    have hSubmit : ∀ caller submission nowNs, op ≠ .submitFrame caller submission nowNs := by
      rcases hOp with ⟨caller, rfl⟩ | ⟨caller, owner, rfl⟩
      all_goals simp
    rw [surfaces, slots_restack h.toCoherent, entries_map (keeps_raised.ite _).key] at hs
    obtain ⟨t, ht, rfl⟩ := mem_map.mp hs
    split_ifs
    · exact .kept ht rfl rfl (fun hFrame => ⟨hFrame, rfl, fun _ _ => hBounds _ _ _⟩)
        (fun _ _ _ hOp => absurd hOp (hSubmit _ _ _))
    · exact .same ht (fun _ _ => hBounds _ _ _) (fun _ _ _ hOp => absurd hOp (hSubmit _ _ _))
  | @submitted caller submission nowNs t₀ hOwned hBuf hSeq =>
    obtain ⟨hFind, -⟩ := findOwnedSlot_eq_ok hOwned
    obtain ⟨-, hMem, hId⟩ := mem_of_findSlot hFind
    obtain ⟨t, ht, ⟨hSame, rfl⟩ | ⟨hOther, rfl⟩⟩ := mem_surfaces_modifySlot h.toCoherent hs
    · have hFound : t = t₀ := h.eq_of_id ht hMem (hSame.trans hId.symm)
      exact .submitted ht rfl rfl hSame.symm (hFound ▸ hSeq) rfl rfl
    · refine .same ht (by simp) ?_
      rintro caller' submission' nowNs' ⟨⟩
      exact Ne.symm hOther
  | @invalidated buffer =>
    unfold invalidateBuffer at hs
    split_ifs at hs
    · exact .same hs (by simp) (by simp)
    rw [surfaces, entries_map
      (keeps_unframed.ite fun s => (s.occupied && s.buffer == buffer) = true).key] at hs
    obtain ⟨t, ht, rfl⟩ := mem_map.mp hs
    split_ifs
    · exact .kept ht rfl rfl (by simp) (by simp)
    · exact .same ht (by simp) (by simp)
  | @revoked process =>
    unfold revokeProcess at hs
    split_ifs at hs
    · exact .same hs (by simp) (by simp)
    · rw [surfaces_clearSlots] at hs
      exact .same (mem_filter.mp hs).1 (by simp) (by simp)

end Compositor

/-- A run of the compositor, from its construction on. -/
structure DisplayRun where
  configuration : DisplayConfiguration
  trustedPrincipals : TrustedUiPrincipals
  serviceGeneration : UInt64
  ops : List CompositorOp

namespace DisplayRun

def start (r : DisplayRun) : Compositor :=
  .create r.configuration r.trustedPrincipals r.serviceGeneration

/-- The compositor after the first `n` calls. -/
def reached (r : DisplayRun) (n : Nat) : Compositor :=
  Run.after step r.start (r.ops.take n)

/-- The call at place `k` was not refused. -/
def Accepted (r : DisplayRun) (k : Nat) (op : CompositorOp) : Prop :=
  r.ops[k]? = some op ∧ ((r.reached k).step op).2.refused = false

/-- The call at place `k` created the surface with this descriptor. -/
def CreatedAt (r : DisplayRun) (k : Nat) (descriptor : SurfaceDescriptor) : Prop :=
  ∃ owner request, r.ops[k]? = some (.createSurface owner request) ∧
    ((r.reached k).createSurface owner request).2 = .ok descriptor

/-- No identifier is issued a second time. -/
def IdsNeverReissued (r : DisplayRun) : Prop :=
  ∀ m n first second, m < n → r.CreatedAt m first → r.CreatedAt n second → first.id ≠ second.id

/-- The buffer of the surface came with an accepted submission, whose sequence is
larger than that of every earlier one; the bounds have not changed since. -/
def SubmittedSinceBounds (r : DisplayRun) (n : Nat) (s : Slot) : Prop :=
  ∃ m caller submission nowNs, m < n ∧ r.Accepted m (.submitFrame caller submission nowNs) ∧
    submission.surface = s.descriptor.id ∧ submission.buffer = s.buffer ∧
    (∀ k caller bounds, m < k → k < n → ¬r.Accepted k (.setBounds caller s.descriptor.id bounds)) ∧
    ∀ k caller earlier nowNs, k < m → r.Accepted k (.submitFrame caller earlier nowNs) →
      earlier.surface = s.descriptor.id → earlier.sequence < submission.sequence

/-- A surface has a frame exactly when it has the buffer of such a submission. -/
def FramesAreSubmitted (r : DisplayRun) : Prop :=
  ∀ n, ∀ s ∈ (r.reached n).surfaces, s.hasFrame = true ↔ s.buffer ≠ 0 ∧ r.SubmittedSinceBounds n s

variable {r : DisplayRun}

theorem sound_reached (r : DisplayRun) (n : Nat) : (r.reached n).Sound :=
  Run.always_of_invariant (sound_create ..) (fun _ op h => h.step op) n

theorem sameBase_reached (r : DisplayRun) {m n : Nat} (h : m ≤ n) :
    (r.reached m).SameBase (r.reached n) := by
  refine Run.stable (P := fun c => (r.reached m).SameBase c) ?_ h
    ⟨rfl, rfl, rfl, rfl, le_refl _, le_refl _⟩
  intro c op hBase
  have hStep := sameBase_step c op
  exact ⟨hStep.configuration.trans hBase.configuration,
    hStep.trustedPrincipals.trans hBase.trustedPrincipals,
    hStep.objectGeneration.trans hBase.objectGeneration, hStep.valid.trans hBase.valid,
    hBase.surfacesGiven.trans hStep.surfacesGiven, hBase.stacksGiven.trans hStep.stacksGiven⟩

variable {n k : Nat} {c : Compositor} {caller : PeerIdentity} {submission : FrameSubmission}
  {nowNs : UInt64} {t : Slot}

theorem reached_succ (h : r.ops[n]? = some op) : r.reached (n + 1) = ((r.reached n).step op).1 :=
  Run.after_take_succ h

theorem reached_succ_of_none (h : r.ops[n]? = none) : r.reached (n + 1) = r.reached n := by
  rw [reached, Run.take_succ_of_none h]
  rfl

/-- An identifier with a serial that has been handed out. -/
def Issued (c : Compositor) (id : SurfaceId) : Prop :=
  ∃ serial : UInt32, serial.toNat < c.surfacesGiven ∧ serial ≠ 0 ∧
    id = makeDisplayObjectValue c.objectGeneration.toUInt64 serial

theorem issued_reached {m : Nat} {id : SurfaceId} (hmn : m ≤ n) (h : Issued (r.reached m) id) :
    Issued (r.reached n) id := by
  obtain ⟨serial, hBelow, hSerial, hId⟩ := h
  have hBase := r.sameBase_reached hmn
  refine ⟨serial, hBelow.trans_le hBase.surfacesGiven, hSerial, ?_⟩
  rw [hBase.objectGeneration]
  exact hId

/-- The next identifier is not an issued one. -/
theorem not_issued_next (h : c.Sound) (hValid : c.valid = true)
    (hSerial : c.nextSurfaceSerial ≠ 0) :
    ¬Issued c (makeDisplayObjectValue c.objectGeneration.toUInt64 c.nextSurfaceSerial) := by
  rintro ⟨serial, hBelow, hNonzero, hId⟩
  have hSame := makeDisplayObjectValue_inj (h.generation hValid) hSerial hNonzero hId
  rw [← hSame, toNat_nextSurfaceSerial hSerial] at hBelow
  omega

theorem CreatedAt.added {descriptor : SurfaceDescriptor} (h : r.CreatedAt k descriptor) :
    ∃ v, v.descriptor = descriptor ∧ Compositor.Added (r.reached k) (r.reached (k + 1)) v := by
  obtain ⟨owner, request, hOp, hOk⟩ := h
  rcases createSurface_cases (r.reached k) owner request with
    ⟨e, hErr⟩ | ⟨c', v, hCreated, hAdded⟩
  · rw [hErr] at hOk
    cases hOk
  rw [hCreated] at hOk
  refine ⟨v, Except.ok.inj hOk, ?_⟩
  rw [reached_succ hOp, step, hCreated]
  exact hAdded

theorem ids_never_reissued (r : DisplayRun) : r.IdsNeverReissued := by
  intro m n first second hmn hFirst hSnd hSame
  obtain ⟨v, rfl, hv⟩ := hFirst.added
  obtain ⟨w, rfl, hw⟩ := hSnd.added
  have hIssued : Issued (r.reached (m + 1)) v.descriptor.id :=
    (r.sound_reached (m + 1)).issued v (hv.perm.mem_iff.mpr mem_cons_self)
  have hAgain := issued_reached hmn hIssued
  rw [hSame, hw.id] at hAgain
  exact not_issued_next (r.sound_reached n) hw.valid hw.serial hAgain

/-- A submission is accepted only for a surface that is there. -/
theorem Accepted.issued (h : r.Accepted k (.submitFrame caller submission nowNs)) :
    Issued (r.reached k) submission.surface := by
  rcases step_cases (r.reached k) (.submitFrame caller submission nowNs) with
    ⟨hRefused, -⟩ | ⟨-, hChange⟩
  · rw [h.2] at hRefused
    cases hRefused
  generalize (r.reached k).step _ = next at hChange
  obtain ⟨c', reply⟩ := next
  cases hChange with
  | submitted hOwned =>
    obtain ⟨hFind, -⟩ := findOwnedSlot_eq_ok hOwned
    obtain ⟨-, hMem, hId⟩ := mem_of_findSlot hFind
    exact hId ▸ (r.sound_reached k).issued _ hMem
  | activated _ _ _ hOp =>
    rcases hOp with ⟨_, hOp⟩ | ⟨_, _, hOp⟩
    all_goals cases hOp

/-- No submission has been accepted that is newer than the sequence of the surface. -/
def Newest (r : DisplayRun) (n : Nat) (s : Slot) : Prop :=
  ∀ k caller submission nowNs, k < n → r.Accepted k (.submitFrame caller submission nowNs) →
    submission.surface = s.descriptor.id → submission.sequence ≤ s.frameSequence

/-- What is known of a surface after `n` calls. -/
structure Traced (r : DisplayRun) (n : Nat) (s : Slot) : Prop where
  newest : r.Newest n s
  since : s.hasFrame = true → r.SubmittedSinceBounds n s

theorem Traced.kept (h : r.Traced n t) (hId : t.descriptor.id = s.descriptor.id)
    (hSeq : s.frameSequence = t.frameSequence)
    (hFrame : s.hasFrame = true → t.hasFrame = true ∧ t.buffer = s.buffer ∧
      ∀ caller bounds, r.Accepted n (.setBounds caller s.descriptor.id bounds) → False)
    (hOther : ∀ caller submission nowNs, r.Accepted n (.submitFrame caller submission nowNs) →
      submission.surface ≠ s.descriptor.id) : r.Traced (n + 1) s := by
  constructor
  · intro k caller submission nowNs hk hAcc hSurface
    rcases Nat.lt_succ_iff_lt_or_eq.mp hk with hEarlier | rfl
    · rw [hSeq]
      exact h.newest k caller submission nowNs hEarlier hAcc (hSurface.trans hId.symm)
    · exact absurd hSurface (hOther _ _ _ hAcc)
  · intro hHas
    obtain ⟨hOld, hBuf, hBounds⟩ := hFrame hHas
    obtain ⟨m, caller, submission, nowNs, hm, hAcc, hSurface, hSame, hUnmoved, hLater⟩ :=
      h.since hOld
    rw [hId] at hSurface hUnmoved hLater
    refine ⟨m, caller, submission, nowNs, Nat.lt_succ_of_lt hm, hAcc, hSurface,
      hSame.trans hBuf, ?_, hLater⟩
    intro k caller bounds hAfter hk
    rcases Nat.lt_succ_iff_lt_or_eq.mp hk with hEarlier | rfl
    · exact hUnmoved k caller bounds hAfter hEarlier
    · exact fun hMoved => hBounds caller bounds hMoved

theorem Traced.submitted (h : r.Traced n t)
    (hAcc : r.Accepted n (.submitFrame caller submission nowNs))
    (hId : t.descriptor.id = s.descriptor.id) (hSurface : submission.surface = s.descriptor.id)
    (hLater : t.frameSequence < submission.sequence)
    (hSeq : s.frameSequence = submission.sequence) (hBuf : s.buffer = submission.buffer) :
    r.Traced (n + 1) s := by
  have hEarlier : ∀ k caller earlier nowNs, k < n →
      r.Accepted k (.submitFrame caller earlier nowNs) → earlier.surface = s.descriptor.id →
      earlier.sequence < submission.sequence := by
    intro k caller earlier nowNs hk hOld hSame
    exact UInt64.lt_of_le_of_lt (h.newest k caller earlier nowNs hk hOld (hSame.trans hId.symm))
      hLater
  constructor
  · intro k caller' earlier nowNs' hk hOld hSame
    rw [hSeq]
    rcases Nat.lt_succ_iff_lt_or_eq.mp hk with hBefore | rfl
    · exact UInt64.le_of_lt (hEarlier k caller' earlier nowNs' hBefore hOld hSame)
    · cases Option.some.inj (hOld.1.symm.trans hAcc.1)
      exact UInt64.le_refl _
  · intro _
    refine ⟨n, caller, submission, nowNs, Nat.lt_succ_self n, hAcc, hSurface, hBuf.symm,
      ?_, hEarlier⟩
    intro k caller' bounds hAfter hk
    omega

/-- A call that is missing or refused leaves the table as it is. -/
theorem reached_succ_cases (r : DisplayRun) (n : Nat) :
    (r.reached (n + 1) = r.reached n ∧ ∀ op, ¬r.Accepted n op) ∨
      ∃ op, r.Accepted n op ∧ Compositor.Change (r.reached n) op (r.reached (n + 1)) := by
  cases hOp : r.ops[n]? with
  | none =>
    refine .inl ⟨reached_succ_of_none hOp, ?_⟩
    intro op hAcc
    rw [hAcc.1] at hOp
    cases hOp
  | some op =>
    rw [reached_succ hOp]
    rcases step_cases (r.reached n) op with ⟨hRefused, hSame⟩ | ⟨hKept, hChange⟩
    · refine .inl ⟨hSame, ?_⟩
      intro op' hAcc
      cases Option.some.inj (hOp.symm.trans hAcc.1)
      rw [hAcc.2] at hRefused
      cases hRefused
    · exact .inr ⟨op, ⟨hOp, hKept⟩, hChange⟩

/-- Every surface goes back to the call that created it. -/
theorem traced_reached (r : DisplayRun) (n : Nat) : ∀ s ∈ (r.reached n).surfaces, r.Traced n s := by
  induction n with
  | zero =>
    intro s hs
    have hNone : (r.reached 0).surfaces = [] := by
      rw [surfaces]
      show entries Slot.key r.start.slots = []
      rw [start, (surfaces_create ..).1]
      exact entries_replicate rfl _
    rw [hNone] at hs
    cases hs
  | succ n ih =>
    intro s hs
    rcases r.reached_succ_cases n with ⟨hSame, hNot⟩ | ⟨op, hAcc, hChange⟩
    · rw [hSame] at hs
      exact (ih s hs).kept rfl rfl (fun hFrame => ⟨hFrame, rfl, fun _ _ => hNot _⟩)
        (fun _ _ _ hAcc => absurd hAcc (hNot _))
    have hOnly : ∀ op', r.Accepted n op' → op = op' := fun op' hAcc' =>
      Option.some.inj (hAcc.1.symm.trans hAcc'.1)
    cases hChange.origin (r.sound_reached n) hs with
    | fresh hValid hSerial hId hBlank =>
      constructor
      · intro k caller submission nowNs hk hOld hSurface
        -- The identifier is new, so that no earlier submission can name it.
        have hIssued := issued_reached (Nat.le_of_lt_succ hk) hOld.issued
        rw [hSurface, hId] at hIssued
        exact absurd hIssued (not_issued_next (r.sound_reached n) hValid hSerial)
      · intro hFrame
        rw [hBlank] at hFrame
        cases hFrame
    | kept hMem hId hSeq hFrame hOther =>
      refine (ih _ hMem).kept hId hSeq ?_ ?_
      · intro hHas
        obtain ⟨hOld, hBuf, hBounds⟩ := hFrame hHas
        exact ⟨hOld, hBuf, fun caller bounds hMoved => hBounds caller bounds (hOnly _ hMoved)⟩
      · intro caller submission nowNs hSubmitted
        exact hOther caller submission nowNs (hOnly _ hSubmitted)
    | submitted hMem hId hCall hSurface hLater hSeq hBuf =>
      rw [hCall] at hAcc
      exact (ih _ hMem).submitted hAcc hId hSurface hLater hSeq hBuf

theorem frames_are_submitted (r : DisplayRun) : r.FramesAreSubmitted := by
  intro n s hs
  have hFramed := (r.sound_reached n).framed s hs
  constructor
  · intro hFrame
    exact ⟨hFramed.mp hFrame, (r.traced_reached n s hs).since hFrame⟩
  · rintro ⟨hBuf, -⟩
    exact hFramed.mpr hBuf

/-- After a revocation no surface is owned by the process. -/
theorem owner_of_mem_revokeProcess (h : c.Sound) {process : ProcessId}
    (hs : s ∈ (c.revokeProcess process).surfaces) : s.descriptor.owner.process ≠ process := by
  unfold revokeProcess at hs
  split_ifs at hs with hZero
  · rw [hZero]
    exact (process_ne_zero (h.owners s hs)).2
  · rw [surfaces_clearSlots] at hs
    simpa using (mem_filter.mp hs).2

/-- In every run the surface table is coherent after every call, a refused call
changes nothing, identifiers are issued once, frames are what was submitted since
the last change of bounds, and a revoked process owns no surface. That no popup
outlives its parent is part of coherence. -/
theorem surface_table_stays_coherent (r : DisplayRun) :
    Run.Always step Compositor.Coherent r.start r.ops ∧ Run.EachStep step
        (fun c op => (c.step op).2.refused = true → (c.step op).1 = c) r.start r.ops ∧
      r.IdsNeverReissued ∧ r.FramesAreSubmitted ∧
      Run.EachStep step (fun c op => ∀ process, op = .revokeProcess process →
        ∀ s ∈ (c.step op).1.surfaces, s.descriptor.owner.process ≠ process) r.start r.ops := by
  refine ⟨fun n => (r.sound_reached n).toCoherent, ?_, r.ids_never_reissued,
    r.frames_are_submitted, ?_⟩
  · intro n op _ hRefused
    rcases step_cases (Run.after step r.start (r.ops.take n)) op with
      ⟨-, hSame⟩ | ⟨hKept, -⟩
    · exact hSame
    · rw [hRefused] at hKept
      cases hKept
  · rintro n op _ process rfl s hs
    exact owner_of_mem_revokeProcess (r.sound_reached n) hs

end DisplayRun

end Enml.OsDisplay
