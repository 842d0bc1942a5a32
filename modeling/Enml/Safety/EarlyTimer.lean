import Enml.OsKernel.Preemption
import Enml.OsKernel.Timer

/-! Whether the comparator can interrupt before the deadline it was set for. Both
conversions round down, and a wait that loses more to rounding than the clock
had lost already ends before the deadline authority admits it. -/
namespace Enml.OsKernel

open Enml.Core SchedulerDeadlineAuthority

/-- What is lost when a wait is turned into ticks is no more than what the
clock had lost when it was read. -/
def RoundsInside (f : UInt32) (counter wait : UInt64) : Prop :=
  wait.toNat * f.toNat % 10 ^ 9 ≤ counter.toNat * 10 ^ 9 % f.toNat

/-- Rounding down twice, in natural numbers. -/
theorem le_rounded_iff {f n : ℕ} (hf : 0 < f) (t d : ℕ) :
    t * n / f + d ≤ (t + d * f / n) * n / f ↔ d * f % n ≤ t * n % f := by
  have hClock := Nat.div_add_mod (t * n) f
  have hWait := Nat.div_add_mod (d * f) n
  rw [Nat.le_div_iff_mul_le hf, Nat.add_mul, Nat.add_mul, Nat.mul_comm (t * n / f),
    Nat.mul_comm (d * f / n)]
  omega

variable {f : UInt32} {counter wait ticks : UInt64}

theorem deadline_le_iff (hf : f ≠ 0) (hTicks : nanosecondsToTicks wait f = .ok ticks)
    (hRoom : counter.toNat + ticks.toNat < 2 ^ 64)
    (hFits : (counter.toNat + ticks.toNat) * 10 ^ 9 / f.toNat < 2 ^ 64) :
    (ticksToNanosecondsSaturating counter f).toNat + wait.toNat ≤
        (ticksToNanosecondsSaturating (counter + ticks) f).toNat ↔
      RoundsInside f counter wait := by
  have hPos : 0 < f.toNat := Nat.pos_of_ne_zero fun h => hf (UInt32.toNat_inj.mp h)
  have hWait : ticks.toNat = wait.toNat * f.toNat / 10 ^ 9 := by
    rw [nanosecondsToTicks_eq wait hf] at hTicks
    split_ifs at hTicks with hSmall
    cases hTicks
    rw [UInt64.toNat_ofNat', Nat.mod_eq_of_lt hSmall]
  have hSum : (counter + ticks).toNat = counter.toNat + ticks.toNat := by
    rw [UInt64.toNat_add, Nat.mod_eq_of_lt hRoom]
  have hMono : counter.toNat * 10 ^ 9 / f.toNat ≤
      (counter.toNat + ticks.toNat) * 10 ^ 9 / f.toNat :=
    Nat.div_le_div_right (Nat.mul_le_mul_right _ (Nat.le_add_right _ _))
  rw [ticksToNanosecondsSaturating_eq _ hf, ticksToNanosecondsSaturating_eq _ hf, hSum,
    min_eq_left (Nat.le_sub_one_of_lt (hMono.trans_lt hFits)),
    min_eq_left (Nat.le_sub_one_of_lt hFits), hWait, le_rounded_iff hPos, RoundsInside]

theorem ticksToNanosecondsSaturating_mono {t t' : UInt64} (h : t ≤ t') (f : UInt32) :
    ticksToNanosecondsSaturating t f ≤ ticksToNanosecondsSaturating t' f := by
  by_cases hf : f = 0
  · simp [ticksToNanosecondsSaturating, hf]
  · rw [UInt64.le_iff_toNat_le, ticksToNanosecondsSaturating_eq _ hf,
      ticksToNanosecondsSaturating_eq _ hf]
    exact min_le_min_right _ (Nat.div_le_div_right (Nat.mul_le_mul_right _ h))

/-- A committed deadline lies one wait after the clock it was prepared at. -/
theorem SchedulerDeadlineAuthority.committed_deadline {a a' : SchedulerDeadlineAuthority}
    {decision : Decision} {now : UInt64} {prepared : PreparedSchedulerDeadline}
    {deadline : SchedulerDeadline} (hTimer : decision.timerNanoseconds ≠ 0)
    (hPrepare : a.prepare decision now = .ok prepared)
    (hCommit : a.commit prepared = (a', .ok deadline)) :
    a'.current = deadline ∧ deadline.active = true ∧
      deadline.absoluteNanoseconds.toNat = now.toNat + decision.timerNanoseconds.toNat := by
  unfold prepare at hPrepare
  rw [if_neg hTimer] at hPrepare
  split_ifs at hPrepare with hOverflow
  cases hPrepare
  unfold commit at hCommit
  split_ifs at hCommit
  · cases hCommit
  cases hCommit
  refine ⟨rfl, rfl, ?_⟩
  rw [UInt64.lt_iff_toNat_lt, toNat_max_sub] at hOverflow
  have hNow := now.toNat_lt
  rw [UInt64.toNat_add, Nat.mod_eq_of_lt (by omega)]

/-- Both conversions round down exactly and keep order; and once a deadline is
committed at the clock of `counter` and the comparator is set for what is left,
its interrupt is never early exactly if the wait rounds inside the tick. -/
theorem timer_never_early_iff {f : UInt32} (hf : f ≠ 0) :
    (∀ n, nanosecondsToTicks n f = if n.toNat * f.toNat / 10 ^ 9 < 2 ^ 64 then
      .ok (UInt64.ofNat (n.toNat * f.toNat / 10 ^ 9))
      else .error (kernelError TimerErrors.timerOutOfRange)) ∧
    (∀ t, (ticksToNanosecondsSaturating t f).toNat =
      min (t.toNat * 10 ^ 9 / f.toNat) (2 ^ 64 - 1)) ∧
    (∀ n n' t t', n ≤ n' → nanosecondsToTicks n f = .ok t → nanosecondsToTicks n' f = .ok t' →
      t ≤ t') ∧
    (∀ t t', t ≤ t' → ticksToNanosecondsSaturating t f ≤ ticksToNanosecondsSaturating t' f) ∧
    ∀ (a a' : SchedulerDeadlineAuthority) (decision : Decision) (counter : UInt64)
      (prepared : PreparedSchedulerDeadline) (deadline : SchedulerDeadline)
      (before armed : Comparator), decision.timerNanoseconds ≠ 0 →
      a.prepare decision (machineMonotonicNanoseconds f counter) = .ok prepared →
      a.commit prepared = (a', .ok deadline) →
      machineSetTimer f counter before decision.timerNanoseconds = (armed, .ok ()) →
      armed.value.toNat * 10 ^ 9 / f.toNat < 2 ^ 64 →
      ((∀ read, armed.value ≤ read →
          a'.acceptInterrupt deadline (machineMonotonicNanoseconds f read) = .ok ()) ↔
        RoundsInside f counter decision.timerNanoseconds) := by
  refine ⟨fun n => nanosecondsToTicks_eq n hf, fun t => ticksToNanosecondsSaturating_eq t hf, ?_,
    fun t t' h => ticksToNanosecondsSaturating_mono h f, ?_⟩
  · intro n n' t t' hLe h h'
    rw [nanosecondsToTicks_eq _ hf] at h h'
    split_ifs at h h' with hn hn'
    cases h
    cases h'
    rw [UInt64.le_iff_toNat_le, UInt64.toNat_ofNat', UInt64.toNat_ofNat', Nat.mod_eq_of_lt hn,
      Nat.mod_eq_of_lt hn']
    exact Nat.div_le_div_right (Nat.mul_le_mul_right _ hLe)
  · intro a a' decision counter prepared deadline before armed hTimer hPrepare hCommit hArm hFits
    obtain ⟨hCur, hActive, hAbsolute⟩ := a.committed_deadline hTimer hPrepare hCommit
    unfold machineSetTimer at hArm
    split at hArm
    · cases hArm
    rename_i ticks hTicks
    split_ifs at hArm with hOverflow
    · cases hArm
    cases hArm
    have hCounter := counter.toNat_lt
    rw [UInt64.lt_iff_toNat_lt, toNat_max_sub] at hOverflow
    have hRoom : counter.toNat + ticks.toNat < 2 ^ 64 := by omega
    rw [UInt64.toNat_add, Nat.mod_eq_of_lt hRoom] at hFits
    rw [← deadline_le_iff hf hTicks hRoom hFits, ← machineMonotonicNanoseconds, ← hAbsolute]
    have hAccept : ∀ now, a'.acceptInterrupt deadline now = .ok () ↔
        deadline.absoluteNanoseconds ≤ now := by
      intro now
      simp [acceptInterrupt, hCur, hActive]
    simp only [hAccept]
    constructor
    · intro h
      exact h _ (UInt64.le_refl _)
    · intro h now hNow
      exact UInt64.le_trans (UInt64.le_iff_toNat_le.mpr h)
        (ticksToNanosecondsSaturating_mono hNow f)

/-- What is committed for a wait of one nanosecond, five after boot. -/
def nextNanosecond : SchedulerDeadline :=
  { generation := 2, absoluteNanoseconds := 6, active := true }

/-- At a tick a nanosecond nothing is lost. -/
theorem nanosecond_ticks_never_early :
    ({ generation := 2, current := nextNanosecond } : SchedulerDeadlineAuthority).acceptInterrupt
      nextNanosecond (machineMonotonicNanoseconds 1000000000 6) = .ok () :=
  have hFrequency : (1000000000 : UInt32) ≠ 0 := by decide
  ((timer_never_early_iff hFrequency).2.2.2.2 {} _ { timerNanoseconds := 1 } 5
    { deadline := nextNanosecond, baseGeneration := 1 } nextNanosecond {}
    { value := 6, enabled := true } (by decide) (by decide) rfl (by decide) (by decide)).mpr
    (by rw [RoundsInside]; decide) 6 (by decide)

/-- One tick a second, and a wait of one nanosecond: the comparator is met at
once, and the interrupt is refused as early. -/
theorem one_nanosecond_early :
    ∃ (a : SchedulerDeadlineAuthority) (deadline : SchedulerDeadline) (armed : Comparator),
      ({} : SchedulerDeadlineAuthority).prepare { timerNanoseconds := 1 }
          (machineMonotonicNanoseconds 1 0) = .ok { deadline, baseGeneration := 1 } ∧
        commit {} { deadline, baseGeneration := 1 } = (a, .ok deadline) ∧
        machineSetTimer 1 0 {} 1 = (armed, .ok ()) ∧
        ticksToNanosecondsSaturating armed.value 1 < ticksToNanosecondsSaturating 0 1 + 1 ∧
        a.acceptInterrupt deadline (machineMonotonicNanoseconds 1 armed.value) =
          .error (kernelError SchedulerDeadlineErrors.early) :=
  ⟨_, { generation := 2, absoluteNanoseconds := 1, active := true }, _, by decide, rfl, rfl,
    by decide, by decide⟩

end Enml.OsKernel
