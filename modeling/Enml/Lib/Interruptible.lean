import Mathlib.Data.List.Basic

/-! Programs whose calls may fail or be stopped. What happens at each call is read
from a script: a failure is seen by the program, which can react to it, while a stop
is the end of the process, after which only the state is left. The number of calls a
program makes when nothing happens tells which of them an interruption hits. -/
namespace Interruptible

universe u

/-- What happens at a call. The extent says how far a call got that did not pass. -/
inductive Fault (ε : Type*) where
  | pass
  | fail (extent : Nat) (reported : ε)
  | stop (extent : Nat)

inductive Outcome (ε α : Type*) where
  | done (a : α)
  | failed (e : ε)
  | stopped

def Outcome.map {ε α β : Type*} (g : α → β) : Outcome ε α → Outcome ε β
  | .done a => .done (g a)
  | .failed e => .failed e
  | .stopped => .stopped

def Program (σ ε α : Type*) := σ → List (Fault ε) → σ × List (Fault ε) × Outcome ε α

namespace Program

variable {σ ε : Type*} {α β : Type u}

instance : Monad (Program σ ε) where
  pure a := fun s script => (s, script, .done a)
  bind x f := fun s script =>
    match x s script with
    | (t, rest, .done a) => f a t rest
    | (t, rest, .failed e) => (t, rest, .failed e)
    | (t, rest, .stopped) => (t, rest, .stopped)

/-- End with an error. -/
def fail (e : ε) : Program σ ε α := fun s script => (s, script, .failed e)

def require (condition : Bool) (e : ε) : Program σ ε Unit := fun s script =>
  (s, script, if condition then .done () else .failed e)

/-- One call. `pass` is what it does when nothing happens to it. -/
def call (pass : σ → σ × Except ε α) (failing : Nat → ε → σ → σ × ε) (stopping : Nat → σ → σ) :
    Program σ ε α := fun s script =>
  match script with
  | [] =>
    match pass s with
    | (t, .ok a) => (t, [], .done a)
    | (t, .error e) => (t, [], .failed e)
  | .pass :: rest =>
    match pass s with
    | (t, .ok a) => (t, rest, .done a)
    | (t, .error e) => (t, rest, .failed e)
  | .fail extent reported :: rest =>
    ((failing extent reported s).1, rest, .failed (failing extent reported s).2)
  | .stop extent :: rest => (stopping extent s, rest, .stopped)

/-- Run `handler` when `x` fails, and fail all the same. -/
def onFailure (x : Program σ ε α) (handler : Program σ ε Unit) : Program σ ε α := fun s script =>
  match x s script with
  | (t, rest, .done a) => (t, rest, .done a)
  | (t, rest, .stopped) => (t, rest, .stopped)
  | (t, rest, .failed e) =>
    match handler t rest with
    | (v, rest, .stopped) => (v, rest, .stopped)
    | (v, rest, _) => (v, rest, .failed e)

/-- Go on in either case. -/
def discard (x : Program σ ε Unit) : Program σ ε Unit := fun s script =>
  match x s script with
  | (t, rest, .stopped) => (t, rest, .stopped)
  | (t, rest, _) => (t, rest, .done ())

end Program

section

variable {ε : Type*}

/-- The first of the next `n` calls that does not pass. -/
def interruption : Nat → List (Fault ε) → Option (Nat × Fault ε)
  | 0, _ => none
  | _ + 1, [] => none
  | n + 1, .pass :: rest => (interruption n rest).map fun (i, fault) => (i + 1, fault)
  | _ + 1, fault :: _ => some (0, fault)

@[simp] theorem interruption_zero (script : List (Fault ε)) : interruption 0 script = none := by
  cases script <;> rfl

@[simp] theorem interruption_nil (n : Nat) : interruption n ([] : List (Fault ε)) = none := by
  cases n <;> rfl

theorem interruption_lt {n i : Nat} {script : List (Fault ε)} {fault : Fault ε}
    (h : interruption n script = some (i, fault)) : i < n := by
  induction n generalizing script i with
  | zero => simp at h
  | succ n ih =>
    cases script with
    | nil => cases h
    | cons head =>
      cases head with
      | pass =>
        rw [interruption, Option.map_eq_some_iff] at h
        obtain ⟨⟨j, fault'⟩, hRest, hSame⟩ := h
        cases hSame
        exact Nat.succ_lt_succ (ih hRest)
      | fail =>
        cases h
        exact Nat.succ_pos n
      | stop =>
        cases h
        exact Nat.succ_pos n

/-- The interruption is never a call that passes. -/
theorem interruption_ne_pass {n i : Nat} {script : List (Fault ε)} :
    interruption n script ≠ some (i, .pass) := by
  induction n generalizing script i with
  | zero => simp
  | succ n ih =>
    cases script with
    | nil => nofun
    | cons head =>
      cases head with
      | pass =>
        rw [interruption, Ne, Option.map_eq_some_iff]
        rintro ⟨⟨j, fault⟩, hRest, hSame⟩
        cases hSame
        exact ih hRest
      | fail => nofun
      | stop => nofun

theorem interruption_add (m n : Nat) (script : List (Fault ε)) :
    interruption (m + n) script = match interruption m script with
      | some hit => some hit
      | none => (interruption n (script.drop m)).map fun (i, fault) => (i + m, fault) := by
  induction m generalizing script with
  | zero => simp
  | succ m ih =>
    cases script with
    | nil => simp
    | cons head rest =>
      cases head with
      | pass =>
        rw [Nat.succ_add, interruption, interruption, ih, List.drop_succ_cons]
        cases interruption m rest with
        | some => rfl
        | none =>
          rw [Option.map_none, Option.map_map]
          rfl
      | fail =>
        rw [Nat.succ_add]
        rfl
      | stop =>
        rw [Nat.succ_add]
        rfl

end

namespace Program

variable {σ ε : Type*} {α β : Type u}

/-- The program has not come to its end. -/
def Cut (result : σ × List (Fault ε) × Outcome ε α) : Prop := ∀ a, result.2.2 ≠ .done a

/-- From `s` the program makes `n` calls and ends in `t` with `a`, unless one of them
does not pass. When the call `i` fails, `F i` holds of what is left; when it is
stopped, `S i` does. -/
structure Runs (x : Program σ ε α) (s : σ) (n : Nat) (t : σ) (a : α) (F S : Nat → σ → Prop) :
    Prop where
  passed : ∀ script, interruption n script = none → x s script = (t, script.drop n, .done a)
  failed : ∀ script i extent e, interruption n script = some (i, .fail extent e) →
    F i (x s script).1 ∧ Cut (x s script)
  stopped : ∀ script i extent, interruption n script = some (i, .stop extent) →
    S i (x s script).1 ∧ (x s script).2.2 = .stopped

variable {x : Program σ ε α} {f : α → Program σ ε β} {s t v : σ} {m n : Nat} {a : α} {b : β}
  {F G S : Nat → σ → Prop}

theorem Runs.weaken {T : Nat → σ → Prop} (h : Runs x s n t a F S)
    (hF : ∀ i w, i < n → F i w → G i w) (hS : ∀ i w, i < n → S i w → T i w) :
    Runs x s n t a G T where
  passed := h.passed
  failed script i extent e hHit :=
    have hFailed := h.failed script i extent e hHit
    ⟨hF i _ (interruption_lt hHit) hFailed.1, hFailed.2⟩
  stopped script i extent hHit :=
    have hStopped := h.stopped script i extent hHit
    ⟨hS i _ (interruption_lt hHit) hStopped.1, hStopped.2⟩

theorem runs_pure (a : α) (s : σ) : Runs (pure a : Program σ ε α) s 0 s a F S where
  passed _ _ := rfl
  failed _ _ _ _ hHit := by simp at hHit
  stopped _ _ _ hHit := by simp at hHit

theorem runs_require {condition : Bool} {e : ε} (h : condition = true) (s : σ) :
    Runs (require condition e : Program σ ε Unit) s 0 s () F S where
  passed _ _ := by rw [require, if_pos h]; rfl
  failed _ _ _ _ hHit := by simp at hHit
  stopped _ _ _ hHit := by simp at hHit

variable {failing : Nat → ε → σ → σ × ε} {pass : σ → σ × Except ε α} {stopping : Nat → σ → σ}

theorem runs_call (hPass : pass s = (t, .ok a)) (hFailing : ∀ extent e, F 0 (failing extent e s).1)
    (hStopping : ∀ extent, S 0 (stopping extent s)) :
    Runs (call pass failing stopping) s 1 t a F S := by
  refine ⟨?_, ?_, ?_⟩
  · intro script hNone
    cases script with
    | nil => simp only [call, hPass, List.drop_nil]
    | cons head =>
      cases head with
      | pass => simp only [call, hPass, List.drop_succ_cons, List.drop_zero]
      | fail => cases hNone
      | stop => cases hNone
  · intro script i extent e hHit
    cases script with
    | nil => cases hHit
    | cons head =>
      cases head with
      | pass => simp [interruption] at hHit
      | fail =>
        cases hHit
        exact ⟨hFailing _ _, nofun⟩
      | stop => cases hHit
  · intro script i extent hHit
    cases script with
    | nil => cases hHit
    | cons head =>
      cases head with
      | pass => simp [interruption] at hHit
      | fail => cases hHit
      | stop =>
        cases hHit
        exact ⟨hStopping _, rfl⟩

variable {script : List (Fault ε)} {rest : List (Fault ε)}

theorem bind_of_done (h : x s script = (t, rest, .done a)) : (x >>= f) s script = f a t rest := by
  show (match x s script with
    | (t, rest, .done a) => f a t rest
    | (t, rest, .failed e) => (t, rest, .failed e)
    | (t, rest, .stopped) => (t, rest, .stopped)) = _
  rw [h]

theorem bind_of_stopped (h : x s script = (t, rest, .stopped)) :
    (x >>= f) s script = (t, rest, .stopped) := by
  show (match x s script with
    | (t, rest, .done a) => f a t rest
    | (t, rest, .failed e) => (t, rest, .failed e)
    | (t, rest, .stopped) => (t, rest, .stopped)) = _
  rw [h]

theorem bind_pure_of {outcome : Outcome ε α} (h : x s script = (t, rest, outcome)) (g : α → β) :
    (x >>= fun a => pure (g a)) s script = (t, rest, outcome.map g) := by
  have hBind : (x >>= fun a => pure (g a)) s script = match x s script with
    | (t, rest, .done a) => (pure (g a) : Program σ ε β) t rest
    | (t, rest, .failed e) => (t, rest, .failed e)
    | (t, rest, .stopped) => (t, rest, .stopped) := rfl
  rw [hBind, h]
  cases outcome with
  | done | failed | stopped => rfl

/-- A sequence whose first part is cut is cut there. -/
theorem bind_of_cut (h : Cut (x s script)) :
    ((x >>= f) s script).1 = (x s script).1 ∧ Cut ((x >>= f) s script) ∧
      ((x s script).2.2 = .stopped → ((x >>= f) s script).2.2 = .stopped) := by
  have hBind : (x >>= f) s script = match x s script with
    | (t, rest, .done a) => f a t rest
    | (t, rest, .failed e) => (t, rest, .failed e)
    | (t, rest, .stopped) => (t, rest, .stopped) := rfl
  rw [hBind]
  generalize x s script = result at h
  obtain ⟨t, rest, outcome⟩ := result
  cases outcome with
  | done a => exact absurd rfl (h a)
  | failed => exact ⟨rfl, nofun, nofun⟩
  | stopped => exact ⟨rfl, nofun, fun _ => rfl⟩

theorem Runs.cut (h : Runs x s n t a F S) {hit : Nat × Fault ε}
    (hHit : interruption n script = some hit) : Cut (x s script) := by
  obtain ⟨i, fault⟩ := hit
  cases fault with
  | pass => exact absurd hHit interruption_ne_pass
  | fail extent e => exact (h.failed script i extent e hHit).2
  | stop extent =>
    intro a hDone
    rw [(h.stopped script i extent hHit).2] at hDone
    cases hDone

/-- The calls of a sequence are those of its parts. -/
theorem Runs.bind (hFirst : Runs x s m t a F S)
    (hNext : Runs (f a) t n v b (fun i => F (i + m)) fun i => S (i + m)) :
    Runs (x >>= f) s (m + n) v b F S := by
  refine ⟨?_, ?_, ?_⟩
  · intro script hNone
    rw [interruption_add] at hNone
    cases hHit : interruption m script with
    | some =>
      rw [hHit] at hNone
      cases hNone
    | none =>
      rw [hHit] at hNone
      rw [bind_of_done (hFirst.passed script hHit),
        hNext.passed _ (Option.map_eq_none_iff.mp hNone), List.drop_drop]
  · intro script i extent e hSome
    rw [interruption_add] at hSome
    cases hHit : interruption m script with
    | some =>
      rw [hHit] at hSome
      cases hSome
      obtain ⟨hState, hCut⟩ := hFirst.failed script i extent e hHit
      obtain ⟨hSame, hCut, -⟩ := bind_of_cut (f := f) hCut
      rw [hSame]
      exact ⟨hState, hCut⟩
    | none =>
      rw [hHit] at hSome
      obtain ⟨⟨j, fault⟩, hRest, hSame⟩ := Option.map_eq_some_iff.mp hSome
      cases hSame
      rw [bind_of_done (hFirst.passed script hHit)]
      exact hNext.failed _ j extent e hRest
  · intro script i extent hSome
    rw [interruption_add] at hSome
    cases hHit : interruption m script with
    | some =>
      rw [hHit] at hSome
      cases hSome
      obtain ⟨hState, hEnd⟩ := hFirst.stopped script i extent hHit
      obtain ⟨hSame, -, hStopped⟩ := bind_of_cut (f := f) (hFirst.cut hHit)
      rw [hSame]
      exact ⟨hState, hStopped hEnd⟩
    | none =>
      rw [hHit] at hSome
      obtain ⟨⟨j, fault⟩, hRest, hSame⟩ := Option.map_eq_some_iff.mp hSome
      cases hSame
      rw [bind_of_done (hFirst.passed script hHit)]
      exact hNext.stopped _ j extent hRest

variable {handler : Program σ ε Unit}

/-- A handler turns what a failure leaves into what is wanted. It does not run when a
stop has come between. -/
theorem Runs.onFailure (h : Runs x s n t a F S) (hLeft : ∀ i w, F i w → G i w)
    (hHandler : ∀ i w script, F i w → G i (handler w script).1) :
    Runs (x.onFailure handler) s n t a G S := by
  refine ⟨?_, ?_, ?_⟩
  · intro script hNone
    rw [Program.onFailure, h.passed script hNone]
  · intro script i extent e hHit
    obtain ⟨hState, hCut⟩ := h.failed script i extent e hHit
    unfold Program.onFailure
    generalize x s script = result at hState hCut
    obtain ⟨w, rest, outcome⟩ := result
    cases outcome with
    | done a => exact absurd rfl (hCut a)
    | stopped => exact ⟨hLeft i w hState, nofun⟩
    | failed =>
      have hAfter := hHandler i w rest hState
      dsimp only
      generalize handler w rest = result at hAfter
      obtain ⟨z, rest, outcome⟩ := result
      cases outcome with
      | done => exact ⟨hAfter, nofun⟩
      | failed => exact ⟨hAfter, nofun⟩
      | stopped => exact ⟨hAfter, nofun⟩
  · intro script i extent hHit
    obtain ⟨hState, hEnd⟩ := h.stopped script i extent hHit
    unfold Program.onFailure
    generalize x s script = result at hState hEnd
    obtain ⟨w, rest, outcome⟩ := result
    cases hEnd
    exact ⟨hState, rfl⟩

variable {P : σ → Prop} {Q : α → σ → Prop} {R : β → σ → Prop} {I : σ → Prop}

/-- From every state of `P` and under every script, the program ends in `Q` or is cut
in `I`. -/
structure Meets (P : σ → Prop) (x : Program σ ε α) (Q : α → σ → Prop) (I : σ → Prop) : Prop where
  ends : ∀ {s t script rest a}, P s → x s script = (t, rest, .done a) → Q a t
  cut : ∀ {s script}, P s → Cut (x s script) → I (x s script).1

theorem Meets.bind (h : Meets P x Q I) (hNext : ∀ a, Meets (Q a) (f a) R I) :
    Meets P (x >>= f) R I := by
  constructor
  · intro s t script rest b hs hDone
    cases hx : x s script with
    | mk v result =>
      obtain ⟨middle, outcome⟩ := result
      cases outcome with
      | done a =>
        rw [bind_of_done hx] at hDone
        exact (hNext a).ends (h.ends hs hx) hDone
      | failed =>
        have hCut : Cut (x s script) := by rw [hx]; nofun
        have hNever := (bind_of_cut (f := f) hCut).2.1
        rw [hDone] at hNever
        exact absurd rfl (hNever b)
      | stopped =>
        have hCut : Cut (x s script) := by rw [hx]; nofun
        have hNever := (bind_of_cut (f := f) hCut).2.1
        rw [hDone] at hNever
        exact absurd rfl (hNever b)
  · intro s script hs hCut
    by_cases hFirst : Cut (x s script)
    · rw [(bind_of_cut (f := f) hFirst).1]
      exact h.cut hs hFirst
    cases hx : x s script with
    | mk v result =>
      obtain ⟨middle, outcome⟩ := result
      cases outcome with
      | done a =>
        rw [bind_of_done hx] at hCut ⊢
        exact (hNext a).cut (h.ends hs hx) hCut
      | failed => exact absurd (by rw [hx]; nofun) hFirst
      | stopped => exact absurd (by rw [hx]; nofun) hFirst

theorem Meets.weaken {T : α → σ → Prop} {J : σ → Prop} (h : Meets P x Q I)
    (hEnds : ∀ a s, Q a s → T a s) (hCut : ∀ s, I s → J s) : Meets P x T J where
  ends hs hDone := hEnds _ _ (h.ends hs hDone)
  cut hs hStopped := hCut _ (h.cut hs hStopped)

theorem meets_pure {a : α} (h : ∀ s, P s → Q a s) : Meets P (pure a : Program σ ε α) Q I where
  ends hs hDone := by
    cases hDone
    exact h _ hs
  cut hs hCut := absurd rfl (hCut a)

theorem meets_fail {e : ε} (h : ∀ s, P s → I s) : Meets P (fail e : Program σ ε α) Q I where
  ends _ hDone := by cases hDone
  cut hs _ := h _ hs

/-- What holds at the end and at every cut holds whatever happens. -/
theorem Meets.always (h : Meets P x (fun _ => I) I) {script : List (Fault ε)} (hs : P s) :
    I (x s script).1 := by
  have hCut : Cut (x s script) → I (x s script).1 := h.cut hs
  cases hx : x s script with
  | mk t result =>
    obtain ⟨rest, outcome⟩ := result
    rw [hx] at hCut
    cases outcome with
    | done => exact h.ends hs hx
    | failed => exact hCut nofun
    | stopped => exact hCut nofun

/-- A handler that keeps what a cut leaves. -/
theorem Meets.onFailure (h : Meets P x Q I)
    (hHandler : Meets I handler (fun _ => I) I) : Meets P (x.onFailure handler) Q I := by
  constructor
  · intro s t script rest a hs hDone
    unfold Program.onFailure at hDone
    cases hx : x s script with
    | mk v result =>
      obtain ⟨middle, outcome⟩ := result
      rw [hx] at hDone
      cases outcome with
      | done =>
        cases hDone
        exact h.ends hs hx
      | stopped => cases hDone
      | failed =>
        dsimp only at hDone
        generalize handler v middle = reply at hDone
        obtain ⟨w, left, outcome⟩ := reply
        cases outcome <;> cases hDone
  · intro s script hs hCut
    have hFirst : Cut (x s script) → I (x s script).1 := h.cut hs
    unfold Program.onFailure at hCut ⊢
    generalize x s script = result at hFirst hCut ⊢
    obtain ⟨v, middle, outcome⟩ := result
    cases outcome with
    | done b => exact absurd rfl (hCut b)
    | stopped => exact hFirst nofun
    | failed =>
      have hAfter : I (handler v middle).1 := hHandler.always (hFirst nofun)
      dsimp only
      generalize handler v middle = reply at hAfter
      obtain ⟨w, left, outcome⟩ := reply
      cases outcome <;> exact hAfter

/-- A condition that does not depend on the state may be assumed. -/
theorem meets_of_fact {fact : Prop} (h : fact → Meets P x Q I) :
    Meets (fun s => fact ∧ P s) x Q I where
  ends hs hDone := (h hs.1).ends hs.2 hDone
  cut hs hCut := (h hs.1).cut hs.2 hCut

theorem meets_require {condition : Bool} {e : ε} (hRefused : ∀ s, P s → I s) :
    Meets P (require condition e) (fun _ s => condition = true ∧ P s) I := by
  cases condition with
  | true =>
    refine ⟨?_, ?_⟩
    · intro s t script rest a hs hDone
      cases hDone
      exact ⟨rfl, hs⟩
    · intro s script hs hCut
      exact absurd rfl (hCut ())
  | false =>
    refine ⟨nofun, ?_⟩
    intro s script hs _
    exact hRefused s hs

/-- What a call that passes comes to. -/
def settled (rest : List (Fault ε)) : σ × Except ε α → σ × List (Fault ε) × Outcome ε α
  | (t, .ok a) => (t, rest, .done a)
  | (t, .error e) => (t, rest, .failed e)

theorem call_cases (pass : σ → σ × Except ε α) (failing : Nat → ε → σ → σ × ε)
    (stopping : Nat → σ → σ) (s : σ) (script : List (Fault ε)) :
    (∃ rest, call pass failing stopping s script = settled rest (pass s)) ∨
      (∃ rest extent e, call pass failing stopping s script =
        ((failing extent e s).1, rest, .failed (failing extent e s).2)) ∨
      ∃ rest extent, call pass failing stopping s script = (stopping extent s, rest, .stopped) := by
  cases script with
  | nil => exact .inl ⟨[], rfl⟩
  | cons head rest =>
    cases head with
    | pass => exact .inl ⟨rest, rfl⟩
    | fail extent e => exact .inr (.inl ⟨rest, extent, e, rfl⟩)
    | stop extent => exact .inr (.inr ⟨rest, extent, rfl⟩)

/-- What one call can do. -/
theorem meets_call (hOk : ∀ s t a, P s → pass s = (t, .ok a) → Q a t)
    (hErr : ∀ s t e, P s → pass s = (t, .error e) → I t)
    (hFailing : ∀ s extent e, P s → I (failing extent e s).1)
    (hStopping : ∀ s extent, P s → I (stopping extent s)) :
    Meets P (call pass failing stopping) Q I := by
  constructor
  · intro s t script rest a hs hDone
    rcases call_cases pass failing stopping s script with
      ⟨rest, hCall⟩ | ⟨rest, extent, e, hCall⟩ | ⟨rest, extent, hCall⟩
    · rw [hCall] at hDone
      cases hPass : pass s with
      | mk v result =>
        rw [hPass] at hDone
        cases result with
        | ok =>
          cases hDone
          exact hOk s _ _ hs hPass
        | error => cases hDone
    all_goals
      rw [hCall] at hDone
      cases hDone
  · intro s script hs hCut
    rcases call_cases pass failing stopping s script with
      ⟨rest, hCall⟩ | ⟨rest, extent, e, hCall⟩ | ⟨rest, extent, hCall⟩
    · rw [hCall] at hCut ⊢
      cases hPass : pass s with
      | mk v result =>
        rw [hPass] at hCut
        cases result with
        | ok b => exact absurd rfl (hCut b)
        | error e => exact hErr s v e hs hPass
    · rw [hCall]
      exact hFailing s extent e hs
    · rw [hCall]
      exact hStopping s extent hs

end Program

end Interruptible
