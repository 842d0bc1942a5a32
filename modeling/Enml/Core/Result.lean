import Mathlib.Data.UInt

/-! `os::core`: the error value every fallible operation returns. A call that
fails may still have written to its object, so the model keeps the object and
the result side by side instead of dropping one of them. -/
namespace Enml.Core

inductive ErrorDomain where
  | core | ipc | service | storage | package | security
  | key | display | ui | shell | kernel | image
  deriving DecidableEq

/-- What went wrong, as the domain that says so and its own code. -/
structure Error where
  domain : ErrorDomain := .core
  reserved : UInt16 := 0
  code : UInt32 := 0
  deriving DecidableEq

def makeError (domain : ErrorDomain) (code : UInt32) : Error := { domain, code }

abbrev Result (α : Type) := Except Error α

theorem bind_eq_ok_iff {ε α β : Type} {x : Except ε α} {f : α → Except ε β} {b : β} :
    x >>= f = .ok b ↔ ∃ a, x = .ok a ∧ f a = .ok b := by
  cases x with
  | error | ok => simp [bind, Except.bind]

theorem bind_ok {ε α β : Type} {x : Except ε α} {f : α → Except ε β} {b : β}
    (h : x >>= f = .ok b) : ∃ a, x = .ok a ∧ f a = .ok b :=
  bind_eq_ok_iff.mp h

theorem ok_bind {ε α β : Type} {x : Except ε α} {f : α → Except ε β} {a : α} {b : β}
    (hFirst : x = .ok a) (h : f a = .ok b) : x >>= f = .ok b :=
  bind_eq_ok_iff.mpr ⟨a, hFirst, h⟩

/-- A function that returned a value did not return early. -/
theorem guard_ok {ε α : Type} {c : Prop} [Decidable c] {e : ε} {x : Except ε α} {a : α}
    (h : (if c then .error e else x) = .ok a) : ¬c ∧ x = .ok a := by
  split_ifs at h with hGuard
  exact ⟨hGuard, h⟩

theorem check_eq_ok_iff {ε β : Type} {x : Except ε Unit} {f : Unit → Except ε β} {b : β} :
    x >>= f = .ok b ↔ x = .ok () ∧ f () = .ok b := by
  rw [bind_eq_ok_iff]
  exact ⟨fun ⟨(), h⟩ => h, fun h => ⟨(), h⟩⟩

theorem bind_ne_error {ε α β : Type} {x : Except ε α} {f : α → Except ε β} {e : ε}
    (hFirst : x ≠ .error e) (hRest : ∀ a, f a ≠ .error e) : x >>= f ≠ .error e := by
  cases x with
  | error => simpa [bind, Except.bind] using hFirst
  | ok a => exact hRest a

/-- A call on an object: the object it leaves behind, and its result. -/
def Call (σ α : Type) := σ → σ × Result α

namespace Call

variable {σ α β : Type}

def fail (e : Error) : Call σ α := fun s => (s, .error e)

instance : Monad (Call σ) where
  pure a := fun s => (s, .ok a)
  bind x f := fun s =>
    match x s with
    | (s, .ok a) => f a s
    | (s, .error e) => (s, .error e)

/-- A check that does not touch the object. -/
def ensure (condition : Bool) (e : Error) : Call σ Unit :=
  fun s => (s, if condition then .ok () else .error e)

/-- A check that has been made without the object. -/
def check (result : Result Unit) : Call σ Unit := fun s => (s, result)

@[simp] theorem pure_apply (a : α) (s : σ) : (pure a : Call σ α) s = (s, .ok a) := rfl

variable {x : Call σ α} {s t : σ} {a : α} {e : Error} {condition : Bool} {u : Unit}
  {result : Result Unit} {f : α → Call σ β}

theorem bind_of_ok (h : x s = (t, .ok a)) : (x >>= f) s = f a t := by
  show (match x s with | (s, .ok a) => f a s | (s, .error e) => (s, .error e)) = _
  rw [h]

theorem bind_of_error (h : x s = (t, .error e)) : (x >>= f) s = (t, .error e) := by
  show (match x s with | (s, .ok a) => f a s | (s, .error e) => (s, .error e)) = _
  rw [h]

/-- A sequence succeeds exactly if both parts do. -/
theorem bind_eq_ok_iff {b : β} :
    (x >>= f) s = (t, .ok b) ↔ ∃ u a, x s = (u, .ok a) ∧ f a u = (t, .ok b) := by
  cases hx : x s with
  | mk u result =>
    cases result with
    | error =>
      rw [bind_of_error hx]
      simp
    | ok a =>
      rw [bind_of_ok hx]
      constructor
      · intro h
        exact ⟨u, a, rfl, h⟩
      · rintro ⟨u', a', hSame, h⟩
        cases hSame
        exact h

theorem ensure_of_true (h : condition = true) : ensure condition e s = (s, .ok ()) := by
  rw [ensure, if_pos h]

theorem ensure_eq_ok_iff : ensure condition e s = (t, .ok u) ↔ t = s ∧ condition = true := by
  cases condition <;> simp [ensure, eq_comm]

theorem check_of_ok (h : result = .ok ()) : check result s = (s, .ok ()) := by rw [check, h]

theorem check_eq_ok_iff : check result s = (t, .ok u) ↔ t = s ∧ result = .ok () := by
  simp [check, eq_comm]

theorem pure_eq_ok_iff {b : α} : (pure a : Call σ α) s = (t, .ok b) ↔ t = s ∧ b = a := by
  simp [eq_comm]

end Call

/-- The kernel reports every failure in its own domain. -/
def kernelError (code : UInt32) : Error := makeError .kernel code

theorem kernelError_ne {α : Type} {a b : UInt32} (h : a ≠ b) :
    (.error (kernelError a) : Result α) ≠ .error (kernelError b) := by
  simpa [kernelError, makeError] using h

end Enml.Core
