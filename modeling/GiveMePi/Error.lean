import Mathlib.Tactic.Common

/-! # Exceptions

The program reports failure by throwing standard exceptions. A function that may throw returns
`Except Error`, with the class of the exception and its text. -/

namespace GiveMePi

/-- The standard exception classes the program throws. -/
inductive ErrorKind where
  | invalidArgument
  | outOfRange
  | overflowError
  | lengthError
  | domainError
  | logicError
  | runtimeError
  | systemError
  | badOptionalAccess
deriving DecidableEq, Repr

/-- A thrown exception: its class and the text `what()` returns. -/
structure Error where
  kind : ErrorKind
  what : String
deriving DecidableEq, Repr

namespace Error

def invalidArgument (what : String) : Error := ⟨.invalidArgument, what⟩
def outOfRange (what : String) : Error := ⟨.outOfRange, what⟩
def overflowError (what : String) : Error := ⟨.overflowError, what⟩
def lengthError (what : String) : Error := ⟨.lengthError, what⟩
def domainError (what : String) : Error := ⟨.domainError, what⟩
def logicError (what : String) : Error := ⟨.logicError, what⟩
def runtimeError (what : String) : Error := ⟨.runtimeError, what⟩
def systemError (what : String) : Error := ⟨.systemError, what⟩
def badOptionalAccess : Error := ⟨.badOptionalAccess, "bad optional access"⟩

end Error

section Except

universe u v

variable {ε : Type u} {α β : Type v}

/-- A sequence of two computations returns exactly when both return. -/
theorem bind_eq_ok {x : Except ε α} {f : α → Except ε β} {b : β} :
    x >>= f = .ok b ↔ ∃ a, x = .ok a ∧ f a = .ok b := by
  cases x with
  | error e => simp [bind, Except.bind]
  | ok a => simp [bind, Except.bind]

@[simp] theorem ok_bind (a : α) (f : α → Except ε β) : (Except.ok a >>= f) = f a := rfl

@[simp] theorem error_bind (e : ε) (f : α → Except ε β) :
    ((Except.error e : Except ε α) >>= f) = .error e := rfl

@[simp] theorem pure_eq_ok (a : α) : (pure a : Except ε α) = .ok a := rfl

@[simp] theorem throw_eq_error (e : ε) : (throw e : Except ε α) = .error e := rfl

end Except

/-- `if (condition) throw error;` -/
def throwIf (condition : Prop) [Decidable condition] (error : Error) : Except Error Unit :=
  if condition then throw error else pure ()

theorem throwIf_eq_ok {condition : Prop} [Decidable condition] {error : Error} {u : Unit} :
    throwIf condition error = .ok u ↔ ¬ condition := by
  rw [throwIf]
  split <;> simp [*]

@[simp] theorem throwIf_neg {condition : Prop} [Decidable condition] {error : Error}
    (h : ¬ condition) : throwIf condition error = .ok () :=
  throwIf_eq_ok.mpr h

@[simp] theorem throwIf_pos {condition : Prop} [Decidable condition] {error : Error}
    (h : condition) : throwIf condition error = .error error := by
  rw [throwIf, if_pos h]
  rfl

/-- A check of every element passes exactly when it passes on each. -/
theorem forM_eq_ok {α : Type} {check : α → Except Error Unit} {elements : List α} {u : Unit} :
    elements.forM check = .ok u ↔ ∀ a ∈ elements, check a = .ok () := by
  induction elements with
  | nil => simp
  | cons a rest ih =>
      change (check a >>= fun _ => rest.forM check) = _ ↔ _
      rw [bind_eq_ok, List.forall_mem_cons]
      constructor
      · intro h
        obtain ⟨_, ha, hrest⟩ := h
        exact ⟨ha, ih.mp hrest⟩
      · intro h
        exact ⟨(), h.1, ih.mpr h.2⟩

/-! ## Effects -/

/-- A computation on the state `σ` that may throw; the state it leaves outlives the exception. -/
abbrev Action (σ : Type) := EStateM Error σ

namespace Action

variable {σ α β : Type}

def ofExcept (x : Except Error α) : Action σ α := fun s =>
  match x with
  | .ok a => .ok a s
  | .error e => .error e s

instance : MonadLift (Except Error) (Action σ) := ⟨ofExcept⟩

/-- `try { … } catch (…) { … }` -/
def attempt (body : Action σ α) (handler : Error → Action σ α) : Action σ α := fun s =>
  match body s with
  | .ok a s' => .ok a s'
  | .error e s' => handler e s'

@[simp] theorem ofExcept_ok (a : α) : (ofExcept (.ok a) : Action σ α) = pure a := rfl

@[simp] theorem ofExcept_error (e : Error) :
    (ofExcept (.error e) : Action σ α) = throw e := rfl

theorem ofExcept_eq_ok {x : Except Error α} {a : α} {s s' : σ} :
    (ofExcept x : Action σ α) s = .ok a s' ↔ x = .ok a ∧ s' = s := by
  cases x with
  | ok value => simp [ofExcept, eq_comm]
  | error e => simp [ofExcept]

theorem ofExcept_eq_error {x : Except Error α} {e : Error} {s s' : σ} :
    (ofExcept x : Action σ α) s = .error e s' ↔ x = .error e ∧ s' = s := by
  cases x with
  | ok value => simp [ofExcept]
  | error e => simp [ofExcept, eq_comm]

@[simp] theorem liftM_eq (x : Except Error α) : (liftM x : Action σ α) = ofExcept x := rfl

end Action

end GiveMePi
