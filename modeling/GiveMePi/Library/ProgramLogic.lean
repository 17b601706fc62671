import Mathlib.Tactic.Common

/-! # Specifications of programs with a state and exceptions

A program over a state either returns or throws, and leaves a state in both cases. Its specification
is a precondition, a condition on what it returns and one on what it throws. -/

namespace GiveMePi.Library

universe u

variable {ε σ α β : Type u}

/-- From every state with `pre`, the program returns with `post` or throws with `fail`. -/
def Meets (pre : σ → Prop) (program : EStateM ε σ α) (post : α → σ → Prop)
    (fail : ε → σ → Prop) : Prop :=
  ∀ s, pre s → match program s with
    | .ok a s' => post a s'
    | .error e s' => fail e s'

namespace Meets

variable {pre pre' : σ → Prop} {program : EStateM ε σ α} {post post' : α → σ → Prop}
  {fail fail' : ε → σ → Prop}

/-- The rule of consequence. -/
theorem consequence (h : Meets pre program post fail) (hpre : ∀ s, pre' s → pre s)
    (hpost : ∀ a s, post a s → post' a s) (hfail : ∀ e s, fail e s → fail' e s) :
    Meets pre' program post' fail' := by
  intro s hs
  have := h s (hpre s hs)
  cases hrun : program s with
  | ok a s' =>
      rw [hrun] at this
      exact hpost a s' this
  | error e s' =>
      rw [hrun] at this
      exact hfail e s' this

theorem strengthen (h : Meets pre program post fail) (hpre : ∀ s, pre' s → pre s) :
    Meets pre' program post fail :=
  h.consequence hpre (fun _ _ => id) (fun _ _ => id)

theorem weaken (h : Meets pre program post fail) (hpost : ∀ a s, post a s → post' a s) :
    Meets pre program post' fail :=
  h.consequence (fun _ => id) hpost (fun _ _ => id)

/-- A program meets the specification that promises nothing. -/
theorem any : Meets pre program (fun _ _ => True) (fun _ _ => True) := by
  intro s _
  cases program s <;> trivial

theorem pure {a : α} (h : ∀ s, pre s → post a s) :
    Meets pre (Pure.pure a : EStateM ε σ α) post fail :=
  fun s hs => h s hs

theorem throw {e : ε} (h : ∀ s, pre s → fail e s) :
    Meets pre (throw e : EStateM ε σ α) post fail :=
  fun s hs => h s hs

/-- The rule of sequence. -/
theorem bind {next : α → EStateM ε σ β} {post' : β → σ → Prop}
    (h : Meets pre program post fail) (hnext : ∀ a, Meets (post a) (next a) post' fail) :
    Meets pre (program >>= next) post' fail := by
  intro s hs
  have := h s hs
  simp only [Bind.bind, EStateM.bind]
  cases hrun : program s with
  | ok a s' =>
      rw [hrun] at this
      exact hnext a s' this
  | error e s' =>
      rw [hrun] at this
      exact this

/-- The rule of sequence, the condition between the two programs given. -/
theorem bind_of {next : α → EStateM ε σ β} {post' : β → σ → Prop} (middle : α → σ → Prop)
    (h : Meets pre program middle fail) (hnext : ∀ a, Meets (middle a) (next a) post' fail) :
    Meets pre (program >>= next) post' fail :=
  h.bind hnext

theorem ite {condition : Prop} [Decidable condition] {other : EStateM ε σ α}
    (hpos : condition → Meets pre program post fail)
    (hneg : ¬ condition → Meets pre other post fail) :
    Meets pre (if condition then program else other) post fail := by
  split
  · next h => exact hpos h
  · next h => exact hneg h

/-- A fact that does not depend on the state is used for the whole program. -/
theorem of_pre {fact : Prop} (h : fact → Meets pre program post fail) :
    Meets (fun s => fact ∧ pre s) program post fail :=
  fun s hs => h hs.1 s hs.2

theorem exists_pre {ι : Sort*} {pre : ι → σ → Prop}
    (h : ∀ i, Meets (pre i) program post fail) :
    Meets (fun s => ∃ i, pre i s) program post fail :=
  fun s ⟨i, hs⟩ => h i s hs

/-- Two specifications of one program hold together. -/
theorem and (h : Meets pre program post fail) (h' : Meets pre' program post' fail') :
    Meets (fun s => pre s ∧ pre' s) program (fun a s => post a s ∧ post' a s)
      (fun e s => fail e s ∧ fail' e s) := by
  intro s hs
  have hfirst := h s hs.1
  have hsecond := h' s hs.2
  cases hrun : program s with
  | ok a s' =>
      rw [hrun] at hfirst hsecond
      exact ⟨hfirst, hsecond⟩
  | error e s' =>
      rw [hrun] at hfirst hsecond
      exact ⟨hfirst, hsecond⟩

/-- The rule of a loop over a list: the invariant speaks of the elements done and to do. -/
theorem forM {elements : List α} {body : α → EStateM ε σ PUnit}
    (invariant : List α → List α → σ → Prop)
    (hbody : ∀ before x after, elements = before ++ x :: after →
      Meets (invariant before (x :: after)) (body x)
        (fun _ => invariant (before ++ [x]) after) fail) :
    Meets (invariant [] elements) (ForM.forM elements body) (fun _ => invariant elements []) fail := by
  suffices h : ∀ rest before, elements = before ++ rest →
      Meets (invariant before rest) (ForM.forM rest body) (fun _ => invariant elements []) fail from
    h elements [] rfl
  intro rest
  induction rest with
  | nil =>
      intro before heq
      rw [List.append_nil] at heq
      rw [List.forM_nil, heq]
      exact pure fun _ => id
  | cons x rest ih =>
      intro before heq
      rw [List.forM_cons]
      exact bind (hbody before x rest heq)
        fun _ => ih (before ++ [x]) (by simpa using heq)

end Meets

end GiveMePi.Library

/-! ## Watched runs

A program is watched when every state it leaves is recorded. What its specification promises of the
states it leaves then holds of all states recorded in a run of many such programs. -/

namespace GiveMePi.Library

universe u

variable {ε σ α : Type u}

/-- A state and the states recorded so far, the latest first. -/
structure Watched (σ : Type u) where
  state : σ
  history : List σ

namespace Watched

/-- The program, with the state it leaves recorded. -/
def watch (program : EStateM ε σ α) : EStateM ε (Watched σ) α := fun watched =>
  match program watched.state with
  | .ok a s => .ok a ⟨s, s :: watched.history⟩
  | .error e s => .error e ⟨s, s :: watched.history⟩

/-- A change of the state, with the new state recorded. -/
def update (f : σ → σ) (watched : Watched σ) : Watched σ where
  state := f watched.state
  history := f watched.state :: watched.history

/-- The state has `now`, and every recorded one `always`. -/
structure Sees (always now : σ → Prop) (watched : Watched σ) : Prop where
  now : now watched.state
  history : ∀ s ∈ watched.history, always s

variable {always pre pre' : σ → Prop} {program : EStateM ε σ α} {post : α → σ → Prop}
  {fail : ε → σ → Prop} {watched : Watched σ}

theorem Sees.imp (h : Sees always pre watched) (himp : ∀ s, pre s → pre' s) :
    Sees always pre' watched :=
  ⟨himp _ h.now, h.history⟩

theorem Sees.update {f : σ → σ} (h : Sees always pre watched) (hf : ∀ s, pre s → pre' (f s))
    (halways : ∀ s, pre' s → always s) : Sees always pre' (watched.update f) :=
  ⟨hf _ h.now, List.forall_mem_cons.mpr ⟨halways _ (hf _ h.now), h.history⟩⟩

/-- A watched program keeps its specification. -/
theorem watch_meets (h : Meets pre program post fail) (hpost : ∀ a s, post a s → always s)
    (hfail : ∀ e s, fail e s → always s) :
    Meets (Sees always pre) (watch program) (fun a => Sees always (post a))
      (fun e => Sees always (fail e)) := by
  intro watched hwatched
  have hresult := h watched.state hwatched.now
  rw [watch]
  cases hrun : program watched.state with
  | ok a s =>
      rw [hrun] at hresult
      exact ⟨hresult, List.forall_mem_cons.mpr ⟨hpost a s hresult, hwatched.history⟩⟩
  | error e s =>
      rw [hrun] at hresult
      exact ⟨hresult, List.forall_mem_cons.mpr ⟨hfail e s hresult, hwatched.history⟩⟩

end Watched

end GiveMePi.Library

/-! ## Runs of programs with a state and exceptions

What the operations of such a program do to a state, as rules for rewriting. -/

namespace GiveMePi.Library.Program

universe u

variable {ε σ α β : Type u} {program : EStateM ε σ α} {next : α → EStateM ε σ β} {s s' : σ}

theorem bind_of_ok {a : α} (h : program s = .ok a s') : (program >>= next) s = next a s' := by
  simp only [Bind.bind, EStateM.bind, h]

theorem bind_of_error {e : ε} (h : program s = .error e s') :
    (program >>= next) s = .error e s' := by
  simp only [Bind.bind, EStateM.bind, h]

/-- A sequence returns exactly when both its programs do. -/
theorem bind_eq_ok {b : β} :
    (program >>= next) s = .ok b s' ↔ ∃ a middle, program s = .ok a middle ∧
      next a middle = .ok b s' := by
  cases hrun : program s with
  | ok a middle => simp [bind_of_ok hrun]
  | error e middle => simp [bind_of_error hrun]

/-- A sequence throws exactly when one of its programs does. -/
theorem bind_eq_error {e : ε} :
    (program >>= next) s = .error e s' ↔ program s = .error e s' ∨
      ∃ a middle, program s = .ok a middle ∧ next a middle = .error e s' := by
  cases hrun : program s with
  | ok a middle => simp [bind_of_ok hrun]
  | error e middle => simp [bind_of_error hrun]

@[simp] theorem pure_apply (a : α) : (pure a : EStateM ε σ α) s = .ok a s := rfl

@[simp] theorem throw_apply (e : ε) : (throw e : EStateM ε σ α) s = .error e s := rfl

@[simp] theorem get_bind (next : σ → EStateM ε σ β) : (get >>= next) s = next s s := rfl

@[simp] theorem set_apply (s' : σ) : (set s' : EStateM ε σ PUnit) s = .ok ⟨⟩ s' := rfl

@[simp] theorem modify_apply (f : σ → σ) : (modify f : EStateM ε σ PUnit) s = .ok ⟨⟩ (f s) := rfl

@[simp] theorem set_bind (s' : σ) (next : PUnit → EStateM ε σ β) :
    (set s' >>= next) s = next ⟨⟩ s' := rfl

@[simp] theorem modify_bind (f : σ → σ) (next : PUnit → EStateM ε σ β) :
    (modify f >>= next) s = next ⟨⟩ (f s) := rfl

@[simp] theorem throw_bind (e : ε) (next : α → EStateM ε σ β) :
    ((throw e : EStateM ε σ α) >>= next) s = .error e s := rfl

@[simp] theorem forM_nil (body : α → EStateM ε σ PUnit) : ([] : List α).forM body s = .ok ⟨⟩ s := rfl

theorem forM_cons (a : α) (rest : List α) (body : α → EStateM ε σ PUnit) :
    (a :: rest).forM body s = (body a >>= fun _ => rest.forM body) s := rfl

/-- The state that a program leaves, whether it returns or throws. -/
def stateAfter (program : EStateM ε σ α) (s : σ) : σ :=
  match program s with
  | .ok _ s' => s'
  | .error _ s' => s'

/-- The end of a program in another state. -/
def mapState {τ : Type u} (f : σ → τ) : EStateM.Result ε σ α → EStateM.Result ε τ α
  | .ok a s => .ok a (f s)
  | .error e s => .error e (f s)

/-- The program does the same with a changed state. -/
def Commutes (f : σ → σ) (program : EStateM ε σ α) : Prop :=
  ∀ s, program (f s) = mapState f (program s)

namespace Commutes

variable {f : σ → σ} {other : EStateM ε σ α}

theorem pure (a : α) : Commutes f (Pure.pure a : EStateM ε σ α) :=
  fun _ => rfl

theorem throw (e : ε) : Commutes f (throw e : EStateM ε σ α) :=
  fun _ => rfl

theorem bind (h : Commutes f program) (hnext : ∀ a, Commutes f (next a)) :
    Commutes f (program >>= next) := by
  intro s
  cases hrun : program s with
  | ok a middle =>
      rw [bind_of_ok hrun, bind_of_ok (by rw [h s, hrun]; rfl), hnext a]
  | error e middle =>
      rw [bind_of_error hrun, bind_of_error (by rw [h s, hrun]; rfl)]
      rfl

/-- What is read of the state is used in a way that does not see the change. -/
theorem get_bind {next : σ → EStateM ε σ β} (hsame : ∀ s, next (f s) = next s)
    (h : ∀ seen, Commutes f (next seen)) : Commutes f (get >>= next) := by
  intro s
  rw [Program.get_bind, Program.get_bind, hsame s, h s]

theorem ite {condition : Prop} [Decidable condition] (h : Commutes f program)
    (hother : Commutes f other) : Commutes f (if condition then program else other) := by
  split
  · exact h
  · exact hother

end Commutes

/-- A loop over programs that return and keep a property of the state returns and keeps it. -/
theorem forM_returns {body : α → EStateM ε σ PUnit} {P : σ → Prop}
    (h : ∀ a s, P s → ∃ s', body a s = .ok ⟨⟩ s' ∧ P s') (elements : List α) {s : σ} (hs : P s) :
    ∃ s', elements.forM body s = .ok ⟨⟩ s' ∧ P s' := by
  induction elements generalizing s with
  | nil => exact ⟨s, rfl, hs⟩
  | cons a rest ih =>
      rcases h a s hs with ⟨middle, hbody, hmiddle⟩
      rcases ih hmiddle with ⟨s', hrest, hs'⟩
      exact ⟨s', by rw [forM_cons, bind_of_ok hbody, hrest], hs'⟩

end GiveMePi.Library.Program
