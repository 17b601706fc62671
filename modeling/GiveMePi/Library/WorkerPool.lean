import GiveMePi.Library.TransitionSystem

/-! # Pools of workers

One thread hands jobs to a pool through a bounded queue and waits for their results. The workers take
the jobs in the order they came and do them piece by piece on a common memory, in any interleaving. -/

namespace GiveMePi.Library

/-! ## What cannot be avoided -/

section Inevitable

variable {σ τ : Type} {step : σ → σ → Prop} {step' : τ → τ → Prop} {P Q : σ → Prop}

/-- Every run from the state comes to the target, and none ends before. -/
inductive Inevitable (step : σ → σ → Prop) (P : σ → Prop) : σ → Prop where
  | now {s : σ} : P s → Inevitable step P s
  | later {s : σ} : (∃ s', step s s') → (∀ s', step s s' → Inevitable step P s') →
      Inevitable step P s

theorem Inevitable.mono {s : σ} (h : Inevitable step P s) (hle : ∀ s, P s → Q s) :
    Inevitable step Q s := by
  induction h with
  | now h => exact .now (hle _ h)
  | later hsome _ ih => exact .later hsome ih

/-- What is inevitable stays so until it has come. -/
theorem Inevitable.after {s s' : σ} (h : Inevitable step P s) (hP : ¬ P s) (hs : step s s') :
    Inevitable step P s' := by
  cases h with
  | now h => exact absurd h hP
  | later _ hall => exact hall s' hs

theorem Inevitable.of_stuck {s : σ} (h : Inevitable step P s) (hstuck : ∀ s', ¬ step s s') : P s := by
  cases h with
  | now h => exact h
  | later hsome _ =>
      rcases hsome with ⟨s', hs⟩
      exact absurd hs (hstuck s')

/-- So many steps of one schedule. -/
def advance (next : σ → Option σ) : ℕ → σ → σ
  | 0, s => s
  | n + 1, s =>
      match next s with
      | none => s
      | some s' => advance next n s'

theorem Inevitable.advance {next : σ → Option σ} (hnext : ∀ s s', next s = some s' → step s s')
    (hP : ∀ s s', next s = some s' → ¬ P s) (n : ℕ) {s : σ} (h : Inevitable step P s) :
    Inevitable step P (Library.advance next n s) := by
  induction n generalizing s with
  | zero => exact h
  | succ n ih =>
      rw [Library.advance]
      split
      · exact h
      · next s' hs => exact ih (h.after (hP s s' hs) (hnext s s' hs))

/-- A system that contains another one: as long as the inner one has not come to its target, the
outer one takes the steps of the inner one and no others. -/
theorem Inevitable.lift {R : τ → Prop} {Inv : σ → Prop} (embed : σ → τ)
    (hkeep : ∀ s s', Inv s → step s s' → Inv s')
    (htarget : ∀ s, Inv s → P s → Inevitable step' R (embed s))
    (hforward : ∀ s s', step s s' → step' (embed s) (embed s'))
    (hback : ∀ s t, ¬ P s → step' (embed s) t → ∃ s', t = embed s' ∧ step s s') {s : σ}
    (hinv : Inv s) (h : Inevitable step P s) : Inevitable step' R (embed s) := by
  induction h with
  | now h => exact htarget _ hinv h
  | @later s hsome _ ih =>
      by_cases hP : P s
      · exact htarget s hinv hP
      · rcases hsome with ⟨s', hs⟩
        refine .later ⟨embed s', hforward s s' hs⟩ fun t ht => ?_
        rcases hback s t hP ht with ⟨s'', rfl, hs''⟩
        exact ih s'' hs'' (hkeep s s'' hinv hs'')

end Inevitable

/-! ## The calling thread -/

/-- What the calling thread has still to do. Jobs are numbered from zero in the order they are handed
over. -/
inductive Caller (Job Result α : Type) where
  | done (value : α)
  | submit (job : Job) (rest : Caller Job Result α)
  | await (position : ℕ) (rest : Result → Caller Job Result α)

namespace Caller

variable {Job Result α : Type}

/-- The jobs that are handed over when the results are the given ones. -/
def jobs (results : ℕ → Result) : Caller Job Result α → List Job
  | done _ => []
  | submit job rest => job :: rest.jobs results
  | await position rest => (rest (results position)).jobs results

/-- What the thread returns when the results are the given ones. -/
def value (results : ℕ → Result) : Caller Job Result α → α
  | done value => value
  | submit _ rest => rest.value results
  | await position rest => (rest (results position)).value results

/-- The thread waits only for jobs that it has handed over and, if `all` of them, for each one before
it returns. -/
def Settles (all : Prop) : Caller Job Result α → ℕ → (ℕ → Prop) → Prop
  | done _, submitted, awaited => all → ∀ position < submitted, awaited position
  | submit _ rest, submitted, awaited => rest.Settles all (submitted + 1) awaited
  | await position rest, submitted, awaited =>
      position < submitted ∧
        ∀ result, (rest result).Settles all submitted fun other => other = position ∨ awaited other

theorem Settles.mono {all : Prop} {caller : Caller Job Result α} {submitted : ℕ}
    {awaited awaited' : ℕ → Prop} (h : caller.Settles all submitted awaited)
    (hle : ∀ position, awaited position → awaited' position) :
    caller.Settles all submitted awaited' := by
  induction caller generalizing submitted awaited awaited' with
  | done value => exact fun hall position hlt => hle position (h hall position hlt)
  | submit job rest ih => exact ih h hle
  | await position rest ih =>
      refine ⟨h.1, fun result => ih result (h.2 result) fun other hother => ?_⟩
      exact hother.imp_right (hle other)

end Caller

/-! ## Pools -/

/-- Where a job is. -/
inductive JobPlace (n : ℕ) (Phase Result : Type) where
  | queued
  | held (worker : Fin n) (phase : Phase)
  | finished (result : Result)

/-- What a worker does with a job: one piece after the other, and finitely many of them. -/
structure WorkerLoop (M Job Phase Result : Type) where
  start : Job → Phase
  piece : Phase → M → M × (Phase ⊕ Result)
  rank : Phase → ℕ
  rank_lt : ∀ phase memory phase', (piece phase memory).2 = .inl phase' → rank phase' < rank phase

/-- The jobs that have been handed over, each with its place. The queue holds those that are queued,
in their order. -/
structure Pool (n : ℕ) (M Job Phase Result α : Type) where
  memory : M
  jobs : List (Job × JobPlace n Phase Result)
  caller : Caller Job Result α

namespace Pool

variable {n capacity : ℕ} {M Job Phase Result α : Type} {loop : WorkerLoop M Job Phase Result}
  {all : Prop} {pool pool' : Pool n M Job Phase Result α}

def start (n : ℕ) (memory : M) (caller : Caller Job Result α) : Pool n M Job Phase Result α where
  memory := memory
  jobs := []
  caller := caller

def IsQueued (pool : Pool n M Job Phase Result α) (position : ℕ) : Prop :=
  ∃ job, pool.jobs[position]? = some (job, .queued)

def HasFinished (pool : Pool n M Job Phase Result α) (position : ℕ) : Prop :=
  ∃ job result, pool.jobs[position]? = some (job, .finished result)

def isQueued : Job × JobPlace n Phase Result → Bool
  | (_, .queued) => true
  | _ => false

/-- A job moves. -/
def put (pool : Pool n M Job Phase Result α) (position : ℕ) (job : Job)
    (place : JobPlace n Phase Result) : Pool n M Job Phase Result α :=
  { pool with jobs := pool.jobs.set position (job, place) }

/-- The worker holds no job. -/
def IsFree (pool : Pool n M Job Phase Result α) (worker : Fin n) : Prop :=
  ∀ (position : ℕ) (job : Job) (phase : Phase),
    pool.jobs[position]? ≠ some (job, .held worker phase)

/-- A step of the calling thread, or of a worker that is free or holds a job. -/
inductive Step (loop : WorkerLoop M Job Phase Result) (capacity : ℕ)
    (pool : Pool n M Job Phase Result α) : Pool n M Job Phase Result α → Prop where
  | submit {job : Job} {rest : Caller Job Result α} : pool.caller = .submit job rest →
      pool.jobs.countP isQueued < capacity →
      Step loop capacity pool
        { pool with jobs := pool.jobs ++ [(job, .queued)], caller := rest }
  | await {position : ℕ} {rest : Result → Caller Job Result α} {job : Job} {result : Result} :
      pool.caller = .await position rest →
      pool.jobs[position]? = some (job, .finished result) →
      Step loop capacity pool { pool with caller := rest result }
  | claim {position : ℕ} {job : Job} {worker : Fin n} : pool.IsFree worker →
      pool.jobs[position]? = some (job, .queued) → (∀ earlier < position, ¬ pool.IsQueued earlier) →
      Step loop capacity pool (pool.put position job (.held worker (loop.start job)))
  | piece {position : ℕ} {job : Job} {worker : Fin n} {phase phase' : Phase} :
      pool.jobs[position]? = some (job, .held worker phase) →
      (loop.piece phase pool.memory).2 = .inl phase' →
      Step loop capacity pool
        { pool.put position job (.held worker phase') with
          memory := (loop.piece phase pool.memory).1 }
  | finish {position : ℕ} {job : Job} {worker : Fin n} {phase : Phase} {result : Result} :
      pool.jobs[position]? = some (job, .held worker phase) →
      (loop.piece phase pool.memory).2 = .inr result →
      Step loop capacity pool
        { pool.put position job (.finished result) with memory := (loop.piece phase pool.memory).1 }

/-! ## What stays -/

theorem getElem?_put {position : ℕ} {job : Job} {old place : JobPlace n Phase Result}
    (h : pool.jobs[position]? = some (job, old)) (other : ℕ) :
    (pool.put position job place).jobs[other]? =
      if other = position then some (job, place) else pool.jobs[other]? := by
  rcases List.getElem?_eq_some_iff.mp h with ⟨hlt, _⟩
  rw [put, List.getElem?_set]
  by_cases heq : other = position
  · subst heq
    simp [hlt]
  · simp [heq, Ne.symm heq]

theorem map_fst_put {position : ℕ} {job : Job} {old place : JobPlace n Phase Result}
    (h : pool.jobs[position]? = some (job, old)) :
    (pool.put position job place).jobs.map Prod.fst = pool.jobs.map Prod.fst := by
  apply List.ext_getElem?
  intro other
  rw [List.getElem?_map, List.getElem?_map, getElem?_put h]
  split
  · next heq => simp [heq, h]
  · rfl

/-- A result stays. -/
theorem Step.finished (hstep : Step loop capacity pool pool') {position : ℕ} {job : Job}
    {result : Result} (h : pool.jobs[position]? = some (job, .finished result)) :
    pool'.jobs[position]? = some (job, .finished result) := by
  have hput {moved : ℕ} {job' : Job} {old place : JobPlace n Phase Result}
      (hold : pool.jobs[moved]? = some (job', old)) (hne : ∀ result, old ≠ .finished result) :
      (pool.put moved job' place).jobs[position]? = some (job, .finished result) := by
    rw [getElem?_put hold]
    split
    · next heq =>
        subst heq
        rw [h] at hold
        simp only [Option.some.injEq, Prod.mk.injEq] at hold
        exact absurd hold.2.symm (hne result)
    · exact h
  cases hstep with
  | submit _ _ =>
      rcases List.getElem?_eq_some_iff.mp h with ⟨hlt, _⟩
      simp only [List.getElem?_append_left hlt, h]
  | await _ _ => exact h
  | claim _ hold _ => exact hput hold (by simp)
  | piece hold _ => exact hput hold (by simp)
  | finish hold _ => exact hput hold (by simp)

theorem Step.hasFinished (hstep : Step loop capacity pool pool') {position : ℕ}
    (h : pool.HasFinished position) : pool'.HasFinished position := by
  rcases h with ⟨job, result, h⟩
  exact ⟨job, result, hstep.finished h⟩

/-! ## The calling thread on its way -/

/-- The results are those of the jobs that have finished. -/
def Explains (results : ℕ → Result) (pool : Pool n M Job Phase Result α) : Prop :=
  ∀ position job result, pool.jobs[position]? = some (job, .finished result) →
    results position = result

/-- The result of a job that has finished, and some result of any other. -/
def resultAt [Inhabited Result] (pool : Pool n M Job Phase Result α) (position : ℕ) : Result :=
  match pool.jobs[position]? with
  | some (_, .finished result) => result
  | _ => default

theorem exists_explains [Inhabited Result] (pool : Pool n M Job Phase Result α) :
    ∃ results : ℕ → Result, pool.Explains results := by
  refine ⟨pool.resultAt, fun position job result hfinished => ?_⟩
  simp only [resultAt, hfinished]

/-- For results that explain the pool, the thread is on its way from the given program: what it has
handed over and will hand over, and what it will return, are what they were at the beginning. -/
def Follows (caller : Caller Job Result α) (pool : Pool n M Job Phase Result α) : Prop :=
  ∀ results, pool.Explains results →
    pool.jobs.map Prod.fst ++ pool.caller.jobs results = caller.jobs results ∧
      pool.caller.value results = caller.value results

theorem follows_start (memory : M) (caller : Caller Job Result α) :
    (start n memory caller : Pool n M Job Phase Result α).Follows caller :=
  fun _ _ => ⟨rfl, rfl⟩

theorem Step.explains (hstep : Step loop capacity pool pool') {results : ℕ → Result}
    (h : pool'.Explains results) : pool.Explains results :=
  fun position job result hfinished => h position job result (hstep.finished hfinished)

theorem Step.follows (hstep : Step loop capacity pool pool') {caller : Caller Job Result α}
    (h : pool.Follows caller) : pool'.Follows caller := by
  intro results hexplains
  rcases h results (hstep.explains hexplains) with ⟨hjobs, hvalue⟩
  cases hstep with
  | submit hcaller _ =>
      rw [hcaller] at hjobs hvalue
      refine ⟨?_, hvalue⟩
      rw [← hjobs]
      simp [Caller.jobs]
  | await hcaller hfinished =>
      rw [hcaller] at hjobs hvalue
      have hresult := hexplains _ _ _ hfinished
      simp only [Caller.jobs, Caller.value, hresult] at hjobs hvalue
      exact ⟨hjobs, hvalue⟩
  | claim _ hold _ =>
      rw [map_fst_put hold]
      exact ⟨hjobs, hvalue⟩
  | piece hold _ | finish hold _ =>
      change ((put _ _ _ _).jobs.map Prod.fst ++ _) = _ ∧ _
      rw [map_fst_put hold]
      exact ⟨hjobs, hvalue⟩

/-! ## Every run ends -/

/-- The thread waits for the jobs, those that have finished apart. -/
def IsSettling (all : Prop) (pool : Pool n M Job Phase Result α) : Prop :=
  pool.caller.Settles all pool.jobs.length pool.HasFinished

def IsDone (pool : Pool n M Job Phase Result α) : Prop :=
  ∃ value, pool.caller = .done value

theorem Step.isSettling (hstep : Step loop capacity pool pool') (h : pool.IsSettling all) :
    pool'.IsSettling all := by
  have hmono : ∀ position, pool.HasFinished position → pool'.HasFinished position :=
    fun position => hstep.hasFinished
  rw [IsSettling] at h ⊢
  have hlength {position : ℕ} {job : Job} {place : JobPlace n Phase Result} :
      (pool.put position job place).jobs.length = pool.jobs.length := List.length_set
  cases hstep with
  | submit hcaller _ =>
      rw [hcaller] at h
      rw [List.length_append]
      exact Caller.Settles.mono h hmono
  | @await position _ job result hcaller hfinished =>
      rw [hcaller] at h
      refine Caller.Settles.mono (h.2 result) fun other hother => ?_
      rcases hother with rfl | hother
      · exact ⟨job, result, hfinished⟩
      · exact hmono other hother
  | claim _ _ _ =>
      rw [hlength]
      exact h.mono hmono
  | piece _ _ | finish _ _ =>
      change Caller.Settles _ _ (put _ _ _ _).jobs.length _
      rw [hlength]
      exact h.mono hmono

/-- When the thread is done, so are the jobs it waited for. -/
theorem IsSettling.hasFinished (h : pool.IsSettling all) (hall : all) (hdone : pool.IsDone)
    {position : ℕ} (hlt : position < pool.jobs.length) : pool.HasFinished position := by
  rcases hdone with ⟨value, hcaller⟩
  rw [IsSettling, hcaller] at h
  exact h hall position hlt

/-- Some thread can always go on. -/
theorem exists_step (hn : 0 < n) (hcapacity : 0 < capacity) (h : pool.IsSettling all)
    (hdone : ¬ pool.IsDone) : ∃ pool', Step loop capacity pool pool' := by
  by_cases hheld : ∃ (position : ℕ) (job : Job) (worker : Fin n) (phase : Phase),
      pool.jobs[position]? = some (job, .held worker phase)
  · rcases hheld with ⟨position, job, worker, phase, hheld⟩
    cases hpiece : (loop.piece phase pool.memory).2 with
    | inl phase' => exact ⟨_, .piece hheld hpiece⟩
    | inr result => exact ⟨_, .finish hheld hpiece⟩
  · by_cases hqueued : ∃ position, pool.IsQueued position
    · classical
      rcases Nat.find_spec hqueued with ⟨job, hjob⟩
      have hfree : pool.IsFree (⟨0, hn⟩ : Fin n) := fun other job' phase hother =>
        hheld ⟨other, job', _, phase, hother⟩
      exact ⟨_, .claim hfree hjob fun earlier hlt => Nat.find_min hqueued hlt⟩
    · have hfinished {position : ℕ} (hlt : position < pool.jobs.length) :
          pool.HasFinished position := by
        rcases hjob : pool.jobs[position] with ⟨job, place⟩
        have hsome : pool.jobs[position]? = some (job, place) := by
          rw [List.getElem?_eq_getElem hlt, hjob]
        cases place with
        | queued => exact absurd ⟨position, job, hsome⟩ hqueued
        | held worker phase => exact absurd ⟨position, job, worker, phase, hsome⟩ hheld
        | finished result => exact ⟨job, result, hsome⟩
      rw [IsSettling] at h
      cases hcaller : pool.caller with
      | done value => exact absurd ⟨value, hcaller⟩ hdone
      | submit job rest =>
          have hcount : pool.jobs.countP isQueued = 0 := by
            rw [List.countP_eq_zero]
            intro entry hmem hentry
            rcases List.getElem?_of_mem hmem with ⟨position, hposition⟩
            rcases entry with ⟨job', _ | _ | _⟩
            · exact hqueued ⟨position, job', hposition⟩
            · simp [isQueued] at hentry
            · simp [isQueued] at hentry
          exact ⟨_, .submit hcaller (by omega)⟩
      | await position rest =>
          rw [hcaller] at h
          rcases hfinished h.1 with ⟨job, result, hjob⟩
          exact ⟨_, .await hcaller hjob⟩

/-- The pieces that are left of a job, with the steps of taking it and of finishing it. -/
def remaining (loop : WorkerLoop M Job Phase Result) : Job × JobPlace n Phase Result → ℕ
  | (job, .queued) => loop.rank (loop.start job) + 2
  | (_, .held _ phase) => loop.rank phase + 1
  | (_, .finished _) => 0

theorem weight_set_lt {β : Type} (f : β → ℕ) {items : List β} {position : ℕ} {old new : β}
    (h : items[position]? = some old) (hlt : f new < f old) :
    weight f (items.set position new) < weight f items := by
  induction items generalizing position with
  | nil => simp at h
  | cons item rest ih =>
      cases position with
      | zero =>
          simp only [List.getElem?_cons_zero, Option.some.injEq] at h
          subst h
          simpa using hlt
      | succ position =>
          rw [List.getElem?_cons_succ] at h
          simpa using ih h

/-- A step of a worker leaves the thread where it is and takes something off the work. -/
theorem Step.advances (hstep : Step loop capacity pool pool') :
    (∃ job, pool.caller = .submit job pool'.caller) ∨
      (∃ position rest result, pool.caller = .await position rest ∧ pool'.caller = rest result) ∨
        pool'.caller = pool.caller ∧
          weight (remaining loop) pool'.jobs < weight (remaining loop) pool.jobs := by
  cases hstep with
  | submit hcaller _ => exact .inl ⟨_, hcaller⟩
  | await hcaller _ => exact .inr (.inl ⟨_, _, _, hcaller, rfl⟩)
  | claim _ hold _ => exact .inr (.inr ⟨rfl, weight_set_lt _ hold (by simp [remaining])⟩)
  | piece hold hpiece =>
      have hrank := loop.rank_lt _ _ _ hpiece
      exact .inr (.inr ⟨rfl, weight_set_lt _ hold (by simpa [remaining] using hrank)⟩)
  | finish hold _ => exact .inr (.inr ⟨rfl, weight_set_lt _ hold (by simp [remaining])⟩)

/-- Every run of a pool comes to the end of its thread, whatever the order of the steps. -/
theorem inevitable_isDone (hn : 0 < n) (hcapacity : 0 < capacity) (h : pool.IsSettling all) :
    Inevitable (Step loop capacity) IsDone pool := by
  obtain ⟨caller, hcaller⟩ : ∃ caller, pool.caller = caller := ⟨_, rfl⟩
  obtain ⟨work, hwork⟩ : ∃ work, weight (remaining loop) pool.jobs = work := ⟨_, rfl⟩
  -- over what the thread has still to do, and then over the work of the pool
  induction caller generalizing pool work with
  | done value => exact .now ⟨value, hcaller⟩
  | submit job rest ih =>
      induction work using Nat.strong_induction_on generalizing pool with
      | _ work ihwork =>
          refine .later (exists_step hn hcapacity h ?_) fun pool' hstep => ?_
          · rintro ⟨value, hdone⟩
            rw [hcaller] at hdone
            cases hdone
          · rcases hstep.advances with ⟨job', hsubmit⟩ | ⟨_, _, _, hawait, _⟩ | ⟨hsame, hless⟩
            · rw [hcaller] at hsubmit
              cases hsubmit
              exact ih (hstep.isSettling h) rfl _ rfl
            · rw [hcaller] at hawait
              cases hawait
            · exact ihwork _ (hwork ▸ hless) (hstep.isSettling h) (hsame.trans hcaller) rfl
  | await position rest ih =>
      induction work using Nat.strong_induction_on generalizing pool with
      | _ work ihwork =>
          refine .later (exists_step hn hcapacity h ?_) fun pool' hstep => ?_
          · rintro ⟨value, hdone⟩
            rw [hcaller] at hdone
            cases hdone
          · rcases hstep.advances with ⟨job', hsubmit⟩ | ⟨_, _, result, hawait, hrest⟩ | ⟨hsame, hless⟩
            · rw [hcaller] at hsubmit
              cases hsubmit
            · rw [hcaller] at hawait
              cases hawait
              exact ih result (hstep.isSettling h) hrest _ rfl
            · exact ihwork _ (hwork ▸ hless) (hstep.isSettling h) (hsame.trans hcaller) rfl

/-! ## One schedule -/

/-- The first job that is held, or that is queued. -/
def firstAt {β : Type} (pool : Pool n M Job Phase Result α)
    (choose : Job × JobPlace n Phase Result → Option β) : Option (ℕ × β) :=
  (List.range pool.jobs.length).findSome? fun position =>
    (pool.jobs[position]?.bind choose).map fun found => (position, found)

def heldJob : Job × JobPlace n Phase Result → Option (Job × Fin n × Phase)
  | (job, .held worker phase) => some (job, worker, phase)
  | _ => none

def queuedJob : Job × JobPlace n Phase Result → Option Job
  | (job, .queued) => some job
  | _ => none

/-- A schedule of the pool: the workers go before the thread, and one of them does all the jobs. -/
def next? (loop : WorkerLoop M Job Phase Result) (worker : Fin n) (capacity : ℕ)
    (pool : Pool n M Job Phase Result α) : Option (Pool n M Job Phase Result α) :=
  match pool.firstAt heldJob with
  | some (position, job, holder, phase) =>
      match loop.piece phase pool.memory with
      | (memory, .inl phase') => some { pool.put position job (.held holder phase') with memory }
      | (memory, .inr result) => some { pool.put position job (.finished result) with memory }
  | none =>
      match pool.firstAt queuedJob with
      | some (position, job) => some (pool.put position job (.held worker (loop.start job)))
      | none =>
          match pool.caller with
          | .done _ => none
          | .submit job rest =>
              if pool.jobs.countP isQueued < capacity then
                some { pool with jobs := pool.jobs ++ [(job, .queued)], caller := rest }
              else none
          | .await position rest =>
              match pool.jobs[position]? with
              | some (_, .finished result) => some { pool with caller := rest result }
              | _ => none

theorem firstAt_eq_some {β : Type} {choose : Job × JobPlace n Phase Result → Option β} {position : ℕ}
    {found : β} (h : pool.firstAt choose = some (position, found)) :
    (∃ entry, pool.jobs[position]? = some entry ∧ choose entry = some found) ∧
      ∀ earlier < position, ∀ entry, pool.jobs[earlier]? = some entry → choose entry = none := by
  rw [firstAt, List.findSome?_eq_some_iff] at h
  rcases h with ⟨before, other, after, hrange, hfound, hbefore⟩
  rcases Option.map_eq_some_iff.mp hfound with ⟨found', hfound', heq⟩
  cases heq
  refine ⟨Option.bind_eq_some_iff.mp hfound', fun earlier hlt entry hentry => ?_⟩
  have hposition : position = before.length := by
    have hget : (List.range pool.jobs.length)[before.length]? = some position := by
      rw [hrange]
      simp
    rcases List.getElem?_eq_some_iff.mp hget with ⟨_, heq⟩
    rw [List.getElem_range] at heq
    exact heq.symm
  have hmem : earlier ∈ before := by
    have hget : (List.range pool.jobs.length)[earlier]? = some earlier :=
      List.getElem?_range (List.getElem?_eq_some_iff.mp hentry).1
    rw [hrange, List.getElem?_append_left (hposition ▸ hlt)] at hget
    exact List.mem_of_getElem? hget
  have hnone := hbefore earlier hmem
  rw [Option.map_eq_none_iff, hentry, Option.bind_some] at hnone
  exact hnone

theorem firstAt_eq_none {β : Type} {choose : Job × JobPlace n Phase Result → Option β}
    (h : pool.firstAt choose = none) {position : ℕ} {entry : Job × JobPlace n Phase Result}
    (hentry : pool.jobs[position]? = some entry) : choose entry = none := by
  rw [firstAt, List.findSome?_eq_none_iff] at h
  have hnone := h position (List.mem_range.mpr (List.getElem?_eq_some_iff.mp hentry).1)
  rw [Option.map_eq_none_iff, hentry, Option.bind_some] at hnone
  exact hnone

/-- The schedule takes steps of the pool. -/
theorem step_of_next? {worker : Fin n} (h : pool.next? loop worker capacity = some pool') :
    Step loop capacity pool pool' := by
  rw [next?] at h
  split at h
  · next position job holder phase hheld =>
      rcases (firstAt_eq_some hheld).1 with ⟨⟨job', place⟩, hentry, hchosen⟩
      cases place with
      | queued => cases hchosen
      | finished result => cases hchosen
      | held holder' phase' =>
          cases hchosen
          split at h
          · next hpiece =>
              cases h
              have hstep : Step loop capacity pool _ := .piece hentry (congrArg Prod.snd hpiece)
              rw [hpiece] at hstep
              exact hstep
          · next hpiece =>
              cases h
              have hstep : Step loop capacity pool _ := .finish hentry (congrArg Prod.snd hpiece)
              rw [hpiece] at hstep
              exact hstep
  · next hheld =>
      have hfree (holder : Fin n) : pool.IsFree holder := by
        intro position job phase hentry
        cases firstAt_eq_none hheld hentry
      split at h
      · next position job hqueued =>
          cases h
          rcases firstAt_eq_some hqueued with ⟨⟨⟨job', place⟩, hentry, hchosen⟩, hearlier⟩
          cases place with
          | held holder phase => cases hchosen
          | finished result => cases hchosen
          | queued =>
              cases hchosen
              refine .claim (hfree worker) hentry fun earlier hlt hjob => ?_
              rcases hjob with ⟨job', hjob⟩
              cases hearlier earlier hlt _ hjob
      · split at h
        · cases h
        · next hcaller =>
            split at h
            · next hcount =>
                cases h
                exact .submit hcaller hcount
            · cases h
        · next hcaller =>
            split at h
            · next hfinished =>
                cases h
                exact .await hcaller hfinished
            · cases h

/-! ## Pools inside other systems -/

section Inside

variable {τ : Type} {step' : τ → τ → Prop} {R : τ → Prop} {Inv : Pool n M Job Phase Result α → Prop}

/-- A system that runs a pool until its thread returns. Whatever the workers still do, what is
inevitable after every return is inevitable. -/
theorem inevitable_embed (embed : Pool n M Job Phase Result α → τ)
    (finish : Pool n M Job Phase Result α → α → τ) (hn : 0 < n) (hcapacity : 0 < capacity)
    (hsettling : ∀ pool, Inv pool → pool.IsSettling all)
    (hkeep : ∀ pool pool', Inv pool → Step loop capacity pool pool' → Inv pool')
    (hstep : ∀ pool t, step' (embed pool) t ↔
      (∃ pool', t = embed pool' ∧ Step loop capacity pool pool') ∨
        ∃ value, pool.caller = .done value ∧ t = finish pool value)
    (hfinish : ∀ pool value, Inv pool → pool.caller = .done value →
      Inevitable step' R (finish pool value))
    (h : Inv pool) : Inevitable step' R (embed pool) := by
  -- after the return, over the work that is left to the workers
  have hdone : ∀ pool, Inv pool → pool.IsDone → Inevitable step' R (embed pool) := by
    intro pool hinv hreturned
    rcases hreturned with ⟨value, hcaller⟩
    obtain ⟨work, hwork⟩ : ∃ work, weight (remaining loop) pool.jobs = work := ⟨_, rfl⟩
    induction work using Nat.strong_induction_on generalizing pool with
    | _ work ih =>
        refine .later ⟨_, (hstep pool _).mpr (.inr ⟨value, hcaller, rfl⟩)⟩ fun t ht => ?_
        rcases (hstep pool t).mp ht with ⟨pool', rfl, hpool⟩ | ⟨value', hvalue, rfl⟩
        · rcases hpool.advances with ⟨job, hsubmit⟩ | ⟨_, _, _, hawait, _⟩ | ⟨hsame, hless⟩
          · rw [hcaller] at hsubmit
            cases hsubmit
          · rw [hcaller] at hawait
            cases hawait
          · exact ih _ (hwork ▸ hless) pool' (hkeep pool pool' hinv hpool) (hsame.trans hcaller) rfl
        · exact hfinish pool value' hinv hvalue
  refine Inevitable.lift embed hkeep hdone (fun pool pool' hpool => ?_) (fun pool t hrunning ht => ?_)
    h (inevitable_isDone hn hcapacity (hsettling pool h))
  · exact (hstep pool _).mpr (.inl ⟨pool', rfl, hpool⟩)
  · rcases (hstep pool t).mp ht with hpool | ⟨value, hcaller, _⟩
    · exact hpool
    · exact absurd ⟨value, hcaller⟩ hrunning

end Inside

end Pool

end GiveMePi.Library
