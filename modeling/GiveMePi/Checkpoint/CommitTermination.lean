import GiveMePi.Checkpoint.AllOrNothing

/-! # Commits end

Only interrupted calls are repeated. Every other answer brings a commit closer to its end, so that
it ends on every stream of answers that is not interrupted for ever. -/

namespace GiveMePi.Posix

open Library (Meets)

/-- The answers that are no interruptions. -/
def live (answers : List CallResult) : ℕ :=
  answers.countP fun answer => answer ≠ .error .eintr

/-- At least so many of the answers to come are no interruptions. -/
def Live (n : ℕ) (system : System) : Prop :=
  n ≤ live system.answers

theorem Live.mono {m n : ℕ} {system : System} (h : Live n system) (hle : m ≤ n) :
    Live m system :=
  Nat.le_trans hle h

/-- A program that answers end, with exceptions or without, that leave out so many of them. -/
def Spends {α : Type} (bound : ℕ) (program : Run α) : Prop :=
  ∀ n, Meets (Live (n + bound)) program (fun _ => Live n)
    (fun stop system => stop ≠ .killed ∧ Live n system)

namespace Spends

variable {α β : Type} {bound bound' : ℕ} {program : Run α}

theorem pure (a : α) : Spends 0 (Pure.pure a : Run α) :=
  fun _ => Meets.pure fun _ => id

theorem raise (error : Error) : Spends 0 (Run.raise error : Run α) :=
  fun _ => Meets.throw fun _ h => ⟨by simp, h⟩

theorem mono (h : Spends bound program) (hle : bound ≤ bound') : Spends bound' program :=
  fun n => (h n).strengthen fun _ hlive => hlive.mono (by omega)

theorem bind {next : α → Run β} (h : Spends bound program)
    (hnext : ∀ a, Spends bound' (next a)) : Spends (bound + bound') (program >>= next) := by
  intro n
  refine Meets.bind_of (fun _ => Live (n + bound')) ?_ fun a => hnext a n
  refine (h (n + bound')).consequence ?_ (fun _ _ => id) ?_
  · exact fun s hlive => hlive.mono (by omega)
  · exact fun stop s hstop => ⟨hstop.1, hstop.2.mono (by omega)⟩

end Spends

namespace Run

theorem perform_ne_eintr {files : Files} {count : ℕ} {request : SystemCall} :
    request.perform files count ≠ .error .eintr := by
  cases request with
  | openExclusive path =>
      rw [SystemCall.perform]
      split <;> simp
  | rename source destination =>
      rw [SystemCall.perform]
      split <;> simp
  | _ => simp [SystemCall.perform]

/-- A call takes one answer; its result is an interruption exactly when the answer is. -/
theorem call_eq (request : SystemCall) {system : System} {answer : CallResult}
    {answers : List CallResult} (h : system.answers = answer :: answers) :
    ∃ result system', call request system = .ok result system' ∧ system'.answers = answers ∧
      (result = .error .eintr ↔ answer = .error .eintr) := by
  rw [call, h]
  cases answer with
  | error errno => exact ⟨.error errno, _, rfl, rfl, by simp⟩
  | ok count =>
      cases hperform : request.perform system.files count with
      | error errno =>
          have hne : errno ≠ .eintr := by
            intro heq
            exact perform_ne_eintr (heq ▸ hperform)
          exact ⟨.error errno, failed system request errno answers, by simp [hperform, failed], rfl,
            by simp [hne]⟩
      | ok outcome =>
          exact ⟨.ok outcome.1, done system request outcome.1 outcome.2 answers,
            by simp [hperform, done], rfl, by simp⟩

/-- Every answer to a call but an interruption is spent. -/
theorem call_live (n rounds : ℕ) (request : SystemCall) :
    Meets (fun s => Live (n + 1) s ∧ s.answers.length < rounds + 1) (call request)
      (fun result s => s.answers.length < rounds ∧
        if result = .error .eintr then Live (n + 1) s else Live n s)
      (fun _ _ => False) := by
  intro s h
  rcases h with ⟨hlive, hlength⟩
  cases hanswers : s.answers with
  | nil => simp [Live, live, hanswers] at hlive
  | cons answer answers =>
      rw [Live, hanswers, live, List.countP_cons] at hlive
      rw [hanswers, List.length_cons] at hlength
      rcases call_eq request hanswers with ⟨result, s', hcall, rfl, hresult⟩
      rw [hcall]
      refine ⟨by omega, ?_⟩
      by_cases heq : answer = .error .eintr
      · rw [if_pos (hresult.mpr heq)]
        simpa [Live, live, heq] using hlive
      · rw [if_neg fun h => heq (hresult.mp h)]
        simp only [ne_eq, heq, not_false_eq_true, decide_true, if_true] at hlive
        exact Nat.le_of_add_le_add_right hlive

theorem call_spends (request : SystemCall) : Spends 1 (call request) := by
  intro n s hlive
  have h := call_live n s.answers.length request s ⟨hlive, Nat.lt_succ_self _⟩
  cases hcall : call request s with
  | error stop s' =>
      rw [hcall] at h
      exact h.elim
  | ok result s' =>
      rw [hcall] at h
      rcases h with ⟨_, h⟩
      split at h
      · exact h.mono (by omega)
      · exact h

theorem check_spends (request : SystemCall) (what : String) : Spends 1 (check request what) := by
  change Spends (1 + 0) _
  refine (call_spends request).bind fun result => ?_
  cases result with
  | ok _ => exact Spends.pure ()
  | error _ => exact Spends.raise _

theorem onException_spends {body cleanup : Run Unit} {bound bound' : ℕ} (hbody : Spends bound body)
    (hcleanup : Spends bound' cleanup) : Spends (bound + bound') (onException body cleanup) := by
  intro n
  have hmeets := (hbody (n + bound')).consequence
    (fun s (hlive : Live (n + (bound + bound')) s) => hlive.mono (by omega))
    (fun _ s hlive => hlive.mono (Nat.le_add_right n bound')) (fun _ _ => id)
  refine onException_meets hmeets ?_ ?_
  · exact fun s h => absurd rfl h.1
  · intro error
    refine (hcleanup n).consequence (fun s h => h.2) ?_ (fun _ _ => id)
    exact fun _ s hlive => ⟨by simp, hlive⟩

end Run

namespace AtomicFileCommit

open Checkpoint.AtomicFileCommit (tempPath maximumAttempts)

theorem observe_spends (observer : Option AtomicCommitObserver) (stage : AtomicCommitStage) :
    Spends 0 (observe observer stage) := by
  intro n
  exact observe_meets fun s error hlive => ⟨by simp, hlive⟩

theorem createTempPath_spends (destination : Path) (attempts : ℕ) :
    Spends attempts (createTempPath destination attempts) := by
  induction attempts with
  | zero => exact Spends.raise _
  | succ attempts ih =>
      rw [createTempPath, show attempts + 1 = 0 + (0 + (1 + attempts)) by omega]
      refine Spends.bind (fun n s hlive => hlive) fun sequence => ?_
      refine Spends.bind (fun n s hlive => hlive) fun system => ?_
      refine (Run.call_spends _).bind fun result => ?_
      cases result with
      | ok file => exact (Spends.pure _).mono (Nat.zero_le _)
      | error errno =>
          cases errno with
          | eexist => exact ih
          | eintr | other => exact (Spends.raise _).mono (Nat.zero_le _)

/-- A round that is not interrupted sends a byte or ends the loop. -/
theorem writeLoop_live (file : ℕ) (bytes : Bytes) (n : ℕ) (rounds : ℕ) (offset : ℕ) :
    Meets (fun s => Live (n + (bytes.length - offset)) s ∧ s.answers.length < rounds)
      (writeLoop file bytes rounds offset) (fun _ => Live n)
      (fun stop s => stop ≠ .killed ∧ Live n s) := by
  induction rounds generalizing offset with
  | zero => exact fun s h => absurd h.2 (Nat.not_lt_zero _)
  | succ rounds ih =>
      rw [writeLoop]
      refine Meets.ite (fun hlt => ?_) fun hge => ?_
      · have hleft : bytes.length - offset = (bytes.length - (offset + 1)) + 1 := by omega
        rw [hleft, ← Nat.add_assoc]
        refine Meets.bind ((Run.call_live _ _ _).consequence (fun _ => id) (fun _ _ => id)
          fun _ _ => False.elim) ?_
        intro result
        cases result with
        | error errno =>
            cases errno with
            | eintr =>
                refine (ih offset).strengthen fun s h => ⟨?_, h.1⟩
                rw [hleft, ← Nat.add_assoc]
                exact h.2
            | eexist | other =>
                exact Meets.throw fun s h => ⟨by simp, Live.mono h.2 (Nat.le_add_right _ _)⟩
        | ok written =>
            cases written with
            | zero => exact Meets.throw fun s h => ⟨by simp, Live.mono h.2 (Nat.le_add_right _ _)⟩
            | succ written =>
                exact (ih (offset + (written + 1))).strengthen
                  fun s h => ⟨Live.mono h.2 (by omega), h.1⟩
      · exact Meets.pure fun s h => h.1.mono (by omega)

theorem writeAll_spends (file : ℕ) (bytes : Bytes) :
    Spends bytes.length (writeAll file bytes) := by
  intro n s hlive
  exact writeLoop_live file bytes n (s.answers.length + 1) 0 s ⟨hlive, Nat.lt_succ_self _⟩

theorem writeAndRename_spends (temp destination : Path) (file : ℕ) (bytes : Bytes)
    (observer : Option AtomicCommitObserver) :
    Spends (bytes.length + 3) (writeAndRename temp destination file bytes observer) := by
  have hobserve := observe_spends observer
  refine Spends.mono ((hobserve _).bind fun _ => (writeAll_spends file bytes).bind fun _ =>
    (hobserve _).bind fun _ => (Run.check_spends _ _).bind fun _ => (hobserve _).bind fun _ =>
    (Run.check_spends _ _).bind fun _ => (hobserve _).bind fun _ => (hobserve _).bind fun _ =>
    Run.check_spends _ _) (by omega)

theorem syncDirectory_spends (destination : Path) (observer : Option AtomicCommitObserver) :
    Spends 2 (syncDirectory destination observer) :=
  (observe_spends observer _).bind fun _ => (Run.check_spends _ _).bind fun _ =>
    (Run.check_spends _ _).bind fun _ => observe_spends observer _

/-- The answers but interruptions a commit takes, at most. -/
theorem write_spends (destination : Path) (bytes : Bytes)
    (observer : Option AtomicCommitObserver) :
    Spends (maximumAttempts + (bytes.length + 6)) (write destination bytes observer) := by
  rw [write]
  split
  · exact (Spends.raise _).mono (Nat.zero_le _)
  · refine Spends.mono ((createTempPath_spends destination maximumAttempts).bind fun made =>
      (Run.onException_spends (writeAndRename_spends made.1 destination made.2 bytes observer)
        ((Run.call_spends (.unlink made.1)).bind fun _ => Spends.pure ())).bind fun _ =>
      syncDirectory_spends destination observer) (by omega)

/-- An answer to a `write` that makes progress, or an interruption. -/
def Progresses (answer : CallResult) : Prop :=
  answer = .error .eintr ∨ ∃ count, answer = .ok (count + 1)

/-- The bytes a request asks for are taken in part at least. -/
theorem call_progresses (file : ℕ) {request : Bytes} (hrequest : request ≠ []) :
    Meets (fun s => ∀ answer ∈ s.answers, Progresses answer) (Run.call (.write file request))
      (fun result s => Progresses result ∧ ∀ answer ∈ s.answers, Progresses answer)
      (fun stop _ => stop = .killed) := by
  intro s hanswers
  rw [Run.call]
  cases heq : s.answers with
  | nil => rfl
  | cons answer answers =>
      rw [heq, List.forall_mem_cons] at hanswers
      rcases hanswers with ⟨hanswer, hanswers⟩
      rcases hanswer with rfl | ⟨count, rfl⟩
      · exact ⟨Or.inl rfl, hanswers⟩
      · have hpos : 0 < request.length := List.length_pos_iff.mpr hrequest
        refine ⟨Or.inr ⟨min (count + 1) request.length - 1, ?_⟩, hanswers⟩
        rw [Nat.sub_add_cancel (by omega)]

/-- While the calls make progress, only the end of the process keeps the loop from returning. -/
theorem writeLoop_progresses (file : ℕ) (bytes : Bytes) (rounds : ℕ) (offset : ℕ) :
    Meets (fun s => ∀ answer ∈ s.answers, Progresses answer) (writeLoop file bytes rounds offset)
      (fun _ _ => True) (fun stop _ => stop = .killed) := by
  induction rounds generalizing offset with
  | zero => exact Meets.throw fun s _ => rfl
  | succ rounds ih =>
      rw [writeLoop]
      refine Meets.ite (fun hlt => ?_) fun _ => Meets.pure fun _ _ => trivial
      have hrequest : (bytes.drop offset).take (min (bytes.length - offset) ssizeMax) ≠ [] := by
        have hmax : 0 < ssizeMax := by decide
        rw [← List.length_pos_iff, List.length_take, List.length_drop]
        omega
      refine Meets.bind (call_progresses file hrequest) fun result => Meets.of_pre fun hresult => ?_
      rcases hresult with rfl | ⟨count, rfl⟩
      · exact ih offset
      · exact ih (offset + (count + 1))

theorem writeAll_progresses (file : ℕ) (bytes : Bytes) :
    Meets (fun s => ∀ answer ∈ s.answers, Progresses answer) (writeAll file bytes)
      (fun _ _ => True) (fun stop _ => stop = .killed) :=
  fun s hanswers => writeLoop_progresses file bytes (s.answers.length + 1) 0 s hanswers

/-! ## Streams of answers -/

/-- The first answers of a stream. -/
def first (stream : ℕ → CallResult) (n : ℕ) : List CallResult :=
  (List.range n).map stream

theorem live_first_succ (stream : ℕ → CallResult) (n : ℕ) :
    live (first stream (n + 1)) =
      live (first stream n) + if stream n = .error .eintr then 0 else 1 := by
  rw [live, first, List.range_succ, List.map_append, List.countP_append]
  by_cases h : stream n = .error .eintr <;> simp [live, first, h]

theorem live_first_mono (stream : ℕ → CallResult) {m n : ℕ} (h : m ≤ n) :
    live (first stream m) ≤ live (first stream n) := by
  induction n, h using Nat.le_induction with
  | base => exact le_rfl
  | succ n _ ih =>
      rw [live_first_succ]
      omega

/-- A stream that is not interrupted for ever has any number of other answers. -/
theorem exists_live (stream : ℕ → CallResult) (h : ∀ n, ∃ m ≥ n, stream m ≠ .error .eintr)
    (bound : ℕ) : ∃ n, ∀ m ≥ n, bound ≤ live (first stream m) := by
  induction bound with
  | zero => exact ⟨0, fun _ _ => Nat.zero_le _⟩
  | succ bound ih =>
      rcases ih with ⟨n, hn⟩
      rcases h n with ⟨m, hm, hlive⟩
      refine ⟨m + 1, fun k hk => ?_⟩
      have hstep := live_first_succ stream m
      rw [if_neg hlive] at hstep
      have hmono := live_first_mono stream hk
      have hbound := hn m hm
      omega

/-- Where the answers are enough, a program does not run out of them. -/
theorem not_killed {α : Type} {program : Run α} {bound : ℕ} (h : Spends bound program)
    {system : System} (hlive : bound ≤ live system.answers) (s : System) :
    program system ≠ .error .killed s := by
  intro heq
  have hrun := h 0 system (by rwa [Live, Nat.zero_add])
  rw [heq] at hrun
  exact hrun.1 rfl

/-! ## What commits promise -/

/-- The system a program leaves. -/
def left {α : Type} : EStateM.Result Stop System α → System
  | .ok _ system => system
  | .error _ system => system

/-- What a commit promises wherever it stops: readers find the old content or the new; a crash
leaves the destination as one before the commit might have left it, or new; the bytes are sent in
order, each once, and all of them before the rename; an exception before the rename leaves the names
as they were, unless the removal fails; a commit that returns leaves the new bytes, also to a
crash. -/
structure AllOrNothing (before : Files) (destination : Path) (bytes : Bytes)
    (result : EStateM.Result Stop System Unit) : Prop where
  read : (left result).files.read destination = before.read destination ∨
    (left result).files.read destination = some bytes
  crash : ∀ image, (left result).files.Image image →
    (∃ old, before.Image old ∧ image destination = old destination) ∨
      image destination = some bytes
  sent : (left result).written <+: bytes
  sentAll : (left result).Renamed → (left result).written = bytes
  cleaned : ∀ error system, result = .error (.thrown error) system → ¬ system.Renamed →
    ¬ system.UnlinkFailed → system.files.names = before.names
  returned : ∀ system, result = .ok () system → system.files.read destination = some bytes ∧
    ∀ image, system.files.Image image → image destination = some bytes

theorem At.written_isPrefix {before : Files} {destination : Path} {bytes : Bytes}
    {reached : Reached} {system : System} (h : At before destination bytes reached system) :
    system.written <+: bytes ∧ (system.Renamed → system.written = bytes) := by
  rw [h.written, h.renamed]
  cases reached with
  | untouched => exact ⟨List.nil_prefix, False.elim⟩
  | writing temp offset synced => exact ⟨List.take_prefix offset bytes, False.elim⟩
  | removed temp offset synced => exact ⟨List.take_prefix offset bytes, False.elim⟩
  | renamed temp => exact ⟨List.prefix_rfl, fun _ => rfl⟩
  | settled temp => exact ⟨List.prefix_rfl, fun _ => rfl⟩

theorem At.read_or {before : Files} {destination : Path} {bytes : Bytes}
    {reached : Reached} {system : System} (h : At before destination bytes reached system) :
    system.files.read destination = before.read destination ∨
      system.files.read destination = some bytes := by
  rw [h.files]
  rcases reached.read_files before destination bytes fun temp htemp => (h.temp temp htemp).1
    with hread | hread
  · exact Or.inl hread.2
  · exact Or.inr hread.2

theorem AllOrNothing.of_at {before : Files} {destination : Path} {bytes : Bytes}
    {reached : Reached} {result : EStateM.Result Stop System Unit}
    (h : At before destination bytes reached (left result))
    (hstop : ∀ stop system, result = .error stop system →
      Stopped before destination bytes stop system)
    (hreturn : ∀ system, result = .ok () system →
      ∃ temp, At before destination bytes (.settled temp) system) :
    AllOrNothing before destination bytes result where
  read := h.read_or
  crash image himage := by
    rw [h.files] at himage
    exact reached.image_files before destination bytes (fun temp htemp => (h.temp temp htemp).1)
      himage
  sent := h.written_isPrefix.1
  sentAll := h.written_isPrefix.2
  cleaned error system heq hrenamed hunlink := by
    rcases hstop _ system heq with ⟨reached, h, hwriting⟩
    rw [h.files]
    exact reached.names_files before destination bytes (fun hreached => hunlink (hwriting hreached))
      (fun hreached => hrenamed (h.renamed.mpr hreached)) fun temp htemp => (h.temp temp htemp).2
  returned system heq := by
    rcases hreturn system heq with ⟨temp, h⟩
    rw [h.files]
    exact ⟨read_withRenamed before destination bytes temp,
      fun image => image_settled before destination bytes temp⟩

/-- A commit keeps its promises wherever it stops. -/
theorem write_keeps (destination : Path) (bytes : Bytes) (observer : Option AtomicCommitObserver)
    (before : Files) (answers : List CallResult) (processId tempSequence : ℕ) :
    AllOrNothing before destination bytes
      (write destination bytes observer
        (System.start before answers processId tempSequence)) := by
  have hstart : At before destination bytes .untouched
      (System.start before answers processId tempSequence) := by
    refine ⟨rfl, rfl, ?_, by simp [Reached.temp]⟩
    simp [System.Renamed, System.start, Reached.IsRenamed]
  have hrun := write_meets observer _ hstart
  cases heq : write destination bytes observer
      (System.start before answers processId tempSequence) with
  | ok _ system =>
      rw [heq] at hrun
      rcases hrun with ⟨temp, h⟩
      refine AllOrNothing.of_at h (by simp) ?_
      intro other hother
      cases hother
      exact ⟨temp, h⟩
  | error stop system =>
      rw [heq] at hrun
      rcases hrun with ⟨reached, h, hstop⟩
      refine AllOrNothing.of_at h ?_ (by simp)
      intro other system' hother
      cases hother
      exact ⟨reached, h, hstop⟩

/-- The loop sends a file its bytes in order, each once; it sends all of them when it returns. -/
theorem writeAll_sends (file : ℕ) (bytes : Bytes) (system : System) :
    ∃ sent, sent <+: bytes ∧
      (left (writeAll file bytes system)).written = system.written ++ sent ∧
      ((left (writeAll file bytes system)).files.file file).content =
        (system.files.file file).content ++ sent ∧
      (∀ system', writeAll file bytes system = .ok () system' → sent = bytes) := by
  have hcontent : ∀ sent system', Sent system file sent system' →
      (system'.files.file file).content = (system.files.file file).content ++ sent := by
    intro sent system' h
    rcases h with ⟨⟨synced, hfiles⟩, _⟩
    rw [hfiles]
    simp
  have hrun := writeAll_meets system file bytes system rfl
  cases heq : writeAll file bytes system with
  | ok _ system' =>
      rw [heq] at hrun
      exact ⟨bytes, List.prefix_rfl, hrun.2.1, hcontent _ _ hrun, fun _ _ => rfl⟩
  | error stop system' =>
      rw [heq] at hrun
      rcases hrun with ⟨sent, hsent, hinitial⟩
      exact ⟨sent, hinitial, hsent.2.1, hcontent _ _ hsent, by simp⟩

/-- The loop returns on a stream of calls that make progress, unless it is interrupted for ever. -/
theorem writeAll_returns (file : ℕ) (bytes : Bytes) (system : System) (stream : ℕ → CallResult)
    (hlive : ∀ n, ∃ m ≥ n, stream m ≠ .error .eintr) (hprogress : ∀ n, Progresses (stream n)) :
    ∃ n, ∀ m ≥ n, ∃ system',
      writeAll file bytes { system with answers := first stream m } = .ok () system' := by
  rcases exists_live stream hlive bytes.length with ⟨n, hn⟩
  refine ⟨n, fun m hm => ?_⟩
  have hanswers : ∀ answer ∈ first stream m, Progresses answer := by
    intro answer hmem
    rcases List.mem_map.mp hmem with ⟨k, _, rfl⟩
    exact hprogress k
  have hrun := writeAll_progresses file bytes { system with answers := first stream m } hanswers
  cases heq : writeAll file bytes { system with answers := first stream m } with
  | ok _ system' => exact ⟨system', rfl⟩
  | error stop system' =>
      rw [heq] at hrun
      exact absurd (hrun ▸ heq) (not_killed (writeAll_spends file bytes) (hn m hm) system')

/-- Commits are all or nothing, and end: at every answer of the system and every exception of the
observer the promises hold, and no stream of answers keeps a commit busy unless it interrupts calls
for ever. -/
theorem write_allOrNothing (destination : Path) (bytes : Bytes)
    (observer : Option AtomicCommitObserver) (before : Files) (processId tempSequence : ℕ) :
    (∀ answers, AllOrNothing before destination bytes
      (write destination bytes observer (System.start before answers processId tempSequence))) ∧
    (∀ stream : ℕ → CallResult, (∀ n, ∃ m ≥ n, stream m ≠ .error .eintr) →
      ∃ n, ∀ m ≥ n, ∀ system, write destination bytes observer
        (System.start before (first stream m) processId tempSequence) ≠ .error .killed system) ∧
    (∀ file (system : System), ∃ sent, sent <+: bytes ∧
      (left (writeAll file bytes system)).written = system.written ++ sent ∧
      ((left (writeAll file bytes system)).files.file file).content =
        (system.files.file file).content ++ sent ∧
      (∀ system', writeAll file bytes system = .ok () system' → sent = bytes)) ∧
    (∀ file (system : System) (stream : ℕ → CallResult), (∀ n, ∃ m ≥ n, stream m ≠ .error .eintr) →
      (∀ n, Progresses (stream n)) → ∃ n, ∀ m ≥ n, ∃ system',
        writeAll file bytes { system with answers := first stream m } = .ok () system') := by
  refine ⟨fun answers => ?_, fun stream hlive => ?_, fun file system => ?_,
    fun file system stream => ?_⟩
  · exact write_keeps destination bytes observer before answers processId tempSequence
  · rcases exists_live stream hlive (maximumAttempts + (bytes.length + 6)) with ⟨n, hn⟩
    exact ⟨n, fun m hm => not_killed (write_spends destination bytes observer) (hn m hm)⟩
  · exact writeAll_sends file bytes system
  · exact writeAll_returns file bytes system stream

/-- Interruptions alone keep the loop at its first byte. -/
theorem writeLoop_interrupted (file : ℕ) (byte : UInt8) (n rounds : ℕ) {system : System}
    (hanswers : system.answers = List.replicate n (.error .eintr)) :
    ∃ system', writeLoop file [byte] rounds 0 system = .error .killed system' := by
  induction rounds generalizing n system with
  | zero => exact ⟨system, rfl⟩
  | succ rounds ih =>
      cases n with
      | zero =>
          refine ⟨system, ?_⟩
          simp [writeLoop, bind, EStateM.bind, Run.call, hanswers]
      | succ n =>
          have hrest : (Run.failed system (.write file [byte]) .eintr
              (List.replicate n (.error .eintr))).answers = List.replicate n (.error .eintr) := rfl
          rcases ih n hrest with ⟨system', h⟩
          refine ⟨system', ?_⟩
          rw [← h]
          simp [writeLoop, bind, EStateM.bind, Run.call, hanswers, List.replicate_succ,
            Run.failed, ssizeMax, Except.bind]

/-- A commit of one byte behind the creation of its temporary file. -/
def created (answers : List CallResult) : System :=
  Run.done { System.start .empty (.ok 0 :: answers) 0 0 with tempSequence := 1 }
    (.openExclusive (tempPath ⟨[], ascii "manifest"⟩ 0 0)) 0
    (Library.CachedFiles.empty.create (tempPath ⟨[], ascii "manifest"⟩ 0 0)) answers

theorem createTempPath_created (answers : List CallResult) :
    createTempPath ⟨[], ascii "manifest"⟩ maximumAttempts
        (System.start .empty (.ok 0 :: answers) 0 0) =
      .ok (tempPath ⟨[], ascii "manifest"⟩ 0 0, 0) (created answers) := rfl

theorem write_killed {answers : List CallResult} {system : System}
    (h : writeAll 0 [7] (created answers) = .error .killed system) :
    write ⟨[], ascii "manifest"⟩ [7] none (System.start .empty (.ok 0 :: answers) 0 0) =
      .error .killed system := by
  have hname : ascii "manifest" ≠ [] := by decide
  simp [write, hname, bind, EStateM.bind, createTempPath_created, Run.onException, writeAndRename,
    observe, pure, EStateM.pure, h]

/-- A process that ends behind the creation of the temporary file leaves it there; and a commit whose
calls are interrupted for ever is still at its first byte, however many answers it got, although no
other `write` failed to make progress. -/
theorem write_leavesTemp_and_waits :
    (∃ system, write ⟨[], ascii "manifest"⟩ [7] none
        (System.start .empty [.ok 0] 0 0) = .error .killed system ∧ ¬ system.Renamed ∧
        system.files.read (tempPath ⟨[], ascii "manifest"⟩ 0 0) = some []) ∧
      ∀ n, ∃ system, write ⟨[], ascii "manifest"⟩ [7] none
        (System.start .empty (.ok 0 :: List.replicate n (.error .eintr)) 0 0) =
          .error .killed system := by
  refine ⟨⟨created [], write_killed rfl, ?_, rfl⟩, fun n => ?_⟩
  · simp [System.Renamed, created, Run.done, System.start]
  · have hanswers : (created (List.replicate n (.error .eintr))).answers =
        List.replicate n (.error .eintr) := rfl
    rcases writeLoop_interrupted 0 7 n (n + 1) hanswers with ⟨system, h⟩
    refine ⟨system, write_killed ?_⟩
    rw [← h, writeAll, hanswers, List.length_replicate]

end AtomicFileCommit

end GiveMePi.Posix
