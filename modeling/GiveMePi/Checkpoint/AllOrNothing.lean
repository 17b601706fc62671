import GiveMePi.Checkpoint.SystemCalls

/-! # A commit is all or nothing

Whatever the calls of `AtomicFileCommit::write` answer, and wherever its process or its machine
stops, the destination holds what it held or all the new bytes. -/

namespace GiveMePi.Posix

open Library (Meets CachedFile CachedFiles NameChange)

/-- The bytes one call took. -/
def taken : SystemCall × CallResult → Bytes
  | (.write _ bytes, .ok count) => bytes.take count
  | _ => []

namespace System

/-- The bytes the `write` calls took, in the order of the calls. -/
def written (system : System) : Bytes :=
  system.calls.flatMap taken

/-- A `rename` took place. -/
def Renamed (system : System) : Prop :=
  ∃ source destination result, (.rename source destination, .ok result) ∈ system.calls

/-- A file could not be removed. -/
def UnlinkFailed (system : System) : Prop :=
  ∃ path errno, (.unlink path, .error errno) ∈ system.calls

end System

namespace Run

variable {pre : System → Prop} {fail : Stop → System → Prop}

/-- The system behind a call that failed. -/
def failed (system : System) (request : SystemCall) (errno : Errno) (answers : List CallResult) :
    System :=
  { system with answers := answers, calls := system.calls ++ [(request, .error errno)] }

/-- The system behind a call that was carried out. -/
def done (system : System) (request : SystemCall) (result : ℕ) (files : Files)
    (answers : List CallResult) : System :=
  { system with
    files := files
    answers := answers
    calls := system.calls ++ [(request, .ok result)] }

/-- A call ends the process, fails without effect or is carried out. -/
theorem call_meets {request : SystemCall} {post : CallResult → System → Prop}
    (hkilled : ∀ s, pre s → fail .killed s)
    (hfailed : ∀ s errno answers, pre s → post (.error errno) (failed s request errno answers))
    (hdone : ∀ s count result files answers, pre s →
      request.perform s.files count = .ok (result, files) →
        post (.ok result) (done s request result files answers)) :
    Meets pre (call request) post fail := by
  intro s hs
  rw [call]
  cases hanswers : s.answers with
  | nil => exact hkilled s hs
  | cons answer answers =>
      cases hperform : answer >>= fun count => request.perform s.files count with
      | error errno =>
          simp only [hperform]
          exact hfailed s errno answers hs
      | ok outcome =>
          simp only [hperform]
          cases answer with
          | error errno => cases hperform
          | ok count => exact hdone s count outcome.1 outcome.2 answers hs hperform

/-- A call that is checked has returned, or its failure is thrown. -/
def Checked (post : System → Prop) (fail : Stop → System → Prop) (what : String) :
    CallResult → System → Prop
  | .ok _, s => post s
  | .error _, s => fail (.thrown (.systemError what)) s

theorem check_meets {request : SystemCall} {what : String} {post : System → Prop}
    (hkilled : ∀ s, pre s → fail .killed s)
    (hfailed : ∀ s errno answers, pre s →
      fail (.thrown (.systemError what)) (failed s request errno answers))
    (hdone : ∀ s count result files answers, pre s →
      request.perform s.files count = .ok (result, files) →
        post (done s request result files answers)) :
    Meets pre (check request what) (fun _ => post) fail := by
  refine Meets.bind_of (Checked post fail what) (call_meets hkilled hfailed hdone) ?_
  intro result
  cases result with
  | ok _ => exact Meets.pure fun _ => id
  | error _ => exact Meets.throw fun _ => id

/-- The end of the process is not caught. -/
theorem onException_meets {body : Run Unit} {cleanup : Run Unit} {post : Unit → System → Prop}
    {caught : Stop → System → Prop} (hbody : Meets pre body post caught)
    (hkilled : ∀ s, caught .killed s → fail .killed s)
    (hcleanup : ∀ error, Meets (caught (.thrown error)) cleanup
      (fun _ => fail (.thrown error)) fail) :
    Meets pre (onException body cleanup) post fail := by
  intro s hs
  have hrun := hbody s hs
  rw [onException]
  cases h : body s with
  | ok a s' =>
      rw [h] at hrun
      exact hrun
  | error stop s' =>
      rw [h] at hrun
      cases stop with
      | killed => exact hkilled s' hrun
      | thrown error =>
          exact (hcleanup error).bind (fun _ => Meets.throw fun _ => id) s' hrun

end Run

/-! ## How far a commit is -/

namespace AtomicFileCommit

open Checkpoint.AtomicFileCommit (tempPath maximumAttempts)

/-- How far a commit is: the temporary file is being written, with so many of the bytes, and synced
or not; it was removed; it was renamed; the directory was synced. -/
inductive Reached where
  | untouched
  | writing (temp : Path) (offset : ℕ) (synced : Bool)
  | removed (temp : Path) (offset : ℕ) (synced : Bool)
  | renamed (temp : Path)
  | settled (temp : Path)

section

variable (before : Files) (destination : Path) (bytes : Bytes)

/-- The files with a temporary file. -/
def withTemp (temp : Path) (offset : ℕ) (synced : Bool) : Files :=
  (before.create temp).setFile before.next ⟨bytes.take offset, synced⟩

def withRenamed (temp : Path) : Files :=
  (withTemp before bytes temp bytes.length true).rename temp destination

namespace Reached

/-- The files a commit that is so far has made of those at its start. -/
def files : Reached → Files
  | .untouched => before
  | .writing temp offset synced => withTemp before bytes temp offset synced
  | .removed temp offset synced => (withTemp before bytes temp offset synced).unlink temp
  | .renamed temp => withRenamed before destination bytes temp
  | .settled temp =>
      (withRenamed before destination bytes temp).syncNames fun path =>
        path.directory = destination.directory

def written : Reached → Bytes
  | .untouched => []
  | .writing _ offset _ => bytes.take offset
  | .removed _ offset _ => bytes.take offset
  | .renamed _ => bytes
  | .settled _ => bytes

def temp : Reached → Option Path
  | .untouched => none
  | .writing temp _ _ => some temp
  | .removed temp _ _ => some temp
  | .renamed temp => some temp
  | .settled temp => some temp

def IsRenamed : Reached → Prop
  | .renamed _ => True
  | .settled _ => True
  | _ => False

def IsWriting : Reached → Prop
  | .writing _ _ _ => True
  | _ => False

end Reached

/-- The system shows how far the commit is. -/
structure At (reached : Reached) (system : System) : Prop where
  files : system.files = reached.files before destination bytes
  written : system.written = reached.written bytes
  renamed : system.Renamed ↔ reached.IsRenamed
  temp : ∀ temp ∈ reached.temp, temp ≠ destination ∧ before.names temp = none

variable (temp : Path) (offset : ℕ) (synced : Bool)

/-! ### What readers find -/

variable {temp destination} in
theorem read_withTemp (hne : temp ≠ destination) :
    (withTemp before bytes temp offset synced).read destination = before.read destination := by
  have hname : (withTemp before bytes temp offset synced).names destination =
      before.names destination := Function.update_of_ne hne.symm _ _
  rw [CachedFiles.read, CachedFiles.read, hname]
  refine Option.map_congr ?_
  intro number hnumber
  have hfile : (withTemp before bytes temp offset synced).file number = before.file number := by
    have := before.ne_next hnumber
    simp [withTemp, this]
  rw [hfile]

@[simp] theorem names_withTemp : (withTemp before bytes temp offset synced).names =
    Function.update before.names temp (some before.next) := rfl

theorem read_withRenamed : (withRenamed before destination bytes temp).read destination =
    some bytes := by
  simp [CachedFiles.read, withRenamed, withTemp]

/-- Before the rename, readers of the destination find what was there, afterwards the new bytes. -/
theorem Reached.read_files (reached : Reached) (hne : ∀ temp ∈ reached.temp, temp ≠ destination) :
    (¬ reached.IsRenamed ∧
      (reached.files before destination bytes).read destination = before.read destination) ∨
    (reached.IsRenamed ∧
      (reached.files before destination bytes).read destination = some bytes) := by
  cases reached with
  | untouched => exact Or.inl ⟨id, rfl⟩
  | writing temp offset synced => exact Or.inl ⟨id, read_withTemp before bytes offset synced (hne temp rfl)⟩
  | removed temp offset synced =>
      refine Or.inl ⟨id, ?_⟩
      have hne := hne temp rfl
      rw [← read_withTemp before bytes offset synced hne, Reached.files, CachedFiles.read, CachedFiles.names_unlink,
        Function.update_of_ne hne.symm]
      rfl
  | renamed temp => exact Or.inr ⟨trivial, read_withRenamed before destination bytes temp⟩
  | settled temp => exact Or.inr ⟨trivial, read_withRenamed before destination bytes temp⟩

/-! ### What crashes leave -/

theorem extends_withTemp :
    before.Extends [[(temp, some before.next)]] (withTemp before bytes temp offset synced) :=
  ((CachedFiles.Extends.refl before).create temp).setFile le_rfl _

theorem extends_withRenamed :
    before.Extends [[(temp, some before.next)], [(temp, none), (destination, some before.next)]]
      (withRenamed before destination bytes temp) := by
  have h := (extends_withTemp before bytes temp bytes.length true).rename temp destination
  rwa [names_withTemp, Function.update_self] at h

theorem content_withRenamed :
    ((withRenamed before destination bytes temp).file before.next).content = bytes ∧
      ((withRenamed before destination bytes temp).file before.next).synced := by
  simp [withRenamed, withTemp]

theorem apply_rename (number : ℕ) (names : Path → Option ℕ) :
    NameChange.apply names [(temp, none), (destination, some number)] destination =
      some number := by
  simp

variable {temp destination} in
theorem not_touches (hne : temp ≠ destination) (number : Option ℕ) :
    ¬ NameChange.Touches [(temp, number)] destination := by
  intro h
  rcases h with ⟨entry, hmem, heq⟩
  rw [List.mem_singleton.mp hmem] at heq
  exact hne heq

/-- Behind the sync of the directory, a crash leaves the new bytes. -/
theorem image_settled {image : Path → Option Bytes}
    (himage : ((Reached.settled temp).files before destination bytes).Image image) :
    image destination = some bytes := by
  have hcontent := content_withRenamed before destination bytes temp
  have hpending : (withRenamed before destination bytes temp).pending =
      (before.pending ++ [[(temp, some before.next)]]) ++
        [[(temp, none), (destination, some before.next)]] := by
    rw [(extends_withRenamed before destination bytes temp).pending]
    simp
  have htouches : NameChange.Touches [(temp, none), (destination, some before.next)]
      destination := ⟨(destination, some before.next), by simp, rfl⟩
  rw [← hcontent.1]
  exact CachedFiles.image_syncNames _ hpending (by simp) (apply_rename destination temp _) htouches
    hcontent.2 himage

/-- A crash leaves the destination as one before the commit might have left it, or with the new
bytes. -/
theorem Reached.image_files (reached : Reached) (hne : ∀ temp ∈ reached.temp, temp ≠ destination)
    {image : Path → Option Bytes}
    (himage : (reached.files before destination bytes).Image image) :
    (∃ old, before.Image old ∧ image destination = old destination) ∨
      image destination = some bytes := by
  cases reached with
  | untouched => exact Or.inl ⟨image, himage, rfl⟩
  | writing temp offset synced =>
      refine Or.inl ((extends_withTemp before bytes temp offset synced).image_eq ?_ himage)
      simp [not_touches (hne temp rfl)]
  | removed temp offset synced =>
      refine Or.inl (((extends_withTemp before bytes temp offset synced).unlink temp).image_eq ?_ himage)
      simp [not_touches (hne temp rfl)]
  | renamed temp =>
      have hcontent := content_withRenamed before destination bytes temp
      have huntouched : ∀ change ∈ [[(temp, some before.next)]],
          ¬ NameChange.Touches change destination := by
        simp [not_touches (hne temp rfl)]
      rw [← hcontent.1]
      exact (extends_withRenamed before destination bytes temp).image_eq_or huntouched
        (apply_rename destination temp before.next) hcontent.2 himage
  | settled temp =>
      exact Or.inr (image_settled before destination bytes temp himage)

/-- No temporary file is left, and nothing else changed, unless the commit stopped with one or
renamed it. -/
theorem Reached.names_files (reached : Reached) (hwriting : ¬ reached.IsWriting)
    (hrenamed : ¬ reached.IsRenamed) (habsent : ∀ temp ∈ reached.temp, before.names temp = none) :
    (reached.files before destination bytes).names = before.names := by
  cases reached with
  | untouched => rfl
  | writing => exact absurd trivial hwriting
  | removed temp offset synced =>
      rw [Reached.files, CachedFiles.names_unlink, names_withTemp, Function.update_idem,
        ← habsent temp rfl, Function.update_eq_self]
  | renamed => exact absurd trivial hrenamed
  | settled => exact absurd trivial hrenamed

end

/-! ## What each call does to a commit -/

namespace At

variable {before : Files} {destination : Path} {bytes : Bytes} {reached reached' : Reached}
  {system : System}

theorem failed (h : At before destination bytes reached system) (request : SystemCall)
    (errno : Errno) (answers : List CallResult) :
    At before destination bytes reached (Run.failed system request errno answers) where
  files := h.files
  written := by
    rw [← h.written]
    simp [System.written, Run.failed, taken]
  renamed := by
    rw [← h.renamed]
    simp [System.Renamed, Run.failed]
  temp := h.temp

/-- A call that is no rename brings the commit from one place to another. -/
theorem done (h : At before destination bytes reached system) {request : SystemCall} {result : ℕ}
    {files : Files} (answers : List CallResult)
    (hfiles : files = reached'.files before destination bytes)
    (hwritten : reached.written bytes ++ taken (request, .ok result) = reached'.written bytes)
    (hrequest : ∀ source destination, request ≠ .rename source destination)
    (hrenamed : reached.IsRenamed ↔ reached'.IsRenamed)
    (htemp : ∀ temp ∈ reached'.temp, temp ≠ destination ∧ before.names temp = none) :
    At before destination bytes reached' (Run.done system request result files answers) where
  files := hfiles
  written := by
    rw [← hwritten, ← h.written]
    simp [System.written, Run.done]
  renamed := by
    rw [← hrenamed, ← h.renamed]
    simp [System.Renamed, Run.done, fun source destination => (hrequest source destination).symm]
  temp := htemp

/-- The temporary file gets the name of the destination. -/
theorem rename {temp : Path} (h : At before destination bytes
      (.writing temp bytes.length true) system) {count result : ℕ} {files : Files}
    (answers : List CallResult)
    (hperform : SystemCall.perform system.files count (.rename temp destination) =
      .ok (result, files)) :
    At before destination bytes (.renamed temp)
      (Run.done system (.rename temp destination) result files answers) where
  files := by
    have hnames : (system.files.names temp).isSome := by
      rw [h.files]
      simp [Reached.files]
    rw [SystemCall.perform, if_pos hnames] at hperform
    cases hperform
    change system.files.rename temp destination = _
    rw [h.files]
    rfl
  written := by
    have hwritten := h.written
    simp only [Reached.written, List.take_length] at hwritten
    simp [System.written, Run.done, taken, Reached.written, ← hwritten]
  renamed := by
    refine ⟨fun _ => trivial, fun _ => ⟨temp, destination, result, ?_⟩⟩
    simp [Run.done]
  temp := h.temp

/-- A name that is free gets the next file. -/
theorem create {temp : Path} (h : At before destination bytes .untouched system)
    {count result : ℕ} {files : Files} (answers : List CallResult) (hne : temp ≠ destination)
    (hperform : SystemCall.perform system.files count (.openExclusive temp) =
      .ok (result, files)) :
    result = before.next ∧ At before destination bytes (.writing temp 0 false)
      (Run.done system (.openExclusive temp) result files answers) := by
  have hfiles : system.files = before := h.files
  rw [SystemCall.perform, hfiles] at hperform
  by_cases hfree : (before.names temp).isSome
  · rw [if_pos hfree] at hperform
    cases hperform
  · rw [if_neg hfree] at hperform
    cases hperform
    refine ⟨rfl, h.done answers ?_ (by simp [taken, Reached.written]) (fun _ _ => by simp) Iff.rfl ?_⟩
    · simp [Reached.files, withTemp, CachedFiles.create]
    · intro other hother
      cases hother
      exact ⟨hne, by simpa using hfree⟩

end At

section

variable {before : Files} {destination : Path} {bytes : Bytes} {temp : Path}

/-- The commit has a temporary file. -/
def HasTemp (before : Files) (destination : Path) (bytes : Bytes) (temp : Path)
    (system : System) : Prop :=
  ∃ offset synced, At before destination bytes (.writing temp offset synced) system

/-- The bytes of a request that a call takes are the next ones. -/
theorem take_chunk (bytes : Bytes) (offset : ℕ) {count requestSize : ℕ} (h : count ≤ requestSize) :
    ((bytes.drop offset).take requestSize).take count = (bytes.drop offset).take count := by
  rw [List.take_take, Nat.min_eq_left h]

/-- A `write` appends the bytes it takes. -/
theorem perform_write {files files' : Files} {count file result : ℕ} {request : Bytes}
    (h : SystemCall.perform files count (.write file request) = .ok (result, files')) :
    result ≤ request.length ∧ files' = files.append file (request.take result) := by
  rw [SystemCall.perform, Except.ok.injEq, Prod.mk.injEq] at h
  rcases h with ⟨rfl, rfl⟩
  exact ⟨Nat.min_le_right _ _, rfl⟩

theorem observe_meets {observer : Option AtomicCommitObserver} {stage : AtomicCommitStage}
    {pre : System → Prop} {fail : Stop → System → Prop}
    (hfail : ∀ s error, pre s → fail (.thrown error) s) :
    Meets pre (observe observer stage) (fun _ => pre) fail := by
  cases observer with
  | none => exact Meets.pure fun _ => id
  | some observer =>
      rw [observe]
      cases observer stage with
      | ok _ => exact Meets.pure fun _ => id
      | error error => exact Meets.throw fun s h => hfail s error h

/-- The file and the calls behind some bytes that were sent to the file. -/
def Sent (start : System) (file : ℕ) (sent : Bytes) (system : System) : Prop :=
  (∃ synced, system.files =
    start.files.setFile file ⟨(start.files.file file).content ++ sent, synced⟩) ∧
  system.written = start.written ++ sent ∧ (system.Renamed ↔ start.Renamed)

theorem Sent.refl (start : System) (file : ℕ) : Sent start file [] start := by
  refine ⟨⟨(start.files.file file).synced, ?_⟩, by simp, Iff.rfl⟩
  rw [List.append_nil]
  exact (CachedFiles.setFile_self start.files file).symm

theorem Sent.failed {start system : System} {file : ℕ} {sent : Bytes}
    (h : Sent start file sent system) (request : SystemCall) (errno : Errno)
    (answers : List CallResult) :
    Sent start file sent (Run.failed system request errno answers) := by
  refine ⟨h.1, ?_, ?_⟩
  · rw [← h.2.1]
    simp [System.written, Run.failed, taken]
  · rw [← h.2.2]
    simp [System.Renamed, Run.failed]

/-- A `write` sends the bytes it takes behind those before. -/
theorem Sent.write {start system : System} {file : ℕ} {sent : Bytes}
    (h : Sent start file sent system) {request : Bytes} {count result : ℕ} {files : Files}
    (answers : List CallResult)
    (hperform : SystemCall.perform system.files count (.write file request) =
      .ok (result, files)) :
    Sent start file (sent ++ request.take result)
      (Run.done system (.write file request) result files answers) := by
  rcases h with ⟨⟨synced, hfiles⟩, hwritten, hrenamed⟩
  refine ⟨⟨false, ?_⟩, ?_, ?_⟩
  · change files = _
    rw [(perform_write hperform).2, hfiles]
    simp [CachedFiles.append]
  · rw [← List.append_assoc, ← hwritten]
    simp [System.written, Run.done, taken]
  · rw [← hrenamed]
    simp [System.Renamed, Run.done]

/-- The rounds from an offset on send the bytes from there on, in order and each once. -/
theorem writeLoop_meets (start : System) (file : ℕ) (bytes : Bytes) (rounds : ℕ) {offset : ℕ}
    (hoffset : offset ≤ bytes.length) :
    Meets (Sent start file (bytes.take offset)) (writeLoop file bytes rounds offset)
      (fun _ => Sent start file bytes)
      (fun _ s => ∃ sent, Sent start file sent s ∧ sent <+: bytes) := by
  have hstop : ∀ offset s, Sent start file (bytes.take offset) s →
      ∃ sent, Sent start file sent s ∧ sent <+: bytes :=
    fun offset s h => ⟨_, h, List.take_prefix offset bytes⟩
  induction rounds generalizing offset with
  | zero => exact Meets.throw (hstop offset)
  | succ rounds ih =>
      rw [writeLoop]
      refine Meets.ite (fun hlt => ?_) fun hge => ?_
      · refine Meets.bind_of (fun result s => match result with
          | .error _ => Sent start file (bytes.take offset) s
          | .ok count => offset + count ≤ bytes.length ∧
              Sent start file (bytes.take (offset + count)) s)
          (Run.call_meets (hstop offset) ?_ ?_) ?_
        · exact fun s errno answers h => h.failed _ errno answers
        · intro s count result files answers h hperform
          have hresult := (perform_write hperform).1
          rw [List.length_take, List.length_drop] at hresult
          have hsent := h.write answers hperform
          rw [take_chunk bytes offset (by omega), ← List.take_add] at hsent
          exact ⟨by omega, hsent⟩
        · intro result
          match result with
          | .error .eintr => exact ih hoffset
          | .error .eexist => exact Meets.throw (hstop offset)
          | .error .other => exact Meets.throw (hstop offset)
          | .ok 0 => exact Meets.throw fun s h => hstop offset s h.2
          | .ok (written + 1) => exact Meets.of_pre fun hle => ih hle
      · have heq : bytes.take offset = bytes := List.take_of_length_le (by omega)
        exact Meets.pure fun s h => heq ▸ h

theorem writeAll_meets (start : System) (file : ℕ) (bytes : Bytes) :
    Meets (fun s => s = start) (writeAll file bytes) (fun _ => Sent start file bytes)
      (fun _ s => ∃ sent, Sent start file sent s ∧ sent <+: bytes) := by
  intro s h
  subst h
  exact writeLoop_meets s file bytes (s.answers.length + 1) (Nat.zero_le _) s (Sent.refl s file)

/-- What is sent to the new temporary file is there. -/
theorem At.sent {before : Files} {destination : Path} {bytes : Bytes} {temp : Path}
    {start system : System} {sent : Bytes}
    (h : At before destination bytes (.writing temp 0 false) start)
    (hsent : Sent start before.next sent system) (hinitial : sent <+: bytes) :
    ∃ synced, At before destination bytes (.writing temp sent.length synced) system := by
  rcases hsent with ⟨⟨synced, hfiles⟩, hwritten, hrenamed⟩
  have htake : bytes.take sent.length = sent := (List.prefix_iff_eq_take.mp hinitial).symm
  refine ⟨synced, ?_, ?_, hrenamed.trans h.renamed, h.temp⟩
  · rw [hfiles, h.files]
    simp [Reached.files, withTemp, htake]
  · rw [hwritten, h.written]
    simp [Reached.written, htake]

theorem writeAll_meets_at :
    Meets (At before destination bytes (.writing temp 0 false)) (writeAll before.next bytes)
      (fun _ s => ∃ synced, At before destination bytes (.writing temp bytes.length synced) s)
      (fun _ => HasTemp before destination bytes temp) := by
  intro s h
  refine (writeAll_meets s before.next bytes).consequence (fun _ => id) ?_ ?_ s rfl
  · exact fun _ s' hsent => h.sent hsent (List.prefix_refl bytes)
  · intro _ s' hstop
    rcases hstop with ⟨sent, hsent, hinitial⟩
    exact ⟨sent.length, h.sent hsent hinitial⟩

/-- The rename is the last thing that can fail. -/
theorem writeAndRename_meets {observer : Option AtomicCommitObserver} :
    Meets (At before destination bytes (.writing temp 0 false))
      (writeAndRename temp destination before.next bytes observer)
      (fun _ => At before destination bytes (.renamed temp))
      (fun _ => HasTemp before destination bytes temp) := by
  have hobserve : ∀ offset synced stage,
      Meets (At before destination bytes (.writing temp offset synced)) (observe observer stage)
        (fun _ => At before destination bytes (.writing temp offset synced))
        (fun _ => HasTemp before destination bytes temp) :=
    fun offset synced stage => observe_meets fun s _ h => ⟨offset, synced, h⟩
  refine (hobserve _ _ _).bind fun _ => writeAll_meets_at.bind fun _ => Meets.exists_pre
    fun synced => (hobserve _ _ _).bind fun _ => ?_
  refine Meets.bind_of (fun _ => At before destination bytes (.writing temp bytes.length true))
    (Run.check_meets ?_ ?_ ?_) fun _ => (hobserve _ _ _).bind fun _ => ?_
  · exact fun s h => ⟨_, _, h⟩
  · exact fun s errno answers h => ⟨_, _, h.failed _ errno answers⟩
  · intro s count result files answers h hperform
    cases hperform
    refine h.done answers ?_ (by simp [taken, Reached.written]) (fun _ _ => by simp) Iff.rfl h.temp
    rw [h.files]
    simp [Reached.files, withTemp, CachedFiles.sync]
  refine Meets.bind_of (fun _ => At before destination bytes (.writing temp bytes.length true))
    (Run.check_meets ?_ ?_ ?_) fun _ => (hobserve _ _ _).bind fun _ => (hobserve _ _ _).bind
      fun _ => Run.check_meets ?_ ?_ ?_
  · exact fun s h => ⟨_, _, h⟩
  · exact fun s errno answers h => ⟨_, _, h.failed _ errno answers⟩
  · intro s count result files answers h hperform
    cases hperform
    exact h.done answers h.files (by simp [taken, Reached.written]) (fun _ _ => by simp) Iff.rfl
      h.temp
  · exact fun s h => ⟨_, _, h⟩
  · exact fun s errno answers h => ⟨_, _, h.failed _ errno answers⟩
  · intro s count result files answers h hperform
    exact h.rename answers hperform

/-- The directory is opened and synced; what fails here leaves the commit renamed. -/
theorem syncDirectory_meets {observer : Option AtomicCommitObserver} :
    Meets (At before destination bytes (.renamed temp)) (syncDirectory destination observer)
      (fun _ => At before destination bytes (.settled temp))
      (fun _ s => At before destination bytes (.renamed temp) s ∨
        At before destination bytes (.settled temp) s) := by
  refine (observe_meets fun s _ h => Or.inl h).bind fun _ => ?_
  refine Meets.bind_of (fun _ => At before destination bytes (.renamed temp))
    (Run.check_meets ?_ ?_ ?_) fun _ => ?_
  · exact fun s h => Or.inl h
  · exact fun s errno answers h => Or.inl (h.failed _ errno answers)
  · intro s count result files answers h hperform
    cases hperform
    exact h.done answers h.files (by simp [taken]) (fun _ _ => by simp) Iff.rfl h.temp
  refine Meets.bind_of (fun _ => At before destination bytes (.settled temp))
    (Run.check_meets ?_ ?_ ?_) fun _ => observe_meets fun s _ h => Or.inr h
  · exact fun s h => Or.inl h
  · exact fun s errno answers h => Or.inl (h.failed _ errno answers)
  · intro s count result files answers h hperform
    cases hperform
    refine h.done answers ?_ (by simp [taken, Reached.written]) (fun _ _ => by simp) Iff.rfl h.temp
    rw [h.files]
    rfl

theorem tempPath_ne (destination : Path) (processId sequence : ℕ) :
    tempPath destination processId sequence ≠ destination := by
  intro h
  have hlength := congrArg (fun path : Path => path.filename.length) h
  have htext : (ascii ".tmp.").length = 5 := rfl
  simp only [tempPath, List.length_append, htext] at hlength
  omega

/-- The temporary file is new and empty. -/
theorem createTempPath_meets (attempts : ℕ) :
    Meets (At before destination bytes .untouched) (createTempPath destination attempts)
      (fun made s => made.2 = before.next ∧
        At before destination bytes (.writing made.1 0 false) s)
      (fun _ => At before destination bytes .untouched) := by
  induction attempts with
  | zero => exact Meets.throw fun _ => id
  | succ attempts ih =>
      rw [createTempPath]
      refine Meets.bind_of (fun _ => At before destination bytes .untouched) ?_ fun sequence => ?_
      · exact fun s h => ⟨h.files, h.written, h.renamed, h.temp⟩
      refine Meets.bind_of (fun _ => At before destination bytes .untouched) ?_ fun system => ?_
      · exact fun s h => h
      refine Meets.bind_of (fun result s => match result with
        | .error _ => At before destination bytes .untouched s
        | .ok file => file = before.next ∧ At before destination bytes
            (.writing (tempPath destination system.processId sequence) 0 false) s)
        (Run.call_meets ?_ ?_ ?_) fun result => ?_
      · exact fun s h => h
      · exact fun s errno answers h => h.failed _ errno answers
      · intro s count result files answers h hperform
        exact h.create answers (tempPath_ne _ _ _) hperform
      · match result with
        | .ok file => exact Meets.pure fun s h => h
        | .error .eexist => exact ih
        | .error .eintr => exact Meets.throw fun s h => h
        | .error .other => exact Meets.throw fun s h => h

/-- How a commit may stop: a process may end anywhere, an exception leaves no temporary file unless
its removal failed. -/
def Stopped (before : Files) (destination : Path) (bytes : Bytes) (stop : Stop)
    (system : System) : Prop :=
  ∃ reached, At before destination bytes reached system ∧
    match stop with
    | .killed => True
    | .thrown _ => reached.IsWriting → system.UnlinkFailed

theorem Stopped.of_not_isWriting {reached : Reached} {stop : Stop} {system : System}
    (h : At before destination bytes reached system) (hwriting : ¬ reached.IsWriting) :
    Stopped before destination bytes stop system := by
  refine ⟨reached, h, ?_⟩
  cases stop with
  | killed => trivial
  | thrown error => exact fun hreached => absurd hreached hwriting

/-- The `catch` block removes the temporary file. -/
theorem cleanup_meets (error : Error) :
    Meets (HasTemp before destination bytes temp) (do let _ ← Run.call (.unlink temp))
      (fun _ => Stopped before destination bytes (.thrown error))
      (Stopped before destination bytes) := by
  refine Meets.bind_of (fun _ => Stopped before destination bytes (.thrown error))
    (Run.call_meets ?_ ?_ ?_) fun _ => Meets.pure fun _ => id
  · intro s h
    rcases h with ⟨offset, synced, h⟩
    exact ⟨_, h, trivial⟩
  · intro s errno answers h
    rcases h with ⟨offset, synced, h⟩
    refine ⟨_, h.failed _ errno answers, fun _ => ⟨temp, errno, ?_⟩⟩
    simp [Run.failed]
  · intro s count result files answers h hperform
    rcases h with ⟨offset, synced, h⟩
    cases hperform
    have hremoved : At before destination bytes (.removed temp offset synced)
        (Run.done s (.unlink temp) 0 (s.files.unlink temp) answers) := by
      refine h.done answers ?_ (by simp [taken, Reached.written]) (fun _ _ => by simp) Iff.rfl
        h.temp
      rw [h.files]
      rfl
    exact Stopped.of_not_isWriting hremoved id

theorem write_meets (observer : Option AtomicCommitObserver) :
    Meets (At before destination bytes .untouched) (write destination bytes observer)
      (fun _ s => ∃ temp, At before destination bytes (.settled temp) s)
      (Stopped before destination bytes) := by
  have huntouched : ∀ stop s, At before destination bytes .untouched s →
      Stopped before destination bytes stop s :=
    fun stop s h => Stopped.of_not_isWriting h id
  rw [write]
  refine Meets.ite (fun _ => Meets.throw (huntouched _)) fun _ => ?_
  refine Meets.bind (createTempPath_meets maximumAttempts |>.consequence (fun _ => id)
    (fun _ _ => id) huntouched) fun made => Meets.of_pre fun hfile => ?_
  refine Meets.bind_of (fun _ => At before destination bytes (.renamed made.1)) ?_ fun _ => ?_
  · rw [hfile]
    refine Run.onException_meets writeAndRename_meets ?_ cleanup_meets
    intro s h
    rcases h with ⟨offset, synced, h⟩
    exact ⟨_, h, trivial⟩
  · refine syncDirectory_meets.consequence (fun _ => id) (fun _ s h => ⟨made.1, h⟩) ?_
    intro stop s h
    rcases h with h | h
    · exact Stopped.of_not_isWriting h id
    · exact Stopped.of_not_isWriting h id

end

end AtomicFileCommit

end GiveMePi.Posix
