import S3Archive.Base.Bytes
import S3Archive.Base.Run

/-!
# sebsto Python: download workers and muxer

`_create_archive` as a transition system. The workers of `_download_worker`
(`WorkerStep`) take files from the work queue and put their bodies on the bounded
done queue; the main thread fills the work queue, then drains the done queue into
the ZIP (`PipelineStep`). A blocking `get` or `put` is a step that is enabled when
the queue allows it. `ε` are the exceptions; any download, and what the main
thread does with the ZIP and the upload, may raise one.
-/

namespace S3Archive.SebstoPy

def maxDownloadWorkers : Nat := 16
def doneQueueDepth : Nat := 16

structure FileInfo where
  name : String
  key : String
  size : Nat
  deriving DecidableEq

inductive WorkItem where
  | file (f : FileInfo)
  /-- The sentinel `_DONE`. -/
  | done
  deriving DecidableEq

/-! ## Workers -/

structure Shared (ε : Type) where
  workQ : List WorkItem
  doneQ : List (FileInfo × Bytes)
  errorBox : List ε
  stop : Bool

inductive Worker where
  /-- At the test of `stop`. -/
  | looping
  /-- In `work_q.get()`. -/
  | taking
  | downloading (item : FileInfo)
  /-- In `done_q.put()`. -/
  | putting (item : FileInfo) (data : Bytes)
  /-- The error is recorded and `stop` is not yet set. -/
  | failing
  | returned
  deriving DecidableEq

inductive WorkerEvent where
  | poll
  | take
  | download
  | put
  | fail
  | setStop
  deriving DecidableEq

inductive WorkerStep {ε : Type} :
    Shared ε → Worker → WorkerEvent → Shared ε → Worker → Prop
  | stopped {sh : Shared ε} (hstop : sh.stop = true) : WorkerStep sh .looping .poll sh .returned
  | goOn {sh : Shared ε} (hstop : sh.stop = false) : WorkerStep sh .looping .poll sh .taking
  | take {sh : Shared ε} {item : FileInfo} {rest : List WorkItem}
      (hwork : sh.workQ = .file item :: rest) :
    WorkerStep sh .taking .take { sh with workQ := rest } (.downloading item)
  | takeDone {sh : Shared ε} {rest : List WorkItem} (hwork : sh.workQ = .done :: rest) :
    WorkerStep sh .taking .take { sh with workQ := rest } .returned
  | download {sh : Shared ε} {item : FileInfo} (data : Bytes) :
    WorkerStep sh (.downloading item) .download sh (.putting item data)
  | put {sh : Shared ε} {item : FileInfo} {data : Bytes} (hroom : sh.doneQ.length < doneQueueDepth) :
    WorkerStep sh (.putting item data) .put { sh with doneQ := sh.doneQ ++ [(item, data)] } .looping
  | fail {sh : Shared ε} {item : FileInfo} (e : ε) :
    WorkerStep sh (.downloading item) .fail { sh with errorBox := sh.errorBox ++ [e] } .failing
  | setStop {sh : Shared ε} : WorkerStep sh .failing .setStop { sh with stop := true } .returned

/-! ## The main thread -/

inductive Muxer (ε : Type) where
  /-- The items not yet put on the work queue. -/
  | filling (rest : List WorkItem)
  /-- At the head of the loop. -/
  | looping
  /-- In `done_q.get()`. -/
  | getting
  | writing (file : FileInfo) (data : Bytes)
  /-- The loop is over: the ZIP, the sink and the upload are completed. -/
  | closing
  /-- An exception has been raised. -/
  | aborting (e : ε)
  /-- In the `finally` clause. -/
  | draining (outcome : Except ε Unit)
  | ended (outcome : Except ε Unit)

structure PipelineState (ε : Type) where
  shared : Shared ε
  workers : List Worker
  muxer : Muxer ε
  /-- `len(files)` -/
  total : Nat
  /-- The entries written to the ZIP. -/
  muxed : List (FileInfo × Bytes)
  /-- The entries of the archive, once its upload is completed. -/
  archive : Option (List (FileInfo × Bytes))
  /-- The upload is aborted. -/
  aborted : Bool

namespace PipelineState

variable {ε : Type}

/-- What is put on the work queue. -/
def work (files : List FileInfo) : List WorkItem :=
  files.map .file ++ List.replicate maxDownloadWorkers .done

def start (files : List FileInfo) : PipelineState ε where
  shared := ⟨[], [], [], false⟩
  workers := List.replicate maxDownloadWorkers .looping
  muxer := .filling (work files)
  total := files.length
  muxed := []
  archive := none
  aborted := false

end PipelineState

inductive PipelineEvent where
  | worker (i : Nat) (ev : WorkerEvent)
  | main

inductive PipelineStep {ε : Type} : PipelineState ε → PipelineEvent → PipelineState ε → Prop
  | worker {s : PipelineState ε} {ws₁ ws₂ : List Worker} {w w' : Worker} {sh : Shared ε}
      {ev : WorkerEvent} (hworkers : s.workers = ws₁ ++ w :: ws₂)
      (hstep : WorkerStep s.shared w ev sh w') :
    PipelineStep s (.worker ws₁.length ev) { s with shared := sh, workers := ws₁ ++ w' :: ws₂ }
  | fill {s : PipelineState ε} {item : WorkItem} {rest : List WorkItem}
      (hmuxer : s.muxer = .filling (item :: rest)) :
    PipelineStep s .main
      { s with shared.workQ := s.shared.workQ ++ [item], muxer := .filling rest }
  | filled {s : PipelineState ε} (hmuxer : s.muxer = .filling []) :
    PipelineStep s .main { s with muxer := .looping }
  | check {s : PipelineState ε} (hmuxer : s.muxer = .looping) (hless : s.muxed.length < s.total)
      (herr : s.shared.errorBox = []) :
    PipelineStep s .main { s with muxer := .getting }
  | raise {s : PipelineState ε} {e : ε} {es : List ε} (hmuxer : s.muxer = .looping)
      (hless : s.muxed.length < s.total) (herr : s.shared.errorBox = e :: es) :
    PipelineStep s .main { s with muxer := .aborting e }
  /-- The close of the ZIP on the way out raises another exception. -/
  | raiseOther {s : PipelineState ε} (e : ε) (hmuxer : s.muxer = .looping)
      (hless : s.muxed.length < s.total) (herr : s.shared.errorBox ≠ []) :
    PipelineStep s .main { s with muxer := .aborting e }
  | get {s : PipelineState ε} {file : FileInfo} {data : Bytes} {rest : List (FileInfo × Bytes)}
      (hmuxer : s.muxer = .getting) (hdone : s.shared.doneQ = (file, data) :: rest) :
    PipelineStep s .main { s with shared.doneQ := rest, muxer := .writing file data }
  | write {s : PipelineState ε} {file : FileInfo} {data : Bytes}
      (hmuxer : s.muxer = .writing file data) :
    PipelineStep s .main { s with muxed := s.muxed ++ [(file, data)], muxer := .looping }
  | writeFails {s : PipelineState ε} {file : FileInfo} {data : Bytes} (e : ε)
      (hmuxer : s.muxer = .writing file data) :
    PipelineStep s .main { s with muxer := .aborting e }
  | allMuxed {s : PipelineState ε} (hmuxer : s.muxer = .looping)
      (hall : s.total ≤ s.muxed.length) :
    PipelineStep s .main { s with muxer := .closing }
  | complete {s : PipelineState ε} (hmuxer : s.muxer = .closing) :
    PipelineStep s .main
      { s with shared.stop := true, muxer := .draining (.ok ()), archive := some s.muxed }
  | closeFails {s : PipelineState ε} (e : ε) (hmuxer : s.muxer = .closing) :
    PipelineStep s .main { s with muxer := .aborting e }
  | abort {s : PipelineState ε} {e : ε} (hmuxer : s.muxer = .aborting e) :
    PipelineStep s .main
      { s with shared.stop := true, muxer := .draining (.error e), aborted := true }
  | drain {s : PipelineState ε} {outcome : Except ε Unit} {x : FileInfo × Bytes}
      {rest : List (FileInfo × Bytes)} (hmuxer : s.muxer = .draining outcome)
      (hdone : s.shared.doneQ = x :: rest) :
    PipelineStep s .main { s with shared.doneQ := rest }
  /-- The joins of the workers time out. -/
  | drained {s : PipelineState ε} {outcome : Except ε Unit} (hmuxer : s.muxer = .draining outcome)
      (hdone : s.shared.doneQ = []) :
    PipelineStep s .main { s with muxer := .ended outcome }

abbrev PipelineRun {ε : Type} : PipelineState ε → List PipelineEvent → PipelineState ε → Prop :=
  Run PipelineStep

/-! ## The muxer at an empty queue -/

/-- The muxer waits on the done queue, and no worker will ever put another item on it. -/
def Starved {ε : Type} (s : PipelineState ε) : Prop :=
  s.muxer = .getting ∧ s.shared.doneQ = [] ∧
    ∀ evs s', PipelineRun s evs s' → ∀ i, .worker i .put ∉ evs

/-- The worker has a file, or is past the test of `stop` or will pass it, with a file next. -/
def Worker.CanPut (workQ : List WorkItem) (stop : Bool) : Worker → Prop
  | looping => stop = false ∧ ∃ f, workQ.head? = some (.file f)
  | taking => ∃ f, workQ.head? = some (.file f)
  | downloading _ => True
  | putting _ _ => True
  | failing => False
  | returned => False

/-- The workers other than `i` that can still put an item. -/
def OthersCanPut {ε : Type} (s : PipelineState ε) (i : Nat) (stop : Bool) : Prop :=
  ∃ w ∈ s.workers.eraseIdx i, w.CanPut s.shared.workQ stop

/-- A download does not fail while the muxer is past the test of `error_box`, unless an item or
another worker is left to wake it. -/
def Fed {ε : Type} (s : PipelineState ε) : PipelineEvent → Prop
  | .worker i .fail =>
    s.muxer = .getting → s.shared.doneQ = [] → OthersCanPut s i s.shared.stop
  | .worker i .setStop => s.muxer = .getting → s.shared.doneQ = [] → OthersCanPut s i true
  | _ => True

/-- The runs all of whose steps are fed. -/
abbrev FedRun {ε : Type} : PipelineState ε → List PipelineEvent → PipelineState ε → Prop :=
  Run fun s ev s' => PipelineStep s ev s' ∧ Fed s ev

end S3Archive.SebstoPy
