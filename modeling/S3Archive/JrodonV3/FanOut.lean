import S3Archive.JrodonV3.Batching
import S3Archive.JrodonV3.LocalExec

/-!
# jrodon-v3: fanning out to sub-workers

`execute_with_lambda_subworkers` as a transition system: local execution of the
jobs that are not delegated, the block that submits the other jobs and waits for
them (`Delegation`), the dispatch task (`Dispatch`) and the worker tasks
(`LambdaWorker`). An invocation of a sub-worker runs local execution on the
rebuilt jobs of its batch. The command channel and the channel of each worker
have capacity one. A step is what happens between two awaits.
-/

namespace S3Archive.JrodonV3

/-! ## Tasks -/

inductive LambdaExecutorCommand where
  | multipartUpload
  | delegatedPartJobs (jobs : List DelegatedPartJob)

inductive WorkerPhase where
  | warming
  | idle
  /-- An invocation with a batch is under way. -/
  | invoking (jobs : List DelegatedPartJob)
  | stopped
  | failed

structure LambdaWorker where
  phase : WorkerPhase
  /-- The batch in the worker's channel. -/
  inbox : Option (List DelegatedPartJob)
  /-- The sender of the worker's channel is not dropped. -/
  jobTx : Bool

def LambdaWorker.new : LambdaWorker := ⟨.warming, none, true⟩

/-- The task has returned, and its receiver is dropped. -/
def LambdaWorker.ended (w : LambdaWorker) : Bool :=
  match w.phase with
  | .stopped => true
  | .failed => true
  | _ => false

def LambdaWorker.dropTx (w : LambdaWorker) : LambdaWorker := { w with jobTx := false }

/-- The dispatch task. -/
inductive Dispatch where
  /-- The first command is awaited. -/
  | upload
  /-- Further commands are awaited. -/
  | commands
  /-- Batches are sent, the next one being number `k`. -/
  | sending (rest : List (List DelegatedPartJob)) (k : Nat)
  /-- The workers before `k` are joined. -/
  | joining (k : Nat)
  /-- The sender of worker `k` is dropped, its end is awaited. -/
  | awaiting (k : Nat)
  | finished
  | failed

def Dispatch.ended : Dispatch → Bool
  | .finished => true
  | .failed => true
  | _ => false

/-- The block of `try_join!` that delegates. -/
inductive Delegation where
  | setUpload (toDelegate : List PartJob) (last : DelegatedPartJob)
  | submit (toDelegate : List PartJob) (last : DelegatedPartJob)
  /-- The command sender is dropped; all result channels are read to their end. -/
  | waitAll
  | sendCdfhs (cdfhs : List CentralDirectoryFileHeader) (partInfos : List CompletedPartInfo)
  | done (partInfos : List CompletedPartInfo)
  | failed

/-- The command sender is not dropped. -/
def Delegation.holdsTx : Delegation → Bool
  | .setUpload _ _ => true
  | .submit _ _ => true
  | _ => false

/-- The conversion of a job that is submitted. -/
def convert (job : PartJob) : Except Error DelegatedPartJob :=
  (DelegatedPartJob.newFromPartJob job).map Prod.fst

structure FanOutState where
  /-- Local execution of the jobs that are not delegated. -/
  localExec : LocalState
  delegation : Delegation
  command : Option LambdaExecutorCommand
  dispatch : Dispatch
  workers : List LambdaWorker
  /-- The headers and the parts that workers have sent. -/
  cdfhs : List CentralDirectoryFileHeader
  completedParts : List CompletedPartInfo

namespace FanOutState

/-- The block at its first await. The last job's sender is kept until the block ends. -/
def start (workerCount : Nat) (jobs : List PartJob) : FanOutState where
  localExec := .start (jobs.filter fun job => !job.delegatable)
    (jobs.any PartJob.delegatable)
  delegation :=
    let toDelegate := jobs.filter PartJob.delegatable
    match toDelegate.getLast? with
    | none => .done []
    | some partJob =>
      match DelegatedPartJob.newFromPartJob partJob with
      | .ok (last, _) => .setUpload toDelegate.dropLast last
      | .error _ => .failed
  command := none
  dispatch := .upload
  workers := List.replicate workerCount .new
  cdfhs := []
  completedParts := []

/-- The dispatch task fails: all senders are dropped. -/
def failDispatch (s : FanOutState) : FanOutState :=
  { s with dispatch := .failed, command := none, workers := s.workers.map LambdaWorker.dropTx }

/-- The channel of commands is closed and empty. -/
def NoCommand (s : FanOutState) : Prop := s.command = none ∧ s.delegation.holdsTx = false

end FanOutState

/-! ## Steps -/

inductive FanOutEvent where
  | localExec (ev : LocalEvent)
  /-- The block sends a command, or delivers a header. -/
  | send
  /-- The block's send fails. -/
  | sendError
  /-- A step of the dispatch task. -/
  | dispatch
  /-- The dispatch task fails. -/
  | dispatchError
  | warm
  | warmFault
  | take
  | stop
  /-- An invocation returns the results of the handler, whose local execution had the events
  `handler`. -/
  | reply (handler : List LocalEvent)
  /-- An invocation returns the handler's error. -/
  | replyError (handler : List LocalEvent)
  /-- An invocation fails. -/
  | invokeFault
  /-- `wait_all` returns. -/
  | collect
  deriving DecidableEq

/-- The events in which a part, an invocation with a batch, or the block fails. -/
def FanOutEvent.fails : FanOutEvent → Bool
  | .localExec ev => ev.fails
  | .reply handler => handler.any LocalEvent.fails
  | .replyError _ => true
  | .invokeFault => true
  | .sendError => true
  | _ => false

/-- A step of one worker, with the headers and parts that it sends. -/
inductive WorkerStep (src : Source) : LambdaWorker → FanOutEvent →
    List CentralDirectoryFileHeader → List CompletedPartInfo → LambdaWorker → Prop where
  | warm {inbox : Option (List DelegatedPartJob)} {jobTx : Bool} :
    WorkerStep src ⟨.warming, inbox, jobTx⟩ .warm [] [] ⟨.idle, inbox, jobTx⟩
  | warmFault {inbox : Option (List DelegatedPartJob)} {jobTx : Bool} :
    WorkerStep src ⟨.warming, inbox, jobTx⟩ .warmFault [] [] ⟨.failed, inbox, jobTx⟩
  | take {jobs : List DelegatedPartJob} {jobTx : Bool} :
    WorkerStep src ⟨.idle, some jobs, jobTx⟩ .take [] [] ⟨.invoking jobs, none, jobTx⟩
  /-- The channel is empty and closed. -/
  | stop : WorkerStep src ⟨.idle, none, false⟩ .stop [] [] ⟨.stopped, none, false⟩
  | reply {jobs : List DelegatedPartJob} {inbox : Option (List DelegatedPartJob)} {jobTx : Bool}
      {cdfhSender : CdfhChannel} {handler : List LocalEvent} {t : LocalState}
      (hrun : LocalRun src (.start (jobs.map (PartJob.new · cdfhSender)) false) handler t)
      (hfin : t.Finished) {completed : List CompletedPartInfo} (hok : t.outcome = .ok completed) :
    WorkerStep src ⟨.invoking jobs, inbox, jobTx⟩ (.reply handler) t.channel.sent completed
      ⟨.idle, inbox, jobTx⟩
  | replyError {jobs : List DelegatedPartJob} {inbox : Option (List DelegatedPartJob)}
      {jobTx : Bool} {cdfhSender : CdfhChannel} {handler : List LocalEvent} {t : LocalState}
      (hrun : LocalRun src (.start (jobs.map (PartJob.new · cdfhSender)) false) handler t)
      (hfin : t.Finished) (herror : t.outcome = .error ()) :
    WorkerStep src ⟨.invoking jobs, inbox, jobTx⟩ (.replyError handler) [] []
      ⟨.failed, inbox, jobTx⟩
  | invokeFault {jobs : List DelegatedPartJob} {inbox : Option (List DelegatedPartJob)}
      {jobTx : Bool} :
    WorkerStep src ⟨.invoking jobs, inbox, jobTx⟩ .invokeFault [] [] ⟨.failed, inbox, jobTx⟩

/-- A step of the dispatch task. -/
inductive DispatchStep : FanOutState → FanOutEvent → FanOutState → Prop where
  | upload {s : FanOutState} (hd : s.dispatch = .upload) (hc : s.command = some .multipartUpload) :
    DispatchStep s .dispatch { s with dispatch := .commands, command := none }
  /-- The first command is another one, or there is none. -/
  | noUpload {s : FanOutState} (hd : s.dispatch = .upload)
      (hc : s.NoCommand ∨ ∃ jobs, s.command = some (.delegatedPartJobs jobs)) :
    DispatchStep s .dispatchError s.failDispatch
  | jobs {s : FanOutState} {jobs : List DelegatedPartJob} (hd : s.dispatch = .commands)
      (hc : s.command = some (.delegatedPartJobs jobs)) :
    DispatchStep s .dispatch
      { s with dispatch := .sending (batches s.workers.length jobs) 0, command := none }
  | secondUpload {s : FanOutState} (hd : s.dispatch = .commands)
      (hc : s.command = some .multipartUpload) :
    DispatchStep s .dispatchError s.failDispatch
  | send {s : FanOutState} {rest : List (List DelegatedPartJob)} {jobs : List DelegatedPartJob}
      {k : Nat} {ws₁ ws₂ : List LambdaWorker} {w : LambdaWorker}
      (hd : s.dispatch = .sending (jobs :: rest) k) (hw : s.workers = ws₁ ++ w :: ws₂)
      (hk : ws₁.length = k % s.workers.length) (hopen : w.ended = false) (hfree : w.inbox = none) :
    DispatchStep s .dispatch
      { s with
        dispatch := .sending rest (k + 1)
        workers := ws₁ ++ { w with inbox := some jobs } :: ws₂ }
  | sendClosed {s : FanOutState} {rest : List (List DelegatedPartJob)}
      {jobs : List DelegatedPartJob} {k : Nat} {ws₁ ws₂ : List LambdaWorker} {w : LambdaWorker}
      (hd : s.dispatch = .sending (jobs :: rest) k) (hw : s.workers = ws₁ ++ w :: ws₂)
      (hk : ws₁.length = k % s.workers.length) (hclosed : w.ended = true) :
    DispatchStep s .dispatchError s.failDispatch
  | sent {s : FanOutState} {k : Nat} (hd : s.dispatch = .sending [] k) :
    DispatchStep s .dispatch { s with dispatch := .commands }
  | closed {s : FanOutState} (hd : s.dispatch = .commands) (hc : s.NoCommand) :
    DispatchStep s .dispatch { s with dispatch := .joining 0 }
  | dropTx {s : FanOutState} {ws₁ ws₂ : List LambdaWorker} {w : LambdaWorker}
      (hd : s.dispatch = .joining ws₁.length) (hw : s.workers = ws₁ ++ w :: ws₂) :
    DispatchStep s .dispatch
      { s with dispatch := .awaiting ws₁.length, workers := ws₁ ++ w.dropTx :: ws₂ }
  | join {s : FanOutState} {ws₁ ws₂ : List LambdaWorker} {w : LambdaWorker}
      (hd : s.dispatch = .awaiting ws₁.length) (hw : s.workers = ws₁ ++ w :: ws₂)
      (hphase : w.phase = .stopped) :
    DispatchStep s .dispatch { s with dispatch := .joining (ws₁.length + 1) }
  | joinError {s : FanOutState} {ws₁ ws₂ : List LambdaWorker} {w : LambdaWorker}
      (hd : s.dispatch = .awaiting ws₁.length) (hw : s.workers = ws₁ ++ w :: ws₂)
      (hphase : w.phase = .failed) :
    DispatchStep s .dispatchError s.failDispatch
  | finish {s : FanOutState} (hd : s.dispatch = .joining s.workers.length) :
    DispatchStep s .dispatch { s with dispatch := .finished }

/-- A step of the delegating block. -/
inductive DelegationStep : FanOutState → FanOutEvent → FanOutState → Prop where
  | setUpload {s : FanOutState} {toDelegate : List PartJob} {last : DelegatedPartJob}
      (hb : s.delegation = .setUpload toDelegate last) (hfree : s.command = none)
      (hopen : s.dispatch.ended = false) :
    DelegationStep s .send
      { s with delegation := .submit toDelegate last, command := some .multipartUpload }
  | submit {s : FanOutState} {toDelegate : List PartJob} {last : DelegatedPartJob}
      {jobs : List DelegatedPartJob} (hb : s.delegation = .submit toDelegate last)
      (hconv : toDelegate.mapM convert = .ok jobs) (hfree : s.command = none)
      (hopen : s.dispatch.ended = false) :
    DelegationStep s .send
      { s with
        delegation := .waitAll
        command := some (.delegatedPartJobs (jobs ++ [last])) }
  | convertError {s : FanOutState} {toDelegate : List PartJob} {last : DelegatedPartJob}
      {error : Error} (hb : s.delegation = .submit toDelegate last)
      (hconv : toDelegate.mapM convert = .error error) :
    DelegationStep s .sendError { s with delegation := .failed }
  | commandClosed {s : FanOutState} (hb : s.delegation.holdsTx = true)
      (hclosed : s.dispatch.ended = true) :
    DelegationStep s .sendError { s with delegation := .failed }
  /-- The result channels are closed once every worker has ended. -/
  | collect {s : FanOutState} (hb : s.delegation = .waitAll)
      (hall : ∀ w ∈ s.workers, w.ended = true) (hd : s.dispatch = .finished) :
    DelegationStep s .collect { s with delegation := .sendCdfhs s.cdfhs s.completedParts }
  | collectError {s : FanOutState} (hb : s.delegation = .waitAll)
      (hall : ∀ w ∈ s.workers, w.ended = true) (hd : s.dispatch = .failed) :
    DelegationStep s .collect { s with delegation := .failed }
  | deliver {s : FanOutState} {cdfh : CentralDirectoryFileHeader}
      {cdfhs : List CentralDirectoryFileHeader} {partInfos : List CompletedPartInfo}
      (hb : s.delegation = .sendCdfhs (cdfh :: cdfhs) partInfos)
      (hopen : s.localExec.channel.receiver = true) :
    DelegationStep s .send
      { s with
        delegation := .sendCdfhs cdfhs partInfos
        localExec := { s.localExec with
          channel := { s.localExec.channel with sent := s.localExec.channel.sent ++ [cdfh] } } }
  | deliverClosed {s : FanOutState} {cdfh : CentralDirectoryFileHeader}
      {cdfhs : List CentralDirectoryFileHeader} {partInfos : List CompletedPartInfo}
      (hb : s.delegation = .sendCdfhs (cdfh :: cdfhs) partInfos)
      (hclosed : s.localExec.channel.receiver = false) :
    DelegationStep s .sendError { s with delegation := .failed }
  /-- The block returns and drops its sender. -/
  | done {s : FanOutState} {partInfos : List CompletedPartInfo}
      (hb : s.delegation = .sendCdfhs [] partInfos) :
    DelegationStep s .send
      { s with
        delegation := .done partInfos
        localExec := { s.localExec with
          channel := { s.localExec.channel with outside := false } } }

inductive FanOutStep (src : Source) : FanOutState → FanOutEvent → FanOutState → Prop where
  | localExec {s : FanOutState} {ev : LocalEvent} {t : LocalState}
      (hstep : LocalStep src s.localExec ev t) :
    FanOutStep src s (.localExec ev) { s with localExec := t }
  | worker {s : FanOutState} {ev : FanOutEvent} {ws₁ ws₂ : List LambdaWorker}
      {w w' : LambdaWorker} {cdfhs : List CentralDirectoryFileHeader}
      {parts : List CompletedPartInfo} (hw : s.workers = ws₁ ++ w :: ws₂)
      (hstep : WorkerStep src w ev cdfhs parts w') :
    FanOutStep src s ev
      { s with
        workers := ws₁ ++ w' :: ws₂
        cdfhs := s.cdfhs ++ cdfhs
        completedParts := s.completedParts ++ parts }
  | dispatch {s s' : FanOutState} {ev : FanOutEvent} (hstep : DispatchStep s ev s') :
    FanOutStep src s ev s'
  | delegation {s s' : FanOutState} {ev : FanOutEvent} (hstep : DelegationStep s ev s') :
    FanOutStep src s ev s'

abbrev FanOutRun (src : Source) : FanOutState → List FanOutEvent → FanOutState → Prop :=
  Run (FanOutStep src)

/-- What `execute_with_lambda_subworkers` returns: the first error of its two halves, or the parts
of both. -/
inductive Returns : FanOutState → Except Unit (List CompletedPartInfo) → Prop where
  | localError {s : FanOutState} (hfin : s.localExec.Finished)
      (herror : s.localExec.outcome = .error ()) : Returns s (.error ())
  | delegationError {s : FanOutState} (hb : s.delegation = .failed) : Returns s (.error ())
  | ok {s : FanOutState} {local_ delegated : List CompletedPartInfo}
      (hfin : s.localExec.Finished) (hlocal : s.localExec.outcome = .ok local_)
      (hb : s.delegation = .done delegated) : Returns s (.ok (local_ ++ delegated))

end S3Archive.JrodonV3
