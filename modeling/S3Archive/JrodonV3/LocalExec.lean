import S3Archive.Base.Run
import S3Archive.JrodonV3.PartOutput

/-!
# jrodon-v3: local execution

`execute_local` as a transition system. A part job waits for its permits in the
order of the list, then its elements run as concurrent tasks; the header of an
entry is sent when S3 has answered and before its body is streamed; the central
directory task receives headers until it has `record_count` of them or the
channel is closed. A step is what happens between two awaits. All senders and
the receiver of a job list belong to one channel, whose messages so far are
`sent`; the receiver is owned by one task, which counts what it has taken.
-/

namespace S3Archive.JrodonV3

/-! ## Tasks -/

inductive TaskState where
  /-- The entry waits for the answer of S3. -/
  | fetching
  /-- The header is sent, the body is being written. -/
  | streaming
  /-- The directory element has taken `received` headers from the channel. -/
  | collecting (received : Nat) (entries : Std.TreeMap Nat CentralDirectoryFileHeader)
  | written (slice : Bytes)
  /-- The directory is written. -/
  | stored (entries : Std.TreeMap Nat CentralDirectoryFileHeader) (slice : Bytes)
  | failed

/-- One element with the state of its task. -/
structure Task where
  elem : UploadPartElement
  state : TaskState

def UploadPartElement.startState : UploadPartElement → TaskState
  | .entryFromS3 _ => .fetching
  | .centralDirectory _ _ _ => .collecting 0 ∅

def Task.start (e : UploadPartElement) : Task := ⟨e, e.startState⟩

/-- What the task has left in its slice of the buffer. -/
def Task.slice? (t : Task) : Option Bytes :=
  match t.state with
  | .written slice => some slice
  | .stored _ slice => some slice
  | _ => none

def Task.isFailed (t : Task) : Bool :=
  match t.state with
  | .failed => true
  | _ => false

/-- The task of an entry holds its sender until it ends. -/
def Task.holdsSender (t : Task) : Bool :=
  t.elem.isEntry && match t.state with
    | .fetching => true
    | .streaming => true
    | _ => false

/-- The header that the task has still to send. -/
def Task.pending (src : Source) (t : Task) : List CentralDirectoryFileHeader :=
  match t.elem, t.state with
  | .entryFromS3 e, .fetching => [e.entry.cdfh src]
  | _, _ => []

/-! ## States -/

/-- A part descriptor for the manifest; `content` is the uploaded part that its ETag names. -/
structure CompletedPartInfo where
  partNumber : Nat
  content : Bytes

/-- A part job that holds its permits. -/
structure RunningJob where
  job : PartJob
  tasks : List Task

def RunningJob.start (job : PartJob) : RunningJob := ⟨job, job.elems.map Task.start⟩

/-- The part's buffer once every task has written its slice. -/
def RunningJob.buffer (r : RunningJob) : Bytes :=
  let slices := r.tasks.flatMap fun t => t.slice?.getD []
  slices ++ List.replicate (r.job.partSize - slices.length) 0

/-- The channel of central directory headers. -/
structure Channel where
  /-- All headers sent so far, oldest first. -/
  sent : List CentralDirectoryFileHeader
  /-- The receiver is not dropped. -/
  receiver : Bool
  /-- A sender outside the job list is alive. -/
  outside : Bool

structure LocalState where
  queue : List PartJob
  permits : Nat
  running : List RunningJob
  channel : Channel
  completed : List CompletedPartInfo
  /-- Some task of an entry has ended with an error. -/
  entryFailed : Bool
  /-- Some part job has ended with an error. -/
  partFailed : Bool

namespace LocalState

/-- All jobs wait for their permits. -/
def start (jobs : List PartJob) (outside : Bool) : LocalState where
  queue := jobs
  permits := maxPartJobTasksMemory
  running := []
  channel := ⟨[], true, outside⟩
  completed := []
  entryFailed := false
  partFailed := false

/-- `recv` waits for a further header: some sender is alive. -/
def sendersAlive (s : LocalState) : Bool :=
  s.channel.outside || s.queue.any (fun job => job.elems.any UploadPartElement.isEntry) ||
    s.running.any fun r => r.tasks.any Task.holdsSender

/-- Every job has been joined. -/
def Finished (s : LocalState) : Prop := s.queue = [] ∧ s.running = []

end LocalState

/-! ## Steps -/

inductive LocalEvent where
  | acquire
  | respond
  /-- A send on a channel whose receiver is dropped: an error of the entry. -/
  | sendClosed
  | write
  | receive
  | close
  | upload
  | copy
  /-- S3 refuses a copy range that is not inside its source. -/
  | copyRejected
  /-- The job ends with the error of one of its tasks. -/
  | joinError
  /-- A request for an entry fails. -/
  | entryFault
  /-- The request that uploads or copies the part fails. -/
  | partFault
  deriving DecidableEq

/-- The events in which a request fails for a reason outside of the program. -/
def LocalEvent.isFault : LocalEvent → Bool
  | .entryFault => true
  | .partFault => true
  | _ => false

/-- The events in which a part, or an entry of it, ends with an error. -/
def LocalEvent.fails : LocalEvent → Bool
  | .sendClosed => true
  | .copyRejected => true
  | .joinError => true
  | .entryFault => true
  | .partFault => true
  | _ => false

/-- What a directory task writes: its headers in the order of their offsets, then the end
records. -/
def directoryBytes (entries : Std.TreeMap Nat CentralDirectoryFileHeader)
    (eocd64 : EndOfCentralDirectory64) : Bytes :=
  (intoValues entries).flatMap CentralDirectoryFileHeader.dump ++ eocd64.dump

/-- A step of one task; `senders` says that some sender is alive. -/
inductive TaskStep (src : Source) (senders : Bool) :
    Channel → Task → LocalEvent → Channel → Task → Prop where
  | respond {c : Channel} {e : EntryFromS3} (hopen : c.receiver = true) :
    TaskStep src senders c ⟨.entryFromS3 e, .fetching⟩ .respond
      { c with sent := c.sent ++ [e.entry.cdfh src] } ⟨.entryFromS3 e, .streaming⟩
  | sendClosed {c : Channel} {e : EntryFromS3} (hclosed : c.receiver = false) :
    TaskStep src senders c ⟨.entryFromS3 e, .fetching⟩ .sendClosed c ⟨.entryFromS3 e, .failed⟩
  | write {c : Channel} {e : EntryFromS3} :
    TaskStep src senders c ⟨.entryFromS3 e, .streaming⟩ .write c
      ⟨.entryFromS3 e, .written (intoSlice e.elemSize (e.entry.bytes src))⟩
  | entryFault {c : Channel} {e : EntryFromS3} {st : TaskState}
      (hst : st = .fetching ∨ st = .streaming) :
    TaskStep src senders c ⟨.entryFromS3 e, st⟩ .entryFault c ⟨.entryFromS3 e, .failed⟩
  | receive {c : Channel} {total ch k : Nat} {eocd : EndOfCentralDirectory64}
      {m : Std.TreeMap Nat CentralDirectoryFileHeader} {h : CentralDirectoryFileHeader}
      (hnext : c.sent[k]? = some h) (hmore : eocd.recordCount ≠ (m.insert h.locOffset h).size) :
    TaskStep src senders c ⟨.centralDirectory total eocd ch, .collecting k m⟩ .receive c
      ⟨.centralDirectory total eocd ch, .collecting (k + 1) (m.insert h.locOffset h)⟩
  | receiveLast {c : Channel} {total ch k : Nat} {eocd : EndOfCentralDirectory64}
      {m : Std.TreeMap Nat CentralDirectoryFileHeader} {h : CentralDirectoryFileHeader}
      (hnext : c.sent[k]? = some h) (hlast : eocd.recordCount = (m.insert h.locOffset h).size) :
    TaskStep src senders c ⟨.centralDirectory total eocd ch, .collecting k m⟩ .receive
      { c with receiver := false }
      ⟨.centralDirectory total eocd ch, .stored (m.insert h.locOffset h)
        (intoSlice total (directoryBytes (m.insert h.locOffset h) eocd))⟩
  | close {c : Channel} {total ch k : Nat} {eocd : EndOfCentralDirectory64}
      {m : Std.TreeMap Nat CentralDirectoryFileHeader}
      (hempty : c.sent.length ≤ k) (hsenders : senders = false) :
    TaskStep src senders c ⟨.centralDirectory total eocd ch, .collecting k m⟩ .close
      { c with receiver := false }
      ⟨.centralDirectory total eocd ch, .stored m (intoSlice total (directoryBytes m eocd))⟩

/-- A running job ends, with its part when it succeeds. -/
inductive JobEnd (src : Source) (r : RunningJob) : LocalEvent → Option Bytes → Prop where
  | upload (hup : r.job.isCopy = false) (hall : ∀ t ∈ r.tasks, t.slice?.isSome) :
    JobEnd src r .upload (some r.buffer)
  | copy {source : CopySource} {range : Option ByteRange} {content : Bytes}
      (hcopy : r.job.partJobType = .copy source range)
      (hrange : copyBytes (src.body source.bucketName source.key) range = some content) :
    JobEnd src r .copy (some content)
  | copyRejected {source : CopySource} {range : Option ByteRange}
      (hcopy : r.job.partJobType = .copy source range)
      (hrange : copyBytes (src.body source.bucketName source.key) range = none) :
    JobEnd src r .copyRejected none
  | joinError (hup : r.job.isCopy = false) (hover : ∀ t ∈ r.tasks, t.slice?.isSome ∨ t.isFailed)
      (hfail : ∃ t ∈ r.tasks, t.isFailed) :
    JobEnd src r .joinError none
  | partFault (hall : ∀ t ∈ r.tasks, t.slice?.isSome) : JobEnd src r .partFault none

inductive LocalStep (src : Source) : LocalState → LocalEvent → LocalState → Prop where
  | acquire {s : LocalState} {job : PartJob} {rest : List PartJob} (hq : s.queue = job :: rest)
      (hpermits : job.memoryBudgetNeeded ≤ s.permits) :
    LocalStep src s .acquire
      { s with
        queue := rest
        permits := s.permits - job.memoryBudgetNeeded
        running := s.running ++ [.start job] }
  | task {s : LocalState} {rs₁ rs₂ : List RunningJob} {job : PartJob} {ts₁ ts₂ : List Task}
      {t t' : Task} {ev : LocalEvent} {c : Channel}
      (hrun : s.running = rs₁ ++ ⟨job, ts₁ ++ t :: ts₂⟩ :: rs₂)
      (htask : TaskStep src s.sendersAlive s.channel t ev c t') :
    LocalStep src s ev
      { s with
        running := rs₁ ++ ⟨job, ts₁ ++ t' :: ts₂⟩ :: rs₂
        channel := c
        entryFailed := s.entryFailed || t'.isFailed }
  | finish {s : LocalState} {rs₁ rs₂ : List RunningJob} {r : RunningJob} {ev : LocalEvent}
      {content : Option Bytes} (hrun : s.running = rs₁ ++ r :: rs₂)
      (hend : JobEnd src r ev content) :
    LocalStep src s ev
      { s with
        running := rs₁ ++ rs₂
        permits := s.permits + r.job.memoryBudgetNeeded
        completed := s.completed ++ (content.map (⟨r.job.partNumber, ·⟩)).toList
        partFailed := s.partFailed || content.isNone }

abbrev LocalRun (src : Source) : LocalState → List LocalEvent → LocalState → Prop :=
  Run (LocalStep src)

/-- What `execute_local` returns once every job has been joined. -/
def LocalState.outcome (s : LocalState) : Except Unit (List CompletedPartInfo) :=
  if s.partFailed then .error () else .ok s.completed

end S3Archive.JrodonV3
