import S3Archive.Base.ByteSemaphore
import S3Archive.SebstoTs.ZipStage
import S3Archive.SebstoTs.UploadStage

/-!
# sebsto TypeScript: the three stages and the job

`StageStep` is the download stage with its byte budget, the archive writer and the
upload stage (`UploadStep`), which share the semaphore, the file channel and the
chunk producer; `JobStep` adds `runArchiveJob`, which waits for all three. An
`await` is a step of its stage that is enabled once the promise can resolve.
`crc32` stands for `crc32` of `node:zlib`.
-/

namespace S3Archive.SebstoTs

def maxDownloadsMemory : Nat := 70 * 1024 * 1024

/-- A listed object; its key only names the request. -/
structure FileInfo where
  name : String
  size : Nat
  deriving DecidableEq

/-! ## `FileChannel` -/

structure FileChannel where
  queue : List DownloadedFile := []
  closed : Bool := false
  deriving DecidableEq

namespace FileChannel

def send (c : FileChannel) (item : DownloadedFile) : FileChannel :=
  { c with queue := c.queue ++ [item] }

def finish (c : FileChannel) : FileChannel := { c with closed := true }

end FileChannel

/-! ## The download stage -/

inductive DownloadPhase where
  /-- At the head of the loop, with these files to come. -/
  | looping (files : List FileInfo)
  /-- In `acquire` for the file. -/
  | waiting (file : FileInfo) (files : List FileInfo)
  /-- In `Promise.all`; the verdict is how it has settled. -/
  | joining (verdict : Option Bool)
  | resolved
  | rejected
  deriving DecidableEq

structure DownloadStage where
  phase : DownloadPhase
  /-- The downloads that have not settled. -/
  inflight : List FileInfo := []
  /-- Some download has failed. -/
  failed : Bool := false
  deriving DecidableEq

/-- The stage still starts downloads, and nothing handles a rejection. -/
def DownloadPhase.inLoop : DownloadPhase → Bool
  | looping _ => true
  | waiting _ _ => true
  | _ => false

/-- A download settles; `rest` are those that have not. -/
def DownloadPhase.settle (phase : DownloadPhase) (ok : Bool) (rest : List FileInfo) :
    DownloadPhase :=
  match phase with
  | joining none => if ok && !rest.isEmpty then joining none else joining (some ok)
  | phase => phase

namespace DownloadStage

/-- The stage starts the download of `file` and goes on with the loop. -/
def download (d : DownloadStage) (file : FileInfo) (files : List FileInfo) : DownloadStage :=
  { d with phase := .looping files, inflight := d.inflight ++ [file] }

/-- `Promise.all` on downloads that may have settled. -/
def join (d : DownloadStage) : DownloadStage :=
  { d with
    phase := .joining (if d.failed then some false else if d.inflight.isEmpty then some true
      else none) }

end DownloadStage

/-! ## The archive writer -/

/-- What the buffers that are being appended belong to. -/
inductive ZipTask where
  | entry (file : DownloadedFile) (buffers : List Bytes)
  | ends
  deriving DecidableEq

inductive ZipPhase where
  | receiving
  | appending (buffers : List Bytes) (task : ZipTask)
  /-- In `emitFullChunk`. -/
  | emitting (buffers : List Bytes) (task : ZipTask)
  /-- In `producer.finish`. -/
  | finishing
  | resolved
  | rejected
  deriving DecidableEq

structure ZipStageState where
  phase : ZipPhase := .receiving
  locals : ZipLocals := {}
  deriving DecidableEq

/-- The stage is not suspended in `recv` or `waitForSlot`, so that its code can throw. -/
def ZipPhase.running (phase : ZipPhase) (c : FileChannel) (p : ChunkProducer) : Bool :=
  match phase with
  | receiving => !c.queue.isEmpty || c.closed
  | appending _ _ => true
  | emitting _ _ => p.hasSlot
  | finishing => p.buffer.isEmpty || p.hasSlot
  | resolved => false
  | rejected => false

/-- The stage after `buffer`, of which `rest` did not fit the chunk, was appended to `p`. -/
def ZipPhase.appended (p : ChunkProducer) (rest : Bytes) (buffers : List Bytes) (task : ZipTask) :
    ZipPhase :=
  if p.buffer.length = p.chunkSize then emitting (rest :: buffers) task else appending buffers task

/-! ## The stages together -/

structure Stages where
  byteBudget : ByteSemaphore := .new maxDownloadsMemory
  fileChannel : FileChannel := {}
  producer : ChunkProducer := .new chunkSizeBytes bufferChunksCount
  download : DownloadStage
  zip : ZipStageState := {}
  upload : UploadStage := {}
  deriving DecidableEq

inductive StageEvent where
  | download
  /-- Was the download stage still starting downloads? -/
  | downloadFailed (inLoop : Bool)
  | zip
  | zipFailed
  | upload (ev : UploadEvent)
  deriving DecidableEq

inductive StageStep (crc32 : Bytes → UInt32) : Stages → StageEvent → Stages → Prop where
  | acquire {s : Stages} {file : FileInfo} {files : List FileInfo}
      (hphase : s.download.phase = .looping (file :: files))
      (hroom : (s.byteBudget.needed file.size : Int) ≤ s.byteBudget.available) :
    StageStep crc32 s .download
      { s with
        byteBudget := s.byteBudget.take (s.byteBudget.needed file.size)
        download := s.download.download file files }
  | acquireWait {s : Stages} {file : FileInfo} {files : List FileInfo}
      (hphase : s.download.phase = .looping (file :: files))
      (hfull : s.byteBudget.available < s.byteBudget.needed file.size) :
    StageStep crc32 s .download
      { s with
        byteBudget := s.byteBudget.wait (s.byteBudget.needed file.size)
        download := { s.download with phase := .waiting file files } }
  | acquired {s : Stages} {file : FileInfo} {files : List FileInfo} {needed : Nat}
      {woken : List Nat} (hphase : s.download.phase = .waiting file files)
      (hwoken : s.byteBudget.woken = needed :: woken) :
    StageStep crc32 s .download
      { s with
        byteBudget := { s.byteBudget.take needed with woken }
        download := s.download.download file files }
  | loopEnd {s : Stages} (hphase : s.download.phase = .looping []) :
    StageStep crc32 s .download { s with download := s.download.join }
  | downloaded {s : Stages} {file : FileInfo} {fs₁ fs₂ : List FileInfo} {body : Bytes}
      (hinflight : s.download.inflight = fs₁ ++ file :: fs₂) (hsize : body.length = file.size) :
    StageStep crc32 s .download
      { s with
        fileChannel := s.fileChannel.send ⟨file.name, body, crc32 body, file.size⟩
        download :=
          { s.download with
            phase := s.download.phase.settle true (fs₁ ++ fs₂)
            inflight := fs₁ ++ fs₂ } }
  /-- The request fails, or the body is not as long as listed. -/
  | downloadFailed {s : Stages} {file : FileInfo} {fs₁ fs₂ : List FileInfo}
      (hinflight : s.download.inflight = fs₁ ++ file :: fs₂) :
    StageStep crc32 s (.downloadFailed s.download.phase.inLoop)
      { s with
        download :=
          { phase := s.download.phase.settle false (fs₁ ++ fs₂)
            inflight := fs₁ ++ fs₂
            failed := true } }
  | downloadEnd {s : Stages} {ok : Bool} (hphase : s.download.phase = .joining (some ok)) :
    StageStep crc32 s .download
      { s with
        fileChannel := s.fileChannel.finish
        download := { s.download with phase := if ok then .resolved else .rejected } }
  | recv {s : Stages} {file : DownloadedFile} {queue : List DownloadedFile} {buffers : List Bytes}
      (hphase : s.zip.phase = .receiving) (hqueue : s.fileChannel.queue = file :: queue)
      (hbuffers : fileBuffers file = some buffers) :
    StageStep crc32 s .zip
      { s with
        fileChannel := { s.fileChannel with queue }
        zip := { s.zip with phase := .appending buffers (.entry file buffers) } }
  | recvEnd {s : Stages} {buffers : List Bytes} (hphase : s.zip.phase = .receiving)
      (hqueue : s.fileChannel.queue = []) (hclosed : s.fileChannel.closed = true)
      (hbuffers : endBuffers s.zip.locals = some buffers) :
    StageStep crc32 s .zip { s with zip := { s.zip with phase := .appending buffers .ends } }
  | fill {s : Stages} {buffer rest : Bytes} {buffers : List Bytes} {task : ZipTask}
      {p : ChunkProducer} (hphase : s.zip.phase = .appending (buffer :: buffers) task)
      (hfill : s.producer.fill buffer = (p, rest)) :
    StageStep crc32 s .zip
      { s with producer := p, zip := { s.zip with phase := .appended p rest buffers task } }
  | emit {s : Stages} {buffers : List Bytes} {task : ZipTask}
      (hphase : s.zip.phase = .emitting buffers task) (hslot : s.producer.hasSlot = true) :
    StageStep crc32 s .zip
      { s with
        producer := s.producer.emitFullChunk
        zip := { s.zip with phase := .appending buffers task } }
  | entryEnd {s : Stages} {file : DownloadedFile} {buffers : List Bytes}
      (hphase : s.zip.phase = .appending [] (.entry file buffers)) :
    StageStep crc32 s .zip
      { s with
        byteBudget := s.byteBudget.release file.releaseBytes
        zip := { phase := .receiving, locals := s.zip.locals.add file buffers } }
  | endsEnd {s : Stages} (hphase : s.zip.phase = .appending [] .ends) :
    StageStep crc32 s .zip { s with zip := { s.zip with phase := .finishing } }
  | finishEmit {s : Stages} (hphase : s.zip.phase = .finishing) (hbuffer : s.producer.buffer ≠ [])
      (hslot : s.producer.hasSlot = true) :
    StageStep crc32 s .zip { s with producer := s.producer.emitFullChunk }
  | finishClose {s : Stages} (hphase : s.zip.phase = .finishing) (hbuffer : s.producer.buffer = []) :
    StageStep crc32 s .zip
      { s with producer := s.producer.close, zip := { s.zip with phase := .resolved } }
  /-- A ZIP write throws; nothing closes the producer. -/
  | zipFailed {s : Stages} (hrunning : s.zip.phase.running s.fileChannel s.producer = true) :
    StageStep crc32 s .zipFailed { s with zip := { s.zip with phase := .rejected } }
  | upload {s : Stages} {ev : UploadEvent} {p : ChunkProducer} {u : UploadStage}
      (h : UploadStep s.producer s.upload ev p u) :
    StageStep crc32 s (.upload ev) { s with producer := p, upload := u }

/-! ## `runArchiveJob` -/

inductive JobPhase where
  /-- In `Promise.allSettled`. -/
  | running
  | completing
  | aborting
  | completed
  | aborted
  /-- The process has ended on an unhandled rejection. -/
  | crashed
  deriving DecidableEq

structure Job where
  stages : Stages
  phase : JobPhase := .running
  deriving DecidableEq

inductive JobEvent where
  | stage (ev : StageEvent)
  | settled
  | completed
  | completeFailed
  | aborted
  | crashed
  deriving DecidableEq

def DownloadPhase.final : DownloadPhase → Bool
  | resolved => true
  | rejected => true
  | _ => false

def ZipPhase.final : ZipPhase → Bool
  | resolved => true
  | rejected => true
  | _ => false

namespace Stages

def settled (s : Stages) : Bool :=
  s.download.phase.final && s.zip.phase.final && s.upload.phase.final

/-- `firstFailure` is one of the stages. -/
def rejected (s : Stages) : Bool :=
  s.download.phase == .rejected || s.zip.phase == .rejected || s.upload.phase == .rejected

end Stages

def Job.start (files : List FileInfo) : Job :=
  { stages := { download := { phase := .looping files } } }

inductive JobStep (crc32 : Bytes → UInt32) : Job → JobEvent → Job → Prop where
  | stage {j : Job} {ev : StageEvent} {s : Stages} (halive : j.phase ≠ .crashed)
      (h : StageStep crc32 j.stages ev s) :
    JobStep crc32 j (.stage ev) { j with stages := s }
  | settled {j : Job} (hphase : j.phase = .running) (hsettled : j.stages.settled = true) :
    JobStep crc32 j .settled
      { j with phase := if j.stages.rejected then .aborting else .completing }
  | completed {j : Job} (hphase : j.phase = .completing) :
    JobStep crc32 j .completed { j with phase := .completed }
  | completeFailed {j : Job} (hphase : j.phase = .completing) :
    JobStep crc32 j .completeFailed { j with phase := .aborting }
  /-- An error of `AbortMultipartUpload` is ignored. -/
  | aborted {j : Job} (hphase : j.phase = .aborting) :
    JobStep crc32 j .aborted { j with phase := .aborted }
  /-- Node ends the process when a rejection has no handler. -/
  | crashed {j : Job} (hphase : j.phase = .running) (hfailed : j.stages.download.failed = true)
      (hloop : j.stages.download.phase.inLoop = true) :
    JobStep crc32 j .crashed { j with phase := .crashed }

abbrev JobRun (crc32 : Bytes → UInt32) := Run (JobStep crc32)

end S3Archive.SebstoTs
