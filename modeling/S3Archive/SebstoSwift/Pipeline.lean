import S3Archive.Base.ByteSemaphore
import S3Archive.Base.ChunkBuffer
import S3Archive.Base.Run
import S3Archive.SebstoSwift.ZipStage

/-!
# sebsto Swift: the pipeline

`runPipeline` as a step relation over its three child tasks, the byte budget, the
file channel and the chunk producer. An `await` is a step of its task that is
enabled once it can resume. A continuation resumes only when it is resumed: a
cancelled task goes on waiting for the budget or for a slot, while a stream that it
iterates over ends. The children of a task group are listed as `inflight` until
they are done.
-/

namespace S3Archive.SebstoSwift

def maxDownloadsMemory : Nat := 20 * 1024 * 1024
def maxConcurrentUploads : Nat := 3
def chunkSize : Nat := 10 * 1024 * 1024
def bufferChunksCount : Nat := 2

/-- A listed object; its key only names the request. -/
structure FileInfo where
  name : String
  size : Nat
  deriving DecidableEq

/-! ## Streams and the chunk producer -/

/-- An unbounded `AsyncStream`. -/
structure AsyncStream (α : Type) where
  buffered : List α := []
  terminated : Bool := false

namespace AsyncStream

variable {α : Type}

/-- A stream that has ended drops what is yielded. -/
def yield (s : AsyncStream α) (a : α) : AsyncStream α :=
  if s.terminated then s else { s with buffered := s.buffered ++ [a] }

/-- The end, by `finish` or because the task that iterates is cancelled. -/
def finish (s : AsyncStream α) : AsyncStream α := { s with terminated := true }

end AsyncStream

structure UploadChunk where
  partNumber : Nat
  data : Bytes
  deriving DecidableEq

structure ChunkProducer where
  chunkSize : Nat
  maxInFlight : Nat
  buffer : Bytes := []
  nextPartNumber : Nat := 1
  inFlight : Nat := 0
  stream : AsyncStream UploadChunk := {}

namespace ChunkProducer

def new (chunkSize maxInFlight : Nat) : ChunkProducer := { chunkSize, maxInFlight }

/-- `waitForSlot` goes on. A waiter that `releaseSlot` has resumed finds its slot free. -/
def hasSlot (p : ChunkProducer) : Bool := p.inFlight < p.maxInFlight

/-- One turn of the loop of `append`, up to `emitFullChunk`. -/
def fill (p : ChunkProducer) (src : Bytes) : ChunkProducer × Bytes :=
  let (buffer, rest) := fillChunk p.chunkSize p.buffer src
  ({ p with buffer }, rest)

/-- `emitFullChunk` after `waitForSlot`. -/
def emitFullChunk (p : ChunkProducer) : ChunkProducer :=
  { p with
    nextPartNumber := p.nextPartNumber + 1
    inFlight := p.inFlight + 1
    buffer := []
    stream := p.stream.yield ⟨p.nextPartNumber, p.buffer⟩ }

/-- The end of `finish`, and of a stream whose reader is cancelled. -/
def close (p : ChunkProducer) : ChunkProducer := { p with stream := p.stream.finish }

def releaseSlot (p : ChunkProducer) : ChunkProducer := { p with inFlight := p.inFlight - 1 }

end ChunkProducer

/-! ## The tasks -/

inductive DownloadPhase where
  /-- At the head of the loop, with these files to come. -/
  | looping (files : List FileInfo)
  /-- In `acquire` for the file. -/
  | waiting (file : FileInfo) (files : List FileInfo)
  /-- In `waitForAll`. -/
  | joining
  | returned
  | threw
  deriving DecidableEq

structure DownloadStage where
  phase : DownloadPhase
  inflight : List FileInfo := []
  /-- Some child has thrown. -/
  failed : Bool := false
  deriving DecidableEq

/-- The stage starts the download of `file` and goes on with the loop. -/
def DownloadStage.download (d : DownloadStage) (file : FileInfo) (files : List FileInfo) :
    DownloadStage :=
  { d with phase := .looping files, inflight := d.inflight ++ [file] }

/-- What the bytes that are being appended belong to; `z` are the variables after the file. -/
inductive ZipTask where
  | entry (file : DownloadedFile) (z : ZipLocals)
  | ends

inductive ZipPhase where
  | receiving
  | appending (bytes : Bytes) (task : ZipTask)
  /-- In `emitFullChunk`. -/
  | emitting (bytes : Bytes) (task : ZipTask)
  /-- In `finish`, before and after the last chunk. -/
  | finishing
  | closing
  | returned

structure ZipStageState where
  phase : ZipPhase := .receiving
  locals : ZipLocals := {}

/-- The stage after some bytes, of which `rest` did not fit the chunk, were appended to `p`. -/
def ZipPhase.appended (p : ChunkProducer) (rest : Bytes) (task : ZipTask) : ZipPhase :=
  if p.buffer.length = p.chunkSize then emitting rest task else appending [] task

structure CompletedPart where
  eTag : String
  partNumber : Nat
  deriving DecidableEq

inductive UploadPhase where
  | receiving
  /-- In `group.next()` with a chunk at hand. -/
  | reaping (chunk : UploadChunk)
  /-- In the loop over `group.next()`. -/
  | draining
  /-- The group's body has thrown; its children are still to end. -/
  | throwing
  | returned
  | threw
  deriving DecidableEq

structure UploadStage where
  phase : UploadPhase := .receiving
  /-- The variable of that name: the children that were not reaped. -/
  inFlightCount : Nat := 0
  inflight : List UploadChunk := []
  /-- The children that are done and were not reaped, in the order in which they ended; `none` has
  thrown. -/
  done : List (Option CompletedPart) := []
  completed : List CompletedPart := []
  deriving DecidableEq

/-- `group.addTask`, and on to the next chunk. -/
def UploadStage.addTask (u : UploadStage) (chunk : UploadChunk) : UploadStage :=
  { u with
    phase := .receiving
    inFlightCount := u.inFlightCount + 1
    inflight := u.inflight ++ [chunk] }

/-- Where `runPipeline` is. -/
inductive SupervisorPhase where
  | awaitingDownload
  | awaitingZip
  | awaitingUpload
  /-- `downloadDone` has thrown: the other children are cancelled, and awaited. -/
  | unwinding
  | returned (parts : List CompletedPart)
  | threw
  /-- The process has ended: something trapped. -/
  | trapped
  deriving DecidableEq

structure Pipeline where
  byteBudget : ByteSemaphore := .new maxDownloadsMemory
  fileChannel : AsyncStream DownloadedFile := {}
  producer : ChunkProducer := .new chunkSize bufferChunksCount
  download : DownloadStage
  zip : ZipStageState := {}
  upload : UploadStage := {}
  supervisor : SupervisorPhase := .awaitingDownload

def Pipeline.start (files : List FileInfo) : Pipeline := { download := { phase := .looping files } }

/-- The stage still starts downloads. -/
def DownloadPhase.inLoop : DownloadPhase → Bool
  | looping _ => true
  | waiting _ _ => true
  | _ => false

def DownloadPhase.final : DownloadPhase → Bool
  | returned => true
  | threw => true
  | _ => false

def ZipPhase.final : ZipPhase → Bool
  | returned => true
  | _ => false

def UploadPhase.final : UploadPhase → Bool
  | returned => true
  | threw => true
  | _ => false

def SupervisorPhase.final : SupervisorPhase → Bool
  | returned _ => true
  | threw => true
  | trapped => true
  | _ => false

inductive PipelineEvent where
  | download
  /-- Was the download stage still starting downloads? -/
  | downloadFailed (inLoop : Bool)
  | zip
  /-- A full chunk is emitted; had the stream ended? -/
  | emit (dropped : Bool)
  | trap
  | upload
  /-- Was the archive stage still running? -/
  | uploadFailed (zipping : Bool)
  | supervisor
  deriving DecidableEq

/-! ## Steps of the stages -/

inductive DownloadStep (crc32 : Bytes → UInt32) : Pipeline → PipelineEvent → Pipeline → Prop where
  | acquire {s : Pipeline} {file : FileInfo} {files : List FileInfo}
      (hphase : s.download.phase = .looping (file :: files))
      (hroom : (s.byteBudget.needed file.size : Int) ≤ s.byteBudget.available) :
    DownloadStep crc32 s .download
      { s with
        byteBudget := s.byteBudget.take (s.byteBudget.needed file.size)
        download := s.download.download file files }
  | acquireWait {s : Pipeline} {file : FileInfo} {files : List FileInfo}
      (hphase : s.download.phase = .looping (file :: files))
      (hfull : s.byteBudget.available < s.byteBudget.needed file.size) :
    DownloadStep crc32 s .download
      { s with
        byteBudget := s.byteBudget.wait (s.byteBudget.needed file.size)
        download := { s.download with phase := .waiting file files } }
  | acquired {s : Pipeline} {file : FileInfo} {files : List FileInfo} {needed : Nat}
      {woken : List Nat} (hphase : s.download.phase = .waiting file files)
      (hwoken : s.byteBudget.woken = needed :: woken) :
    DownloadStep crc32 s .download
      { s with
        byteBudget := { s.byteBudget.take needed with woken }
        download := s.download.download file files }
  | loopEnd {s : Pipeline} (hphase : s.download.phase = .looping []) :
    DownloadStep crc32 s .download { s with download := { s.download with phase := .joining } }
  | downloaded {s : Pipeline} {file : FileInfo} {fs₁ fs₂ : List FileInfo} {buffer : Bytes}
      (hinflight : s.download.inflight = fs₁ ++ file :: fs₂) (hsize : buffer.length = file.size) :
    DownloadStep crc32 s .download
      { s with
        fileChannel := s.fileChannel.yield ⟨file.name, buffer, crc32 buffer, file.size⟩
        download := { s.download with inflight := fs₁ ++ fs₂ } }
  /-- The request fails, or the body is not as long as listed. -/
  | downloadFailed {s : Pipeline} {file : FileInfo} {fs₁ fs₂ : List FileInfo}
      (hinflight : s.download.inflight = fs₁ ++ file :: fs₂) :
    DownloadStep crc32 s (.downloadFailed s.download.phase.inLoop)
      { s with download := { s.download with inflight := fs₁ ++ fs₂, failed := true } }
  | joined {s : Pipeline} (hphase : s.download.phase = .joining)
      (hinflight : s.download.inflight = []) (hfailed : s.download.failed = false) :
    DownloadStep crc32 s .download
      { s with
        fileChannel := s.fileChannel.finish
        download := { s.download with phase := .returned } }
  | joinThrew {s : Pipeline} (hphase : s.download.phase = .joining)
      (hinflight : s.download.inflight = []) (hfailed : s.download.failed = true) :
    DownloadStep crc32 s .download { s with download := { s.download with phase := .threw } }

inductive ZipStep : Pipeline → PipelineEvent → Pipeline → Prop where
  | recv {s : Pipeline} {file : DownloadedFile} {buffered : List DownloadedFile} {z : ZipLocals}
      {bytes : Bytes} (hphase : s.zip.phase = .receiving)
      (hbuffered : s.fileChannel.buffered = file :: buffered)
      (hzip : zipFile (s.zip.locals, []) file = some (z, bytes)) :
    ZipStep s .zip
      { s with
        fileChannel := { s.fileChannel with buffered }
        zip := { s.zip with phase := .appending bytes (.entry file z) } }
  | recvEnd {s : Pipeline} {bytes : Bytes} (hphase : s.zip.phase = .receiving)
      (hbuffered : s.fileChannel.buffered = [])
      (hended : s.fileChannel.terminated = true ∨ s.supervisor = .unwinding)
      (hzip : endBytes s.zip.locals = some bytes) :
    ZipStep s .zip { s with zip := { s.zip with phase := .appending bytes .ends } }
  | fill {s : Pipeline} {bytes rest : Bytes} {task : ZipTask} {p : ChunkProducer}
      (hphase : s.zip.phase = .appending bytes task) (hbytes : bytes ≠ [])
      (hfill : s.producer.fill bytes = (p, rest)) :
    ZipStep s .zip { s with producer := p, zip := { s.zip with phase := .appended p rest task } }
  | emit {s : Pipeline} {bytes : Bytes} {task : ZipTask}
      (hphase : s.zip.phase = .emitting bytes task) (hslot : s.producer.hasSlot = true) :
    ZipStep s (.emit s.producer.stream.terminated)
      { s with
        producer := s.producer.emitFullChunk
        zip := { s.zip with phase := .appending bytes task } }
  | entryEnd {s : Pipeline} {file : DownloadedFile} {z : ZipLocals}
      (hphase : s.zip.phase = .appending [] (.entry file z)) :
    ZipStep s .zip
      { s with
        byteBudget := s.byteBudget.release file.releaseBytes
        zip := { phase := .receiving, locals := z } }
  | endsEnd {s : Pipeline} (hphase : s.zip.phase = .appending [] .ends) :
    ZipStep s .zip { s with zip := { s.zip with phase := .finishing } }
  | finishEmit {s : Pipeline} (hphase : s.zip.phase = .finishing) (hbuffer : s.producer.buffer ≠ [])
      (hslot : s.producer.hasSlot = true) :
    ZipStep s .zip
      { s with producer := s.producer.emitFullChunk, zip := { s.zip with phase := .closing } }
  | finishEmpty {s : Pipeline} (hphase : s.zip.phase = .finishing)
      (hbuffer : s.producer.buffer = []) :
    ZipStep s .zip { s with zip := { s.zip with phase := .closing } }
  | finishClose {s : Pipeline} (hphase : s.zip.phase = .closing) :
    ZipStep s .zip
      { s with producer := s.producer.close, zip := { s.zip with phase := .returned } }

inductive UploadStep : Pipeline → PipelineEvent → Pipeline → Prop where
  | recv {s : Pipeline} {chunk : UploadChunk} {buffered : List UploadChunk}
      (hphase : s.upload.phase = .receiving)
      (hbuffered : s.producer.stream.buffered = chunk :: buffered)
      (hroom : s.upload.inFlightCount < maxConcurrentUploads) :
    UploadStep s .upload
      { s with
        producer := { s.producer with stream := { s.producer.stream with buffered } }
        upload := s.upload.addTask chunk }
  | recvFull {s : Pipeline} {chunk : UploadChunk} {buffered : List UploadChunk}
      (hphase : s.upload.phase = .receiving)
      (hbuffered : s.producer.stream.buffered = chunk :: buffered)
      (hfull : maxConcurrentUploads ≤ s.upload.inFlightCount) :
    UploadStep s .upload
      { s with
        producer := { s.producer with stream := { s.producer.stream with buffered } }
        upload := { s.upload with phase := .reaping chunk } }
  | recvEnd {s : Pipeline} (hphase : s.upload.phase = .receiving)
      (hbuffered : s.producer.stream.buffered = [])
      (hended : s.producer.stream.terminated = true) :
    UploadStep s .upload { s with upload := { s.upload with phase := .draining } }
  /-- The cancelled task asks for the next chunk, or was waiting for it. -/
  | cancelled {s : Pipeline} (hphase : s.upload.phase = .receiving)
      (hcancel : s.supervisor = .unwinding) (hopen : s.producer.stream.terminated = false) :
    UploadStep s .upload { s with producer := s.producer.close }
  | reaped {s : Pipeline} {chunk : UploadChunk} {part : CompletedPart}
      {done : List (Option CompletedPart)} (hphase : s.upload.phase = .reaping chunk)
      (hdone : s.upload.done = some part :: done) :
    UploadStep s .upload
      { s with
        upload :=
          { s.upload with
            inFlightCount := s.upload.inFlightCount - 1
            done
            completed := s.upload.completed ++ [part] }.addTask chunk }
  | reapThrew {s : Pipeline} {chunk : UploadChunk} {done : List (Option CompletedPart)}
      (hphase : s.upload.phase = .reaping chunk) (hdone : s.upload.done = none :: done) :
    UploadStep s .upload { s with upload := { s.upload with phase := .throwing, done } }
  | drained {s : Pipeline} {part : CompletedPart} {done : List (Option CompletedPart)}
      (hphase : s.upload.phase = .draining) (hdone : s.upload.done = some part :: done) :
    UploadStep s .upload
      { s with upload := { s.upload with done, completed := s.upload.completed ++ [part] } }
  | drainThrew {s : Pipeline} {done : List (Option CompletedPart)}
      (hphase : s.upload.phase = .draining) (hdone : s.upload.done = none :: done) :
    UploadStep s .upload { s with upload := { s.upload with phase := .throwing, done } }
  | drainEnd {s : Pipeline} (hphase : s.upload.phase = .draining)
      (hinflight : s.upload.inflight = []) (hdone : s.upload.done = []) :
    UploadStep s .upload { s with upload := { s.upload with phase := .returned } }
  | threw {s : Pipeline} (hphase : s.upload.phase = .throwing)
      (hinflight : s.upload.inflight = []) :
    UploadStep s .upload { s with upload := { s.upload with phase := .threw } }
  | uploaded {s : Pipeline} {chunk : UploadChunk} {cs₁ cs₂ : List UploadChunk} {eTag : String}
      (hinflight : s.upload.inflight = cs₁ ++ chunk :: cs₂) :
    UploadStep s .upload
      { s with
        producer := s.producer.releaseSlot
        upload :=
          { s.upload with
            inflight := cs₁ ++ cs₂
            done := s.upload.done ++ [some ⟨eTag, chunk.partNumber⟩] } }
  /-- `uploadPart` throws, and `releaseSlot` is not reached. -/
  | uploadFailed {s : Pipeline} {chunk : UploadChunk} {cs₁ cs₂ : List UploadChunk}
      (hinflight : s.upload.inflight = cs₁ ++ chunk :: cs₂) :
    UploadStep s (.uploadFailed !s.zip.phase.final)
      { s with
        upload := { s.upload with inflight := cs₁ ++ cs₂, done := s.upload.done ++ [none] } }

/-! ## `runPipeline` -/

inductive SupervisorStep : Pipeline → Pipeline → Prop where
  | downloadReturned {s : Pipeline} (hphase : s.supervisor = .awaitingDownload)
      (hdownload : s.download.phase = .returned) :
    SupervisorStep s { s with supervisor := .awaitingZip }
  | downloadThrew {s : Pipeline} (hphase : s.supervisor = .awaitingDownload)
      (hdownload : s.download.phase = .threw) :
    SupervisorStep s { s with supervisor := .unwinding }
  | zipReturned {s : Pipeline} (hphase : s.supervisor = .awaitingZip)
      (hzip : s.zip.phase = .returned) :
    SupervisorStep s { s with supervisor := .awaitingUpload }
  | uploadReturned {s : Pipeline} (hphase : s.supervisor = .awaitingUpload)
      (hupload : s.upload.phase = .returned) :
    SupervisorStep s { s with supervisor := .returned s.upload.completed }
  | uploadThrew {s : Pipeline} (hphase : s.supervisor = .awaitingUpload)
      (hupload : s.upload.phase = .threw) :
    SupervisorStep s { s with supervisor := .threw }
  /-- The error is rethrown once all children have ended. -/
  | unwound {s : Pipeline} (hphase : s.supervisor = .unwinding) (hzip : s.zip.phase = .returned)
      (hupload : s.upload.phase.final = true) :
    SupervisorStep s { s with supervisor := .threw }

/-- The next header does not fit its ZIP fields. -/
def Pipeline.traps (s : Pipeline) : Prop :=
  s.zip.phase = .receiving ∧ match s.fileChannel.buffered with
    | file :: _ => zipFile (s.zip.locals, []) file = none
    | [] => (s.fileChannel.terminated = true ∨ s.supervisor = .unwinding) ∧
      endBytes s.zip.locals = none

inductive PipelineStep (crc32 : Bytes → UInt32) : Pipeline → PipelineEvent → Pipeline → Prop where
  | download {s s' : Pipeline} {ev : PipelineEvent} (halive : s.supervisor ≠ .trapped)
      (h : DownloadStep crc32 s ev s') :
    PipelineStep crc32 s ev s'
  | zip {s s' : Pipeline} {ev : PipelineEvent} (halive : s.supervisor ≠ .trapped)
      (h : ZipStep s ev s') :
    PipelineStep crc32 s ev s'
  | upload {s s' : Pipeline} {ev : PipelineEvent} (halive : s.supervisor ≠ .trapped)
      (h : UploadStep s ev s') :
    PipelineStep crc32 s ev s'
  | supervisor {s s' : Pipeline} (h : SupervisorStep s s') : PipelineStep crc32 s .supervisor s'
  | trap {s : Pipeline} (hopen : s.supervisor.final = false) (htraps : s.traps) :
    PipelineStep crc32 s .trap { s with supervisor := .trapped }

abbrev PipelineRun (crc32 : Bytes → UInt32) := Run (PipelineStep crc32)

end S3Archive.SebstoSwift
