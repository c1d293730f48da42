import S3Archive.JNicholson.ZipWriter
import S3Archive.Base.Memory
import S3Archive.Base.Run
import Mathlib.Logic.Function.Basic

/-!
# j-nicholson98: download workers and assembler

`archive` as a transition system: the workers of `downloader` (`WorkerStep`) share
the key queue, the slab pool, the bounded entry queue and the stop event
(`Shared`) with the assembler, which runs in the calling thread (`ArchiveStep`). A
worker's blocking `get` or `put` is a step that is enabled when the queue allows
it; the polls in between change nothing. `crc32` stands for `zlib.crc32`.
-/

namespace S3Archive.JNicholson

/-- What a body is read from: the first bytes of the entry's slab, or bytes of its own. -/
inductive Body where
  | view (n : Nat)
  | fresh (data : Bytes)
  deriving DecidableEq

structure Entry where
  name : String
  crc : UInt32
  size : Nat
  header : Bytes
  body : Body
  slab : Nat
  /-- The body's bytes when the checksum was computed; the code keeps no copy of them. -/
  filled : Bytes
  deriving DecidableEq

/-- The bytes that reading the entry's body gives. -/
def Entry.read (e : Entry) (mem : Nat → Bytes) : Bytes :=
  match e.body with
  | .view n => (mem e.slab).take n
  | .fresh data => data

/-- What the workers send: an entry, or an error. -/
inductive Message where
  | entry (e : Entry)
  | err
  deriving DecidableEq

/-- `key.rsplit("/", 1)[-1]`. -/
def baseName (key : String) : String :=
  String.ofList (key.toList.reverse.takeWhile (· ≠ '/')).reverse

/-- What the downloader makes of a filled body. -/
def makeEntry (crc32 : Bytes → UInt32) (key : String) (slab : Nat) (body : Body) (filled : Bytes) :
    Option Entry := do
  let name := baseName key
  let header ← localFileHeader (utf8 name) (crc32 filled).toNat filled.length
  return ⟨name, crc32 filled, filled.length, header, body, slab, filled⟩

/-! ## Workers -/

structure Shared where
  /-- `key_q`. -/
  keys : List String
  /-- The free slabs of the pool. -/
  free : List Nat
  /-- The contents of the slabs. -/
  mem : Nat → Bytes
  /-- `entry_q`. -/
  queue : List Message
  stop : Bool

inductive Worker where
  /-- At the head of its loop. -/
  | top
  /-- In `pool.borrow`. -/
  | borrowing (key : String)
  /-- In `storage.get_object_into`. -/
  | downloading (key : String) (slab : Nat)
  /-- In `_put` with an entry. -/
  | putting (e : Entry)
  /-- In `_put` with an error; the slab is back in the pool. -/
  | puttingErr
  | returned
  deriving DecidableEq

inductive WorkerStep (crc32 : Bytes → UInt32) (queueDepth : Nat) :
    Shared → Worker → Shared → Worker → Prop where
  | stopped {s : Shared} (hstop : s.stop = true) : WorkerStep crc32 queueDepth s .top s .returned
  | take {s : Shared} {key : String} {keys : List String} (hkeys : s.keys = key :: keys) :
    WorkerStep crc32 queueDepth s .top { s with keys } (.borrowing key)
  | noKey {s : Shared} (hkeys : s.keys = []) : WorkerStep crc32 queueDepth s .top s .returned
  | borrow {s : Shared} {key : String} {slab : Nat} {free : List Nat}
      (hfree : s.free = slab :: free) :
    WorkerStep crc32 queueDepth s (.borrowing key) { s with free } (.downloading key slab)
  | borrowStopped {s : Shared} {key : String} (hstop : s.stop = true) :
    WorkerStep crc32 queueDepth s (.borrowing key) s .returned
  /-- `readinto` a part of the slab; a retry starts over. -/
  | readInto {s : Shared} {key : String} {slab start : Nat} {data : Bytes}
      (hfits : start + data.length ≤ (s.mem slab).length) :
    WorkerStep crc32 queueDepth s (.downloading key slab)
      { s with mem := Function.update s.mem slab (writeAt (s.mem slab) start data) }
      (.downloading key slab)
  | filled {s : Shared} {key : String} {slab n : Nat} {e : Entry} (hn : n ≤ (s.mem slab).length)
      (he : makeEntry crc32 key slab (.view n) ((s.mem slab).take n) = some e) :
    WorkerStep crc32 queueDepth s (.downloading key slab) s (.putting e)
  /-- The object does not fit the slab. -/
  | oversized {s : Shared} {key : String} {slab : Nat} {data : Bytes} {e : Entry}
      (he : makeEntry crc32 key slab (.fresh data) data = some e) :
    WorkerStep crc32 queueDepth s (.downloading key slab) s (.putting e)
  | failed {s : Shared} {key : String} {slab : Nat} :
    WorkerStep crc32 queueDepth s (.downloading key slab) { s with free := s.free ++ [slab] }
      .puttingErr
  | put {s : Shared} {e : Entry} (hroom : s.queue.length < queueDepth) :
    WorkerStep crc32 queueDepth s (.putting e) { s with queue := s.queue ++ [.entry e] } .top
  | putStopped {s : Shared} {e : Entry} (hstop : s.stop = true) :
    WorkerStep crc32 queueDepth s (.putting e) { s with free := s.free ++ [e.slab] } .returned
  | putErr {s : Shared} (hroom : s.queue.length < queueDepth) :
    WorkerStep crc32 queueDepth s .puttingErr { s with queue := s.queue ++ [.err] } .returned
  | putErrStopped {s : Shared} (hstop : s.stop = true) :
    WorkerStep crc32 queueDepth s .puttingErr s .returned

/-! ## The assembler -/

/-- Where the calling thread is. -/
inductive Phase where
  /-- Before `open_multipart_upload` has returned, which it is taken to do. -/
  | opening
  /-- At `entry_q.get()`, with this many items still to come. -/
  | looping (left : Nat)
  /-- In `add_segments`, with this many items to come after it. -/
  | holding (e : Entry) (left : Nat)
  /-- After the loop: `finish`, `flush_final` and `complete`. -/
  | finishing
  /-- In the exception handler. -/
  | raising
  | raised
  | returned
  deriving DecidableEq

inductive Upload where
  | inProgress
  | completed (parts : List (Nat × Bytes))
  | aborted
  deriving DecidableEq

structure ArchiveState where
  shared : Shared
  workers : List Worker
  phase : Phase
  writer : Zip64Assembler
  /-- The entries that were written, each with the bytes that were read for its body. -/
  written : List (Entry × Bytes)
  upload : Upload

/-- The parameters of `archive`; the pool size defaults to `queue_depth + n_download + 2`. -/
structure Config where
  nDownload : Nat
  queueDepth : Nat
  poolSize : Nat
  slabSize : Nat
  partSize : Nat

def ArchiveState.start (cfg : Config) (keys : List String) : ArchiveState where
  shared :=
    { keys
      free := List.range cfg.poolSize
      mem := fun _ => List.replicate cfg.slabSize 0
      queue := []
      stop := false }
  workers := List.replicate cfg.nDownload .top
  phase := .opening
  writer := { sink := { partSize := cfg.partSize } }
  written := []
  upload := .inProgress

inductive ArchiveEvent where
  | worker
  | opened
  | getEntry
  | getErr
  | written
  | writeFailed
  | loopEnd
  | completed
  | finishFailed
  | aborted
  deriving DecidableEq

inductive ArchiveStep (crc32 : Bytes → UInt32) (queueDepth nKeys : Nat) :
    ArchiveState → ArchiveEvent → ArchiveState → Prop where
  | worker {s : ArchiveState} {shared : Shared} {w w' : Worker} {ws₁ ws₂ : List Worker}
      (hworkers : s.workers = ws₁ ++ w :: ws₂)
      (hstep : WorkerStep crc32 queueDepth s.shared w shared w') :
    ArchiveStep crc32 queueDepth nKeys s .worker { s with shared, workers := ws₁ ++ w' :: ws₂ }
  | opened {s : ArchiveState} (hphase : s.phase = .opening) :
    ArchiveStep crc32 queueDepth nKeys s .opened { s with phase := .looping nKeys }
  | getEntry {s : ArchiveState} {left : Nat} {e : Entry} {queue : List Message}
      (hphase : s.phase = .looping (left + 1)) (hqueue : s.shared.queue = .entry e :: queue) :
    ArchiveStep crc32 queueDepth nKeys s .getEntry
      { s with shared := { s.shared with queue }, phase := .holding e left }
  | getErr {s : ArchiveState} {left : Nat} {queue : List Message}
      (hphase : s.phase = .looping (left + 1)) (hqueue : s.shared.queue = .err :: queue) :
    ArchiveStep crc32 queueDepth nKeys s .getErr
      { s with shared := { s.shared with queue }, phase := .raising }
  | written {s : ArchiveState} {left : Nat} {e : Entry} {z : Zip64Assembler}
      (hphase : s.phase = .holding e left)
      (hadd : s.writer.addSegments e.name e.crc.toNat e.size e.header (e.read s.shared.mem) =
        some z) :
    ArchiveStep crc32 queueDepth nKeys s .written
      { s with
        shared := { s.shared with free := s.shared.free ++ [e.slab] }
        phase := .looping left
        writer := z
        written := s.written ++ [(e, e.read s.shared.mem)] }
  /-- The `finally` clause returns the slab. -/
  | writeFailed {s : ArchiveState} {left : Nat} {e : Entry} (hphase : s.phase = .holding e left) :
    ArchiveStep crc32 queueDepth nKeys s .writeFailed
      { s with
        shared := { s.shared with free := s.shared.free ++ [e.slab] }
        phase := .raising }
  | loopEnd {s : ArchiveState} (hphase : s.phase = .looping 0) :
    ArchiveStep crc32 queueDepth nKeys s .loopEnd { s with phase := .finishing }
  | completed {s : ArchiveState} {sink : PartChunker} (hphase : s.phase = .finishing)
      (hfinish : s.writer.finish = some sink) :
    ArchiveStep crc32 queueDepth nKeys s .completed
      { s with
        shared := { s.shared with stop := true }
        phase := .returned
        upload := .completed sink.flushFinal.uploaded }
  | finishFailed {s : ArchiveState} (hphase : s.phase = .finishing) :
    ArchiveStep crc32 queueDepth nKeys s .finishFailed { s with phase := .raising }
  /-- `stop.set()`, `mp.abort()` and `raise`. -/
  | aborted {s : ArchiveState} (hphase : s.phase = .raising) :
    ArchiveStep crc32 queueDepth nKeys s .aborted
      { s with
        shared := { s.shared with stop := true }
        phase := .raised
        upload := .aborted }

abbrev ArchiveRun (crc32 : Bytes → UInt32) (queueDepth nKeys : Nat) :
    ArchiveState → List ArchiveEvent → ArchiveState → Prop :=
  Run (ArchiveStep crc32 queueDepth nKeys)

end S3Archive.JNicholson
