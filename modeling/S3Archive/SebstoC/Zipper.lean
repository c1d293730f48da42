import S3Archive.SebstoC.ZipWriter
import S3Archive.Base.Run
import Mathlib.Logic.Function.Basic

/-!
# sebsto C: the zipper thread

`zipper_thread` with the downloads it drives, as a labelled transition system. The
thread admits downloads while they fit its budget, picks one that is done and adds
its body to the archive; the callbacks of the CRT deliver bodies and outcomes in
between. `upload_write_sync` batches what the encoder sends, and the outcome of
each write to the upload is a parameter.
-/

namespace S3Archive.SebstoC

def maxConcurrentDownloads : Nat := 64

def maxDownloadInflightBytes : UInt64 := 32 * 1024 * 1024

def uploadBatchBytes : Nat := 8 * 1024 * 1024

/-- `obj_t`. -/
structure Obj where
  key : Bytes
  name : Bytes
  size : UInt64

/-- `download_t`. -/
structure Download where
  body : Bytes := []
  errorCode : Int := 0
  done : Bool := false

/-! ## The upload -/

/-- `zipper_args_t`, with the writes that the upload has accepted, each with its `eof`, and the
number of writes that were tried. -/
structure ZipperArgs where
  batch : Bytes := []
  writeFailed : Bool := false
  ok : Bool := false
  accepted : List (Bytes × Bool) := []
  writes : Nat := 0

/-- The bytes that the upload has accepted. -/
def ZipperArgs.uploaded (a : ZipperArgs) : Bytes := (a.accepted.map Prod.fst).flatten

section

variable (accepts : Nat → Bool)

def crtWriteSync (a : ZipperArgs) (data : Bytes) (eof : Bool) : Int × ZipperArgs :=
  if a.writeFailed then (-1, a)
  else if accepts a.writes then
    (0, { a with accepted := a.accepted ++ [(data, eof)], writes := a.writes + 1 })
  else (-1, { a with writeFailed := true, writes := a.writes + 1 })

/-- The first `n` full batches; the loop of `upload_write_sync` runs `batch_len / batch` times. -/
def flushBatches : Nat → ZipperArgs → Int × ZipperArgs
  | 0, a => (0, a)
  | n + 1, a =>
    let (rc, a) := crtWriteSync accepts a (a.batch.take uploadBatchBytes) false
    if rc ≠ 0 then (-1, a)
    else flushBatches n { a with batch := a.batch.drop uploadBatchBytes }

def uploadWriteSync : ZipWriteFn ZipperArgs := fun a data eof =>
  if a.writeFailed then (-1, a)
  else
    let a := { a with batch := a.batch ++ data }
    if eof then
      let (rc, a) := crtWriteSync accepts a a.batch true
      if rc ≠ 0 then (-1, a) else (0, { a with batch := [] })
    else flushBatches accepts (a.batch.length / uploadBatchBytes) a

end

/-! ## The thread -/

inductive Phase where
  | looping
  | admitting
  | scanning (i : Nat)
  | awaiting (i : Nat)
  | feeding (idx : Nat)
  | finishing
  | ending
  | cleanup
  deriving DecidableEq, Repr

/-- The locals of `zipper_thread`; `mrs i` says that `mrs[i]` is not `NULL`. The index of a
download is a `Nat` for the code's `int`, which holds that of every list that fits in memory. -/
structure Zipper where
  phase : Phase := .looping
  inflight : Nat := 0
  inflightBytes : UInt64 := 0
  nextToStart : Nat := 0
  completed : Nat := 0
  dls : Nat → Download := fun _ => {}
  mrs : Nat → Bool := fun _ => false
  finishedOrder : Nat → Bool := fun _ => false
  z : ZipWriter ZipperArgs := { user := {} }

inductive Event where
  /-- A step of the thread on its own. -/
  | zipper
  /-- `start_download` for `key`, and whether it gave a request. -/
  | start (key : Bytes) (ok : Bool)
  /-- `dl_recv_body` of download `i`. -/
  | recv (i : Nat) (data : Bytes)
  /-- `dl_finish` of download `i`. -/
  | finish (i : Nat) (errorCode : Int)

namespace Zipper

def setOk (s : Zipper) (ok : Bool) : Zipper :=
  { s with z := { s.z with user := { s.z.user with ok } } }

/-- The condition under which the next object is started. -/
def Admits (s : Zipper) (o : Obj) : Prop :=
  s.inflight < maxConcurrentDownloads ∧ s.inflightBytes + o.size ≤ maxDownloadInflightBytes

instance (s : Zipper) (o : Obj) : Decidable (s.Admits o) := inferInstanceAs (Decidable (_ ∧ _))

def started (s : Zipper) (o : Obj) : Zipper :=
  { s with
    mrs := Function.update s.mrs s.nextToStart true
    inflight := s.inflight + 1
    inflightBytes := s.inflightBytes + o.size
    nextToStart := s.nextToStart + 1 }

/-- Download `i` is in flight. -/
def Going (s : Zipper) (i : Nat) : Prop := s.mrs i = true ∧ s.finishedOrder i = false

instance (s : Zipper) (i : Nat) : Decidable (s.Going i) := inferInstanceAs (Decidable (_ ∧ _))

/-- The bookkeeping after download `idx` was fed to the encoder, which is now `z`. -/
def fed (s : Zipper) (idx : Nat) (o : Obj) (z : ZipWriter ZipperArgs) : Zipper :=
  { s with
    inflightBytes := s.inflightBytes - o.size
    inflight := s.inflight - 1
    completed := s.completed + 1
    finishedOrder := Function.update s.finishedOrder idx true
    dls := Function.update s.dls idx { s.dls idx with body := [] }
    mrs := Function.update s.mrs idx false
    z }

def update (s : Zipper) (i : Nat) (d : Download) : Zipper :=
  { s with dls := Function.update s.dls i d }

end Zipper

section

variable (accepts : Nat → Bool) (crc32 : Bytes → UInt32) (objs : List Obj)

/-- `upload_write_sync(a, NULL, 0, 1)` at the label `end`, unless a write has failed. -/
def signalEnd (s : Zipper) : Zipper :=
  if s.z.user.writeFailed then s
  else { s with z := { s.z with user := (uploadWriteSync accepts s.z.user [] true).2 } }

inductive Step : Zipper → Event → Zipper → Prop where
  /-- `while (completed < a->objs->n)`. -/
  | again {s : Zipper} : s.phase = .looping → s.completed < objs.length →
      Step s .zipper { s with phase := .admitting }
  | leave {s : Zipper} : s.phase = .looping → ¬ s.completed < objs.length →
      Step s .zipper { s with phase := .finishing }
  | start {s : Zipper} {o : Obj} : s.phase = .admitting → objs[s.nextToStart]? = some o →
      s.Admits o → Step s (.start o.key true) (s.started o)
  | startFails {s : Zipper} {o : Obj} : s.phase = .admitting → objs[s.nextToStart]? = some o →
      s.Admits o → Step s (.start o.key false) { s.setOk false with phase := .ending }
  | saturated {s : Zipper} : s.phase = .admitting →
      (∀ o, objs[s.nextToStart]? = some o → ¬ s.Admits o) →
      Step s .zipper { s with phase := .scanning 0 }
  /-- A download that is done, in the order of the indices. -/
  | scanHit {s : Zipper} {i : Nat} : s.phase = .scanning i → i < objs.length → s.Going i →
      (s.dls i).done = true → Step s .zipper { s with phase := .feeding i }
  | scanMiss {s : Zipper} {i : Nat} : s.phase = .scanning i → i < objs.length →
      ¬ (s.Going i ∧ (s.dls i).done = true) → Step s .zipper { s with phase := .scanning (i + 1) }
  | scanEnd {s : Zipper} {i : Nat} : s.phase = .scanning i → ¬ i < objs.length →
      Step s .zipper { s with phase := .awaiting 0 }
  /-- The wait for the lowest download in flight. -/
  | awaitHit {s : Zipper} {i : Nat} : s.phase = .awaiting i → i < objs.length → s.Going i →
      (s.dls i).done = true → Step s .zipper { s with phase := .feeding i }
  | awaitMiss {s : Zipper} {i : Nat} : s.phase = .awaiting i → i < objs.length → ¬ s.Going i →
      Step s .zipper { s with phase := .awaiting (i + 1) }
  /-- `if (idx < 0) break;  /* shouldn't happen */`. -/
  | giveUp {s : Zipper} {i : Nat} : s.phase = .awaiting i → ¬ i < objs.length →
      Step s .zipper { s with phase := .finishing }
  | failed {s : Zipper} {i : Nat} : s.phase = .feeding i → (s.dls i).errorCode ≠ 0 →
      Step s .zipper { s.setOk false with phase := .ending }
  | feed {s : Zipper} {i : Nat} {o : Obj} {z : ZipWriter ZipperArgs} : s.phase = .feeding i →
      (s.dls i).errorCode = 0 → objs[i]? = some o →
      (zipWriterAdd (uploadWriteSync accepts) crc32 o.name (s.dls i).body).run s.z = (0, z) →
      Step s .zipper { s.fed i o z with phase := .looping }
  | addFails {s : Zipper} {i : Nat} {o : Obj} {rc : Int} {z : ZipWriter ZipperArgs} :
      s.phase = .feeding i → (s.dls i).errorCode = 0 → objs[i]? = some o →
      (zipWriterAdd (uploadWriteSync accepts) crc32 o.name (s.dls i).body).run s.z = (rc, z) →
      rc ≠ 0 → Step s .zipper { (s.fed i o z).setOk false with phase := .ending }
  | finish {s : Zipper} {rc : Int} {z : ZipWriter ZipperArgs} : s.phase = .finishing →
      (zipWriterFinish (uploadWriteSync accepts)).run s.z = (rc, z) →
      Step s .zipper { ({ s with z } : Zipper).setOk (decide (rc = 0)) with phase := .cleanup }
  /-- The label `end`. -/
  | abort {s : Zipper} : s.phase = .ending →
      Step s .zipper { signalEnd accepts s with phase := .cleanup }
  | recv {s : Zipper} {i : Nat} {data : Bytes} : s.mrs i = true → (s.dls i).done = false →
      Step s (.recv i data) (s.update i { s.dls i with body := (s.dls i).body ++ data })
  | done {s : Zipper} {i : Nat} {errorCode : Int} : s.mrs i = true → (s.dls i).done = false →
      Step s (.finish i errorCode) (s.update i { s.dls i with errorCode, done := true })

end

end S3Archive.SebstoC
