import S3Archive.Base.RetryPool
import S3Archive.Base.Run
import S3Archive.FigmentEngine.Crc
import S3Archive.FigmentEngine.SingleArchive

/-!
# figment-engine: runs of the assembler

`AssembleStep` is `assemble` with its retries: the HEAD requests fill the
checksums, then the copies and the streams race to finish in two pools, and the
upload is completed with the parts they report. A part can land at any time and
more than once, also when its reply is lost.
-/

namespace S3Archive.FigmentEngine

/-- `AssembleError` with the text of an error of the store. -/
inductive RequestError where
  | s3 (text : String)
  | noUploadId
  | noEtag (call : String)
  | badCrc (object : Bytes)
  | byteStream
  deriving DecidableEq, Repr

def containsText (s text : String) : Bool := s.toList.tails.any fun cs => text.toList.isPrefixOf cs

/-- Stream breaks, throttling and 5xx are worth another attempt. -/
def isRetryable : RequestError → Bool
  | .byteStream => true
  | .s3 text =>
    let s := "s3 error: " ++ text
    containsText s "SlowDown"
      || containsText s "Throttl"
      || containsText s "ServiceUnavailable"
      || containsText s "Service Unavailable"
      || containsText s "RequestTimeout"
      || containsText s "InternalError"
      || containsText s "(500)"
      || containsText s "(503)"
  | _ => false

def maxAttempts : Nat := 5
def crcConcurrency : Nat := 64
def copyConcurrency : Nat := 128
def streamConcurrency : Nat := 32

/-- The source objects by entry name, with the checksum texts that HEAD returns. -/
structure ObjectStore where
  body : Bytes → Bytes
  checksumCrc32 : Bytes → Option String

/-- The objects with their checksums decoded. -/
def ObjectStore.source (store : ObjectStore) : Source where
  body := store.body
  crc32 name := ((store.checksumCrc32 name).bind decodeS3Crc32).getD 0

/-! ## The state -/

abbrev HeadPool := Pool maxAttempts FileId RequestError (Option String)

abbrev PartPool := Pool maxAttempts PartSpec RequestError Unit

/-- The checksum that a HEAD returned. -/
def headCrc (x : FileId × Except RequestError (Option String)) :
    Except RequestError (FileId × UInt32) := do
  let text ← x.2
  match text.bind decodeS3Crc32 with
  | some crc => return (x.1, crc)
  | none => throw (.badCrc (utf8 s!"FileId({x.1.val})"))

inductive AssemblePhase where
  | heads (pool : HeadPool)
  | create (plan : SinglePlan)
  /-- The parts that the upload holds, and the numbers that were reported. -/
  | parts (plan : SinglePlan) (copies streams : PartPool) (stored : Std.HashMap Nat Bytes)
    (completed : List Nat)
  | ended (result : Except RequestError Unit)

structure AssembleState where
  phase : AssemblePhase
  /-- What the run has put at the archive's key. -/
  object : Option Bytes

def startPool {ι α : Type} (jobs : List ι) : Pool maxAttempts ι RequestError α :=
  .start (by decide) jobs

def AssembleState.start (plan : SinglePlan) : AssembleState := ⟨.heads (startPool plan.order), none⟩

/-- Open the upload: the copies and the streams have a pool each. -/
def AssemblePhase.opened (plan : SinglePlan) : AssemblePhase :=
  .parts plan (startPool (plan.parts.filter PartSpec.isCopy))
    (startPool (plan.parts.filter fun part => !part.isCopy)) ∅ []

/-- The loop over the merged pools: a part is collected, the first error ends the run. -/
def AssemblePhase.afterPart (plan : SinglePlan) (copies streams : PartPool)
    (stored : Std.HashMap Nat Bytes) (completed : List Nat) (part : PartSpec) :
    Option (Except RequestError Unit) → AssemblePhase
  | none => .parts plan copies streams stored completed
  | some (.ok _) => .parts plan copies streams stored (completed ++ [part.partNumber])
  | some (.error e) => .ended (.error e)

/-- The object of an upload that is completed with the given part numbers. -/
def completedObject (stored : Std.HashMap Nat Bytes) (completed : List Nat) : Bytes :=
  completeUpload (completed.map fun n => (n, stored[n]!))

/-! ## Steps -/

inductive AssembleEvent where
  | head (id : FileId) (reply : Except RequestError (Option String))
  | fill
  | create (reply : Except RequestError Unit)
  /-- The upload stores a part. -/
  | land (n : Nat)
  | part (part : PartSpec) (reply : Except RequestError Unit)
  | complete (reply : Except RequestError Unit)

/-- A reply to a call of one of the pools. -/
inductive PartReply : PartPool → PartPool → PartSpec → Except RequestError Unit →
    Option (Except RequestError Unit) → PartPool → PartPool → Prop where
  | copy {copies copies' streams : PartPool} {part : PartSpec} {reply : Except RequestError Unit}
      {out : Option (Except RequestError Unit)}
      (h : copies.Step copyConcurrency isRetryable part reply out copies') :
    PartReply copies streams part reply out copies' streams
  | stream {copies streams streams' : PartPool} {part : PartSpec}
      {reply : Except RequestError Unit} {out : Option (Except RequestError Unit)}
      (h : streams.Step streamConcurrency isRetryable part reply out streams') :
    PartReply copies streams part reply out copies streams'

inductive AssembleStep (store : ObjectStore) (plan : SinglePlan) :
    AssembleState → AssembleEvent → AssembleState → Prop where
  | head {pool pool' : HeadPool} {id : FileId} {reply : Except RequestError (Option String)}
      {out : Option (Except RequestError (Option String))}
      (h : pool.Step crcConcurrency isRetryable id reply out pool')
      (htext : ∀ text, reply = .ok text → text = store.checksumCrc32 plan.entries[id]!.name) :
    AssembleStep store plan ⟨.heads pool, none⟩ (.head id reply) ⟨.heads pool', none⟩
  | fill {pool : HeadPool} {results : List (FileId × UInt32)} (hdone : pool.isDone = true)
      (hresults : pool.completed.mapM headCrc = .ok results) :
    AssembleStep store plan ⟨.heads pool, none⟩ .fill ⟨.create (fillCrcs plan results), none⟩
  | fillFails {pool : HeadPool} {e : RequestError} (hdone : pool.isDone = true)
      (hresults : pool.completed.mapM headCrc = .error e) :
    AssembleStep store plan ⟨.heads pool, none⟩ .fill ⟨.ended (.error e), none⟩
  | create {filled : SinglePlan} :
    AssembleStep store plan ⟨.create filled, none⟩ (.create (.ok ())) ⟨.opened filled, none⟩
  | createFails {filled : SinglePlan} {e : RequestError} :
    AssembleStep store plan ⟨.create filled, none⟩ (.create (.error e)) ⟨.ended (.error e), none⟩
  | land {filled : SinglePlan} {copies streams : PartPool} {stored : Std.HashMap Nat Bytes}
      {completed : List Nat} {part : PartSpec} {n : Nat} {bytes : Bytes}
      (hpart : part ∈ filled.parts) (hbytes : partBytes store.source filled part = .ok (n, bytes)) :
    AssembleStep store plan ⟨.parts filled copies streams stored completed, none⟩ (.land n)
      ⟨.parts filled copies streams (stored.insert n bytes) completed, none⟩
  | part {filled : SinglePlan} {copies copies' streams streams' : PartPool}
      {stored : Std.HashMap Nat Bytes} {completed : List Nat} {part : PartSpec}
      {reply : Except RequestError Unit} {out : Option (Except RequestError Unit)}
      (h : PartReply copies streams part reply out copies' streams')
      (hlanded : reply = .ok () → part.partNumber ∈ stored) :
    AssembleStep store plan ⟨.parts filled copies streams stored completed, none⟩
      (.part part reply) ⟨.afterPart filled copies' streams' stored completed part out, none⟩
  | complete {filled : SinglePlan} {copies streams : PartPool} {stored : Std.HashMap Nat Bytes}
      {completed : List Nat} {reply : Except RequestError Unit} (hcopies : copies.isDone = true)
      (hstreams : streams.isDone = true) :
    AssembleStep store plan ⟨.parts filled copies streams stored completed, none⟩
      (.complete reply) ⟨.ended reply, some (completedObject stored completed)⟩
  | completeFails {filled : SinglePlan} {copies streams : PartPool}
      {stored : Std.HashMap Nat Bytes} {completed : List Nat} {e : RequestError}
      (hcopies : copies.isDone = true) (hstreams : streams.isDone = true) :
    AssembleStep store plan ⟨.parts filled copies streams stored completed, none⟩
      (.complete (.error e)) ⟨.ended (.error e), none⟩

abbrev AssembleRun (store : ObjectStore) (plan : SinglePlan) :
    AssembleState → List AssembleEvent → AssembleState → Prop := Run (AssembleStep store plan)

end S3Archive.FigmentEngine
