import S3Archive.JrodonV3.ZipLayout

/-!
# jrodon-v3: part jobs

`PartJob`, one unit of work of the multipart upload, and `DelegatedPartJob`, its
form for a sub-worker. A channel of central directory headers is a number, and a
sender or a receiver is the number of its channel. The copy source
`"bucket/key"` and the range `"bytes=start-stop"` are kept as their fields.
-/

namespace S3Archive.JrodonV3

abbrev CdfhChannel := Nat

inductive S3ObjectOperation where
  | get
  /-- The first `size` bytes, and the CRC32 of the whole object. -/
  | partialGet (size : Nat)
  /-- The CRC32 only. -/
  | head
  deriving DecidableEq, Repr

structure SerializableEntryFromS3 where
  loc : LocalFileHeader NoCRC
  operation : S3ObjectOperation
  bucketName : Bytes
  key : Bytes

structure EntryFromS3 where
  entry : SerializableEntryFromS3
  cdfhSender : CdfhChannel

inductive UploadPartElement where
  | entryFromS3 (e : EntryFromS3)
  | centralDirectory (totalSize : Nat) (eocd64 : EndOfCentralDirectory64)
      (cdfhReceiver : CdfhChannel)

/-- `"{bucket_name}/{key}"`. -/
structure CopySource where
  bucketName : Bytes
  key : Bytes
  deriving DecidableEq, Repr

/-- `"bytes={start}-{stop}"`, both inclusive. -/
structure ByteRange where
  start : Nat
  stop : Nat
  deriving DecidableEq, Repr

inductive PartJobType where
  | upload (elems : List UploadPartElement)
  | copy (copySource : CopySource) (range : Option ByteRange)

structure PartJob where
  partNumber : Nat
  partSize : Nat
  partJobType : PartJobType

/-! ## Sizes -/

/-- The number of bytes the entry will write. -/
def EntryFromS3.elemSize (e : EntryFromS3) : Nat :=
  match e.entry.operation with
  | .get => e.entry.loc.size + e.entry.loc.fileSize
  | .partialGet size => e.entry.loc.size + size
  | .head => e.entry.loc.size

def UploadPartElement.elemSize : UploadPartElement → Nat
  | .entryFromS3 e => e.elemSize
  | .centralDirectory totalSize _ _ => totalSize

/-- The semaphore permits that the job holds while it runs. -/
def PartJob.memoryBudgetNeeded (job : PartJob) : Nat :=
  match job.partJobType with
  | .upload _ => min job.partSize u32Max
  | .copy _ _ => 256 * 1024

/-- `MAX_PART_JOB_TASKS_MEMORY`. -/
def maxPartJobTasksMemory : Nat := 50 * 1024 * 1024

def PartJob.isCopy (job : PartJob) : Bool :=
  match job.partJobType with
  | .upload _ => false
  | .copy _ _ => true

def UploadPartElement.isEntry : UploadPartElement → Bool
  | .entryFromS3 _ => true
  | .centralDirectory _ _ _ => false

def PartJob.elems (job : PartJob) : List UploadPartElement :=
  match job.partJobType with
  | .upload elems => elems
  | .copy _ _ => []

/-! ## Delegation -/

inductive Error where
  | s3
  | lambda
  | invalidPartJobConversion (message : String) (partJob : PartJob)
  | custom (message : String)

structure DelegatedPartJob where
  partNumber : Nat
  partSize : Nat
  entriesFromS3 : List SerializableEntryFromS3

/-- `PartJob::new`: the job that a sub-worker rebuilds. -/
def PartJob.new (delegated : DelegatedPartJob) (cdfhSender : CdfhChannel) : PartJob where
  partNumber := delegated.partNumber
  partSize := delegated.partSize
  partJobType := .upload (delegated.entriesFromS3.map fun e => .entryFromS3 ⟨e, cdfhSender⟩)

def UploadPartElement.entry? : UploadPartElement → Option SerializableEntryFromS3
  | .entryFromS3 e => some e.entry
  | .centralDirectory _ _ _ => none

def DelegatedPartJob.newFromPartJob (job : PartJob) :
    Except Error (DelegatedPartJob × CdfhChannel) :=
  match job.partJobType with
  | .copy _ _ =>
    .error (.invalidPartJobConversion "Only \"Upload\" PartJob can be delegated" job)
  | .upload elems =>
    if elems.all UploadPartElement.isEntry then
      match elems.getLast? with
      | some (.entryFromS3 last) =>
        .ok (⟨job.partNumber, job.partSize,
          elems.dropLast.filterMap UploadPartElement.entry? ++ [last.entry]⟩, last.cdfhSender)
      | _ =>
        .error (.invalidPartJobConversion
          "\"Upload\" PartJob must contain at least one EntryFromS3 to be delegated"
          { job with partJobType := .upload [] })
    else
      .error (.invalidPartJobConversion
        "\"Upload\" PartJob must only contain EntryFromS3 to be delegated" job)

/-- The jobs that `execute_with_lambda_subworkers` delegates. -/
def PartJob.delegatable (job : PartJob) : Bool :=
  match job.partJobType with
  | .upload elems => elems.all UploadPartElement.isEntry
  | .copy _ _ => false

end S3Archive.JrodonV3
