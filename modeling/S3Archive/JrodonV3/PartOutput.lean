import S3Archive.Base.Collect
import S3Archive.JrodonV3.PartJob

/-!
# jrodon-v3: what a part job outputs

`PartJob.output`: the bytes that a job uploads, or that S3 copies for it, as a
function of the source objects and of the headers that the central directory
element receives. An element writes into its slice of the part's buffer; a chunk
that does not fit is cut (`intoSlice`).
-/

namespace S3Archive.JrodonV3

/-- The source objects: body and CRC32 by bucket and key. -/
structure Source where
  body : Bytes → Bytes → Bytes
  crc32 : Bytes → Bytes → CRC32

namespace SerializableEntryFromS3

/-- The local header once the CRC32 is known. -/
def resolvedLoc (src : Source) (e : SerializableEntryFromS3) : LocalFileHeader CRC32 :=
  e.loc.setCrc (src.crc32 e.bucketName e.key)

/-- The header that the entry sends to the central directory. -/
def cdfh (src : Source) (e : SerializableEntryFromS3) : CentralDirectoryFileHeader :=
  .fromLoc (e.resolvedLoc src)

/-- The body bytes that the entry downloads. -/
def stream (src : Source) (e : SerializableEntryFromS3) : Bytes :=
  match e.operation with
  | .get => src.body e.bucketName e.key
  | .partialGet size => (src.body e.bucketName e.key).take size
  | .head => []

def bytes (src : Source) (e : SerializableEntryFromS3) : Bytes :=
  (e.resolvedLoc src).dump ++ e.stream src

end SerializableEntryFromS3

/-- The headers that the directory element stores, in the order in which it writes them. -/
def storedCdfhs (eocd64 : EndOfCentralDirectory64) (received : List CentralDirectoryFileHeader) :
    List CentralDirectoryFileHeader :=
  intoValues (collect CentralDirectoryFileHeader.locOffset eocd64.recordCount ∅ received)

/-- What `resolve_and_write` writes, `received` being what the channel delivers before it is
closed. -/
def UploadPartElement.bytes (src : Source) (received : List CentralDirectoryFileHeader) :
    UploadPartElement → Bytes
  | .entryFromS3 e => e.entry.bytes src
  | .centralDirectory _ eocd64 _ =>
    (storedCdfhs eocd64 received).flatMap CentralDirectoryFileHeader.dump ++ eocd64.dump

/-- Carve the remaining buffer into one slice for each element. What is left over stays zero; a
slice beyond the buffer is an underflow. -/
def writeElems (src : Source) (received : List CentralDirectoryFileHeader) :
    Nat → List UploadPartElement → Option Bytes
  | remain, [] => some (List.replicate remain 0)
  | remain, e :: es =>
    if e.elemSize ≤ remain then
      (writeElems src received (remain - e.elemSize) es).map
        (intoSlice e.elemSize (e.bytes src received) ++ ·)
    else none

/-- The bytes of a copy range; S3 rejects a range that is not inside the object. -/
def copyBytes (body : Bytes) : Option ByteRange → Option Bytes
  | none => some body
  | some r =>
    if r.start ≤ r.stop ∧ r.stop < body.length then
      some ((body.drop r.start).take (r.stop + 1 - r.start))
    else none

/-- The bytes of the job's part. -/
def PartJob.output (src : Source) (received : List CentralDirectoryFileHeader) (job : PartJob) :
    Option Bytes :=
  match job.partJobType with
  | .upload elems => writeElems src received job.partSize elems
  | .copy source range => copyBytes (src.body source.bucketName source.key) range

def UploadPartElement.cdfh? (src : Source) : UploadPartElement → Option CentralDirectoryFileHeader
  | .entryFromS3 e => some (e.entry.cdfh src)
  | .centralDirectory _ _ _ => none

/-- The headers that the job's entries send. -/
def PartJob.cdfhs (src : Source) (job : PartJob) : List CentralDirectoryFileHeader :=
  job.elems.filterMap (UploadPartElement.cdfh? src)

/-- The slices of the elements tile a buffer of the sum of their sizes. -/
theorem writeElems_sum (src : Source) (received : List CentralDirectoryFileHeader)
    (elems : List UploadPartElement) :
    writeElems src received (elems.map UploadPartElement.elemSize).sum elems =
      some (elems.flatMap fun e => intoSlice e.elemSize (e.bytes src received)) := by
  induction elems with
  | nil => rfl
  | cons e es ih =>
    unfold writeElems
    rw [List.map_cons, List.sum_cons, if_pos (Nat.le_add_right _ _), Nat.add_sub_cancel_left, ih,
      Option.map_some, List.flatMap_cons]

/-- Elements that fill their slices exactly fill the buffer exactly. -/
theorem writeElems_exact {src : Source} {received : List CentralDirectoryFileHeader}
    {elems : List UploadPartElement}
    (h : ∀ e ∈ elems, (e.bytes src received).length = e.elemSize) :
    writeElems src received (elems.map UploadPartElement.elemSize).sum elems =
      some (elems.flatMap (UploadPartElement.bytes src received)) := by
  rw [writeElems_sum]
  rw [List.flatMap_def, List.flatMap_def,
    List.map_congr_left fun e he => intoSlice_exact (h e he)]

end S3Archive.JrodonV3
