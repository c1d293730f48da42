import S3Archive.JrodonV3.PartJob

/-!
# jrodon-v3: building the part jobs

`PartJobsBuilder` with `addFiles`, `copyFile`, `partialCopyFile` and `finalize`,
and `intoPartJobs`, which drives it over a layout. The `expect` and the `panic!`
of `internal_copy_file` are `Except.error` with their messages.
-/

namespace S3Archive.JrodonV3

structure PartJobsBuilder where
  currentArchiveOffset : Nat
  cdfhSizes : List Nat
  parts : List PartJob
  channel : CdfhChannel

namespace PartJobsBuilder

def new (channel : CdfhChannel) : PartJobsBuilder := ⟨0, [], [], channel⟩

/-- Register a file's header at the current offset. -/
def pushCdfhSize (b : PartJobsBuilder) (f : FileInfo) : PartJobsBuilder :=
  { b with
    cdfhSizes := b.cdfhSizes ++
      [CentralDirectoryFileHeader.predictSize f.size f.name.length b.currentArchiveOffset] }

def advance (b : PartJobsBuilder) (n : Nat) : PartJobsBuilder :=
  { b with currentArchiveOffset := b.currentArchiveOffset + n }

/-- The element for a file whose header is at the current offset. -/
def element (b : PartJobsBuilder) (f : FileInfo) (operation : S3ObjectOperation) :
    UploadPartElement :=
  .entryFromS3 ⟨⟨.new b.currentArchiveOffset f.name f.size, operation, f.bucketName, f.key⟩,
    b.channel⟩

/-- The iterator of `add_files`: the elements, and the builder after each file was registered. -/
def elements (b : PartJobsBuilder) : List FileInfo → List UploadPartElement × PartJobsBuilder
  | [] => ([], b)
  | f :: fs =>
    let loc := LocalFileHeader.new b.currentArchiveOffset f.name f.size
    let r := elements ((b.pushCdfhSize f).advance (loc.size + f.size)) fs
    (b.element f .get :: r.1, r.2)

def addFiles (b : PartJobsBuilder) (fileInfos : List FileInfo) : PartJobsBuilder :=
  let r := b.elements fileInfos
  match b.parts.getLast? with
  | some ⟨partNumber, _, .upload elems⟩ =>
    let elems := elems ++ r.1
    { r.2 with
      parts := b.parts.dropLast ++
        [⟨partNumber, (elems.map UploadPartElement.elemSize).sum, .upload elems⟩] }
  | _ =>
    { r.2 with
      parts := b.parts ++
        [⟨b.parts.length + 1, (r.1.map UploadPartElement.elemSize).sum, .upload r.1⟩] }

def internalCopyFile (b : PartJobsBuilder) (f : FileInfo) (startByte : Option Nat) :
    Except String PartJobsBuilder :=
  match b.parts.getLast? with
  | none => .error "CopyPart cannot be first"
  | some ⟨_, _, .copy _ _⟩ => .error "CopyPart cannot follow another CopyPart"
  | some ⟨partNumber, partSize, .upload elems⟩ =>
    let operation := match startByte with
      | some startByte => S3ObjectOperation.partialGet startByte
      | none => .head
    let elem := b.element f operation
    let loc := LocalFileHeader.new b.currentArchiveOffset f.name f.size
    let copySize := f.size - startByte.getD 0
    -- the parts are counted after the upload part was updated in place
    let copy := ⟨b.parts.length + 1, copySize, .copy ⟨f.bucketName, f.key⟩
      (startByte.map fun startByte => ⟨startByte, f.size - 1⟩)⟩
    let b' := (b.pushCdfhSize f).advance (loc.size + startByte.getD 0 + copySize)
    .ok { b' with
      parts := b.parts.dropLast ++
        [⟨partNumber, partSize + elem.elemSize, .upload (elems ++ [elem])⟩] ++ [copy] }

def copyFile (b : PartJobsBuilder) (f : FileInfo) : Except String PartJobsBuilder :=
  b.internalCopyFile f none

def partialCopyFile (b : PartJobsBuilder) (f : FileInfo) (startByte : Nat) :
    Except String PartJobsBuilder :=
  b.internalCopyFile f (some startByte)

def finalize (b : PartJobsBuilder) : List PartJob :=
  let centralDirectorySize := b.cdfhSizes.sum
  let eocd64 : EndOfCentralDirectory64 :=
    { recordCount := b.cdfhSizes.length
      centralDirectorySize := centralDirectorySize
      centralDirectoryOffset := b.currentArchiveOffset
      eocd64Offset := b.currentArchiveOffset + centralDirectorySize }
  let cd := UploadPartElement.centralDirectory (centralDirectorySize + eocd64.size) eocd64 b.channel
  match b.parts.getLast? with
  | some ⟨partNumber, partSize, .upload elems⟩ =>
    b.parts.dropLast ++ [⟨partNumber, partSize + cd.elemSize, .upload (elems ++ [cd])⟩]
  | _ => b.parts ++ [⟨b.parts.length + 1, cd.elemSize, .upload [cd]⟩]

/-- One part of the layout. -/
def addPart (b : PartJobsBuilder) : ZipLayoutPart → Except String PartJobsBuilder
  | .single regular => .ok (b.addFiles regular)
  | .duo regular (.fullCopy f) => (b.addFiles regular).copyFile f
  | .duo regular (.partialCopy f copyStartByte) =>
    (b.addFiles regular).partialCopyFile f copyStartByte

end PartJobsBuilder

/-- `ZipLayout::into_part_jobs`, with a fresh channel. -/
def intoPartJobs (channel : CdfhChannel) (layout : List ZipLayoutPart) :
    Except String (List PartJob) := do
  let b ← layout.foldlM PartJobsBuilder.addPart (.new channel)
  return b.finalize

/-- The part jobs of a list of files. -/
def planJobs (channel : CdfhChannel) (files : List FileInfo) : Except String (List PartJob) :=
  intoPartJobs channel (fromFilesInfo files)

end S3Archive.JrodonV3
