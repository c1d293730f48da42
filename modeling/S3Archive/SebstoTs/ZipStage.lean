import S3Archive.SebstoTs.ZipFormat
import S3Archive.Base.Guarded
import Mathlib.Data.List.Induction

/-!
# sebsto TypeScript: the archive writer

`runZipStage` on the downloaded files in arrival order: `fileBuffers` and
`endBuffers` are the buffers it appends to the chunk producer for a file and at
the end, `ZipLocals` its variables. `runZipStage_eq_some_iff` says when no builder
throws and that the appended bytes are the streamed archive of the files.
-/

namespace S3Archive.SebstoTs

structure DownloadedFile where
  name : String
  body : Bytes
  crc32 : UInt32
  releaseBytes : Nat
  deriving DecidableEq

structure ZipLocals where
  entries : List ZipEntry := []
  offset : Nat := 0
  deriving DecidableEq

/-- The buffers of one file: local header, body, data descriptor. -/
def fileBuffers (file : DownloadedFile) : Option (List Bytes) := do
  let lfh ← localFileHeader (utf8 file.name)
  let dd ← dataDescriptor file.crc32 file.body.length
  return [lfh, file.body, dd]

/-- The loop body after the file's buffers were appended. -/
def ZipLocals.add (z : ZipLocals) (file : DownloadedFile) (buffers : List Bytes) : ZipLocals where
  entries := z.entries ++ [⟨utf8 file.name, file.crc32, file.body.length, z.offset⟩]
  offset := z.offset + (buffers.map List.length).sum

/-- The buffers after the last file: the directory and the end records. -/
def endBuffers (z : ZipLocals) : Option (List Bytes) := do
  let cdOffset := z.offset
  let headers ← z.entries.mapM centralDirectoryHeader
  let cdSize := (headers.map List.length).sum
  let z64 ← zip64EndOfCentralDirectory z.entries.length cdSize cdOffset
  let locator ← zip64EndOfCentralDirectoryLocator (z.offset + cdSize)
  return headers ++ [z64, locator, endOfCentralDirectory]

def zipFile : ZipLocals × List Bytes → DownloadedFile → Option (ZipLocals × List Bytes)
  | (z, out), file => do
    let buffers ← fileBuffers file
    return (z.add file buffers, out ++ buffers)

/-- The bytes appended for the files that arrive, unless a builder throws. -/
def runZipStage (files : List DownloadedFile) : Option Bytes := do
  let (z, out) ← files.foldlM zipFile ({}, [])
  let ends ← endBuffers z
  return (out ++ ends).flatten

/-! ## The archive that is written -/

/-- A downloaded file as an entry of a streamed archive. -/
def streamed (file : DownloadedFile) : Zip.StreamedFile := ⟨utf8 file.name, file.crc32, file.body⟩

/-- The values of a file's own records fit their fields. -/
def Fits (file : DownloadedFile) : Prop :=
  (utf8 file.name).length < 2 ^ 16 ∧ file.body.length < 2 ^ 64

def buffersOf (file : DownloadedFile) : List Bytes :=
  [((streamed file).localRecord profile).encode, file.body, (streamed file).descriptor.encode]

/-- The variables after all files. -/
def zipLocals (files : List DownloadedFile) : ZipLocals where
  entries := (Zip.placed (files.map streamed)).map fun q => zipEntry q.1 q.2
  offset := (Zip.contents profile (files.map streamed)).length

theorem fileBuffers_guarded : Guards fileBuffers Fits buffersOf := by
  intro file bs
  have hlocal := @localFileHeader_eq_some (streamed file)
  have hdesc := @dataDescriptor_eq_some (streamed file)
  unfold streamed at hlocal hdesc
  unfold fileBuffers
  simp only [Option.bind_eq_bind, Option.bind_eq_some_iff, hlocal, hdesc, Option.pure_def,
    Option.some.injEq, and_assoc, exists_and_left, exists_eq_left]
  rw [← and_assoc]
  exact and_congr_right fun _ => eq_comm

theorem sum_buffersOf (file : DownloadedFile) :
    ((buffersOf file).map List.length).sum = (streamed file).contentLen := by
  have hlen := Zip.StreamedFile.length_content profile (streamed file)
  simp only [Zip.StreamedFile.content, List.length_append] at hlen
  simp only [buffersOf, List.map_cons, List.map_nil, List.sum_cons, List.sum_nil, Nat.add_zero]
  exact hlen

theorem zipLocals_snoc (files : List DownloadedFile) (file : DownloadedFile) :
    zipLocals (files ++ [file]) = (zipLocals files).add file (buffersOf file) := by
  unfold ZipLocals.add
  rw [sum_buffersOf]
  simp only [zipLocals, Zip.placed, List.map_append, List.map_cons, List.map_nil,
    offsetsFrom_append, offsetsFrom_cons, offsetsFrom_nil, Nat.zero_add, Zip.length_contents,
    List.sum_append, List.sum_cons, List.sum_nil, Nat.add_zero]
  rfl

/-- The loop over the files. -/
theorem zipFiles_guarded : Guards (fun files => List.foldlM zipFile ({}, []) files)
    (fun files => ∀ f ∈ files, Fits f) fun files => (zipLocals files, files.flatMap buffersOf) := by
  intro files
  induction files using List.reverseRecOn with
  | nil =>
    intro y
    simp [zipLocals, Zip.placed, Zip.contents, eq_comm]
  | append_singleton files file ih =>
    intro y
    have hbuffers := fileBuffers_guarded file
    simp only [List.foldlM_append, List.foldlM_cons, List.foldlM_nil, Option.bind_eq_bind,
      Option.bind_eq_some_iff, ih, zipFile, hbuffers, Option.pure_def, Option.some.injEq,
      List.forall_mem_append, List.forall_mem_singleton, zipLocals_snoc, List.flatMap_append,
      List.flatMap_singleton]
    constructor
    · rintro ⟨_, ⟨hfiles, rfl⟩, _, ⟨_, ⟨hfile, rfl⟩, rfl⟩, rfl⟩
      exact ⟨⟨hfiles, hfile⟩, rfl⟩
    · rintro ⟨⟨hfiles, hfile⟩, rfl⟩
      exact ⟨_, ⟨hfiles, rfl⟩, _, ⟨_, ⟨hfile, rfl⟩, rfl⟩, rfl⟩

/-! ## The directory and the end records -/

def headersOf (files : List Zip.StreamedFile) : List Bytes :=
  (Zip.placed files).map fun q => (q.2.centralRecord profile q.1).encode

def endsOf (files : List Zip.StreamedFile) : List Bytes :=
  let cdSize := (Zip.directory profile files).length
  let cdOffset := (Zip.contents profile files).length
  headersOf files ++
    [Zip.EndHeader.encode64 ⟨0, 0, files.length, files.length, cdSize, cdOffset⟩ profile.madeBy
      profile.version, Zip.encodeLocator 0 (cdOffset + cdSize) 1, endOfCentralDirectory]

/-- The values of the directory and the end records fit their fields. -/
def EndsFit (files : List Zip.StreamedFile) : Prop :=
  (∀ q ∈ Zip.placed files, q.2.name.length < 2 ^ 16 ∧ q.2.body.length < 2 ^ 64 ∧ q.1 < 2 ^ 64) ∧
    files.length < 2 ^ 64 ∧
    (Zip.contents profile files).length + (Zip.directory profile files).length < 2 ^ 64

theorem length_headersOf (files : List Zip.StreamedFile) :
    ((headersOf files).map List.length).sum = (Zip.directory profile files).length := by
  rw [headersOf, List.map_map, Zip.directory, List.length_flatMap]
  rfl

theorem flatten_endsOf (files : List Zip.StreamedFile) :
    (endsOf files).flatten = Zip.directory profile files ++
      Zip.streamedEnds profile files.length (Zip.directory profile files).length
        (Zip.contents profile files).length := by
  have hdir : (headersOf files).flatten = Zip.directory profile files := by
    rw [headersOf, Zip.directory, List.flatMap_def]
  rw [endsOf, List.flatten_append, hdir, endOfCentralDirectory_eq_encode, Zip.streamedEnds]
  simp

theorem endBuffers_eq_some {files : List DownloadedFile} {ends : List Bytes} :
    endBuffers (zipLocals files) = some ends ↔
      EndsFit (files.map streamed) ∧ ends = endsOf (files.map streamed) := by
  generalize hfs : files.map streamed = fs
  have hheaders : ∀ hs, (zipLocals files).entries.mapM centralDirectoryHeader = some hs ↔
      (∀ q ∈ Zip.placed fs, q.2.name.length < 2 ^ 16 ∧ q.2.body.length < 2 ^ 64 ∧
        q.1 < 2 ^ 64) ∧ hs = headersOf fs := by
    intro hs
    rw [zipLocals, hfs, List.mapM_map]
    exact Guards.mapM (fun q bs => centralDirectoryHeader_eq_some) _ hs
  have hcount : (zipLocals files).entries.length = fs.length := by simp [zipLocals, ← hfs]
  have hoff : (zipLocals files).offset = (Zip.contents profile fs).length := by
    rw [zipLocals, hfs]
  unfold endBuffers EndsFit
  simp only [Option.bind_eq_bind, Option.bind_eq_some_iff, hheaders, hcount, hoff,
    zip64EndOfCentralDirectory_eq_some, zip64EndOfCentralDirectoryLocator_eq_some, Option.pure_def,
    Option.some.injEq]
  constructor
  · rintro ⟨_, ⟨hfit, rfl⟩, _, ⟨⟨hlen, _⟩, rfl⟩, _, ⟨hsum, rfl⟩, rfl⟩
    rw [length_headersOf] at hsum ⊢
    exact ⟨⟨hfit, hlen, hsum⟩, rfl⟩
  · rintro ⟨⟨hfit, hlen, hsum⟩, rfl⟩
    refine ⟨_, ⟨hfit, rfl⟩, _, ⟨⟨hlen, ?_, by omega⟩, rfl⟩, _, ⟨?_, rfl⟩, ?_⟩
    · rw [length_headersOf]
      omega
    · rw [length_headersOf]
      exact hsum
    · rw [length_headersOf]
      rfl

/-- The names and the directory fit, then everything fits. -/
theorem endsFit_of_length {files : List Zip.StreamedFile}
    (hname : ∀ f ∈ files, f.name.length < 2 ^ 16)
    (hlen : (Zip.contents profile files).length + (Zip.directory profile files).length < 2 ^ 64) :
    EndsFit files := by
  refine ⟨fun q hq => ?_, ?_, hlen⟩
  · have hle := Zip.position_le profile hq
    exact ⟨hname _ (snd_mem_of_mem_offsetsFrom _ hq), by omega, by omega⟩
  · have := Zip.length_le_directory profile files
    omega

theorem flatten_buffersOf (files : List DownloadedFile) :
    (files.flatMap buffersOf).flatten = Zip.contents profile (files.map streamed) := by
  rw [Zip.contents, List.flatMap_map, List.flatten_eq_flatMap, List.flatMap_assoc]
  simp [buffersOf, Zip.StreamedFile.content, streamed]

/-- The stage appends the streamed archive of the files exactly when the names fit in 16 bits and
the positions in 64. -/
theorem runZipStage_eq_some_iff {files : List DownloadedFile} {bs : Bytes} :
    runZipStage files = some bs ↔
      (∀ f ∈ files, (utf8 f.name).length < 2 ^ 16) ∧
      (Zip.contents profile (files.map streamed)).length +
        (Zip.directory profile (files.map streamed)).length < 2 ^ 64 ∧
      bs = Zip.streamedArchive profile (files.map streamed) := by
  have hfiles := zipFiles_guarded files
  unfold runZipStage
  simp only [Option.bind_eq_bind, Option.bind_eq_some_iff, hfiles, Option.pure_def,
    Option.some.injEq]
  constructor
  · rintro ⟨_, ⟨hfit, rfl⟩, ends, hends, rfl⟩
    obtain ⟨hfits, rfl⟩ := endBuffers_eq_some.1 hends
    refine ⟨fun f hf => (hfit f hf).1, hfits.2.2, ?_⟩
    rw [List.flatten_append, flatten_buffersOf, flatten_endsOf, Zip.streamedArchive,
      List.append_assoc, List.length_map]
  · rintro ⟨hname, hlen, rfl⟩
    have hname' : ∀ f ∈ files.map streamed, f.name.length < 2 ^ 16 := by
      intro f hf
      obtain ⟨g, hg, rfl⟩ := List.mem_map.1 hf
      exact hname g hg
    refine ⟨_, ⟨fun f hf => ⟨hname f hf, ?_⟩, rfl⟩, _,
      endBuffers_eq_some.2 ⟨endsFit_of_length hname' hlen, rfl⟩, ?_⟩
    · have hmem : streamed f ∈ files.map streamed := List.mem_map_of_mem hf
      rw [← map_snd_offsetsFrom Zip.StreamedFile.contentLen 0 (files.map streamed)] at hmem
      obtain ⟨q, hq, heq⟩ := List.mem_map.1 hmem
      have hle := Zip.position_le profile hq
      rw [heq] at hle
      have : (streamed f).body.length < 2 ^ 64 := by omega
      exact this
    · rw [List.flatten_append, flatten_buffersOf, flatten_endsOf, Zip.streamedArchive,
        List.append_assoc, List.length_map]

/-- The length of the archive: 128 bytes of records for each file and its name twice. -/
def archiveLength (files : List DownloadedFile) : Nat :=
  (files.map fun f => 128 + 2 * (utf8 f.name).length + f.body.length).sum + 98

theorem length_streamedArchive (files : List DownloadedFile) :
    (Zip.streamedArchive profile (files.map streamed)).length = archiveLength files := by
  rw [Zip.streamedArchive, List.length_append, List.length_append, Zip.length_contents,
    Zip.length_directory, Zip.length_streamedEnds, List.map_map, List.map_map, archiveLength,
    Nat.add_right_cancel_iff, ← List.sum_map_add]
  congr 1
  refine List.map_congr_left fun f _ => ?_
  simp only [Function.comp_apply, Zip.StreamedFile.contentLen, streamed]
  omega

/-- What the stage appends reads back. -/
theorem runZipStage_readsBack {files : List DownloadedFile} {bs : Bytes}
    (h : runZipStage files = some bs) : Zip.StreamedReadsBack bs (files.map streamed) := by
  obtain ⟨hname, hlen, rfl⟩ := runZipStage_eq_some_iff.1 h
  refine Zip.streamedArchive_readsBack profile (fun f hf => ?_) hlen
  obtain ⟨g, hg, rfl⟩ := List.mem_map.1 hf
  exact hname g hg

end S3Archive.SebstoTs
