import S3Archive.Zip.Directory

/-!
# Streamed ZIP64 archives

The archive of a writer that streams each entry: a local header without CRC and
sizes, the body, a data descriptor, then a directory whose records keep every
size and offset in the ZIP64 extra field, and end records that keep every value
in the ZIP64 end record (`streamedArchive`). `streamedArchive_readsBack` reads
such an archive through its end records.
-/

namespace S3Archive.Zip

/-- The fields that are the same for all entries of an archive. -/
structure Profile where
  madeBy : Nat
  version : Nat
  flags : Nat
  time : Nat
  date : Nat
  external : Nat

structure StreamedFile where
  name : Bytes
  crc : UInt32
  body : Bytes

namespace StreamedFile

def descriptor (f : StreamedFile) : Descriptor := ⟨f.crc.toNat, f.body.length, f.body.length⟩

def localRecord (p : Profile) (f : StreamedFile) : LocalHeader where
  version := p.version
  flags := p.flags
  method := 0
  time := p.time
  date := p.date
  crc := 0
  compressed := 0
  uncompressed := 0
  name := f.name
  extra := []

/-- What the archive holds for a file before its directory. -/
def content (p : Profile) (f : StreamedFile) : Bytes :=
  (f.localRecord p).encode ++ (f.body ++ f.descriptor.encode)

def contentLen (f : StreamedFile) : Nat := 30 + f.name.length + f.body.length + 24

/-- The ZIP64 data of a file whose local header is at `off`. -/
def wideData (off : Nat) (f : StreamedFile) : Bytes :=
  leBytes 8 f.body.length ++ (leBytes 8 f.body.length ++ leBytes 8 off)

def centralRecord (p : Profile) (off : Nat) (f : StreamedFile) : CentralHeader where
  madeBy := p.madeBy
  version := p.version
  flags := p.flags
  method := 0
  time := p.time
  date := p.date
  crc := f.crc.toNat
  compressed := ones 4
  uncompressed := ones 4
  disk := 0
  internal := 0
  external := p.external
  offset := ones 4
  name := f.name
  extra := zip64Extra (f.wideData off)
  comment := []

/-- What a reader takes from the file's directory record. -/
def entry (off : Nat) (f : StreamedFile) : CentralEntry :=
  ⟨f.name, f.crc.toNat, f.body.length, f.body.length, off⟩

@[simp] theorem length_wideData (off : Nat) (f : StreamedFile) : (f.wideData off).length = 24 := by
  simp [wideData]

theorem length_content (p : Profile) (f : StreamedFile) : (f.content p).length = f.contentLen := by
  simp only [content, List.length_append, LocalHeader.length_encode, localRecord,
    Descriptor.length_encode, List.length_nil, contentLen]
  omega

theorem reads_content (p : Profile) {f : StreamedFile} (hname : f.name.length < 2 ^ 16)
    (hsize : f.body.length < 2 ^ 64) :
    Reads (readStreamed f.body.length) (f.content p) (⟨f.name, 0, 0, 0⟩, f.body, f.descriptor) := by
  refine readStreamed_append ?_ (readDescriptor_encode f.crc.toNat_lt hsize hsize)
  refine readLocal_encode (h := f.localRecord p) hname (Nat.two_pow_pos 16) ?_
  rfl

theorem reads_centralRecord (p : Profile) {f : StreamedFile} {off : Nat}
    (hname : f.name.length < 2 ^ 16) (hsize : f.body.length < 2 ^ 64) (hoff : off < 2 ^ 64) :
    Reads readCentral (f.centralRecord p off).encode (f.entry off) := by
  have hextra : (f.centralRecord p off).extra.length < 2 ^ 16 := by simp [centralRecord]
  have hcrc : f.crc.toNat % 2 ^ 32 = f.crc.toNat := Nat.mod_eq_of_lt f.crc.toNat_lt
  have hones : ones 4 % 2 ^ 32 = ones 4 := by decide
  -- all three fields are all ones, so all three values come from the extra field
  have hread : Reads (Wide.read ⟨ones 4, ones 4, ones 4⟩) (f.wideData off)
      ⟨f.body.length, f.body.length, off⟩ := by
    refine .bind (wide_ones hsize) (.bind (wide_ones hsize) ?_)
    exact .bind_nil (wide_ones hoff) (.pure _)
  have hres := Wide.resolve_zip64Extra (by simp) hread.run_eq
  refine readCentral_encode (h := f.centralRecord p off) hname hextra (Nat.two_pow_pos 16) ?_
  unfold CentralEntry.resolve CentralHeader.fixed centralRecord
  simp only [hcrc, hones, hres, Option.map_some]
  rfl

end StreamedFile

open StreamedFile (content contentLen centralRecord entry)

/-! ## The archive -/

/-- The files with the positions of their local headers. -/
def placed (files : List StreamedFile) : List (Nat × StreamedFile) := offsetsFrom contentLen 0 files

@[simp] theorem length_placed (files : List StreamedFile) :
    (placed files).length = files.length := length_offsetsFrom contentLen 0 files

def contents (p : Profile) (files : List StreamedFile) : Bytes := files.flatMap (content p)

def directory (p : Profile) (files : List StreamedFile) : Bytes :=
  (placed files).flatMap fun q => (q.2.centralRecord p q.1).encode

/-- The end records after a directory of `cdSize` bytes at `cdOffset`. -/
def streamedEnds (p : Profile) (count cdSize cdOffset : Nat) : Bytes :=
  EndHeader.encode64 ⟨0, 0, count, count, cdSize, cdOffset⟩ p.madeBy p.version ++
    encodeLocator 0 (cdOffset + cdSize) 1 ++
    EndHeader.encode ⟨0, 0, ones 2, ones 2, ones 4, ones 4⟩

@[simp] theorem length_streamedEnds (p : Profile) (count cdSize cdOffset : Nat) :
    (streamedEnds p count cdSize cdOffset).length = 98 := by
  simp [streamedEnds]

def streamedArchive (p : Profile) (files : List StreamedFile) : Bytes :=
  contents p files ++ directory p files ++
    streamedEnds p files.length (directory p files).length (contents p files).length

/-- `bs` reads back as an archive of `files`: the end records name the actual directory, the
directory lists the files in order, and each recorded position is that of a local header with the
file's name, followed by the file's whole body and a data descriptor with its CRC and size. -/
def StreamedReadsBack (bs : Bytes) (files : List StreamedFile) : Prop :=
  ∃ (zip64Offset cdOffset cdSize : Nat) (entries : List CentralEntry),
    readZip64Ends bs = some (zip64Offset, ⟨files.length, cdSize, cdOffset⟩) ∧
    zip64Offset + 98 = bs.length ∧ cdOffset + cdSize = zip64Offset ∧
    readDirectory bs ⟨files.length, cdSize, cdOffset⟩ = some entries ∧
    entries.map (fun e => (e.name, e.crc, e.uncompressed, e.compressed)) =
      files.map (fun f => (f.name, f.crc.toNat, f.body.length, f.body.length)) ∧
    List.Forall₂ (fun e f => ((readStreamed f.body.length).run (bs.drop e.offset)).map Prod.fst =
      some (⟨f.name, 0, 0, 0⟩, f.body, ⟨f.crc.toNat, f.body.length, f.body.length⟩)) entries files

theorem length_contents (p : Profile) (files : List StreamedFile) :
    (contents p files).length = (files.map contentLen).sum := by
  rw [contents, List.length_flatMap]
  congr 1
  exact List.map_congr_left fun f _ => StreamedFile.length_content p f

/-- Each file's content is found at its position. -/
theorem content_at (p : Profile) {files : List StreamedFile} {q : Nat × StreamedFile}
    (hq : q ∈ placed files) : At (contents p files) q.1 (q.2.content p) := by
  have hsnd : contents p files = (placed files).flatMap fun q => q.2.content p := by
    unfold contents
    conv_lhs => rw [← map_snd_offsetsFrom contentLen 0 files, List.flatMap_map]
    rfl
  have hat : At ([] ++ (placed files).flatMap fun q => q.2.content p) q.1 (q.2.content p) :=
    at_flatMap (fun q _ => StreamedFile.length_content p q.2) rfl hq
  rwa [List.nil_append, ← hsnd] at hat

theorem position_le (p : Profile) {files : List StreamedFile} {q : Nat × StreamedFile}
    (hq : q ∈ placed files) : q.1 + q.2.body.length ≤ (contents p files).length := by
  obtain ⟨pre, post, heq, hpre⟩ := content_at p hq
  have hlen := congrArg List.length heq
  have := StreamedFile.length_content p q.2
  simp only [List.length_append] at hlen
  unfold contentLen at this
  omega

theorem readZip64Ends_streamed (p : Profile) {pre : Bytes} {count cdSize cdOffset : Nat}
    (hpre : pre.length = cdOffset + cdSize) (hlen : pre.length < 2 ^ 64) (hcount : count < 2 ^ 64) :
    readZip64Ends (pre ++ streamedEnds p count cdSize cdOffset) =
      some (cdOffset + cdSize, ⟨count, cdSize, cdOffset⟩) := by
  have hends := readZip64Ends_append pre ⟨0, 0, ones 2, ones 2, ones 4, ones 4⟩
    ⟨0, 0, count, count, cdSize, cdOffset⟩ p.madeBy p.version 0 1 hlen
  rw [hpre] at hends hlen
  have hoff : cdOffset < 2 ^ 64 := by omega
  have hsize : cdSize < 2 ^ 64 := by omega
  have h₂ : ones 2 % 2 ^ 16 = ones 2 := by decide
  have h₄ : ones 4 % 2 ^ 32 = ones 4 := by decide
  unfold streamedEnds
  rw [hends]
  simp only [sentinel, h₂, h₄, if_true, Nat.mod_eq_of_lt hcount, Nat.mod_eq_of_lt hoff,
    Nat.mod_eq_of_lt hsize]

theorem entries_eq (files : List StreamedFile) :
    ((placed files).map fun q => q.2.entry q.1).map
        (fun e => (e.name, e.crc, e.uncompressed, e.compressed)) =
      files.map fun f => (f.name, f.crc.toNat, f.body.length, f.body.length) := by
  conv_rhs => rw [← map_snd_offsetsFrom contentLen 0 files, List.map_map]
  rw [List.map_map]
  rfl

theorem length_directory (p : Profile) (files : List StreamedFile) :
    (directory p files).length = (files.map fun f => 74 + f.name.length).sum := by
  have hrecord : ∀ q ∈ placed files, (q.2.centralRecord p q.1).encode.length =
      74 + q.2.name.length := by
    intro q _
    rw [CentralHeader.length_encode]
    simp only [centralRecord, zip64Extra_length, StreamedFile.length_wideData, List.length_nil]
    omega
  rw [directory, List.length_flatMap, List.map_congr_left hrecord]
  conv_rhs => rw [← map_snd_offsetsFrom contentLen 0 files, List.map_map]
  rfl

/-- Each directory record takes at least a byte. -/
theorem length_le_directory (p : Profile) (files : List StreamedFile) :
    files.length ≤ (directory p files).length := by
  rw [length_directory]
  induction files with
  | nil => exact Nat.le_refl _
  | cons f files ih =>
    rw [List.length_cons, List.map_cons, List.sum_cons]
    omega

/-- An archive whose size fits in 64 bits reads back. -/
theorem streamedArchive_readsBack (p : Profile) {files : List StreamedFile}
    (hname : ∀ f ∈ files, f.name.length < 2 ^ 16)
    (hlen : (contents p files).length + (directory p files).length < 2 ^ 64) :
    StreamedReadsBack (streamedArchive p files) files := by
  have hcount : files.length < 2 ^ 64 := by
    have := length_le_directory p files
    omega
  have hfile : ∀ q ∈ placed files, q.2.name.length < 2 ^ 16 ∧ q.2.body.length < 2 ^ 64 ∧
      q.1 < 2 ^ 64 := by
    intro q hq
    have hle := position_le p hq
    exact ⟨hname _ (snd_mem_of_mem_offsetsFrom _ hq), by omega, by omega⟩
  have hrecords : ∀ q ∈ placed files,
      Reads readCentral (q.2.centralRecord p q.1).encode (q.2.entry q.1) := fun q hq =>
    StreamedFile.reads_centralRecord p (hfile q hq).1 (hfile q hq).2.1 (hfile q hq).2.2
  have hdir : At (streamedArchive p files) (contents p files).length (directory p files) :=
    ⟨_, _, rfl, rfl⟩
  have hread := readDirectory_at hdir hrecords
  rw [length_placed] at hread
  refine ⟨_, _, _, _, readZip64Ends_streamed p (by simp) (by simpa using hlen) hcount, ?_, rfl,
    hread, entries_eq files, ?_⟩
  · simp only [streamedArchive, List.length_append, length_streamedEnds]
  · have hsnd : files = (placed files).map Prod.snd := (map_snd_offsetsFrom contentLen 0 files).symm
    conv => arg 3; rw [hsnd]
    rw [List.forall₂_map_left_iff, List.forall₂_map_right_iff, List.forall₂_same]
    intro q hq
    refine reads_at (StreamedFile.reads_content p (hfile q hq).1 (hfile q hq).2.1) ?_
    exact ((content_at p hq).append_right).append_right

end S3Archive.Zip
