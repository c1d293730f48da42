import S3Archive.Base.Write
import S3Archive.JrodonV3.Archive

/-!
# jrodon-v3: dumping into a reserved slice

`ZipSerialize::dump` write by write: `writes` lists what each record hands to its
`Write` target, `written` is the total of the returned counts (`dumpAll`). A
`&mut [u8]` takes what it has room for and reports no error, so that a record
longer than its reserved slice is cut. `dumpEntry` and `dumpDirectory` are the
two loops of `resolve_and_write` over `&mut buf[offset..]`.
-/

namespace S3Archive.JrodonV3

/-! ## The writes of the records -/

/-- The writes of a local header. -/
def LocalFileHeader.writes (h : LocalFileHeader CRC32) : List Bytes :=
  let needZip64Extension := h.fileSize > u32Max
  [beBytes 4 magic, leBytes 2 minVer, leBytes 2 generalPurposeBigFlag,
    leBytes 2 compressionMethod, leBytes 2 fileLastModTime, leBytes 2 fileLastModDate,
    h.crc32.bytes] ++
  -- compressed and uncompressed size
  List.replicate 2 (if needZip64Extension then leBytes 4 u32Max else leBytes 4 h.fileSize) ++
  [leBytes 2 h.name.length,
    if needZip64Extension then leBytes 2 locZip64extLength else leBytes 2 0,
    h.name] ++
  if needZip64Extension then
    [leBytes 2 1, leBytes 2 16] ++ List.replicate 2 (leBytes 8 h.fileSize)
  else []

/-- The writes of a directory header. -/
def CentralDirectoryFileHeader.writes (h : CentralDirectoryFileHeader) : List Bytes :=
  let needOffsetZip64Extension := h.loc.offset > u32Max
  let needSizeZip64Extension := needOffsetZip64Extension ∨ h.loc.fileSize > u32Max
  [beBytes 4 magic, leBytes 2 verMadeBy, leBytes 2 LocalFileHeader.minVer,
    leBytes 2 LocalFileHeader.generalPurposeBigFlag, leBytes 2 LocalFileHeader.compressionMethod,
    leBytes 2 LocalFileHeader.fileLastModTime, leBytes 2 LocalFileHeader.fileLastModDate,
    h.loc.crc32.bytes] ++
  -- compressed and uncompressed size
  List.replicate 2
    (if needSizeZip64Extension then leBytes 4 u32Max else leBytes 4 h.loc.fileSize) ++
  [leBytes 2 h.loc.name.length,
    if needOffsetZip64Extension then leBytes 2 cdfhOffsetZip64extLength
    else if needSizeZip64Extension then leBytes 2 cdfhSizeZip64extLength
    else leBytes 2 0,
    -- comment length, disk number, internal and external attributes
    leBytes 2 0, leBytes 2 0, leBytes 2 0, leBytes 4 0,
    if needOffsetZip64Extension then leBytes 4 u32Max else leBytes 4 h.loc.offset,
    h.loc.name] ++
  if needSizeZip64Extension then
    [leBytes 2 1, if needOffsetZip64Extension then leBytes 2 24 else leBytes 2 16] ++
    List.replicate 2 (leBytes 8 h.loc.fileSize) ++
    if needOffsetZip64Extension then [leBytes 8 h.loc.offset] else []
  else []

namespace EndOfCentralDirectory64

def writesEocd64 (e : EndOfCentralDirectory64) : List Bytes :=
  [beBytes 4 eocd64Magic, leBytes 8 44,
    leBytes 2 CentralDirectoryFileHeader.verMadeBy, leBytes 2 LocalFileHeader.minVer] ++
  List.replicate 2 (leBytes 4 0) ++ List.replicate 2 (leBytes 8 e.recordCount) ++
  [leBytes 8 e.centralDirectorySize, leBytes 8 e.centralDirectoryOffset]

def writesEocd64Locator (e : EndOfCentralDirectory64) : List Bytes :=
  [beBytes 4 eocd64LocatorMagic, leBytes 4 0, leBytes 8 e.eocd64Offset, leBytes 4 0]

def writesEocd (e : EndOfCentralDirectory64) (needEocd64 : Bool) : List Bytes :=
  [beBytes 4 eocdMagic] ++
  (if needEocd64 then List.replicate 4 (leBytes 2 u16Max) ++ List.replicate 2 (leBytes 4 u32Max)
   else
    List.replicate 2 (leBytes 2 0) ++ List.replicate 2 (leBytes 2 e.recordCount) ++
    [leBytes 4 e.centralDirectorySize, leBytes 4 e.centralDirectoryOffset]) ++
  [leBytes 2 0]

/-- The writes of the end records. -/
def writes (e : EndOfCentralDirectory64) : List Bytes :=
  (if e.needed then e.writesEocd64 ++ e.writesEocd64Locator else []) ++ e.writesEocd e.needed

end EndOfCentralDirectory64

/-! ## The writes are the record -/

theorem LocalFileHeader.flatten_writes (h : LocalFileHeader CRC32) : h.writes.flatten = h.dump := by
  unfold writes dump
  by_cases hs : h.fileSize > u32Max
  · simp only [if_pos hs]
    rfl
  · simp only [if_neg hs]
    rfl

theorem CentralDirectoryFileHeader.flatten_writes (h : CentralDirectoryFileHeader) :
    h.writes.flatten = h.dump := by
  unfold writes dump
  by_cases ho : h.loc.offset > u32Max
  · simp only [ho, if_true, true_or]
    rfl
  · by_cases hs : h.loc.fileSize > u32Max
    · simp only [ho, hs, if_true, if_false, or_true]
      rfl
    · simp only [ho, hs, if_false, or_false]
      rfl

theorem EndOfCentralDirectory64.flatten_writes (e : EndOfCentralDirectory64) :
    e.writes.flatten = e.dump := by
  unfold writes dump
  cases e.needed <;> rfl

/-! ## The loops of `resolve_and_write` -/

/-- The local header, then the chunks of the object's body. -/
def dumpEntry (loc : LocalFileHeader CRC32) (chunks : List Bytes) (buf : Bytes) :
    Option (Nat × Bytes) :=
  dumpSeq (loc.writes :: chunks.map fun chunk => [chunk]) 0 buf

/-- The directory headers, then the end records. -/
def dumpDirectory (entries : List CentralDirectoryFileHeader) (eocd64 : EndOfCentralDirectory64)
    (buf : Bytes) : Option (Nat × Bytes) :=
  dumpSeq (entries.map CentralDirectoryFileHeader.writes ++ [eocd64.writes]) 0 buf

theorem dumpEntry_eq (loc : LocalFileHeader CRC32) (chunks : List Bytes) (buf : Bytes) :
    dumpEntry loc chunks buf =
      some (min (loc.dump ++ chunks.flatten).length buf.length,
        overwrite buf 0 (loc.dump ++ chunks.flatten)) := by
  have hchunks : (chunks.map fun chunk => [chunk]).flatMap List.flatten = chunks.flatten := by
    rw [List.flatMap_map]
    simp only [List.flatten_singleton]
    exact List.flatMap_id'
  unfold dumpEntry
  rw [dumpSeq_eq _ (Nat.zero_le _), List.flatMap_cons, hchunks, LocalFileHeader.flatten_writes,
    Nat.zero_add]

theorem dumpDirectory_eq (entries : List CentralDirectoryFileHeader)
    (eocd64 : EndOfCentralDirectory64) (buf : Bytes) :
    dumpDirectory entries eocd64 buf =
      some (min (entries.flatMap CentralDirectoryFileHeader.dump ++ eocd64.dump).length buf.length,
        overwrite buf 0 (entries.flatMap CentralDirectoryFileHeader.dump ++ eocd64.dump)) := by
  have hentries : (entries.map CentralDirectoryFileHeader.writes).flatMap List.flatten =
      entries.flatMap CentralDirectoryFileHeader.dump := by
    rw [List.flatMap_map]
    simp only [CentralDirectoryFileHeader.flatten_writes]
  unfold dumpDirectory
  rw [dumpSeq_eq _ (Nat.zero_le _), List.flatMap_append, hentries, List.flatMap_singleton,
    EndOfCentralDirectory64.flatten_writes, Nat.zero_add]

/-! ## Predicted sizes -/

/-- The writes amount to `size` bytes, wherever they go: a vector grows by all of them, a slice
with room for `size` bytes stores all of them, and a slice of `size` bytes holds nothing else. -/
structure Dumps (writes : List Bytes) (size : Nat) : Prop where
  vec : ∀ vec, dumpAll writeVec writes vec = some (size, vec ++ writes.flatten)
  length_vec : writes.flatten.length = size
  slice : ∀ offset buf, offset + size ≤ buf.length → dumpAt writes offset buf =
    some (size, writeAt buf offset writes.flatten)
  fills : ∀ buf, buf.length = size → dumpAt writes 0 buf = some (size, writes.flatten)

theorem Dumps.of_length {writes : List Bytes} {size : Nat} (h : writes.flatten.length = size) :
    Dumps writes size where
  vec vec := by rw [dumpAll_vec, h]
  length_vec := h
  slice offset buf hle := by
    rw [dumpAt_eq _ (by omega), overwrite_of_le (by omega), h, min_eq_left (by omega)]
  fills buf hbuf := by
    rw [dumpAt_eq _ (Nat.zero_le _), overwrite_exact (by omega), h, hbuf, Nat.sub_zero, min_self]

/-- The predicted sizes of a directory's records. -/
def reservedSize (entries : List CentralDirectoryFileHeader) (eocd64 : EndOfCentralDirectory64) :
    Nat :=
  (entries.map fun h =>
    CentralDirectoryFileHeader.predictSize h.loc.fileSize h.loc.name.length h.loc.offset).sum +
    eocd64.size

theorem length_reserved (entries : List CentralDirectoryFileHeader)
    (eocd64 : EndOfCentralDirectory64) :
    (entries.flatMap CentralDirectoryFileHeader.dump ++ eocd64.dump).length =
      reservedSize entries eocd64 := by
  unfold reservedSize
  rw [List.length_append, List.length_flatMap, EndOfCentralDirectory64.length_dump]
  simp only [CentralDirectoryFileHeader.length_dump]

/-- The planner's directory element has the predicted sizes of the headers that it will write. -/
theorem reservedSize_directory (src : Source) (ch : CdfhChannel) (order : List FileEntry) :
    reservedSize (directory src order) (endRecords order) = (cdElem ch order).elemSize := by
  unfold reservedSize directory
  rw [List.map_map]
  rfl

/-- Every record dumps exactly the bytes that were predicted for it, into a vector as into a
slice, and an element whose slice has the predicted size fills that slice with its records. -/
theorem dumps_predicted :
    (∀ h : LocalFileHeader CRC32, Dumps h.writes h.size) ∧
    (∀ h : CentralDirectoryFileHeader, Dumps h.writes
      (CentralDirectoryFileHeader.predictSize h.loc.fileSize h.loc.name.length h.loc.offset)) ∧
    (∀ e : EndOfCentralDirectory64, Dumps e.writes e.size) ∧
    (∀ (loc : LocalFileHeader CRC32) (chunks : List Bytes) (buf : Bytes),
      buf.length = loc.size + chunks.flatten.length →
      dumpEntry loc chunks buf = some (buf.length, loc.dump ++ chunks.flatten)) ∧
    (∀ (entries : List CentralDirectoryFileHeader) (eocd64 : EndOfCentralDirectory64)
      (buf : Bytes), buf.length = reservedSize entries eocd64 →
      dumpDirectory entries eocd64 buf =
        some (buf.length, entries.flatMap CentralDirectoryFileHeader.dump ++ eocd64.dump)) ∧
    ∀ (src : Source) (ch : CdfhChannel) (order : List FileEntry) (buf : Bytes),
      buf.length = (cdElem ch order).elemSize →
      dumpDirectory (directory src order) (endRecords order) buf =
        some (buf.length, (directory src order).flatMap CentralDirectoryFileHeader.dump ++
          (endRecords order).dump) := by
  have hdirectory : ∀ (entries : List CentralDirectoryFileHeader)
      (eocd64 : EndOfCentralDirectory64) (buf : Bytes), buf.length = reservedSize entries eocd64 →
      dumpDirectory entries eocd64 buf =
        some (buf.length, entries.flatMap CentralDirectoryFileHeader.dump ++ eocd64.dump) := by
    intro entries eocd64 buf hbuf
    have hlen := (length_reserved entries eocd64).trans hbuf.symm
    rw [dumpDirectory_eq, overwrite_exact hlen, hlen, min_self]
  refine ⟨fun h => .of_length ?_, fun h => .of_length ?_, fun e => .of_length ?_,
    fun loc chunks buf hbuf => ?_, hdirectory, fun src ch order buf hbuf => ?_⟩
  · rw [LocalFileHeader.flatten_writes, LocalFileHeader.length_dump]
  · rw [CentralDirectoryFileHeader.flatten_writes, CentralDirectoryFileHeader.length_dump]
  · rw [EndOfCentralDirectory64.flatten_writes, EndOfCentralDirectory64.length_dump]
  · have hlen : (loc.dump ++ chunks.flatten).length = buf.length := by
      rw [List.length_append, LocalFileHeader.length_dump, hbuf]
    rw [dumpEntry_eq, overwrite_exact hlen, hlen, min_self]
  · exact hdirectory _ _ _ (hbuf.trans (reservedSize_directory src ch order).symm)

end S3Archive.JrodonV3
