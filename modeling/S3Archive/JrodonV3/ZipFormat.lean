import S3Archive.Zip.Record

/-!
# jrodon-v3: ZIP records

`LocalFileHeader`, `CentralDirectoryFileHeader` and `EndOfCentralDirectory64`
with their size predictions and `dump`s. A `usize` or `u64` is a natural number,
`as u32` and `as u16` are the truncation of `leBytes`; a name is its UTF-8
bytes. `dump` is what the writes put into an unbounded `Write` target, one list
item per write.
-/

namespace S3Archive.JrodonV3

/-- `u32::MAX`. -/
abbrev u32Max : Nat := 2 ^ 32 - 1

/-- `u16::MAX`. -/
abbrev u16Max : Nat := 2 ^ 16 - 1

/-- A CRC-32 in the four-byte little-endian form of the ZIP records. -/
structure CRC32 where
  bytes : Bytes
  length_bytes : bytes.length = 4

/-- The checksum as a number. -/
def CRC32.toNat (crc : CRC32) : Nat := leNat crc.bytes

theorem CRC32.toNat_lt (crc : CRC32) : crc.toNat < 2 ^ 32 := by
  have := leNat_lt crc.bytes
  rwa [crc.length_bytes] at this

theorem CRC32.leBytes_toNat (crc : CRC32) : leBytes 4 crc.toNat = crc.bytes := by
  have := leBytes_leNat crc.bytes
  rwa [crc.length_bytes] at this

/-- Typestate marker: the CRC32 is not known yet. -/
structure NoCRC where

/-! ## Local file header -/

structure LocalFileHeader (C : Type) where
  /-- Byte offset of this header within the archive. -/
  offset : Nat
  name : Bytes
  crc32 : C
  fileSize : Nat

namespace LocalFileHeader

def magic : Nat := 0x504B0304
def minVer : Nat := 10
def generalPurposeBigFlag : Nat := 0
def compressionMethod : Nat := 0
def fileLastModTime : Nat := 0
def fileLastModDate : Nat := 0
def baseLocLength : Nat := 30
def locZip64extLength : Nat := 20

def predictSize (fileSize nameLen : Nat) : Nat :=
  if fileSize > u32Max then baseLocLength + locZip64extLength + nameLen
  else baseLocLength + nameLen

def size {C : Type} (h : LocalFileHeader C) : Nat := predictSize h.fileSize h.name.length

def new (offset : Nat) (name : Bytes) (size : Nat) : LocalFileHeader NoCRC :=
  ⟨offset, name, ⟨⟩, size⟩

def setCrc (h : LocalFileHeader NoCRC) (crc32 : CRC32) : LocalFileHeader CRC32 :=
  ⟨h.offset, h.name, crc32, h.fileSize⟩

def dump (h : LocalFileHeader CRC32) : Bytes :=
  let needZip64Extension := h.fileSize > u32Max
  List.flatten [
    beBytes 4 magic, leBytes 2 minVer, leBytes 2 generalPurposeBigFlag,
    leBytes 2 compressionMethod, leBytes 2 fileLastModTime, leBytes 2 fileLastModDate,
    h.crc32.bytes,
    if needZip64Extension then leBytes 4 u32Max else leBytes 4 h.fileSize,
    if needZip64Extension then leBytes 4 u32Max else leBytes 4 h.fileSize,
    leBytes 2 h.name.length,
    if needZip64Extension then leBytes 2 locZip64extLength else leBytes 2 0,
    h.name,
    if needZip64Extension then
      List.flatten [leBytes 2 1, leBytes 2 16, leBytes 8 h.fileSize, leBytes 8 h.fileSize]
    else []]

@[simp] theorem setCrc_offset (h : LocalFileHeader NoCRC) (c : CRC32) :
    (h.setCrc c).offset = h.offset := rfl

@[simp] theorem setCrc_size (h : LocalFileHeader NoCRC) (c : CRC32) :
    (h.setCrc c).size = h.size := rfl

/-- The header as the fields of a ZIP record. -/
def record (h : LocalFileHeader CRC32) : Zip.LocalHeader where
  version := minVer
  flags := generalPurposeBigFlag
  method := compressionMethod
  time := fileLastModTime
  date := fileLastModDate
  crc := h.crc32.toNat
  compressed := if h.fileSize > u32Max then u32Max else h.fileSize
  uncompressed := if h.fileSize > u32Max then u32Max else h.fileSize
  name := h.name
  extra :=
    if h.fileSize > u32Max then Zip.zip64Extra (leBytes 8 h.fileSize ++ leBytes 8 h.fileSize)
    else []

theorem length_record_extra (h : LocalFileHeader CRC32) :
    h.record.extra.length = if h.fileSize > u32Max then locZip64extLength else 0 := by
  unfold record locZip64extLength
  split <;> simp

theorem dump_eq_encode (h : LocalFileHeader CRC32) : h.dump = h.record.encode := by
  have hsig : beBytes 4 magic = Zip.localSig := by decide
  unfold dump Zip.LocalHeader.encode
  rw [length_record_extra, hsig]
  unfold record
  rw [CRC32.leBytes_toNat]
  by_cases hs : h.fileSize > u32Max
  · simp only [if_pos hs]; rfl
  · simp only [if_neg hs]

/-- The dump has the predicted size. -/
theorem length_dump (h : LocalFileHeader CRC32) : h.dump.length = h.size := by
  rw [dump_eq_encode, Zip.LocalHeader.length_encode, length_record_extra]
  unfold size predictSize baseLocLength
  split <;> simp only [record] <;> omega

end LocalFileHeader

/-! ## Central directory file header -/

structure CentralDirectoryFileHeader where
  loc : LocalFileHeader CRC32

namespace CentralDirectoryFileHeader

def magic : Nat := 0x504B0102
def verMadeBy : Nat := 10
def baseCdfhLength : Nat := 46
def cdfhSizeZip64extLength : Nat := LocalFileHeader.locZip64extLength
def cdfhOffsetZip64extLength : Nat := cdfhSizeZip64extLength + 8

def fromLoc (loc : LocalFileHeader CRC32) : CentralDirectoryFileHeader := ⟨loc⟩

def locOffset (h : CentralDirectoryFileHeader) : Nat := h.loc.offset

def predictSize (fileSize nameLen locOffset : Nat) : Nat :=
  if locOffset > u32Max then baseCdfhLength + cdfhOffsetZip64extLength + nameLen
  else if fileSize > u32Max then baseCdfhLength + cdfhSizeZip64extLength + nameLen
  else baseCdfhLength + nameLen

def dump (h : CentralDirectoryFileHeader) : Bytes :=
  let needOffsetZip64Extension := h.loc.offset > u32Max
  let needSizeZip64Extension := needOffsetZip64Extension ∨ h.loc.fileSize > u32Max
  List.flatten [
    beBytes 4 magic, leBytes 2 verMadeBy, leBytes 2 LocalFileHeader.minVer,
    leBytes 2 LocalFileHeader.generalPurposeBigFlag, leBytes 2 LocalFileHeader.compressionMethod,
    leBytes 2 LocalFileHeader.fileLastModTime, leBytes 2 LocalFileHeader.fileLastModDate,
    h.loc.crc32.bytes,
    if needSizeZip64Extension then leBytes 4 u32Max else leBytes 4 h.loc.fileSize,
    if needSizeZip64Extension then leBytes 4 u32Max else leBytes 4 h.loc.fileSize,
    leBytes 2 h.loc.name.length,
    if needOffsetZip64Extension then leBytes 2 cdfhOffsetZip64extLength
    else if needSizeZip64Extension then leBytes 2 cdfhSizeZip64extLength
    else leBytes 2 0,
    -- comment length, disk number, internal and external attributes
    leBytes 2 0, leBytes 2 0, leBytes 2 0, leBytes 4 0,
    if needOffsetZip64Extension then leBytes 4 u32Max else leBytes 4 h.loc.offset,
    h.loc.name,
    if needSizeZip64Extension then
      List.flatten [leBytes 2 1,
        if needOffsetZip64Extension then leBytes 2 24 else leBytes 2 16,
        leBytes 8 h.loc.fileSize, leBytes 8 h.loc.fileSize,
        if needOffsetZip64Extension then leBytes 8 h.loc.offset else []]
    else []]

/-- The header as the fields of a ZIP record. -/
def record (h : CentralDirectoryFileHeader) : Zip.CentralHeader where
  madeBy := verMadeBy
  version := LocalFileHeader.minVer
  flags := LocalFileHeader.generalPurposeBigFlag
  method := LocalFileHeader.compressionMethod
  time := LocalFileHeader.fileLastModTime
  date := LocalFileHeader.fileLastModDate
  crc := h.loc.crc32.toNat
  compressed :=
    if h.loc.offset > u32Max ∨ h.loc.fileSize > u32Max then u32Max else h.loc.fileSize
  uncompressed :=
    if h.loc.offset > u32Max ∨ h.loc.fileSize > u32Max then u32Max else h.loc.fileSize
  disk := 0
  internal := 0
  external := 0
  offset := if h.loc.offset > u32Max then u32Max else h.loc.offset
  name := h.loc.name
  extra :=
    if h.loc.offset > u32Max then
      Zip.zip64Extra
        (leBytes 8 h.loc.fileSize ++ leBytes 8 h.loc.fileSize ++ leBytes 8 h.loc.offset)
    else if h.loc.fileSize > u32Max then
      Zip.zip64Extra (leBytes 8 h.loc.fileSize ++ leBytes 8 h.loc.fileSize)
    else []
  comment := []

theorem length_record_extra (h : CentralDirectoryFileHeader) :
    h.record.extra.length =
      if h.loc.offset > u32Max then cdfhOffsetZip64extLength
      else if h.loc.fileSize > u32Max then cdfhSizeZip64extLength else 0 := by
  unfold record cdfhOffsetZip64extLength cdfhSizeZip64extLength LocalFileHeader.locZip64extLength
  repeat' split
  all_goals simp

theorem dump_eq_encode (h : CentralDirectoryFileHeader) : h.dump = h.record.encode := by
  have hsig : beBytes 4 magic = Zip.centralSig := by decide
  unfold dump Zip.CentralHeader.encode
  rw [length_record_extra, hsig]
  unfold record
  rw [CRC32.leBytes_toNat]
  by_cases ho : h.loc.offset > u32Max
  · simp only [ho, if_true, true_or]; rfl
  · by_cases hs : h.loc.fileSize > u32Max
    · simp only [ho, hs, if_true, if_false, or_true]; rfl
    · simp only [ho, hs, if_false, or_false]; rfl

/-- The dump has the size predicted from the same size, name and offset. -/
theorem length_dump (h : CentralDirectoryFileHeader) :
    h.dump.length = predictSize h.loc.fileSize h.loc.name.length h.loc.offset := by
  rw [dump_eq_encode, Zip.CentralHeader.length_encode, length_record_extra]
  unfold predictSize baseCdfhLength
  repeat' split
  all_goals simp only [record, List.length_nil]; omega

end CentralDirectoryFileHeader

/-! ## End records -/

structure EndOfCentralDirectory64 where
  recordCount : Nat
  centralDirectorySize : Nat
  centralDirectoryOffset : Nat
  /-- Byte offset of the ZIP64 end record itself. -/
  eocd64Offset : Nat
  deriving DecidableEq, Repr

namespace EndOfCentralDirectory64

def eocdMagic : Nat := 0x504B0506
def eocd64Magic : Nat := 0x504B0606
def eocd64LocatorMagic : Nat := 0x504B0607
def eocdLength : Nat := 22
def eocd64Length : Nat := 56
def eocd64LocatorLength : Nat := 20

def needEocd64 (centralDirectorySize centralDirectoryOffset recordCount : Nat) : Bool :=
  decide (centralDirectorySize > u32Max) || decide (centralDirectoryOffset > u32Max) ||
    decide (recordCount > u16Max)

/-- `need_eocd64` of the record's own fields. -/
def needed (e : EndOfCentralDirectory64) : Bool :=
  needEocd64 e.centralDirectorySize e.centralDirectoryOffset e.recordCount

def size (e : EndOfCentralDirectory64) : Nat :=
  if e.needed then eocdLength + eocd64Length + eocd64LocatorLength else eocdLength

def dumpEocd64 (e : EndOfCentralDirectory64) : Bytes :=
  List.flatten [
    beBytes 4 eocd64Magic, leBytes 8 44,
    leBytes 2 CentralDirectoryFileHeader.verMadeBy, leBytes 2 LocalFileHeader.minVer,
    leBytes 4 0, leBytes 4 0,
    leBytes 8 e.recordCount, leBytes 8 e.recordCount,
    leBytes 8 e.centralDirectorySize, leBytes 8 e.centralDirectoryOffset]

def dumpEocd64Locator (e : EndOfCentralDirectory64) : Bytes :=
  List.flatten [beBytes 4 eocd64LocatorMagic, leBytes 4 0, leBytes 8 e.eocd64Offset, leBytes 4 0]

def dumpEocd (e : EndOfCentralDirectory64) (needEocd64 : Bool) : Bytes :=
  List.flatten [
    beBytes 4 eocdMagic,
    if needEocd64 then
      List.flatten [leBytes 2 u16Max, leBytes 2 u16Max, leBytes 2 u16Max, leBytes 2 u16Max,
        leBytes 4 u32Max, leBytes 4 u32Max]
    else
      List.flatten [leBytes 2 0, leBytes 2 0, leBytes 2 e.recordCount, leBytes 2 e.recordCount,
        leBytes 4 e.centralDirectorySize, leBytes 4 e.centralDirectoryOffset],
    leBytes 2 0]

def dump (e : EndOfCentralDirectory64) : Bytes :=
  List.flatten [
    if e.needed then e.dumpEocd64 ++ e.dumpEocd64Locator else [],
    e.dumpEocd e.needed]

/-- The dump has the size that was reserved for it. -/
theorem length_dump (e : EndOfCentralDirectory64) : e.dump.length = e.size := by
  unfold dump size
  cases e.needed <;> simp [dumpEocd, dumpEocd64, dumpEocd64Locator, eocdLength, eocd64Length,
    eocd64LocatorLength]

end EndOfCentralDirectory64

end S3Archive.JrodonV3
