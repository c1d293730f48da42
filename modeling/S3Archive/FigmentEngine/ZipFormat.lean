import S3Archive.Zip.Record

/-!
# figment-engine: ZIP records

`localHeader`, `centralDirEntry` and `endRecords` with their length predictions.
A `u64` is a natural number, a CRC is a `UInt32`, a name is its UTF-8 bytes;
`as u16` and `as u32` are the truncations of `p16` and `p32`. The records are the
fixed layouts of `S3Archive.Zip.Record` (`localHeader_eq_encode` and the like).
-/

namespace S3Archive.FigmentEngine

def sigLocal : Nat := 0x04034b50
def sigCentral : Nat := 0x02014b50
def sigEocd : Nat := 0x06054b50
def sigZip64Eocd : Nat := 0x06064b50
def sigZip64Locator : Nat := 0x07064b50

def zip64ExtraTag : Nat := 0x0001
def versionNeeded : Nat := 45
def versionMadeBy : Nat := 45
def methodStore : Nat := 0

/-- Sentinel of a 32-bit field whose value is in a ZIP64 record. -/
abbrev u32Max : Nat := 0xFFFFFFFF
abbrev u16Max : Nat := 0xFFFF

def p16 (v : Nat) : Bytes := leBytes 2 v
def p32 (v : Nat) : Bytes := leBytes 4 v
def p64 (v : Nat) : Bytes := leBytes 8 v

/-- What an entry's records are made from; the offset only goes to the directory. -/
structure EntryMeta where
  name : Bytes
  size : Nat
  crc : UInt32
  localHeaderOffset : Nat
  deriving DecidableEq, Repr

/-! ## The local header -/

/-- The bytes immediately before the file body. -/
def localHeader (e : EntryMeta) : Bytes :=
  List.flatten [
    p32 sigLocal, p16 versionNeeded, p16 0, p16 methodStore, p16 0, p16 0,
    p32 e.crc.toNat, p32 e.size, p32 e.size,
    p16 e.name.length, p16 0, e.name]

def localHeaderLen (name : Bytes) : Nat := 30 + name.length

/-- What an entry contributes to the body region. -/
def entryTotalLen (name : Bytes) (size : Nat) : Nat := localHeaderLen name + size

/-- The local header as the fields of a ZIP record. -/
def EntryMeta.localRecord (e : EntryMeta) : Zip.LocalHeader where
  version := versionNeeded
  flags := 0
  method := methodStore
  time := 0
  date := 0
  crc := e.crc.toNat
  compressed := e.size
  uncompressed := e.size
  name := e.name
  extra := []

theorem localHeader_eq_encode (e : EntryMeta) : localHeader e = e.localRecord.encode := by
  have hsig : p32 sigLocal = Zip.localSig := by decide
  unfold localHeader Zip.LocalHeader.encode EntryMeta.localRecord
  rw [hsig]
  simp [p16, p32]

/-- The header has the predicted length. -/
theorem length_localHeader (e : EntryMeta) : (localHeader e).length = localHeaderLen e.name := by
  rw [localHeader_eq_encode, Zip.LocalHeader.length_encode]
  rfl

/-! ## The central directory entry -/

/-- The directory's record of one entry. -/
def centralDirEntry (e : EntryMeta) : Bytes :=
  let needsZip64Offset := e.localHeaderOffset > u32Max
  let extraLen := if needsZip64Offset then 12 else 0
  List.flatten [
    p32 sigCentral, p16 versionMadeBy, p16 versionNeeded, p16 0, p16 methodStore, p16 0, p16 0,
    p32 e.crc.toNat, p32 e.size, p32 e.size,
    p16 e.name.length, p16 extraLen, p16 0, p16 0, p16 0, p32 0,
    if needsZip64Offset then p32 u32Max else p32 e.localHeaderOffset,
    e.name,
    -- the extra holds the offset only
    if needsZip64Offset then
      List.flatten [p16 zip64ExtraTag, p16 8, p64 e.localHeaderOffset]
    else []]

def centralDirEntryLen (name : Bytes) (localHeaderOffset : Nat) : Nat :=
  let extra := if localHeaderOffset > u32Max then 12 else 0
  46 + name.length + extra

/-- The directory entry as the fields of a ZIP record. -/
def EntryMeta.centralRecord (e : EntryMeta) : Zip.CentralHeader where
  madeBy := versionMadeBy
  version := versionNeeded
  flags := 0
  method := methodStore
  time := 0
  date := 0
  crc := e.crc.toNat
  compressed := e.size
  uncompressed := e.size
  disk := 0
  internal := 0
  external := 0
  offset := if e.localHeaderOffset > u32Max then u32Max else e.localHeaderOffset
  name := e.name
  extra := if e.localHeaderOffset > u32Max then Zip.zip64Extra (p64 e.localHeaderOffset) else []
  comment := []

theorem length_centralRecord_extra (e : EntryMeta) :
    e.centralRecord.extra.length = if e.localHeaderOffset > u32Max then 12 else 0 := by
  unfold EntryMeta.centralRecord
  split <;> simp [p64]

theorem centralDirEntry_eq_encode (e : EntryMeta) :
    centralDirEntry e = e.centralRecord.encode := by
  have hsig : p32 sigCentral = Zip.centralSig := by decide
  unfold centralDirEntry Zip.CentralHeader.encode
  rw [length_centralRecord_extra, hsig]
  unfold EntryMeta.centralRecord
  by_cases ho : e.localHeaderOffset > u32Max
  · simp only [ho, if_true]; rfl
  · simp only [ho, if_false]; rfl

/-- The entry has the length predicted from the same name and offset. -/
theorem length_centralDirEntry (e : EntryMeta) :
    (centralDirEntry e).length = centralDirEntryLen e.name e.localHeaderOffset := by
  rw [centralDirEntry_eq_encode, Zip.CentralHeader.length_encode, length_centralRecord_extra]
  rfl

/-! ## The end records -/

/-- ZIP64 end record, locator and classic end record. -/
def endRecords (entryCount cdOffset cdSize : Nat) : Bytes :=
  let zip64EocdOffset := cdOffset + cdSize
  List.flatten [
    p32 sigZip64Eocd, p64 44, p16 versionMadeBy, p16 versionNeeded, p32 0, p32 0,
    p64 entryCount, p64 entryCount, p64 cdSize, p64 cdOffset,
    p32 sigZip64Locator, p32 0, p64 zip64EocdOffset, p32 1,
    p32 sigEocd, p16 0, p16 0,
    p16 (if entryCount ≥ u16Max then u16Max else entryCount),
    p16 (if entryCount ≥ u16Max then u16Max else entryCount),
    p32 (if cdSize ≥ u32Max then u32Max else cdSize),
    p32 (if cdOffset ≥ u32Max then u32Max else cdOffset),
    p16 0]

/-- The ZIP64 end record. -/
def record64 (entryCount cdOffset cdSize : Nat) : Zip.EndHeader :=
  ⟨0, 0, entryCount, entryCount, cdSize, cdOffset⟩

/-- The classic end record, each field capped at its sentinel. -/
def classicRecord (entryCount cdOffset cdSize : Nat) : Zip.EndHeader :=
  ⟨0, 0, min entryCount u16Max, min entryCount u16Max, min cdSize u32Max, min cdOffset u32Max⟩

theorem ite_ge_eq_min (v cap : Nat) : (if v ≥ cap then cap else v) = min v cap := by
  split <;> omega

theorem endRecords_eq_encode (entryCount cdOffset cdSize : Nat) :
    endRecords entryCount cdOffset cdSize =
      (record64 entryCount cdOffset cdSize).encode64 versionMadeBy versionNeeded ++
        Zip.encodeLocator 0 (cdOffset + cdSize) 1 ++
        (classicRecord entryCount cdOffset cdSize).encode := by
  have h₁ : p32 sigZip64Eocd = Zip.zip64EndSig := by decide
  have h₂ : p32 sigZip64Locator = Zip.locatorSig := by decide
  have h₃ : p32 sigEocd = Zip.endSig := by decide
  unfold endRecords
  rw [h₁, h₂, h₃]
  simp only [ite_ge_eq_min]
  simp [Zip.EndHeader.encode, Zip.EndHeader.encode64, Zip.encodeLocator, record64, classicRecord,
    p16, p32, p64]

end S3Archive.FigmentEngine
