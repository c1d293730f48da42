import S3Archive.Zip.Streamed

/-!
# sebsto TypeScript: ZIP records

The header builders of `index.ts`. A `Buffer` is a byte string; a builder that
writes a value its field cannot hold throws, which is `none` (`writeUInt16LE`,
`writeBigUInt64LE`). `*_eq_encode` identifies each buffer with the fixed layout
of `S3Archive.Zip.Record`.
-/

namespace S3Archive.SebstoTs

def zipVersionNeeded : Nat := 45
/-- The host is unix. -/
def zipVersionMadeBy : Nat := (3 <<< 8) ||| 45
def zipGpFlag : Nat := 0x0008
def zipMethodStored : Nat := 0
def zipDosTime : Nat := 0
def zipDosDate : Nat := (30 <<< 9) ||| (1 <<< 5) ||| 1

/-- `buf.writeUInt16LE(v)`, which throws when `v` is out of range. -/
def writeUInt16LE (v : Nat) : Option Bytes := if v < 2 ^ 16 then some (leBytes 2 v) else none

/-- `buf.writeBigUInt64LE(v)`, which throws when `v` is out of range. -/
def writeBigUInt64LE (v : Nat) : Option Bytes := if v < 2 ^ 64 then some (leBytes 8 v) else none

structure ZipEntry where
  nameBytes : Bytes
  crc32 : UInt32
  size : Nat
  localHeaderOffset : Nat
  deriving DecidableEq, Repr

/-! ## Builders -/

def localFileHeader (nameBytes : Bytes) : Option Bytes := do
  let nameLen ← writeUInt16LE nameBytes.length
  return List.flatten [leBytes 4 0x04034b50, leBytes 2 zipVersionNeeded, leBytes 2 zipGpFlag,
    leBytes 2 zipMethodStored, leBytes 2 zipDosTime, leBytes 2 zipDosDate,
    leBytes 4 0, leBytes 4 0, leBytes 4 0, nameLen, leBytes 2 0, nameBytes]

/-- The 24 bytes after a body. -/
def dataDescriptor (crc : UInt32) (size : Nat) : Option Bytes := do
  let compressed ← writeBigUInt64LE size
  let uncompressed ← writeBigUInt64LE size
  return List.flatten [leBytes 4 0x08074b50, leBytes 4 crc.toNat, compressed, uncompressed]

/-- One entry's directory record, with its sizes and its offset in the ZIP64 extra field. -/
def centralDirectoryHeader (entry : ZipEntry) : Option Bytes := do
  let nameLen ← writeUInt16LE entry.nameBytes.length
  let extraLen := 28
  let uncompressed ← writeBigUInt64LE entry.size
  let compressed ← writeBigUInt64LE entry.size
  let offset ← writeBigUInt64LE entry.localHeaderOffset
  return List.flatten [leBytes 4 0x02014b50, leBytes 2 zipVersionMadeBy, leBytes 2 zipVersionNeeded,
    leBytes 2 zipGpFlag, leBytes 2 zipMethodStored, leBytes 2 zipDosTime, leBytes 2 zipDosDate,
    leBytes 4 entry.crc32.toNat, leBytes 4 0xffffffff, leBytes 4 0xffffffff, nameLen,
    leBytes 2 extraLen, leBytes 2 0, leBytes 2 0, leBytes 2 0, leBytes 4 (0o644 <<< 16),
    leBytes 4 0xffffffff, entry.nameBytes,
    leBytes 2 0x0001, leBytes 2 24, uncompressed, compressed, offset]

def zip64EndOfCentralDirectory (entryCount cdSize cdOffset : Nat) : Option Bytes := do
  let count ← writeBigUInt64LE entryCount
  let size ← writeBigUInt64LE cdSize
  let offset ← writeBigUInt64LE cdOffset
  return List.flatten [leBytes 4 0x06064b50, leBytes 8 44, leBytes 2 zipVersionMadeBy,
    leBytes 2 zipVersionNeeded, leBytes 4 0, leBytes 4 0, count, count, size, offset]

def zip64EndOfCentralDirectoryLocator (zip64EocdOffset : Nat) : Option Bytes := do
  let offset ← writeBigUInt64LE zip64EocdOffset
  return List.flatten [leBytes 4 0x07064b50, leBytes 4 0, offset, leBytes 4 1]

def endOfCentralDirectory : Bytes :=
  List.flatten [leBytes 4 0x06054b50, leBytes 2 0, leBytes 2 0, leBytes 2 0xffff, leBytes 2 0xffff,
    leBytes 4 0xffffffff, leBytes 4 0xffffffff, leBytes 2 0]

/-! ## The layouts of the buffers -/

/-- The fields that all entries share. -/
def profile : Zip.Profile :=
  ⟨zipVersionMadeBy, zipVersionNeeded, zipGpFlag, zipDosTime, zipDosDate, 0o644 <<< 16⟩

theorem writeUInt16LE_eq_some {v : Nat} {bs : Bytes} :
    writeUInt16LE v = some bs ↔ v < 2 ^ 16 ∧ bs = leBytes 2 v := by
  unfold writeUInt16LE
  split <;> simp_all [eq_comm]

theorem writeBigUInt64LE_eq_some {v : Nat} {bs : Bytes} :
    writeBigUInt64LE v = some bs ↔ v < 2 ^ 64 ∧ bs = leBytes 8 v := by
  unfold writeBigUInt64LE
  split <;> simp_all [eq_comm]

/-- The directory's data of a file whose local header is at `off`. -/
def zipEntry (off : Nat) (f : Zip.StreamedFile) : ZipEntry := ⟨f.name, f.crc, f.body.length, off⟩

section

variable {f : Zip.StreamedFile} {bs : Bytes} {off : Nat}

theorem localFileHeader_eq_some :
    localFileHeader f.name = some bs ↔
      f.name.length < 2 ^ 16 ∧ bs = (f.localRecord profile).encode := by
  have hsig : leBytes 4 0x04034b50 = Zip.localSig := by decide
  unfold localFileHeader
  simp only [Option.bind_eq_bind, Option.bind_eq_some_iff, writeUInt16LE_eq_some, Option.pure_def,
    Option.some.injEq, and_assoc, exists_and_left, exists_eq_left, hsig]
  refine and_congr_right fun _ => ?_
  rw [eq_comm]
  simp [Zip.LocalHeader.encode, Zip.StreamedFile.localRecord, profile, zipMethodStored]

theorem dataDescriptor_eq_some :
    dataDescriptor f.crc f.body.length = some bs ↔
      f.body.length < 2 ^ 64 ∧ bs = f.descriptor.encode := by
  have hsig : leBytes 4 0x08074b50 = Zip.descriptorSig := by decide
  unfold dataDescriptor
  simp only [Option.bind_eq_bind, Option.bind_eq_some_iff, writeBigUInt64LE_eq_some,
    Option.pure_def, Option.some.injEq, and_assoc, exists_and_left, exists_eq_left, hsig]
  refine and_congr_right fun h => ?_
  rw [eq_comm, and_iff_right h]
  rfl

theorem centralDirectoryHeader_eq_some :
    centralDirectoryHeader (zipEntry off f) = some bs ↔
      (f.name.length < 2 ^ 16 ∧ f.body.length < 2 ^ 64 ∧ off < 2 ^ 64) ∧
        bs = (f.centralRecord profile off).encode := by
  have hsig : leBytes 4 0x02014b50 = Zip.centralSig := by decide
  have hones : Zip.ones 4 = 0xffffffff := by decide
  unfold centralDirectoryHeader zipEntry
  simp only [Option.bind_eq_bind, Option.bind_eq_some_iff, writeUInt16LE_eq_some,
    writeBigUInt64LE_eq_some, Option.pure_def, Option.some.injEq, and_assoc, exists_and_left,
    exists_eq_left, hsig]
  refine and_congr_right fun _ => and_congr_right fun h => ?_
  rw [and_iff_right h]
  refine and_congr_right fun _ => ?_
  rw [eq_comm]
  simp [Zip.CentralHeader.encode, Zip.StreamedFile.centralRecord, Zip.StreamedFile.wideData,
    Zip.zip64Extra, profile, zipMethodStored, hones]

end

theorem zip64EndOfCentralDirectory_eq_some {count cdSize cdOffset : Nat} {bs : Bytes} :
    zip64EndOfCentralDirectory count cdSize cdOffset = some bs ↔
      (count < 2 ^ 64 ∧ cdSize < 2 ^ 64 ∧ cdOffset < 2 ^ 64) ∧
        bs = Zip.EndHeader.encode64 ⟨0, 0, count, count, cdSize, cdOffset⟩ profile.madeBy
          profile.version := by
  have hsig : leBytes 4 0x06064b50 = Zip.zip64EndSig := by decide
  unfold zip64EndOfCentralDirectory
  simp only [Option.bind_eq_bind, Option.bind_eq_some_iff, writeBigUInt64LE_eq_some,
    Option.pure_def, Option.some.injEq, and_assoc, exists_and_left, exists_eq_left, hsig]
  refine and_congr_right fun _ => and_congr_right fun _ => and_congr_right fun _ => ?_
  rw [eq_comm]
  rfl

theorem zip64EndOfCentralDirectoryLocator_eq_some {offset : Nat} {bs : Bytes} :
    zip64EndOfCentralDirectoryLocator offset = some bs ↔
      offset < 2 ^ 64 ∧ bs = Zip.encodeLocator 0 offset 1 := by
  have hsig : leBytes 4 0x07064b50 = Zip.locatorSig := by decide
  unfold zip64EndOfCentralDirectoryLocator
  simp only [Option.bind_eq_bind, Option.bind_eq_some_iff, writeBigUInt64LE_eq_some,
    Option.pure_def, Option.some.injEq, and_assoc, exists_and_left, exists_eq_left, hsig]
  refine and_congr_right fun _ => ?_
  rw [eq_comm]
  rfl

theorem endOfCentralDirectory_eq_encode : endOfCentralDirectory =
    Zip.EndHeader.encode ⟨0, 0, Zip.ones 2, Zip.ones 2, Zip.ones 4, Zip.ones 4⟩ := by decide

end S3Archive.SebstoTs
