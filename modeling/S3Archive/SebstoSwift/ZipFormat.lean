import S3Archive.SebstoTs.ZipFormat

/-!
# sebsto Swift: ZIP records

`ZipHeaders` of the Swift contender. Fixed-width integers keep their types; a
conversion or an addition that does not fit traps, which is `none` (`uint16`,
`uint64`, `addU64`). Each builder gives the bytes of its TypeScript counterpart.
-/

namespace S3Archive.SebstoSwift

/-! ## Integers -/

/-- `UInt16(n)`. -/
def uint16 (n : Nat) : Option UInt16 := if n < 2 ^ 16 then some (.ofNat n) else none

/-- `UInt64(n)`. -/
def uint64 (n : Nat) : Option UInt64 := if n < 2 ^ 64 then some (.ofNat n) else none

/-- `a + b`. -/
def addU64 (a b : UInt64) : Option UInt64 := uint64 (a.toNat + b.toNat)

def appendLE16 (v : UInt16) : Bytes := leBytes 2 v.toNat
def appendLE32 (v : UInt32) : Bytes := leBytes 4 v.toNat
def appendLE64 (v : UInt64) : Bytes := leBytes 8 v.toNat

/-! ## `ZipHeaders` -/

def storedMethod : UInt16 := 0
def gpFlag : UInt16 := 0x0008
def versionNeededZip64 : UInt16 := 45
def versionMadeByUnix : UInt16 := ((3 : UInt16) <<< 8) ||| 45
def dosTime : UInt16 := 0
def dosDate : UInt16 := ((30 : UInt16) <<< 9) ||| ((1 : UInt16) <<< 5) ||| 1

structure ZipEntry where
  name : String
  crc32 : UInt32
  size : UInt64
  localHeaderOffset : UInt64

def localFileHeader (name : String) : Option Bytes := do
  let nameBytes := utf8 name
  let nameLen ← uint16 nameBytes.length
  return List.flatten [appendLE32 0x04034b50, appendLE16 versionNeededZip64, appendLE16 gpFlag,
    appendLE16 storedMethod, appendLE16 dosTime, appendLE16 dosDate,
    appendLE32 0, appendLE32 0, appendLE32 0, appendLE16 nameLen, appendLE16 0, nameBytes]

def dataDescriptor (crc32 : UInt32) (size : UInt64) : Bytes :=
  List.flatten [appendLE32 0x08074b50, appendLE32 crc32, appendLE64 size, appendLE64 size]

def centralDirectoryHeader (entry : ZipEntry) : Option Bytes := do
  let nameBytes := utf8 entry.name
  let nameLen ← uint16 nameBytes.length
  return List.flatten [appendLE32 0x02014b50, appendLE16 versionMadeByUnix,
    appendLE16 versionNeededZip64, appendLE16 gpFlag, appendLE16 storedMethod, appendLE16 dosTime,
    appendLE16 dosDate, appendLE32 entry.crc32, appendLE32 0xFFFFFFFF, appendLE32 0xFFFFFFFF,
    appendLE16 nameLen, appendLE16 28, appendLE16 0, appendLE16 0, appendLE16 0,
    appendLE32 ((0o644 : UInt32) <<< 16), appendLE32 0xFFFFFFFF, nameBytes,
    appendLE16 0x0001, appendLE16 24, appendLE64 entry.size, appendLE64 entry.size,
    appendLE64 entry.localHeaderOffset]

def zip64EndOfCentralDirectory (entryCount cdSize cdOffset : UInt64) : Bytes :=
  List.flatten [appendLE32 0x06064b50, appendLE64 44, appendLE16 versionMadeByUnix,
    appendLE16 versionNeededZip64, appendLE32 0, appendLE32 0, appendLE64 entryCount,
    appendLE64 entryCount, appendLE64 cdSize, appendLE64 cdOffset]

def zip64EndOfCentralDirectoryLocator (zip64EocdOffset : UInt64) : Bytes :=
  List.flatten [appendLE32 0x07064b50, appendLE32 0, appendLE64 zip64EocdOffset, appendLE32 1]

def endOfCentralDirectory : Bytes :=
  List.flatten [appendLE32 0x06054b50, appendLE16 0, appendLE16 0, appendLE16 0xFFFF,
    appendLE16 0xFFFF, appendLE32 0xFFFFFFFF, appendLE32 0xFFFFFFFF, appendLE16 0]

/-! ## The TypeScript builders give the same bytes -/

theorem uint64_eq_some {n : Nat} {v : UInt64} : uint64 n = some v ↔ n = v.toNat := by
  unfold uint64
  split
  case isTrue h =>
    rw [Option.some.injEq, ← UInt64.toNat_inj, UInt64.toNat_ofNat', Nat.mod_eq_of_lt h]
  case isFalse h =>
    have := v.toNat_lt
    simp only [reduceCtorEq, false_iff]
    omega

theorem writeBigUInt64LE_toNat (v : UInt64) :
    SebstoTs.writeBigUInt64LE v.toNat = some (appendLE64 v) :=
  SebstoTs.writeBigUInt64LE_eq_some.2 ⟨v.toNat_lt, rfl⟩

theorem uint16_map (n : Nat) : (uint16 n).map appendLE16 = SebstoTs.writeUInt16LE n := by
  unfold uint16 SebstoTs.writeUInt16LE
  split
  case isTrue h =>
    rw [Option.map_some, appendLE16, UInt16.toNat_ofNat', Nat.mod_eq_of_lt h]
  case isFalse h => rfl

theorem localFileHeader_eq (name : String) :
    localFileHeader name = SebstoTs.localFileHeader (utf8 name) := by
  unfold localFileHeader SebstoTs.localFileHeader
  dsimp only
  rw [← uint16_map]
  cases uint16 (utf8 name).length <;> rfl

theorem dataDescriptor_eq (crc32 : UInt32) (size : UInt64) :
    SebstoTs.dataDescriptor crc32 size.toNat = some (dataDescriptor crc32 size) := by
  unfold SebstoTs.dataDescriptor
  rw [writeBigUInt64LE_toNat]
  rfl

/-- The directory's data of an entry in TypeScript. -/
def ZipEntry.toTs (e : ZipEntry) : SebstoTs.ZipEntry :=
  ⟨utf8 e.name, e.crc32, e.size.toNat, e.localHeaderOffset.toNat⟩

theorem centralDirectoryHeader_eq (e : ZipEntry) :
    centralDirectoryHeader e = SebstoTs.centralDirectoryHeader e.toTs := by
  unfold centralDirectoryHeader SebstoTs.centralDirectoryHeader ZipEntry.toTs
  dsimp only
  rw [← uint16_map, writeBigUInt64LE_toNat, writeBigUInt64LE_toNat]
  cases uint16 (utf8 e.name).length <;> rfl

theorem zip64EndOfCentralDirectory_eq (count cdSize cdOffset : UInt64) :
    SebstoTs.zip64EndOfCentralDirectory count.toNat cdSize.toNat cdOffset.toNat =
      some (zip64EndOfCentralDirectory count cdSize cdOffset) := by
  unfold SebstoTs.zip64EndOfCentralDirectory
  rw [writeBigUInt64LE_toNat, writeBigUInt64LE_toNat, writeBigUInt64LE_toNat]
  rfl

theorem zip64EndOfCentralDirectoryLocator_eq (offset : UInt64) :
    SebstoTs.zip64EndOfCentralDirectoryLocator offset.toNat =
      some (zip64EndOfCentralDirectoryLocator offset) := by
  unfold SebstoTs.zip64EndOfCentralDirectoryLocator
  rw [writeBigUInt64LE_toNat]
  rfl

theorem endOfCentralDirectory_eq : SebstoTs.endOfCentralDirectory = endOfCentralDirectory := rfl

end S3Archive.SebstoSwift
