import S3Archive.Zip.Stored
import S3Archive.JNicholson.Storage

/-!
# j-nicholson98: the ZIP writer

The header encoders and `Zip64Assembler` of `zipwriter.py`, writing to the part
chunker. `struct.pack` raises when a value does not fit its field, which is
`none`. `assemble` is the assembler's part of `archive`: each item's local header
and body as two segments, `finish`, and the final flush.
-/

namespace S3Archive.JNicholson

def dosTime : Nat := 0
def dosDate : Nat := (1 <<< 5) ||| 1
abbrev u16Max : Nat := 0xFFFF
abbrev u32Max : Nat := 0xFFFFFFFF
def versionBase : Nat := 20
def versionZ64 : Nat := 45
def versionMade : Nat := 45

def sigLocal : Nat := 0x04034B50
def sigCentral : Nat := 0x02014B50
def sigZ64Eocd : Nat := 0x06064B50
def sigZ64Loc : Nat := 0x07064B50
def sigEocd : Nat := 0x06054B50

/-- One field of `struct.pack`: `w` bytes, little-endian. -/
def pack (w v : Nat) : Option Bytes := if v < 256 ^ w then some (leBytes w v) else none

/-! ## Encoders -/

def localFileHeader (name : Bytes) (crc size : Nat) : Option Bytes := do
  let size ← pack 4 size
  let nameLen ← pack 2 name.length
  return List.flatten [leBytes 4 sigLocal, leBytes 2 versionBase, leBytes 2 0x0800, leBytes 2 0,
    leBytes 2 dosTime, leBytes 2 dosDate, leBytes 4 (crc &&& 0xFFFFFFFF), size, size, nameLen,
    leBytes 2 0] ++ name

/-- The extra field holds the offset alone, and only when the offset needs it. -/
def centralDirHeader (name : Bytes) (crc size offset : Nat) : Option Bytes := do
  let (extra, offField, vneed) ←
    if offset > u32Max then do
      let extra := List.flatten [leBytes 2 0x0001, leBytes 2 8, ← pack 8 offset]
      pure (extra, u32Max, versionZ64)
    else pure ([], offset, versionBase)
  let size ← pack 4 size
  let nameLen ← pack 2 name.length
  return List.flatten [leBytes 4 sigCentral, leBytes 2 versionMade, leBytes 2 vneed,
    leBytes 2 0x0800, leBytes 2 0, leBytes 2 dosTime, leBytes 2 dosDate,
    leBytes 4 (crc &&& 0xFFFFFFFF), size, size, nameLen, leBytes 2 extra.length, leBytes 2 0,
    leBytes 2 0, leBytes 2 0, leBytes 4 0, leBytes 4 offField] ++ name ++ extra

def zip64Eocd (count cdSize cdOffset : Nat) : Option Bytes := do
  let count ← pack 8 count
  let cdSize ← pack 8 cdSize
  let cdOffset ← pack 8 cdOffset
  return List.flatten [leBytes 4 sigZ64Eocd, leBytes 8 44, leBytes 2 versionMade,
    leBytes 2 versionZ64, leBytes 4 0, leBytes 4 0, count, count, cdSize, cdOffset]

def zip64EocdLocator (z64EocdOffset : Nat) : Option Bytes := do
  let offset ← pack 8 z64EocdOffset
  return List.flatten [leBytes 4 sigZ64Loc, leBytes 4 0, offset, leBytes 4 1]

def eocd (count cdSize cdOffset : Nat) : Bytes :=
  List.flatten [leBytes 4 sigEocd, leBytes 2 0, leBytes 2 0, leBytes 2 (min count u16Max),
    leBytes 2 (min count u16Max), leBytes 4 (if cdSize ≤ u32Max then cdSize else u32Max),
    leBytes 4 (if cdOffset ≤ u32Max then cdOffset else u32Max), leBytes 2 0]

/-! ## `Zip64Assembler` -/

structure Zip64Assembler where
  sink : PartChunker
  central : List Bytes := []
  count : Nat := 0

namespace Zip64Assembler

def record (z : Zip64Assembler) (nameB : Bytes) (crc size offset : Nat) :
    Option Zip64Assembler := do
  let header ← centralDirHeader nameB crc size offset
  return { z with central := z.central ++ [header], count := z.count + 1 }

/-- Write the local `header`, then the `body`. -/
def addSegments (z : Zip64Assembler) (name : String) (crc size : Nat) (header body : Bytes) :
    Option Zip64Assembler :=
  let offset := z.sink.tell
  { z with sink := (z.sink.write header).write body }.record (utf8 name) crc size offset

/-- The ZIP64 end record and its locator. -/
def writeZip64 (sink : PartChunker) (count cdSize cdOffset : Nat) : Option PartChunker := do
  let z64Offset := sink.tell
  let sink := sink.write (← zip64Eocd count cdSize cdOffset)
  return sink.write (← zip64EocdLocator z64Offset)

def finish (z : Zip64Assembler) : Option PartChunker := do
  let cdOffset := z.sink.tell
  let sink := z.central.foldl PartChunker.write z.sink
  let cdSize := sink.tell - cdOffset
  let sink ←
    if cdOffset > u32Max ∨ cdSize > u32Max ∨ z.count > u16Max then
      writeZip64 sink z.count cdSize cdOffset
    else pure sink
  return sink.write (eocd z.count cdSize cdOffset)

end Zip64Assembler

/-! ## The assembler of `archive` -/

/-- What a downloader makes of an object. -/
structure Item where
  name : String
  crc : UInt32
  body : Bytes

/-- One turn of the assembler's loop; the header was built by the downloader. -/
def push (z : Zip64Assembler) (item : Item) : Option Zip64Assembler := do
  let header ← localFileHeader (utf8 item.name) item.crc.toNat item.body.length
  z.addSegments item.name item.crc.toNat item.body.length header item.body

/-- The parts that are uploaded for the items in the order of their arrival. -/
def assemble (partSize : Nat) (items : List Item) : Option (List (Nat × Bytes)) := do
  let z ← items.foldlM push { sink := { partSize } }
  let sink ← z.finish
  return sink.flushFinal.uploaded

end S3Archive.JNicholson
