import S3Archive.Base.Bytes

/-!
# sebsto C: the ZIP encoder

`zip_writer_add` and `zip_writer_finish` over any `zip_write_fn`. The writer
keeps the callback's own state as `user`. A function returns the C return code,
0 for success; the CRC function is a parameter.
-/

namespace S3Archive.SebstoC

/-- `zip_write_fn`: the callback returns its code and leaves a new state behind `user`. -/
abbrev ZipWriteFn (υ : Type) := υ → Bytes → Bool → Int × υ

/-- `zip_entry_t`; `name` is the C string without its terminator. -/
structure ZipEntry where
  name : Bytes
  crc32 : UInt32
  size : UInt64
  localHeaderOff : UInt64
  deriving DecidableEq, Repr

/-- `zip_writer_t`. -/
structure ZipWriter (υ : Type) where
  user : υ
  entries : List ZipEntry := []
  offset : UInt64 := 0
  writeError : Int := 0

abbrev ZipM (υ : Type) := StateM (ZipWriter υ)

section

variable {υ : Type} (writeFn : ZipWriteFn υ)

def zWrite (data : Bytes) : ZipM υ Int := do
  let z ← get
  if z.writeError ≠ 0 then
    return z.writeError
  let (rc, user) := writeFn z.user data false
  if rc ≠ 0 then
    set { z with user, writeError := rc }
  else
    set { z with user, offset := z.offset + UInt64.ofNat data.length }
  return rc

/-- The code of a failed write, or what comes next: `if (m) return z->write_error; next`. -/
def orReturn (m next : ZipM υ Int) : ZipM υ Int := do
  if (← m) ≠ 0 then
    return (← get).writeError
  next

/-! ## Local headers -/

/-- `(uint16_t)strlen(name)`. -/
def nameLen (e : ZipEntry) : Nat := e.name.length % 2 ^ 16

def localHeader (e : ZipEntry) : Bytes :=
  List.flatten [[0x50, 0x4B, 0x03, 0x04], leBytes 2 20, leBytes 2 0, leBytes 2 0, leBytes 4 0,
    leBytes 4 e.crc32.toNat, leBytes 4 e.size.toNat, leBytes 4 e.size.toNat,
    leBytes 2 (nameLen e), leBytes 2 0]

def emitLocalHeader (e : ZipEntry) : ZipM υ Int :=
  orReturn (zWrite writeFn (localHeader e)) <|
  orReturn (zWrite writeFn (e.name.take (nameLen e))) <|
  return 0

def zipWriterAdd (crc32 : Bytes → UInt32) (name data : Bytes) : ZipM υ Int := do
  let z ← get
  if z.writeError ≠ 0 then
    return z.writeError
  let e : ZipEntry :=
    { name, size := .ofNat data.length, crc32 := crc32 data, localHeaderOff := z.offset }
  set { z with entries := z.entries ++ [e] }
  orReturn (emitLocalHeader writeFn e) <|
    if data.length ≠ 0 then
      orReturn (zWrite writeFn data) (return 0)
    else return 0

/-! ## The central directory -/

def needZip64 (v : UInt64) : Bool := v ≥ 0xFFFFFFFF

/-- A value, or all ones when it needs ZIP64. -/
def field32 (v : UInt64) : Nat := if needZip64 v then 0xFFFFFFFF else v.toNat

/-- What the ZIP64 extra field holds: both sizes, then the offset, each when it needs ZIP64. -/
def zip64Payload (e : ZipEntry) : Bytes :=
  (if needZip64 e.size then leBytes 8 e.size.toNat ++ leBytes 8 e.size.toNat else []) ++
    (if needZip64 e.localHeaderOff then leBytes 8 e.localHeaderOff.toNat else [])

def anyZip64 (e : ZipEntry) : Bool := needZip64 e.size || needZip64 e.localHeaderOff

def centralDirExtra (e : ZipEntry) : Bytes :=
  [0x01, 0x00] ++ leBytes 2 (zip64Payload e).length ++ zip64Payload e

def centralDirHeader (e : ZipEntry) : Bytes :=
  List.flatten [[0x50, 0x4B, 0x01, 0x02], leBytes 2 45, leBytes 2 (if anyZip64 e then 45 else 20),
    leBytes 2 0, leBytes 2 0, leBytes 4 0, leBytes 4 e.crc32.toNat, leBytes 4 (field32 e.size),
    leBytes 4 (field32 e.size), leBytes 2 (nameLen e),
    leBytes 2 (if anyZip64 e then (centralDirExtra e).length else 0), leBytes 2 0, leBytes 2 0,
    leBytes 2 0, leBytes 4 0, leBytes 4 (field32 e.localHeaderOff)]

def emitCentralDirEntry (e : ZipEntry) : ZipM υ Int :=
  orReturn (zWrite writeFn (centralDirHeader e)) <|
  orReturn (zWrite writeFn (e.name.take (nameLen e))) <|
    if anyZip64 e then
      orReturn (zWrite writeFn (centralDirExtra e)) (return 0)
    else return 0

/-- The loop over the entries in `zip_writer_finish`. -/
def emitCentralDir : List ZipEntry → ZipM υ Int
  | [] => return 0
  | e :: entries => orReturn (emitCentralDirEntry writeFn e) (emitCentralDir entries)

/-! ## The end of the archive -/

def zip64Eocd (count cdSize cdOffset : UInt64) : Bytes :=
  List.flatten [[0x50, 0x4B, 0x06, 0x06], leBytes 8 44, leBytes 2 45, leBytes 2 45, leBytes 8 0,
    leBytes 8 count.toNat, leBytes 8 count.toNat, leBytes 8 cdSize.toNat,
    leBytes 8 cdOffset.toNat]

def zip64Locator (z64EocdOff : UInt64) : Bytes :=
  List.flatten [[0x50, 0x4B, 0x06, 0x07], leBytes 4 0, leBytes 8 z64EocdOff.toNat, leBytes 4 1]

def eocd (count cdSize cdOffset : UInt64) : Bytes :=
  let cnt16 := if count > 0xFFFF then 0xFFFF else count.toNat
  List.flatten [[0x50, 0x4B, 0x05, 0x06], leBytes 4 0, leBytes 2 cnt16, leBytes 2 cnt16,
    leBytes 4 (field32 cdSize), leBytes 4 (field32 cdOffset), leBytes 2 0]

/-- `z->write_fn(z->user, NULL, 0, 1)` after a failed write, whose code is returned. -/
def endAfterError : ZipM υ Int := do
  modify fun z => { z with user := (writeFn z.user [] true).2 }
  return (← get).writeError

/-- A failed write ends the upload before its code is returned. -/
def orEnd (m next : ZipM υ Int) : ZipM υ Int := do
  if (← m) ≠ 0 then
    endAfterError writeFn
  else next

/-- The last write, with the end of file. -/
def writeEocd (count cdSize cdOffset : UInt64) : ZipM υ Int := do
  let z ← get
  let (rc, user) := writeFn z.user (eocd count cdSize cdOffset) true
  if rc ≠ 0 then
    set { z with user, writeError := if z.writeError = 0 then -1 else z.writeError }
    return (← get).writeError
  set { z with user, offset := z.offset + 22 }
  return 0

def writeEnds (count cdSize cdOffset : UInt64) : ZipM υ Int :=
  if needZip64 count || needZip64 cdOffset || needZip64 cdSize then
    orEnd writeFn (zWrite writeFn (zip64Eocd count cdSize cdOffset)) do
      let z64EocdOff := (← get).offset - 56
      orEnd writeFn (zWrite writeFn (zip64Locator z64EocdOff)) <|
        writeEocd writeFn count cdSize cdOffset
  else writeEocd writeFn count cdSize cdOffset

def zipWriterFinish : ZipM υ Int := do
  let z ← get
  if z.writeError ≠ 0 then
    endAfterError writeFn
  else
    let cdOffset := z.offset
    orEnd writeFn (emitCentralDir writeFn z.entries) do
      let cdSize := (← get).offset - cdOffset
      writeEnds writeFn (.ofNat z.entries.length) cdSize cdOffset

/-! ## From open to finish -/

/-- The arguments of a call of `zip_writer_add`. -/
structure Item where
  name : Bytes
  data : Bytes
  deriving DecidableEq, Repr

/-- A caller that adds `items` in order and stops at the first error. -/
def addItems (crc32 : Bytes → UInt32) : List Item → ZipM υ Int
  | [] => return 0
  | item :: items =>
    orReturn (zipWriterAdd writeFn crc32 item.name item.data) (addItems crc32 items)

end

/-- A callback that takes everything. -/
def collect : ZipWriteFn Bytes := fun out data _ => (0, out ++ data)

/-- What a writer emits from `zip_writer_init` to `zip_writer_finish`. -/
def emitted (crc32 : Bytes → UInt32) (items : List Item) : Bytes :=
  ((orReturn (addItems collect crc32 items) (zipWriterFinish collect)).run { user := [] }).2.user

end S3Archive.SebstoC
