import S3Archive.Base.Reader

/-!
# ZIP records

The three records of a stored ZIP archive as their fields (`LocalHeader`,
`CentralHeader`, `EndRecord` with its ZIP64 forms), their byte layout
(`encode`), and readers. A reader resolves ZIP64 fields the standard way: a
record that carries the extra field `0x0001` takes each of its fixed fields that
is all ones from there, in the order uncompressed size, compressed size, header
offset; every other field is literal.
-/

namespace S3Archive.Zip

open Reader (uint bytes expect)

/-- The all-ones value of a field of `w` bytes. -/
def ones (w : Nat) : Nat := 256 ^ w - 1

/-! ## The ZIP64 extra field -/

/-- The data of the first extra field `id`; the first argument bounds the number of fields. -/
def extraField (id : Nat) : Nat → Bytes → Option Bytes
  | 0, _ => none
  | fuel + 1, extra =>
    match (do return (← uint 2, ← bytes (← uint 2)) : Reader (Nat × Bytes)).run extra with
    | none => none
    | some ((i, data), rest) => if i = id then some data else extraField id fuel rest

/-- The fixed fields that a ZIP64 extra field can replace. -/
structure Wide where
  uncompressed : Nat
  compressed : Nat
  offset : Nat
  deriving DecidableEq, Repr

/-- A field of four bytes, read as eight when it is all ones. -/
def wide (v : Nat) : Reader Nat := if v = ones 4 then uint 8 else return v

def Wide.read (f : Wide) : Reader Wide :=
  return ⟨← wide f.uncompressed, ← wide f.compressed, ← wide f.offset⟩

/-- The values of the fixed fields `f` of a record with extra fields `extra`. -/
def Wide.resolve (f : Wide) (extra : Bytes) : Option Wide :=
  match extraField 1 extra.length extra with
  | none => some f
  | some data => (f.read.run data).map Prod.fst

theorem Wide.resolve_nil (f : Wide) : f.resolve [] = some f := rfl

/-- A ZIP64 extra field that holds `data` and nothing else. -/
def zip64Extra (data : Bytes) : Bytes := leBytes 2 1 ++ leBytes 2 data.length ++ data

@[simp] theorem zip64Extra_length (data : Bytes) : (zip64Extra data).length = data.length + 4 := by
  simp [zip64Extra]; omega

theorem extraField_zip64Extra {data : Bytes} (h : data.length < 2 ^ 16) :
    extraField 1 (zip64Extra data).length (zip64Extra data) = some data := by
  rw [zip64Extra_length, show data.length + 4 = (data.length + 3) + 1 from rfl, extraField]
  have hr : Reads (do return (← uint 2, ← bytes (← uint 2)) : Reader (Nat × Bytes))
      (zip64Extra data) (1, data) := by
    rw [zip64Extra, List.append_assoc]
    refine .bind (.uint_of_lt (by decide)) (.bind (.uint_of_lt h) ?_)
    exact .bind_nil (.bytes rfl) (.pure _)
  rw [hr.run_eq]
  simp

theorem Wide.resolve_zip64Extra {f g : Wide} {data rest : Bytes} (h : data.length < 2 ^ 16)
    (hf : f.read.run data = some (g, rest)) : f.resolve (zip64Extra data) = some g := by
  rw [resolve, extraField_zip64Extra h]
  simp [hf]

theorem Wide.resolve_zip64Extra_none {f : Wide} {data : Bytes} (h : data.length < 2 ^ 16)
    (hf : f.read.run data = none) : f.resolve (zip64Extra data) = none := by
  rw [resolve, extraField_zip64Extra h]
  simp [hf]

theorem wide_literal {v : Nat} (h : v ≠ ones 4) : Reads (wide v) [] v := by
  simpa [wide, h] using Reads.pure v

theorem wide_ones {v : Nat} (h : v < 2 ^ 64) : Reads (wide (ones 4)) (leBytes 8 v) v := by
  simpa [wide] using Reads.uint_of_lt (w := 8) (by simpa using h)

/-- The eight bytes of a value that a field of four bytes cannot hold. -/
def wideField (v : Nat) : Bytes := if v < ones 4 then [] else leBytes 8 v

/-- A field that is capped at all ones, with its eight bytes when it needs them. -/
theorem reads_wideField {v : Nat} (h : v < 2 ^ 64) :
    Reads (wide (min v (ones 4))) (wideField v) v := by
  unfold wideField
  by_cases hv : v < ones 4
  · rw [if_pos hv, Nat.min_eq_left (Nat.le_of_lt hv)]
    exact wide_literal (Nat.ne_of_lt hv)
  · rw [if_neg hv, Nat.min_eq_right (Nat.le_of_not_lt hv)]
    exact wide_ones h

theorem length_wideField_le (v : Nat) : (wideField v).length ≤ 8 := by
  unfold wideField
  split <;> simp

/-- The data of a ZIP64 extra field that gives the size twice and the offset. -/
def wideFields (size off : Nat) : Bytes := wideField size ++ (wideField size ++ wideField off)

theorem length_wideFields_le (size off : Nat) : (wideFields size off).length ≤ 24 := by
  have hsize := length_wideField_le size
  have hoff := length_wideField_le off
  rw [wideFields, List.length_append, List.length_append]
  omega

/-- The extra fields of a record whose fields are capped at all ones. -/
def wideExtra (size off : Nat) : Bytes :=
  if size < ones 4 ∧ off < ones 4 then [] else zip64Extra (wideFields size off)

theorem length_wideExtra_le (size off : Nat) : (wideExtra size off).length ≤ 28 := by
  have hlen := length_wideFields_le size off
  unfold wideExtra
  split
  · exact Nat.zero_le _
  · rw [zip64Extra_length]
    omega

theorem Wide.resolve_wideExtra {size off : Nat} (hsize : size < 2 ^ 64) (hoff : off < 2 ^ 64) :
    Wide.resolve ⟨min size (ones 4), min size (ones 4), min off (ones 4)⟩ (wideExtra size off) =
      some ⟨size, size, off⟩ := by
  unfold wideExtra
  split
  case isTrue h =>
    rw [Nat.min_eq_left (Nat.le_of_lt h.1), Nat.min_eq_left (Nat.le_of_lt h.2)]
    exact Wide.resolve_nil _
  case isFalse h =>
    have hlen := length_wideFields_le size off
    refine Wide.resolve_zip64Extra (by omega) (Reads.run_eq ?_)
    refine .bind (reads_wideField hsize) (.bind (reads_wideField hsize) ?_)
    exact .bind_nil (reads_wideField hoff) (.pure _)

/-! ## The local file header -/

structure LocalHeader where
  version : Nat
  flags : Nat
  method : Nat
  time : Nat
  date : Nat
  crc : Nat
  compressed : Nat
  uncompressed : Nat
  name : Bytes
  extra : Bytes

def localSig : Bytes := [0x50, 0x4B, 0x03, 0x04]

def LocalHeader.encode (h : LocalHeader) : Bytes :=
  List.flatten [localSig, leBytes 2 h.version, leBytes 2 h.flags, leBytes 2 h.method,
    leBytes 2 h.time, leBytes 2 h.date, leBytes 4 h.crc, leBytes 4 h.compressed,
    leBytes 4 h.uncompressed, leBytes 2 h.name.length, leBytes 2 h.extra.length, h.name, h.extra]

/-- What a reader takes from a local file header. -/
structure LocalEntry where
  name : Bytes
  crc : Nat
  uncompressed : Nat
  compressed : Nat
  deriving DecidableEq, Repr

/-- The fixed fields, and the extra fields that follow the name. -/
def readLocalFixed : Reader (LocalEntry × Bytes) := do
  expect localSig
  let _version ← uint 2
  let _flags ← uint 2
  let _method ← uint 2
  let _time ← uint 2
  let _date ← uint 2
  let crc ← uint 4
  let compressed ← uint 4
  let uncompressed ← uint 4
  let nameLen ← uint 2
  let extraLen ← uint 2
  let name ← bytes nameLen
  let extra ← bytes extraLen
  return (⟨name, crc, uncompressed, compressed⟩, extra)

def LocalEntry.resolve (e : LocalEntry) (extra : Bytes) : Option LocalEntry :=
  (Wide.resolve ⟨e.uncompressed, e.compressed, 0⟩ extra).map fun f =>
    { e with uncompressed := f.uncompressed, compressed := f.compressed }

def readLocal : Reader LocalEntry := do
  let (e, extra) ← readLocalFixed
  match e.resolve extra with
  | some e => return e
  | none => failure

theorem LocalHeader.length_encode (h : LocalHeader) :
    h.encode.length = 30 + h.name.length + h.extra.length := by
  simp [encode, localSig]; omega

/-- The header's fixed fields as its bytes hold them. -/
def LocalHeader.fixed (h : LocalHeader) : LocalEntry :=
  ⟨h.name, h.crc % 2 ^ 32, h.uncompressed % 2 ^ 32, h.compressed % 2 ^ 32⟩

theorem readLocalFixed_encode {h : LocalHeader} (hn : h.name.length < 2 ^ 16)
    (he : h.extra.length < 2 ^ 16) : Reads readLocalFixed h.encode (h.fixed, h.extra) := by
  simp only [LocalHeader.encode, List.flatten_cons, List.flatten_nil]
  refine .bind (.expect _) (.bind .uint (.bind .uint (.bind .uint (.bind .uint
    (.bind .uint (.bind .uint (.bind .uint (.bind .uint ?_))))))))
  refine .bind (.uint_of_lt (by simpa using hn)) (.bind (.uint_of_lt (by simpa using he))
    (.bind (.bytes rfl) (.bind (.bytes rfl) ?_)))
  exact .pure _

theorem readLocal_encode {h : LocalHeader} {e : LocalEntry} (hn : h.name.length < 2 ^ 16)
    (he : h.extra.length < 2 ^ 16) (hr : h.fixed.resolve h.extra = some e) :
    Reads readLocal h.encode e := by
  refine .bind_nil (readLocalFixed_encode hn he) ?_
  simp only [hr]
  exact .pure e

/-! ## The central directory file header -/

structure CentralHeader where
  madeBy : Nat
  version : Nat
  flags : Nat
  method : Nat
  time : Nat
  date : Nat
  crc : Nat
  compressed : Nat
  uncompressed : Nat
  disk : Nat
  internal : Nat
  external : Nat
  offset : Nat
  name : Bytes
  extra : Bytes
  comment : Bytes

def centralSig : Bytes := [0x50, 0x4B, 0x01, 0x02]

def CentralHeader.encode (h : CentralHeader) : Bytes :=
  List.flatten [centralSig, leBytes 2 h.madeBy, leBytes 2 h.version, leBytes 2 h.flags,
    leBytes 2 h.method, leBytes 2 h.time, leBytes 2 h.date, leBytes 4 h.crc,
    leBytes 4 h.compressed, leBytes 4 h.uncompressed, leBytes 2 h.name.length,
    leBytes 2 h.extra.length, leBytes 2 h.comment.length, leBytes 2 h.disk, leBytes 2 h.internal,
    leBytes 4 h.external, leBytes 4 h.offset, h.name, h.extra, h.comment]

/-- What a reader takes from a central directory file header. -/
structure CentralEntry where
  name : Bytes
  crc : Nat
  uncompressed : Nat
  compressed : Nat
  offset : Nat
  deriving DecidableEq, Repr

/-- The fixed fields, and the extra fields that follow the name. -/
def readCentralFixed : Reader (CentralEntry × Bytes) := do
  expect centralSig
  let _madeBy ← uint 2
  let _version ← uint 2
  let _flags ← uint 2
  let _method ← uint 2
  let _time ← uint 2
  let _date ← uint 2
  let crc ← uint 4
  let compressed ← uint 4
  let uncompressed ← uint 4
  let nameLen ← uint 2
  let extraLen ← uint 2
  let commentLen ← uint 2
  let _disk ← uint 2
  let _internal ← uint 2
  let _external ← uint 4
  let offset ← uint 4
  let name ← bytes nameLen
  let extra ← bytes extraLen
  let _comment ← bytes commentLen
  return (⟨name, crc, uncompressed, compressed, offset⟩, extra)

def CentralEntry.resolve (e : CentralEntry) (extra : Bytes) : Option CentralEntry :=
  (Wide.resolve ⟨e.uncompressed, e.compressed, e.offset⟩ extra).map fun f =>
    { e with uncompressed := f.uncompressed, compressed := f.compressed, offset := f.offset }

def readCentral : Reader CentralEntry := do
  let (e, extra) ← readCentralFixed
  match e.resolve extra with
  | some e => return e
  | none => failure

theorem CentralHeader.length_encode (h : CentralHeader) :
    h.encode.length = 46 + h.name.length + h.extra.length + h.comment.length := by
  simp [encode, centralSig]; omega

section Central

variable {h : CentralHeader} (hn : h.name.length < 2 ^ 16) (he : h.extra.length < 2 ^ 16)
  (hc : h.comment.length < 2 ^ 16)

/-- The header's fixed fields as its bytes hold them. -/
def CentralHeader.fixed (h : CentralHeader) : CentralEntry :=
  ⟨h.name, h.crc % 2 ^ 32, h.uncompressed % 2 ^ 32, h.compressed % 2 ^ 32, h.offset % 2 ^ 32⟩

include hn he hc

theorem readCentralFixed_encode : Reads readCentralFixed h.encode (h.fixed, h.extra) := by
  simp only [CentralHeader.encode, List.flatten_cons, List.flatten_nil]
  refine .bind (.expect _) (.bind .uint (.bind .uint (.bind .uint (.bind .uint
    (.bind .uint (.bind .uint (.bind .uint (.bind .uint (.bind .uint ?_)))))))))
  refine .bind (.uint_of_lt (by simpa using hn)) (.bind (.uint_of_lt (by simpa using he))
    (.bind (.uint_of_lt (by simpa using hc)) (.bind .uint (.bind .uint (.bind .uint
    (.bind .uint (.bind (.bytes rfl) (.bind (.bytes rfl) (.bind (.bytes rfl) ?_)))))))))
  exact .pure _

theorem readCentral_encode {e : CentralEntry} (hr : h.fixed.resolve h.extra = some e) :
    Reads readCentral h.encode e := by
  refine .bind_nil (readCentralFixed_encode hn he hc) ?_
  simp only [hr]
  exact .pure e

/-- A header whose extra field is too short for its all-ones fields is not readable. -/
theorem readCentral_encode_none (hr : h.fixed.resolve h.extra = none) (rest : Bytes) :
    readCentral.run (h.encode ++ rest) = none := by
  rw [readCentral, StateT.run_bind, readCentralFixed_encode hn he hc]
  simp [hr]

/-- A header is read as its resolved fields, or not at all. -/
theorem run_readCentral_encode (rest : Bytes) : readCentral.run (h.encode ++ rest) =
    (h.fixed.resolve h.extra).map fun e => (e, rest) := by
  cases hr : h.fixed.resolve h.extra with
  | none => exact readCentral_encode_none hn he hc hr rest
  | some e => exact readCentral_encode hn he hc hr rest

end Central

/-! ## The end records -/

/-- The classic end record, and the ZIP64 one with its wider fields. -/
structure EndHeader where
  disk : Nat
  cdDisk : Nat
  diskCount : Nat
  count : Nat
  cdSize : Nat
  cdOffset : Nat

def endSig : Bytes := [0x50, 0x4B, 0x05, 0x06]

def zip64EndSig : Bytes := [0x50, 0x4B, 0x06, 0x06]

def locatorSig : Bytes := [0x50, 0x4B, 0x06, 0x07]

/-- The end record without a comment. -/
def EndHeader.encode (h : EndHeader) : Bytes :=
  List.flatten [endSig, leBytes 2 h.disk, leBytes 2 h.cdDisk, leBytes 2 h.diskCount,
    leBytes 2 h.count, leBytes 4 h.cdSize, leBytes 4 h.cdOffset, leBytes 2 0]

/-- The ZIP64 end record without extensible data. -/
def EndHeader.encode64 (h : EndHeader) (madeBy version : Nat) : Bytes :=
  List.flatten [zip64EndSig, leBytes 8 44, leBytes 2 madeBy, leBytes 2 version, leBytes 4 h.disk,
    leBytes 4 h.cdDisk, leBytes 8 h.diskCount, leBytes 8 h.count, leBytes 8 h.cdSize,
    leBytes 8 h.cdOffset]

/-- The locator of a ZIP64 end record at `offset`. -/
def encodeLocator (disk offset disks : Nat) : Bytes :=
  List.flatten [locatorSig, leBytes 4 disk, leBytes 8 offset, leBytes 4 disks]

@[simp] theorem EndHeader.length_encode (h : EndHeader) : h.encode.length = 22 := by
  simp [encode, endSig]

@[simp] theorem EndHeader.length_encode64 (h : EndHeader) (madeBy version : Nat) :
    (h.encode64 madeBy version).length = 56 := by
  simp [encode64, zip64EndSig]

@[simp] theorem length_encodeLocator (disk offset disks : Nat) :
    (encodeLocator disk offset disks).length = 20 := by
  simp [encodeLocator, locatorSig]

/-- What a reader takes from the end records. -/
structure EndEntry where
  count : Nat
  cdSize : Nat
  cdOffset : Nat
  deriving DecidableEq, Repr

def readEndHeader : Reader EndEntry := do
  expect endSig
  let _disk ← uint 2
  let _cdDisk ← uint 2
  let _diskCount ← uint 2
  let count ← uint 2
  let cdSize ← uint 4
  let cdOffset ← uint 4
  let _commentLen ← uint 2
  return ⟨count, cdSize, cdOffset⟩

def readZip64End : Reader EndEntry := do
  expect zip64EndSig
  let _size ← uint 8
  let _madeBy ← uint 2
  let _version ← uint 2
  let _disk ← uint 4
  let _cdDisk ← uint 4
  let _diskCount ← uint 8
  let count ← uint 8
  let cdSize ← uint 8
  let cdOffset ← uint 8
  return ⟨count, cdSize, cdOffset⟩

/-- The ZIP64 value `z` of a field of `w` bytes that holds `v`. -/
def sentinel (w v z : Nat) : Nat := if v = ones w then z else v

/-- A field that is capped at its sentinel gives the wide field's value. -/
theorem sentinel_min {w cap n : Nat} (hw : ones w = cap) (hn : cap < n) (v : Nat) :
    sentinel w (min v cap % n) v = v := by
  have hlt : min v cap < n := Nat.lt_of_le_of_lt (Nat.min_le_right _ _) hn
  unfold sentinel
  rw [Nat.mod_eq_of_lt hlt, hw]
  split <;> omega

/-- A ZIP64 locator directly precedes the last 22 bytes. -/
def hasLocator (bs : Bytes) : Bool :=
  decide (42 ≤ bs.length) && (bs.drop (bs.length - 42)).take 4 == locatorSig

/-- The values of the end records at the end of `bs`. -/
def readEnd (bs : Bytes) : Option EndEntry := do
  let (e, _) ← readEndHeader.run (bs.drop (bs.length - 22))
  if hasLocator bs then
    let (z, _) ← readZip64End.run (bs.drop (bs.length - 98))
    return ⟨sentinel 2 e.count z.count, sentinel 4 e.cdSize z.cdSize,
      sentinel 4 e.cdOffset z.cdOffset⟩
  else return e

/-- The end record's values as its fixed fields hold them. -/
def EndHeader.entry (h : EndHeader) : EndEntry :=
  ⟨h.count % 2 ^ 16, h.cdSize % 2 ^ 32, h.cdOffset % 2 ^ 32⟩

theorem readEndHeader_encode (h : EndHeader) : Reads readEndHeader h.encode h.entry := by
  simp only [EndHeader.encode, List.flatten_cons, List.flatten_nil]
  refine .bind (.expect _) (.bind .uint (.bind .uint (.bind .uint (.bind .uint (.bind .uint
    (.bind .uint (.bind .uint ?_)))))))
  exact .pure _

theorem readZip64End_encode64 (h : EndHeader) (madeBy version : Nat) :
    Reads readZip64End (h.encode64 madeBy version)
      ⟨h.count % 2 ^ 64, h.cdSize % 2 ^ 64, h.cdOffset % 2 ^ 64⟩ := by
  simp only [EndHeader.encode64, List.flatten_cons, List.flatten_nil]
  refine .bind (.expect _) (.bind .uint (.bind .uint (.bind .uint (.bind .uint (.bind .uint
    (.bind .uint (.bind .uint (.bind .uint (.bind .uint ?_)))))))))
  exact .pure _

/-- A classic end record alone is read literally. -/
theorem readEnd_classic (h : EndHeader) : readEnd h.encode = some h.entry := by
  have hl : hasLocator h.encode = false := by simp [hasLocator]
  simp [readEnd, hl, (readEndHeader_encode h).run_eq]

/-- Sentinel fields of an end record after a locator are taken from the ZIP64 end record. -/
theorem readEnd_zip64 (h h' : EndHeader) (madeBy version disk offset disks : Nat) :
    readEnd (h'.encode64 madeBy version ++ encodeLocator disk offset disks ++ h.encode) =
      some ⟨sentinel 2 (h.count % 2 ^ 16) (h'.count % 2 ^ 64),
        sentinel 4 (h.cdSize % 2 ^ 32) (h'.cdSize % 2 ^ 64),
        sentinel 4 (h.cdOffset % 2 ^ 32) (h'.cdOffset % 2 ^ 64)⟩ := by
  generalize hbs : h'.encode64 madeBy version ++ encodeLocator disk offset disks ++ h.encode = bs
  have hlen : bs.length = 98 := by simp [← hbs]
  have hlast : bs.drop (bs.length - 22) = h.encode := by
    rw [hlen, ← hbs]; exact List.drop_left' (by simp)
  have hloc : hasLocator bs = true := by
    rw [hasLocator, hlen, ← hbs]
    simp [encodeLocator, locatorSig]
  have hz := readZip64End_encode64 h' madeBy version
    (encodeLocator disk offset disks ++ h.encode)
  rw [← List.append_assoc, hbs] at hz
  rw [readEnd, hlast, (readEndHeader_encode h).run_eq, hlen]
  simp [hloc, hz, EndHeader.entry]

end S3Archive.Zip
