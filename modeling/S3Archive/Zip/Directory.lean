import S3Archive.Zip.Record
import S3Archive.Base.Offsets

/-!
# Reading a whole archive

`readEnds` finds the end record at the end of an archive and resolves its
all-ones fields through the ZIP64 end record, which it takes to be present when
the directory of the literal fields does not end at the end record;
`readZip64Ends` always goes through the locator. `readDirectory` reads the
central directory they name. `readStored` and `readStreamed` read one entry: a
local header, the body, and for a streamed entry the data descriptor.
-/

namespace S3Archive.Zip

open Reader (uint bytes expect many)

/-! ## The end records of an archive -/

/-- The position of the ZIP64 end record. -/
def readLocator : Reader Nat := do
  expect locatorSig
  let _disk ← uint 4
  let offset ← uint 8
  let _disks ← uint 4
  return offset

theorem readLocator_encode (disk disks : Nat) {offset : Nat} (h : offset < 2 ^ 64) :
    Reads readLocator (encodeLocator disk offset disks) offset := by
  simp only [encodeLocator, List.flatten_cons, List.flatten_nil]
  refine .bind (.expect _) (.bind .uint (.bind (.uint_of_lt (by simpa using h)) (.bind .uint ?_)))
  exact .pure _

/-- The fixed fields of the end record in the last 22 bytes. -/
def readEndFixed (bs : Bytes) : Option EndEntry :=
  (readEndHeader.run (bs.drop (bs.length - 22))).map Prod.fst

/-- The end records through the locator before the end record: where the ZIP64 end record is,
and the values. -/
def readZip64Ends (bs : Bytes) : Option (Nat × EndEntry) := do
  let e ← readEndFixed bs
  let (offset, _) ← readLocator.run (bs.drop (bs.length - 42))
  let (z, _) ← readZip64End.run (bs.drop offset)
  return (offset, ⟨sentinel 2 e.count z.count, sentinel 4 e.cdSize z.cdSize,
    sentinel 4 e.cdOffset z.cdOffset⟩)

/-- The end records, with the ZIP64 ones when the directory does not end at the end record. -/
def readEnds (bs : Bytes) : Option EndEntry := do
  let e ← readEndFixed bs
  if e.cdOffset + e.cdSize + 22 = bs.length then return e
  else
    let (_, e) ← readZip64Ends bs
    return e

theorem readEndFixed_append (pre : Bytes) (h : EndHeader) :
    readEndFixed (pre ++ h.encode) = some h.entry := by
  have hdrop : (pre ++ h.encode).drop ((pre ++ h.encode).length - 22) = h.encode := by
    refine List.drop_left' ?_
    rw [List.length_append, EndHeader.length_encode]
    omega
  rw [readEndFixed, hdrop, (readEndHeader_encode h).run_eq]
  rfl

/-- Records that stand after `pre`, with the locator naming the end of `pre`. -/
theorem readZip64Ends_append (pre : Bytes) (h h' : EndHeader) (madeBy version disk disks : Nat)
    (hpre : pre.length < 2 ^ 64) :
    readZip64Ends (pre ++ (h'.encode64 madeBy version ++ encodeLocator disk pre.length disks ++
        h.encode)) =
      some (pre.length, ⟨sentinel 2 (h.count % 2 ^ 16) (h'.count % 2 ^ 64),
        sentinel 4 (h.cdSize % 2 ^ 32) (h'.cdSize % 2 ^ 64),
        sentinel 4 (h.cdOffset % 2 ^ 32) (h'.cdOffset % 2 ^ 64)⟩) := by
  generalize hbs : pre ++ (h'.encode64 madeBy version ++ encodeLocator disk pre.length disks ++
    h.encode) = bs
  have hlen : bs.length = pre.length + 98 := by simp [← hbs]
  have hfixed : readEndFixed bs = some h.entry := by
    rw [← hbs, ← List.append_assoc]
    exact readEndFixed_append _ h
  have hloc : bs.drop (bs.length - 42) = encodeLocator disk pre.length disks ++ h.encode := by
    rw [hlen, ← hbs, List.append_assoc, ← List.append_assoc]
    refine List.drop_left' ?_
    rw [List.length_append, EndHeader.length_encode64]
    omega
  have hz : bs.drop pre.length = h'.encode64 madeBy version ++
      (encodeLocator disk pre.length disks ++ h.encode) := by
    rw [← hbs, List.drop_left, List.append_assoc]
  simp only [readZip64Ends, hfixed, hloc, readLocator_encode disk disks hpre _, hz,
    readZip64End_encode64 h' madeBy version _, Option.bind_eq_bind, Option.bind_some]
  rfl

/-- An end record whose literal fields describe the directory before it. -/
theorem readEnds_literal {pre : Bytes} {h : EndHeader}
    (hdir : h.entry.cdOffset + h.entry.cdSize = pre.length) :
    readEnds (pre ++ h.encode) = some h.entry := by
  have hlen : h.entry.cdOffset + h.entry.cdSize + 22 = (pre ++ h.encode).length := by
    rw [hdir, List.length_append, EndHeader.length_encode]
  simp only [readEnds, readEndFixed_append, Option.bind_eq_bind, Option.bind_some, hlen, if_true]
  rfl

/-- An end record whose fields are capped, after the ZIP64 records that hold the values. -/
theorem readEnds_capped {pre : Bytes} {count cdSize cdOffset : Nat} (madeBy version : Nat)
    (hpre : pre.length = cdOffset + cdSize) (hlen : pre.length < 2 ^ 64) (hcount : count < 2 ^ 64) :
    readEnds (pre ++ (EndHeader.encode64 ⟨0, 0, count, count, cdSize, cdOffset⟩ madeBy version ++
        encodeLocator 0 (cdOffset + cdSize) 1 ++
        EndHeader.encode ⟨0, 0, min count (ones 2), min count (ones 2), min cdSize (ones 4),
          min cdOffset (ones 4)⟩)) =
      some ⟨count, cdSize, cdOffset⟩ := by
  generalize hh : (⟨0, 0, min count (ones 2), min count (ones 2), min cdSize (ones 4),
    min cdOffset (ones 4)⟩ : EndHeader) = h
  generalize hbs : pre ++ (EndHeader.encode64 ⟨0, 0, count, count, cdSize, cdOffset⟩ madeBy version ++
    encodeLocator 0 (cdOffset + cdSize) 1 ++ h.encode) = bs
  have hends := readZip64Ends_append pre h ⟨0, 0, count, count, cdSize, cdOffset⟩ madeBy version
    0 1 hlen
  have hfixed : readEndFixed bs = some h.entry := by
    rw [← hbs, ← List.append_assoc]
    exact readEndFixed_append _ h
  have hlong : bs.length = cdOffset + cdSize + 98 := by simp [← hbs, hpre]
  have hne : ¬ h.entry.cdOffset + h.entry.cdSize + 22 = bs.length := by
    -- the capped fields are at most the actual ones
    have h₁ : h.entry.cdOffset ≤ cdOffset := by
      rw [← hh]
      exact Nat.le_trans (Nat.mod_le _ _) (Nat.min_le_left _ _)
    have h₂ : h.entry.cdSize ≤ cdSize := by
      rw [← hh]
      exact Nat.le_trans (Nat.mod_le _ _) (Nat.min_le_left _ _)
    omega
  rw [hpre, hbs] at hends
  rw [hpre] at hlen
  have hoff : cdOffset < 2 ^ 64 := by omega
  have hsize : cdSize < 2 ^ 64 := by omega
  rw [readEnds, hfixed, Option.bind_eq_bind, Option.bind_some, if_neg hne, hends,
    Option.bind_eq_bind, Option.bind_some, ← hh]
  dsimp only
  rw [Nat.mod_eq_of_lt hcount, Nat.mod_eq_of_lt hoff, Nat.mod_eq_of_lt hsize,
    sentinel_min rfl (by decide), sentinel_min rfl (by decide), sentinel_min rfl (by decide)]
  rfl

/-- An end record of all ones, after the ZIP64 records that hold the values. -/
theorem readEnds_ones {pre : Bytes} (h : EndHeader) (madeBy version disk disks : Nat)
    (hpre : pre.length < 2 ^ 64) (hne : pre.length + 98 ≠ ones 4 + ones 4 + 22) :
    readEnds (pre ++ (h.encode64 madeBy version ++ encodeLocator disk pre.length disks ++
        EndHeader.encode ⟨ones 2, ones 2, ones 2, ones 2, ones 4, ones 4⟩)) =
      some ⟨h.count % 2 ^ 64, h.cdSize % 2 ^ 64, h.cdOffset % 2 ^ 64⟩ := by
  generalize hh : (⟨ones 2, ones 2, ones 2, ones 2, ones 4, ones 4⟩ : EndHeader) = e
  have hends := readZip64Ends_append pre e h madeBy version disk disks hpre
  generalize hbs : pre ++ (h.encode64 madeBy version ++ encodeLocator disk pre.length disks ++
    e.encode) = bs at hends ⊢
  have hlong : bs.length = pre.length + 98 := by simp [← hbs]
  have hfixed : readEndFixed bs = some e.entry := by
    rw [← hbs, ← List.append_assoc]
    exact readEndFixed_append _ e
  have hlen : ¬ e.entry.cdOffset + e.entry.cdSize + 22 = bs.length := by
    rw [hlong, ← hh]
    exact Ne.symm hne
  rw [readEnds, hfixed, Option.bind_eq_bind, Option.bind_some, if_neg hlen, hends,
    Option.bind_eq_bind, Option.bind_some, ← hh]
  rfl

/-! ## The central directory -/

/-- The records of the directory that `e` names; they must fill it. -/
def readDirectory (bs : Bytes) (e : EndEntry) : Option (List CentralEntry) := do
  let (entries, rest) ← (many readCentral e.count).run ((bs.drop e.cdOffset).take e.cdSize)
  if rest = [] then return entries else none

section

variable {ι : Type} {enc : ι → Bytes} {val : ι → CentralEntry} {is : List ι} {bs : Bytes}
  {off : Nat} (hat : At bs off (is.flatMap enc))

include hat

theorem readDirectory_at (h : ∀ i ∈ is, Reads readCentral (enc i) (val i)) :
    readDirectory bs ⟨is.length, (is.flatMap enc).length, off⟩ = some (is.map val) := by
  simp only [readDirectory, hat.take_drop, (Reads.many h).run_eq, Option.bind_eq_bind,
    Option.bind_some]
  rfl

/-- A directory is read record by record. -/
theorem readDirectory_at_eq {val : ι → Option CentralEntry}
    (h : ∀ i ∈ is, ∀ rest, readCentral.run (enc i ++ rest) = (val i).map fun x => (x, rest)) :
    readDirectory bs ⟨is.length, (is.flatMap enc).length, off⟩ = is.mapM val := by
  have hrun := Reads.run_many h []
  rw [List.append_nil] at hrun
  simp only [readDirectory, hat.take_drop, hrun, Option.bind_eq_bind]
  cases is.mapM val <;> rfl

/-- A directory with more records than its end record counts is not read. -/
theorem readDirectory_at_short {k : Nat} (hk : k < is.length) (hpos : ∀ i ∈ is, enc i ≠ [])
    (h : ∀ i ∈ is, Reads readCentral (enc i) (val i)) :
    readDirectory bs ⟨k, (is.flatMap enc).length, off⟩ = none := by
  have hcut : is.flatMap enc = (is.take k).flatMap enc ++ (is.drop k).flatMap enc := by
    rw [← List.flatMap_append, List.take_append_drop]
  have hmany : Reads (many readCentral (is.take k).length) ((is.take k).flatMap enc)
      ((is.take k).map val) := .many fun i hi => h i (List.mem_of_mem_take hi)
  have hread := hmany ((is.drop k).flatMap enc)
  rw [← hcut, List.length_take, Nat.min_eq_left (Nat.le_of_lt hk)] at hread
  have hrest : (is.drop k).flatMap enc ≠ [] := by
    rw [List.drop_eq_getElem_cons hk, List.flatMap_cons]
    exact List.append_ne_nil_of_left_ne_nil (hpos _ (List.getElem_mem hk)) _
  simp only [readDirectory, hat.take_drop, hread, Option.bind_eq_bind, Option.bind_some,
    if_neg hrest]

/-- A directory with an unreadable record is not read. -/
theorem readDirectory_at_none {bad : ι → Prop}
    (hgood : ∀ i ∈ is, ¬ bad i → Reads readCentral (enc i) (val i))
    (hbad : ∀ i ∈ is, bad i → ∀ rest, readCentral.run (enc i ++ rest) = none)
    (hex : ∃ i ∈ is, bad i) :
    readDirectory bs ⟨is.length, (is.flatMap enc).length, off⟩ = none := by
  have hnone := Reads.many_none hgood hbad hex []
  rw [List.append_nil] at hnone
  simp only [readDirectory, hat.take_drop, hnone, Option.bind_eq_bind, Option.bind_none]

end

/-! ## Entries -/

/-- A local header and the body it announces. -/
def readStored : Reader (LocalEntry × Bytes) := do
  let e ← readLocal
  let body ← bytes e.compressed
  return (e, body)

/-- A data descriptor with a signature and eight-byte sizes. -/
structure Descriptor where
  crc : Nat
  compressed : Nat
  uncompressed : Nat
  deriving DecidableEq, Repr

def descriptorSig : Bytes := [0x50, 0x4B, 0x07, 0x08]

def Descriptor.encode (d : Descriptor) : Bytes :=
  List.flatten [descriptorSig, leBytes 4 d.crc, leBytes 8 d.compressed, leBytes 8 d.uncompressed]

@[simp] theorem Descriptor.length_encode (d : Descriptor) : d.encode.length = 24 := by
  simp [encode, descriptorSig]

def readDescriptor : Reader Descriptor := do
  expect descriptorSig
  let crc ← uint 4
  let compressed ← uint 8
  let uncompressed ← uint 8
  return ⟨crc, compressed, uncompressed⟩

theorem readDescriptor_encode {d : Descriptor} (hcrc : d.crc < 2 ^ 32)
    (hc : d.compressed < 2 ^ 64) (hu : d.uncompressed < 2 ^ 64) :
    Reads readDescriptor d.encode d := by
  simp only [Descriptor.encode, List.flatten_cons, List.flatten_nil]
  refine .bind (.expect _) (.bind (.uint_of_lt (by simpa using hcrc))
    (.bind (.uint_of_lt (by simpa using hc)) (.bind (.uint_of_lt (by simpa using hu)) ?_)))
  exact .pure _

/-- A local header without sizes, a body of `size` bytes and the data descriptor. -/
def readStreamed (size : Nat) : Reader (LocalEntry × Bytes × Descriptor) := do
  let e ← readLocal
  let body ← bytes size
  let d ← readDescriptor
  return (e, body, d)

theorem readStored_append {e : LocalEntry} {enc body : Bytes} (h : Reads readLocal enc e)
    (hbody : body.length = e.compressed) : Reads readStored (enc ++ body) (e, body) :=
  .bind h (.bind_nil (.bytes hbody) (.pure _))

theorem readStreamed_append {e : LocalEntry} {d : Descriptor} {enc body denc : Bytes}
    (h : Reads readLocal enc e) (hd : Reads readDescriptor denc d) :
    Reads (readStreamed body.length) (enc ++ (body ++ denc)) (e, body, d) :=
  .bind h (.bind (.bytes rfl) (.bind_nil hd (.pure _)))

/-- All entries of an archive: the directory record, the local header and the body. -/
def readArchive (bs : Bytes) : Option (List (CentralEntry × LocalEntry × Bytes)) := do
  let e ← readEnds bs
  let entries ← readDirectory bs e
  entries.mapM fun c => do
    let (stored, _) ← readStored.run (bs.drop c.offset)
    return (c, stored)

/-- What `r` reads at a position where it finds `enc`. -/
theorem reads_at {α : Type} {r : Reader α} {enc bs : Bytes} {x : α} {off : Nat}
    (h : Reads r enc x) (hat : At bs off enc) : (r.run (bs.drop off)).map Prod.fst = some x := by
  obtain ⟨pre, post, rfl, rfl⟩ := hat
  rw [List.append_assoc, List.drop_left, h]
  rfl

end S3Archive.Zip
