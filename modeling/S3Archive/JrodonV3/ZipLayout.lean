import Mathlib.Data.List.Sort
import S3Archive.Base.Greedy
import S3Archive.JrodonV3.ZipFormat

/-!
# jrodon-v3: layout planning

`ZipLayout.from_files_info` and its four passes (`pass1` .. `pass4`) over the
files sorted by size. The queue of files is a list, its front the smallest file.
Each pass returns the parts and the files that it leaves in the queue. The
`while missing > 0` loops of passes 2 to 4 are `drain`.
-/

namespace S3Archive.JrodonV3

/-- `MIN_PART_SIZE`: the minimum size of a non-final part of a multipart upload. -/
def minPartSize : Nat := 5 * 1024 * 1024

/-- `TARGET_PART_SIZE`. -/
def targetPartSize : Nat := 10 * 1024 * 1024

structure FileInfo where
  name : Bytes
  bucketName : Bytes
  key : Bytes
  size : Nat
  deriving DecidableEq, Repr

/-! ## File entries -/

/-- The newtype `FileEntry` adds only its size helpers. -/
abbrev FileEntry := FileInfo

namespace FileEntry

def fileSize (f : FileEntry) : Nat := f.size

def locSize (f : FileEntry) : Nat := LocalFileHeader.predictSize f.fileSize f.name.length

def entrySize (f : FileEntry) : Nat := f.locSize + f.size

theorem locSize_pos (f : FileEntry) : 0 < f.locSize := by
  unfold locSize LocalFileHeader.predictSize LocalFileHeader.baseLocLength
  split <;> omega

theorem entrySize_pos (f : FileEntry) : 0 < f.entrySize :=
  Nat.lt_of_lt_of_le f.locSize_pos (Nat.le_add_right _ _)

end FileEntry

open FileEntry

/-! ## Parts of the layout -/

/-- A `RegularZipPart`: the files of one upload buffer. -/
abbrev RegularZipPart := List FileEntry

def RegularZipPart.partSize (r : RegularZipPart) : Nat := (r.map entrySize).sum

inductive CopyZipPart where
  | fullCopy (fileEntry : FileEntry)
  | partialCopy (fileEntry : FileEntry) (copyStartByte : Nat)
  deriving DecidableEq, Repr

inductive ZipLayoutPart where
  | single (regular : RegularZipPart)
  | duo (regular : RegularZipPart) (copy : CopyZipPart)
  deriving DecidableEq, Repr

open RegularZipPart (partSize)

/-! ## Pass 1 -/

/-- The bytes that the regular half must contribute so that the copy half can keep
`MIN_PART_SIZE` for itself. -/
def minMissingRegularPartSize (big : FileEntry) : Nat :=
  minPartSize - big.locSize - (big.fileSize - minPartSize)

/-- The bytes of the copied file that pad a regular half. -/
def copyStartByte (regular : RegularZipPart) (big : FileEntry) : Nat :=
  minPartSize - partSize regular - big.locSize

/-- A finished Duo of pass 1. -/
def newDuo (regular : RegularZipPart) (big : FileEntry) : ZipLayoutPart :=
  .duo regular
    (if copyStartByte regular big > 0 then .partialCopy big (copyStartByte regular big)
    else .fullCopy big)

/-- The inner loop of pass 1: fill the regular half of `big` from the front of the queue. -/
def fillRegular (big : FileEntry) (regular : RegularZipPart) :
    List FileEntry → ZipLayoutPart × List FileEntry
  | [] =>
    if partSize regular ≥ minMissingRegularPartSize big then (newDuo regular big, [])
    else (.single (regular ++ [big]), [])
  | small :: entries =>
    if partSize regular ≥ minMissingRegularPartSize big then (newDuo regular big, small :: entries)
    else fillRegular big (regular ++ [small]) entries

theorem length_fillRegular_le (big : FileEntry) (regular : RegularZipPart)
    (entries : List FileEntry) : (fillRegular big regular entries).2.length ≤ entries.length := by
  induction entries generalizing regular with
  | nil => unfold fillRegular; split <;> exact Nat.le_refl _
  | cons small entries ih =>
    unfold fillRegular
    split
    · exact Nat.le_refl _
    · exact Nat.le_succ_of_le (ih _)

/-- Pass 1: pair each large file, largest first, with enough small files. -/
def pass1 (entries : List FileEntry) : List ZipLayoutPart × List FileEntry :=
  match _hbig : entries.getLast? with
  | none => ([], [])
  | some big =>
    if big.fileSize ≥ minPartSize then
      let r := fillRegular big [] entries.dropLast
      let (parts, rest) := pass1 r.2
      (r.1 :: parts, rest)
    else ([], entries)
termination_by entries.length
decreasing_by
  have hne : entries ≠ [] := by rintro rfl; cases _hbig
  have hpos := List.length_pos_iff.2 hne
  have hle := length_fillRegular_le big [] entries.dropLast
  rw [List.length_dropLast] at hle
  omega

/-! ## Passes 2 to 4 -/

/-- Pass 2: absorb small files into each `PartialCopy` until it is a `FullCopy`. The pass stops
(`break 'outer`) when the queue is empty. -/
def pass2 : List ZipLayoutPart → List FileEntry → List ZipLayoutPart × List FileEntry
  | [], entries => ([], entries)
  | .duo regular (.partialCopy f copyStartByte) :: parts, entries =>
    let d := drain entrySize copyStartByte entries
    if d.need > 0 then (.duo (regular ++ d.taken) (.partialCopy f d.need) :: parts, d.rest)
    else
      let r := pass2 parts d.rest
      (.duo (regular ++ d.taken) (.fullCopy f) :: r.1, r.2)
  | part :: parts, entries =>
    let r := pass2 parts entries
    (part :: r.1, r.2)

/-- Pass 3: top up each Duo's regular half toward `TARGET_PART_SIZE`. -/
def pass3 : List ZipLayoutPart → List FileEntry → List ZipLayoutPart × List FileEntry
  | [], entries => ([], entries)
  | .duo regular copy :: parts, entries =>
    let d := drain entrySize (targetPartSize - partSize regular) entries
    if d.need > 0 then (.duo (regular ++ d.taken) copy :: parts, d.rest)
    else
      let r := pass3 parts d.rest
      (.duo (regular ++ d.taken) copy :: r.1, r.2)
  | .single regular :: parts, entries =>
    let r := pass3 parts entries
    (.single regular :: r.1, r.2)

/-- Pass 4: pack the remaining files into `Single` parts. -/
def pass4 (entries : List FileEntry) : List ZipLayoutPart :=
  match _hq : entries with
  | [] => []
  | _ :: _ =>
    let d := drain entrySize targetPartSize entries
    .single d.taken :: pass4 d.rest
termination_by entries.length
decreasing_by
  subst _hq
  exact drain_rest_length_lt (by decide) (List.cons_ne_nil _ _)

/-! ## The layout -/

/-- The queue of pass 1: a stable sort, smallest file first. -/
def sortBySize (files : List FileInfo) : List FileEntry :=
  files.insertionSort fun a b => a.size ≤ b.size

/-- The parts after pass 3, and the files that pass 4 starts from. -/
def beforePass4 (files : List FileInfo) : List ZipLayoutPart × List FileEntry :=
  let p1 := pass1 (sortBySize files)
  let p2 := pass2 p1.1 p1.2
  pass3 p2.1 p2.2

/-- `ZipLayout::from_files_info`. -/
def fromFilesInfo (files : List FileInfo) : List ZipLayoutPart :=
  (beforePass4 files).1 ++ pass4 (beforePass4 files).2

end S3Archive.JrodonV3
