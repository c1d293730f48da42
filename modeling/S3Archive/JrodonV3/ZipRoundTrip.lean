import S3Archive.JrodonV3.ZipFormat

/-!
# jrodon-v3: reading the ZIP records back

A ZIP64-aware reader applied to the dumps of `S3Archive.JrodonV3.ZipFormat`. The
local file header and the end records always read back. A central directory file
header does not when its size needs the ZIP64 extra field while its offset is
exactly `u32::MAX`: the literal offset is then all ones, and the extra field
holds the two sizes only.
-/

namespace S3Archive.JrodonV3

open Zip (Wide ones)

theorem ones_four : ones 4 = u32Max := by decide

theorem ones_two : ones 2 = u16Max := by decide

theorem u32Max_mod : u32Max % 2 ^ 32 = u32Max := by decide

theorem mod_eq_of_le_u32Max {n : Nat} (h : ¬ n > u32Max) : n % 2 ^ 32 = n :=
  Nat.mod_eq_of_lt (Nat.lt_succ_of_le (Nat.le_of_not_lt h))

/-! ## Local file header -/

namespace LocalFileHeader

/-- Reading the dump gives the name, the size and the CRC, and consumes exactly the dump. -/
def ReadsBack (h : LocalFileHeader CRC32) : Prop :=
  Reads Zip.readLocal h.dump ⟨h.name, h.crc32.toNat, h.fileSize, h.fileSize⟩

theorem readsBack {h : LocalFileHeader CRC32} (hname : h.name.length ≤ u16Max)
    (hsize : h.fileSize < 2 ^ 64) : h.ReadsBack := by
  have hextra : h.record.extra.length < 2 ^ 16 := by
    rw [length_record_extra]
    split <;> decide
  have hcrc : h.crc32.toNat % 2 ^ 32 = h.crc32.toNat := Nat.mod_eq_of_lt h.crc32.toNat_lt
  unfold ReadsBack
  rw [dump_eq_encode]
  refine Zip.readLocal_encode (h := h.record) (Nat.lt_succ_of_le hname) hextra ?_
  unfold Zip.LocalEntry.resolve Zip.LocalHeader.fixed record
  by_cases hs : h.fileSize > u32Max
  · -- both sizes are sentinels and come from the extra field
    have hread : Reads (Wide.read ⟨ones 4, ones 4, 0⟩)
        (leBytes 8 h.fileSize ++ leBytes 8 h.fileSize) ⟨h.fileSize, h.fileSize, 0⟩ := by
      refine .bind (Zip.wide_ones hsize) (.bind_nil (Zip.wide_ones hsize) ?_)
      exact .bind (Zip.wide_literal (by decide)) (.pure _)
    have hres := Wide.resolve_zip64Extra (by simp) hread.run_eq
    rw [ones_four] at hres
    simp only [if_pos hs, hcrc, u32Max_mod, hres, Option.map_some]
  · have hmod := mod_eq_of_le_u32Max hs
    simp only [if_neg hs, hcrc, hmod, Wide.resolve_nil, Option.map_some]

end LocalFileHeader

/-! ## Central directory file header -/

namespace CentralDirectoryFileHeader

/-- Reading the dump gives the name, the size, the CRC and the offset, and consumes exactly
the dump. -/
def ReadsBack (h : CentralDirectoryFileHeader) : Prop :=
  Reads Zip.readCentral h.dump
    ⟨h.loc.name, h.loc.crc32.toNat, h.loc.fileSize, h.loc.fileSize, h.loc.offset⟩

section

variable {h : CentralDirectoryFileHeader}

theorem length_extra_lt (h : CentralDirectoryFileHeader) : h.record.extra.length < 2 ^ 16 := by
  rw [length_record_extra]
  repeat' split
  all_goals decide

/-- The offset is literal but reads as a sentinel that the extra field does not resolve. -/
def OffsetLost (h : CentralDirectoryFileHeader) : Prop :=
  h.loc.fileSize > u32Max ∧ h.loc.offset = u32Max

theorem resolve_record (hsize : h.loc.fileSize < 2 ^ 64) (hoff : h.loc.offset < 2 ^ 64)
    (hok : ¬ h.OffsetLost) :
    h.record.fixed.resolve h.record.extra = some
      ⟨h.loc.name, h.loc.crc32.toNat, h.loc.fileSize, h.loc.fileSize, h.loc.offset⟩ := by
  have hcrc : h.loc.crc32.toNat % 2 ^ 32 = h.loc.crc32.toNat :=
    Nat.mod_eq_of_lt h.loc.crc32.toNat_lt
  unfold Zip.CentralEntry.resolve Zip.CentralHeader.fixed record
  by_cases ho : h.loc.offset > u32Max
  · -- all three fields are sentinels
    have hread : Reads (Wide.read ⟨ones 4, ones 4, ones 4⟩)
        (leBytes 8 h.loc.fileSize ++ leBytes 8 h.loc.fileSize ++ leBytes 8 h.loc.offset)
        ⟨h.loc.fileSize, h.loc.fileSize, h.loc.offset⟩ := by
      rw [List.append_assoc]
      refine .bind (Zip.wide_ones hsize) (.bind (Zip.wide_ones hsize) ?_)
      exact .bind_nil (Zip.wide_ones hoff) (.pure _)
    have hres := Wide.resolve_zip64Extra (by simp) hread.run_eq
    rw [ones_four] at hres
    simp only [ho, true_or, if_true, hcrc, u32Max_mod, hres, Option.map_some]
  · have hmodo := mod_eq_of_le_u32Max ho
    by_cases hs : h.loc.fileSize > u32Max
    · -- the offset is literal, so it must not be all ones
      have hne : h.loc.offset ≠ ones 4 := fun heq => hok ⟨hs, heq.trans ones_four⟩
      have hread : Reads (Wide.read ⟨ones 4, ones 4, h.loc.offset⟩)
          (leBytes 8 h.loc.fileSize ++ leBytes 8 h.loc.fileSize)
          ⟨h.loc.fileSize, h.loc.fileSize, h.loc.offset⟩ := by
        refine .bind (Zip.wide_ones hsize) (.bind_nil (Zip.wide_ones hsize) ?_)
        exact .bind (Zip.wide_literal hne) (.pure _)
      have hres := Wide.resolve_zip64Extra (by simp) hread.run_eq
      rw [ones_four] at hres
      simp only [ho, hs, false_or, if_true, if_false, hcrc, hmodo, u32Max_mod, hres,
        Option.map_some]
    · have hmods := mod_eq_of_le_u32Max hs
      simp only [ho, hs, false_or, if_false, hcrc, hmods, hmodo, Wide.resolve_nil,
        Option.map_some]

theorem resolve_record_none (hsize : h.loc.fileSize < 2 ^ 64) (hlost : h.OffsetLost) :
    h.record.fixed.resolve h.record.extra = none := by
  obtain ⟨hs, ho⟩ := hlost
  have hread : (Wide.read ⟨ones 4, ones 4, ones 4⟩).run
      (leBytes 8 h.loc.fileSize ++ leBytes 8 h.loc.fileSize) = none := by
    have h₁ := Zip.wide_ones hsize (leBytes 8 h.loc.fileSize)
    have h₂ := (Zip.wide_ones hsize).run_eq
    have h₃ : (Zip.wide (ones 4)).run [] = none := rfl
    simp only [Wide.read, StateT.run_bind, h₁, h₂, h₃, Option.bind_eq_bind, Option.bind_some,
      Option.bind_none]
  have hres := Wide.resolve_zip64Extra_none (by simp) hread
  rw [ones_four] at hres
  unfold Zip.CentralEntry.resolve Zip.CentralHeader.fixed record
  simp only [ho, hs, gt_iff_lt, lt_self_iff_false, false_or, if_true, if_false, u32Max_mod, hres,
    Option.map_none]

/-- The header reads back unless its offset is lost. -/
theorem readsBack_iff (hname : h.loc.name.length ≤ u16Max) (hsize : h.loc.fileSize < 2 ^ 64)
    (hoff : h.loc.offset < 2 ^ 64) : h.ReadsBack ↔ ¬ h.OffsetLost := by
  have hn : h.record.name.length < 2 ^ 16 := Nat.lt_succ_of_le hname
  have hc : h.record.comment.length < 2 ^ 16 := Nat.two_pow_pos 16
  unfold ReadsBack
  rw [dump_eq_encode]
  constructor
  · intro hread hlost
    have hnone := Zip.readCentral_encode_none hn h.length_extra_lt hc
      (resolve_record_none hsize hlost) []
    rw [hread] at hnone
    cases hnone
  · intro hok
    exact Zip.readCentral_encode hn h.length_extra_lt hc (resolve_record hsize hoff hok)

end

end CentralDirectoryFileHeader

/-! ## End records -/

namespace EndOfCentralDirectory64

/-- Reading the dumped end records gives the count and the directory's size and offset. -/
def ReadsBack (e : EndOfCentralDirectory64) : Prop :=
  Zip.readEnd e.dump = some ⟨e.recordCount, e.centralDirectorySize, e.centralDirectoryOffset⟩

/-- The classic end record: literal fields, or sentinels for the ZIP64 record. -/
def record (e : EndOfCentralDirectory64) : Zip.EndHeader :=
  if e.needed then ⟨u16Max, u16Max, u16Max, u16Max, u32Max, u32Max⟩
  else ⟨0, 0, e.recordCount, e.recordCount, e.centralDirectorySize, e.centralDirectoryOffset⟩

/-- The ZIP64 end record. -/
def record64 (e : EndOfCentralDirectory64) : Zip.EndHeader :=
  ⟨0, 0, e.recordCount, e.recordCount, e.centralDirectorySize, e.centralDirectoryOffset⟩

theorem dump_eq_encode (e : EndOfCentralDirectory64) :
    e.dump = if e.needed then
        e.record64.encode64 CentralDirectoryFileHeader.verMadeBy LocalFileHeader.minVer ++
          Zip.encodeLocator 0 e.eocd64Offset 0 ++ e.record.encode
      else e.record.encode := by
  have h₁ : beBytes 4 eocdMagic = Zip.endSig := by decide
  have h₂ : beBytes 4 eocd64Magic = Zip.zip64EndSig := by decide
  have h₃ : beBytes 4 eocd64LocatorMagic = Zip.locatorSig := by decide
  unfold dump dumpEocd64 dumpEocd64Locator dumpEocd record record64
  rw [h₁, h₂, h₃]
  cases e.needed <;>
    simp [Zip.EndHeader.encode, Zip.EndHeader.encode64, Zip.encodeLocator]

theorem readsBack {e : EndOfCentralDirectory64} (hcount : e.recordCount < 2 ^ 64)
    (hsize : e.centralDirectorySize < 2 ^ 64) (hoff : e.centralDirectoryOffset < 2 ^ 64) :
    e.ReadsBack := by
  unfold ReadsBack
  rw [dump_eq_encode]
  by_cases hneed : e.needed = true
  · rw [if_pos hneed, Zip.readEnd_zip64]
    unfold record record64
    simp only [if_pos hneed, show u16Max % 2 ^ 16 = u16Max from rfl, u32Max_mod, Zip.sentinel,
      ones_two, ones_four, if_true, Nat.mod_eq_of_lt hcount, Nat.mod_eq_of_lt hsize,
      Nat.mod_eq_of_lt hoff]
  · rw [if_neg hneed, Zip.readEnd_classic]
    have hsmall : e.centralDirectorySize ≤ u32Max ∧ e.centralDirectoryOffset ≤ u32Max ∧
        e.recordCount ≤ u16Max := by
      simpa [needed, needEocd64, and_assoc] using hneed
    obtain ⟨h₁, h₂, h₃⟩ := hsmall
    unfold record Zip.EndHeader.entry
    simp only [if_neg hneed]
    have hc : e.recordCount % 2 ^ 16 = e.recordCount := Nat.mod_eq_of_lt (Nat.lt_succ_of_le h₃)
    rw [hc, mod_eq_of_le_u32Max (Nat.not_lt.2 h₁), mod_eq_of_le_u32Max (Nat.not_lt.2 h₂)]

end EndOfCentralDirectory64

/-! ## All records -/

/-- The records read back exactly when the size is not above `u32::MAX` with the offset at
`u32::MAX`. -/
theorem records_readBack_iff {loc : LocalFileHeader CRC32} {e : EndOfCentralDirectory64}
    (hname : loc.name.length ≤ u16Max) (hsize : loc.fileSize < 2 ^ 64)
    (hoff : loc.offset < 2 ^ 64) (hcount : e.recordCount < 2 ^ 64)
    (hcdSize : e.centralDirectorySize < 2 ^ 64) (hcdOff : e.centralDirectoryOffset < 2 ^ 64) :
    (loc.ReadsBack ∧ (CentralDirectoryFileHeader.fromLoc loc).ReadsBack ∧ e.ReadsBack) ↔
      ¬ (loc.fileSize > u32Max ∧ loc.offset = u32Max) := by
  have hcd := CentralDirectoryFileHeader.readsBack_iff (h := .fromLoc loc) hname hsize hoff
  constructor
  · rintro ⟨_, h, _⟩
    exact hcd.1 h
  · intro hok
    exact ⟨LocalFileHeader.readsBack hname hsize, hcd.2 hok,
      EndOfCentralDirectory64.readsBack hcount hcdSize hcdOff⟩

/-- The header of a file of 4 GiB with an empty name and CRC 0, at `offset`. -/
def locAt (offset : Nat) : LocalFileHeader CRC32 := ⟨offset, [], ⟨leBytes 4 0, rfl⟩, 2 ^ 32⟩

/-- A file of 4 GiB whose header is at 2 GiB. -/
theorem records_readBack_iff_two_gib :
    ((locAt 2147483648).ReadsBack ∧
        (CentralDirectoryFileHeader.fromLoc (locAt 2147483648)).ReadsBack ∧
        EndOfCentralDirectory64.ReadsBack ⟨1, 66, 6442450974, 6442451040⟩) ↔
      ¬ ((locAt 2147483648).fileSize > u32Max ∧ (locAt 2147483648).offset = u32Max) :=
  records_readBack_iff (by decide) (by decide) (by decide) (by decide) (by decide) (by decide)

/-- A file of 4 GiB whose header is at offset 4 GiB − 1 has an unreadable directory entry. -/
theorem central_not_readBack :
    ¬ ((locAt 4294967295).ReadsBack ∧
        (CentralDirectoryFileHeader.fromLoc (locAt 4294967295)).ReadsBack ∧
        EndOfCentralDirectory64.ReadsBack ⟨1, 66, 8589934641, 8589934707⟩) := by
  rintro ⟨_, h, _⟩
  exact (CentralDirectoryFileHeader.readsBack_iff (by decide) (by decide) (by decide)).1 h
    ⟨by decide, by decide⟩

end S3Archive.JrodonV3
