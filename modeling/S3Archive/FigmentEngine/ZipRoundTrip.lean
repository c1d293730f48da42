import S3Archive.FigmentEngine.ZipFormat
import S3Archive.Zip.Stored

/-!
# figment-engine: reading the ZIP records back

A ZIP64-aware reader applied to the records of
`S3Archive.FigmentEngine.ZipFormat`. Local headers and end records always read
back. A directory entry does not when its offset needs the ZIP64 extra field
while its size is exactly `u32::MAX`: both size fields are then all ones, and
the extra field holds the offset only.
-/

namespace S3Archive.FigmentEngine

open Zip (Wide ones)

theorem ones_four : ones 4 = u32Max := by decide

theorem ones_two : ones 2 = u16Max := by decide

theorem EntryMeta.crc_mod (e : EntryMeta) : e.crc.toNat % 2 ^ 32 = e.crc.toNat :=
  Nat.mod_eq_of_lt e.crc.toNat_lt

theorem EntryMeta.size_mod {e : EntryMeta} (hsize : e.size ≤ u32Max) :
    e.size % 2 ^ 32 = e.size := by
  unfold u32Max at hsize
  omega

/-! ## The local header -/

/-- Reading the local header gives the name, the size and the CRC, and consumes exactly it. -/
def LocalReadsBack (e : EntryMeta) : Prop :=
  Reads Zip.readLocal (localHeader e) ⟨e.name, e.crc.toNat, e.size, e.size⟩

theorem local_readsBack {e : EntryMeta} (hname : e.name.length ≤ u16Max)
    (hsize : e.size ≤ u32Max) : LocalReadsBack e := by
  unfold LocalReadsBack
  rw [localHeader_eq_encode]
  refine Zip.readLocal_encode (h := e.localRecord) (Nat.lt_succ_of_le hname)
    (Nat.two_pow_pos 16) ?_
  unfold Zip.LocalEntry.resolve Zip.LocalHeader.fixed EntryMeta.localRecord
  simp only [e.crc_mod, EntryMeta.size_mod hsize, Wide.resolve_nil, Option.map_some]

/-! ## The central directory entry -/

/-- Reading the directory entry gives the name, the size, the CRC and the offset, and consumes
exactly it. -/
def CentralReadsBack (e : EntryMeta) : Prop :=
  Reads Zip.readCentral (centralDirEntry e)
    ⟨e.name, e.crc.toNat, e.size, e.size, e.localHeaderOffset⟩

/-- The size reads as a sentinel although the extra field holds the offset only. -/
def EntryMeta.SizeLost (e : EntryMeta) : Prop :=
  e.size = u32Max ∧ e.localHeaderOffset > u32Max

section

variable {e : EntryMeta} (hsize : e.size ≤ u32Max) (hoff : e.localHeaderOffset < 2 ^ 64)

include hsize hoff

omit hoff in
/-- The fixed part of the record; its extra field is a wide offset. -/
theorem fixed_centralRecord : e.centralRecord.fixed =
    ⟨e.name, e.crc.toNat, e.size, e.size, min e.localHeaderOffset (ones 4)⟩ := by
  unfold Zip.CentralHeader.fixed EntryMeta.centralRecord
  dsimp only
  rw [e.crc_mod, EntryMeta.size_mod hsize, ones_four]
  by_cases ho : e.localHeaderOffset > u32Max
  · rw [if_pos ho, Nat.min_eq_right (Nat.le_of_lt ho)]
    rfl
  · rw [if_neg ho, Nat.min_eq_left (Nat.le_of_not_lt ho)]
    unfold u32Max at ho
    rw [Nat.mod_eq_of_lt (by omega)]

theorem resolve_centralRecord (hok : ¬ e.SizeLost) :
    e.centralRecord.fixed.resolve e.centralRecord.extra =
      some ⟨e.name, e.crc.toNat, e.size, e.size, e.localHeaderOffset⟩ := by
  rw [fixed_centralRecord hsize]
  refine Zip.resolve_wideOffset hoff ?_
  unfold Zip.SizeLost
  rwa [ones_four]

omit hsize in
theorem resolve_centralRecord_none (hlost : e.SizeLost) :
    e.centralRecord.fixed.resolve e.centralRecord.extra = none := by
  rw [fixed_centralRecord (Nat.le_of_eq hlost.1)]
  refine Zip.resolve_wideOffset_none hoff ?_
  unfold Zip.SizeLost
  rwa [ones_four]

/-- The entry reads back unless its size is lost. -/
theorem central_readsBack_iff (hname : e.name.length ≤ u16Max) :
    CentralReadsBack e ↔ ¬ e.SizeLost := by
  have hn : e.centralRecord.name.length < 2 ^ 16 := Nat.lt_succ_of_le hname
  have he : e.centralRecord.extra.length < 2 ^ 16 := by
    rw [length_centralRecord_extra]
    split <;> omega
  have hc : e.centralRecord.comment.length < 2 ^ 16 := Nat.two_pow_pos 16
  unfold CentralReadsBack
  rw [centralDirEntry_eq_encode]
  constructor
  · intro hread hlost
    have hnone := Zip.readCentral_encode_none hn he hc (resolve_centralRecord_none hoff hlost) []
    rw [hread] at hnone
    cases hnone
  · intro hok
    exact Zip.readCentral_encode hn he hc (resolve_centralRecord hsize hoff hok)

end

/-! ## The end records -/

/-- Reading the end records gives the count and the directory's size and offset. -/
def EndReadsBack (entryCount cdOffset cdSize : Nat) : Prop :=
  Zip.readEnd (endRecords entryCount cdOffset cdSize) = some ⟨entryCount, cdSize, cdOffset⟩

theorem end_readsBack {entryCount cdOffset cdSize : Nat} (hcount : entryCount < 2 ^ 64)
    (hsum : cdOffset + cdSize < 2 ^ 64) : EndReadsBack entryCount cdOffset cdSize := by
  have hoff : cdOffset < 2 ^ 64 := by omega
  have hsize : cdSize < 2 ^ 64 := by omega
  unfold EndReadsBack
  rw [endRecords_eq_encode, Zip.readEnd_zip64]
  unfold classicRecord record64
  dsimp only
  rw [Nat.mod_eq_of_lt hcount, Nat.mod_eq_of_lt hoff, Nat.mod_eq_of_lt hsize,
    Zip.sentinel_min ones_two (by decide), Zip.sentinel_min ones_four (by decide),
    Zip.sentinel_min ones_four (by decide)]

/-! ## All records -/

/-- The records read back with the predicted lengths exactly when the size is not `u32::MAX` with
the offset above it. -/
theorem zipRecords_readBack_iff {e : EntryMeta} {entryCount cdOffset cdSize : Nat}
    (hname : e.name.length ≤ u16Max) (hsize : e.size ≤ u32Max)
    (hoff : e.localHeaderOffset < 2 ^ 64) (hcount : entryCount < 2 ^ 64)
    (hsum : cdOffset + cdSize < 2 ^ 64) :
    (LocalReadsBack e ∧ CentralReadsBack e ∧ EndReadsBack entryCount cdOffset cdSize ∧
        (localHeader e).length = localHeaderLen e.name ∧
        (centralDirEntry e).length = centralDirEntryLen e.name e.localHeaderOffset) ↔
      ¬ (e.size = u32Max ∧ e.localHeaderOffset > u32Max) := by
  have hcentral := central_readsBack_iff hsize hoff hname
  constructor
  · rintro ⟨_, h, _⟩
    exact hcentral.1 h
  · intro hok
    exact ⟨local_readsBack hname hsize, hcentral.2 hok, end_readsBack hcount hsum,
      length_localHeader e, length_centralDirEntry e⟩

/-- The directory's data for a file named `a` of the given size at 5 GiB. -/
def metaAt5GiB (size : Nat) : EntryMeta := ⟨[0x61], size, 0xDEADBEEF, 5368709120⟩

/-- A file of 4 KiB at 5 GiB, with the end records of 3000 entries. -/
theorem zipRecords_readBack_iff_five_gib :
    (LocalReadsBack (metaAt5GiB 4096) ∧ CentralReadsBack (metaAt5GiB 4096) ∧
        EndReadsBack 3000 5368713247 200000 ∧
        (localHeader (metaAt5GiB 4096)).length = localHeaderLen [0x61] ∧
        (centralDirEntry (metaAt5GiB 4096)).length = centralDirEntryLen [0x61] 5368709120) ↔
      ¬ ((metaAt5GiB 4096).size = u32Max ∧ (metaAt5GiB 4096).localHeaderOffset > u32Max) :=
  zipRecords_readBack_iff (by decide) (by decide) (by decide) (by decide) (by decide)

/-- A file of 4 GiB − 1 whose header is at 5 GiB has an unreadable directory entry. -/
theorem centralDirEntry_not_readBack :
    ¬ (LocalReadsBack (metaAt5GiB 4294967295) ∧ CentralReadsBack (metaAt5GiB 4294967295) ∧
        EndReadsBack 3000 9663676446 200000 ∧
        (localHeader (metaAt5GiB 4294967295)).length = localHeaderLen [0x61] ∧
        (centralDirEntry (metaAt5GiB 4294967295)).length =
          centralDirEntryLen [0x61] 5368709120) := by
  rintro ⟨_, h, _⟩
  have hlost : (metaAt5GiB 4294967295).SizeLost := ⟨by decide, by decide⟩
  exact (central_readsBack_iff (by decide) (by decide) (by decide)).1 h hlost

end S3Archive.FigmentEngine
