import S3Archive.JrodonV3.Archive
import S3Archive.Zip.Stored

/-!
# jrodon-v3: reading a whole archive back

An archive, read through its end records and its directory. `readArchive_iff` says
which archives give back all their files: those in which no file of more than
`u32Max` bytes is at `u32Max` (`Readable`). Archives of one length are left out: there the
all-ones end record describes a directory itself.
-/

namespace S3Archive.JrodonV3

open FileEntry
open RegularZipPart (partSize)
open Zip (StoredFile ones storedContents storedDirectory storedAt storedLen)

/-- What a reader should get of each file: its records and its body, in archive order. -/
def entriesRead (src : Source) (order : List FileEntry) :
    List (Zip.CentralEntry × Zip.LocalEntry × Bytes) :=
  (placed order).map fun p =>
    (⟨p.2.name, (src.crc32 p.2.bucketName p.2.key).toNat, p.2.size, p.2.size, p.1⟩,
      ⟨p.2.name, (src.crc32 p.2.bucketName p.2.key).toNat, p.2.size, p.2.size⟩,
      src.body p.2.bucketName p.2.key)

/-- No offset is lost. -/
def Readable (order : List FileEntry) : Prop :=
  ∀ p ∈ placed order, ¬ (p.2.size > u32Max ∧ p.1 = u32Max)

/-! ## Stored files -/

/-- The checksum as a machine number. -/
def CRC32.toUInt32 (crc : CRC32) : UInt32 := UInt32.ofNat crc.toNat

@[simp] theorem CRC32.toNat_toUInt32 (crc : CRC32) : crc.toUInt32.toNat = crc.toNat := by
  have hlt := crc.toNat_lt
  unfold toUInt32
  rw [UInt32.toNat_ofNat']
  exact Nat.mod_eq_of_lt hlt

def stored (src : Source) (f : FileEntry) : StoredFile :=
  ⟨f.name, (src.crc32 f.bucketName f.key).toUInt32, src.body f.bucketName f.key⟩

/-- The local header of a stored file. -/
def headerAt (off : Nat) (f : StoredFile) : LocalFileHeader CRC32 :=
  ⟨off, f.name, ⟨leBytes 4 f.crc.toNat, leBytes_length 4 _⟩, f.body.length⟩

/-- The offset is not in the local header itself. -/
def loc (f : StoredFile) : Bytes := (headerAt 0 f).dump

def cen (off : Nat) (f : StoredFile) : Bytes :=
  (CentralDirectoryFileHeader.fromLoc (headerAt off f)).dump

theorem toNat_headerAt (off : Nat) (f : StoredFile) :
    (headerAt off f).crc32.toNat = f.crc.toNat := by
  show leNat (leBytes 4 f.crc.toNat) = f.crc.toNat
  rw [leNat_leBytes]
  exact Nat.mod_eq_of_lt f.crc.toNat_lt

theorem headerAt_stored {src : Source} {p : Nat × FileEntry}
    (h : (src.body p.2.bucketName p.2.key).length = p.2.size) :
    headerAt p.1 (stored src p.2) = fileLoc src p := by
  have hbytes : leBytes 4 (stored src p.2).crc.toNat =
      (src.crc32 p.2.bucketName p.2.key).bytes := by
    show leBytes 4 (src.crc32 p.2.bucketName p.2.key).toUInt32.toNat = _
    rw [CRC32.toNat_toUInt32, CRC32.leBytes_toNat]
  unfold headerAt fileLoc
  congr 1
  generalize src.crc32 p.2.bucketName p.2.key = crc at hbytes
  cases crc
  congr 1

section

variable {src : Source} {order : List FileEntry} (hsizes : SizesListed src order)

include hsizes

theorem storedAt_stored :
    storedAt loc (order.map (stored src)) = (placed order).map (Prod.map id (stored src)) := by
  have hlen : ∀ f ∈ order, storedLen loc (stored src f) = f.entrySize := by
    intro f hf
    have hsize : (src.body f.bucketName f.key).length = f.size := hsizes f hf
    unfold storedLen loc
    rw [LocalFileHeader.length_dump]
    show LocalFileHeader.predictSize (src.body f.bucketName f.key).length f.name.length +
      (src.body f.bucketName f.key).length = f.entrySize
    rw [hsize]
    rfl
  unfold storedAt placed
  rw [offsetsFrom_map, offsetsFrom_congr _ hlen]

theorem storedContents_stored : storedContents loc (order.map (stored src)) =
    (placed order).flatMap (fileBytes src) := by
  have hloc : ∀ p ∈ placed order, loc (stored src p.2) ++ (stored src p.2).body =
      fileBytes src p := by
    intro p hp
    have hheader := headerAt_stored (p := p) (hsizes _ (snd_mem_of_mem_offsetsFrom _ hp))
    unfold fileBytes entryBytes
    rw [← hheader]
    rfl
  unfold storedContents
  rw [List.flatMap_map, ← List.flatMap_congr hloc]
  conv_lhs => rw [← map_snd_offsetsFrom entrySize 0 order, List.flatMap_map]

theorem storedDirectory_stored : storedDirectory loc cen (order.map (stored src)) =
    (directory src order).flatMap CentralDirectoryFileHeader.dump := by
  unfold storedDirectory directory
  rw [storedAt_stored hsizes, List.flatMap_map, List.flatMap_map]
  refine List.flatMap_congr fun p hp => ?_
  show (CentralDirectoryFileHeader.fromLoc (headerAt p.1 (stored src p.2))).dump =
    (fileCdfh src p).dump
  rw [headerAt_stored (hsizes _ (snd_mem_of_mem_offsetsFrom _ hp))]
  rfl

theorem storedEntries_stored :
    Zip.storedEntries loc (order.map (stored src)) = entriesRead src order := by
  unfold Zip.storedEntries entriesRead
  rw [storedAt_stored hsizes, List.map_map]
  refine List.map_congr_left fun p hp => ?_
  have hsize : (src.body p.2.bucketName p.2.key).length = p.2.size :=
    hsizes _ (snd_mem_of_mem_offsetsFrom _ hp)
  unfold Zip.StoredFile.entry Zip.StoredFile.localEntry stored
  simp only [Function.comp_apply, Prod.map_fst, Prod.map_snd, id_eq, hsize, CRC32.toNat_toUInt32]

end

/-! ## Records -/

section

variable {f : StoredFile} {off : Nat}

/-- What a reader takes from a file's directory record, if anything. -/
def centralRead (q : Nat × StoredFile) : Option Zip.CentralEntry :=
  let h := CentralDirectoryFileHeader.fromLoc (headerAt q.1 q.2)
  h.record.fixed.resolve h.record.extra

theorem run_cen (hname : f.name.length ≤ u16Max) (rest : Bytes) :
    Zip.readCentral.run (cen off f ++ rest) =
      (centralRead (off, f)).map fun e => (e, rest) := by
  unfold cen
  rw [CentralDirectoryFileHeader.dump_eq_encode]
  exact Zip.run_readCentral_encode (Nat.lt_succ_of_le hname)
    (CentralDirectoryFileHeader.length_extra_lt _) (Nat.two_pow_pos 16) rest

theorem centralRead_eq_some_iff (hsize : f.body.length < 2 ^ 64) (hoff : off < 2 ^ 64) :
    centralRead (off, f) = some (f.entry off) ↔ ¬ (f.body.length > u32Max ∧ off = u32Max) := by
  constructor
  · intro hread hlost
    have hnone := CentralDirectoryFileHeader.resolve_record_none
      (h := .fromLoc (headerAt off f)) hsize hlost
    unfold centralRead at hread
    rw [hnone] at hread
    cases hread
  · intro hok
    have hres := CentralDirectoryFileHeader.resolve_record
      (h := .fromLoc (headerAt off f)) hsize hoff hok
    unfold centralRead
    dsimp only
    rw [hres]
    show some (⟨f.name, (headerAt off f).crc32.toNat, _, _, _⟩ : Zip.CentralEntry) = _
    rw [toNat_headerAt]
    rfl

theorem reads_loc (hname : f.name.length ≤ u16Max) (hsize : f.body.length < 2 ^ 64) :
    Reads Zip.readLocal (loc f) f.localEntry := by
  have hread := LocalFileHeader.readsBack (h := headerAt 0 f) hname hsize
  unfold LocalFileHeader.ReadsBack at hread
  rw [toNat_headerAt] at hread
  exact hread

end

/-! ## The end records -/

theorem readEnds_dump {pre : Bytes} {e : EndOfCentralDirectory64}
    (hpre : pre.length = e.centralDirectoryOffset + e.centralDirectorySize)
    (hoff : e.eocd64Offset = pre.length) (hcount : e.recordCount < 2 ^ 64)
    (hlen : pre.length < 2 ^ 64) (hne : (pre ++ e.dump).length ≠ u32Max + u32Max + 22) :
    Zip.readEnds (pre ++ e.dump) =
      some ⟨e.recordCount, e.centralDirectorySize, e.centralDirectoryOffset⟩ := by
  rw [List.length_append, EndOfCentralDirectory64.length_dump] at hne
  unfold EndOfCentralDirectory64.size at hne
  rw [EndOfCentralDirectory64.dump_eq_encode, hoff]
  by_cases hneed : e.needed = true
  · have hsizes : e.centralDirectorySize < 2 ^ 64 ∧ e.centralDirectoryOffset < 2 ^ 64 := by omega
    rw [if_pos hneed] at hne ⊢
    unfold EndOfCentralDirectory64.record
    rw [if_pos hneed, ← ones_two, ← ones_four, Zip.readEnds_ones _ _ _ _ _ hlen hne]
    show some (⟨e.recordCount % 2 ^ 64, e.centralDirectorySize % 2 ^ 64,
      e.centralDirectoryOffset % 2 ^ 64⟩ : Zip.EndEntry) = _
    rw [Nat.mod_eq_of_lt hcount, Nat.mod_eq_of_lt hsizes.1, Nat.mod_eq_of_lt hsizes.2]
  · have hsmall : e.centralDirectorySize ≤ u32Max ∧ e.centralDirectoryOffset ≤ u32Max ∧
        e.recordCount ≤ u16Max := by
      simpa [EndOfCentralDirectory64.needed, EndOfCentralDirectory64.needEocd64, and_assoc]
        using hneed
    have hentry : e.record.entry =
        ⟨e.recordCount, e.centralDirectorySize, e.centralDirectoryOffset⟩ := by
      unfold EndOfCentralDirectory64.record Zip.EndHeader.entry
      rw [if_neg hneed]
      have hc : e.recordCount % 2 ^ 16 = e.recordCount :=
        Nat.mod_eq_of_lt (Nat.lt_succ_of_le hsmall.2.2)
      dsimp only
      rw [hc, mod_eq_of_le_u32Max (Nat.not_lt.2 hsmall.1),
        mod_eq_of_le_u32Max (Nat.not_lt.2 hsmall.2.1)]
    rw [if_neg hneed, Zip.readEnds_literal (by rw [hentry, hpre]), hentry]

/-! ## Archives -/

/-- The archive of the files in this order. -/
def archiveOf (src : Source) (order : List FileEntry) : Bytes :=
  (placed order).flatMap (fileBytes src) ++
    (directory src order).flatMap CentralDirectoryFileHeader.dump ++ (endRecords order).dump

/-- An archive reads back as its files exactly when it is readable. -/
theorem readArchive_iff {src : Source} {order : List FileEntry} (hsizes : SizesListed src order)
    (hnames : ∀ f ∈ order, f.name.length ≤ u16Max)
    (hlen : partSize order + directorySize order < 2 ^ 64)
    (hne : (archiveOf src order).length ≠ u32Max + u32Max + 22) :
    Zip.readArchive (archiveOf src order) = some (entriesRead src order) ↔ Readable order := by
  have hat := storedAt_stored hsizes
  have hcontent : (storedContents loc (order.map (stored src))).length = partSize order := by
    rw [storedContents_stored hsizes]
    exact length_content hsizes
  have hdir : (storedDirectory loc cen (order.map (stored src))).length = directorySize order := by
    rw [storedDirectory_stored hsizes, length_directory]
  have hcount := length_le_partSize order
  have hends := @readEnds_dump (storedContents loc (order.map (stored src)) ++
    storedDirectory loc cen (order.map (stored src))) (endRecords order)
    (by rw [List.length_append, hcontent, hdir]; rfl)
    (by rw [List.length_append, hcontent, hdir]; rfl)
    (show order.length < 2 ^ 64 by omega)
    (by rw [List.length_append, hcontent, hdir]; exact hlen)
    (by rw [storedContents_stored hsizes, storedDirectory_stored hsizes]; exact hne)
  have hfields : (⟨(endRecords order).recordCount, (endRecords order).centralDirectorySize,
      (endRecords order).centralDirectoryOffset⟩ : Zip.EndEntry) =
        ⟨(order.map (stored src)).length,
          (storedDirectory loc cen (order.map (stored src))).length,
          (storedContents loc (order.map (stored src))).length⟩ := by
    rw [hcontent, hdir, List.length_map]
    rfl
  rw [hfields] at hends
  have hbound : ∀ p ∈ placed order, p.1 < 2 ^ 64 ∧ p.2.size < 2 ^ 64 := by
    intro p hp
    have hend := end_le_of_mem_offsetsFrom _ hp
    have hsum : (order.map entrySize).sum = partSize order := rfl
    have hentry : p.2.entrySize = p.2.locSize + p.2.size := rfl
    omega
  unfold archiveOf
  rw [← storedContents_stored hsizes, ← storedDirectory_stored hsizes,
    ← storedEntries_stored hsizes, Zip.readArchive_stored_iff hends centralRead, hat]
  · unfold Readable
    rw [List.forall_mem_map]
    refine forall₂_congr fun p hp => ?_
    have hsize : (stored src p.2).body.length = p.2.size :=
      hsizes _ (snd_mem_of_mem_offsetsFrom _ hp)
    rw [← hsize]
    exact centralRead_eq_some_iff (hsize ▸ (hbound p hp).2) (hbound p hp).1
  · intro q hq rest
    rw [hat] at hq
    obtain ⟨p, hp, rfl⟩ := List.mem_map.1 hq
    exact run_cen (hnames _ (snd_mem_of_mem_offsetsFrom _ hp)) rest
  · intro q hq _
    rw [hat] at hq
    obtain ⟨p, hp, rfl⟩ := List.mem_map.1 hq
    have hsize : (stored src p.2).body.length = p.2.size :=
      hsizes _ (snd_mem_of_mem_offsetsFrom _ hp)
    exact reads_loc (hnames _ (snd_mem_of_mem_offsetsFrom _ hp)) (hsize ▸ (hbound p hp).2)

end S3Archive.JrodonV3
