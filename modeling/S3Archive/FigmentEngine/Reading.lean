import S3Archive.FigmentEngine.Archive
import S3Archive.FigmentEngine.ZipRoundTrip

/-!
# figment-engine: reading a whole archive back

An archive of either engine, read through its end records and its directory.
`IsArchive.readsBack_iff` says which archives give back all their files: those
whose sizes fit the four-byte fields that hold them (`Readable`).
-/

namespace S3Archive.FigmentEngine

open SourceFile (entrySize)
open Zip (StoredFile SizeLost ones storedContents storedDirectory storedAt storedLen)

/-- What a reader should get of each file: its records and its body, in archive order. -/
def entriesRead (src : Source) (order : List SourceFile) :
    List (Zip.CentralEntry × Zip.LocalEntry × Bytes) :=
  (placed order).map fun p =>
    (⟨p.2.name, (src.crc32 p.2.name).toNat, p.2.size, p.2.size, p.1⟩,
      ⟨p.2.name, (src.crc32 p.2.name).toNat, p.2.size, p.2.size⟩, src.body p.2.name)

/-- Every size fits its field, and is not all ones where the offset is in the ZIP64 extra field. -/
def Readable (order : List SourceFile) : Prop :=
  ∀ p ∈ placed order, p.2.size ≤ u32Max ∧ ¬ (p.2.size = u32Max ∧ p.1 > u32Max)

/-! ## Stored files -/

def stored (src : Source) (f : SourceFile) : StoredFile :=
  ⟨f.name, src.crc32 f.name, src.body f.name⟩

/-- The data of a stored file's records. -/
def recordAt (off : Nat) (f : StoredFile) : EntryMeta := ⟨f.name, f.body.length, f.crc, off⟩

def loc (f : StoredFile) : Bytes := localHeader (recordAt 0 f)

def cen (off : Nat) (f : StoredFile) : Bytes := centralDirEntry (recordAt off f)

section

variable {src : Source} {order : List SourceFile} (hsizes : SizesListed src order)

include hsizes

theorem recordAt_stored {f : SourceFile} (hf : f ∈ order) (off : Nat) :
    recordAt off (stored src f) = metaAt src (off, f) := by
  unfold recordAt stored metaAt
  rw [hsizes f hf]

theorem storedAt_stored :
    storedAt loc (order.map (stored src)) = (placed order).map (Prod.map id (stored src)) := by
  have hlen : ∀ f ∈ order, storedLen loc (stored src f) = f.entrySize := by
    intro f hf
    unfold storedLen loc
    rw [length_localHeader]
    show localHeaderLen f.name + (src.body f.name).length = entryTotalLen f.name f.size
    rw [hsizes f hf]
    rfl
  unfold storedAt placed
  rw [offsetsFrom_map, offsetsFrom_congr _ hlen]

theorem storedContents_stored : storedContents loc (order.map (stored src)) =
    order.flatMap fun f => fileBytes src (0, f) := by
  unfold storedContents
  rw [List.flatMap_map]
  refine List.flatMap_congr fun f hf => ?_
  unfold loc fileBytes
  rw [recordAt_stored hsizes hf]
  rfl

theorem storedDirectory_stored :
    storedDirectory loc cen (order.map (stored src)) = directory src order := by
  unfold storedDirectory directory
  rw [storedAt_stored hsizes, List.flatMap_map]
  refine List.flatMap_congr fun p hp => ?_
  show centralDirEntry (recordAt p.1 (stored src p.2)) = centralDirEntry (metaAt src p)
  rw [recordAt_stored hsizes (mem_of_mem_placed hp)]

theorem storedEntries_stored :
    Zip.storedEntries loc (order.map (stored src)) = entriesRead src order := by
  unfold Zip.storedEntries entriesRead
  rw [storedAt_stored hsizes, List.map_map]
  refine List.map_congr_left fun p hp => ?_
  have hsize : (src.body p.2.name).length = p.2.size := hsizes _ (mem_of_mem_placed hp)
  unfold Zip.StoredFile.entry Zip.StoredFile.localEntry stored
  simp only [Function.comp_apply, Prod.map_fst, Prod.map_snd, id_eq, hsize]

end

/-! ## Records -/

section

variable {f : StoredFile} {off : Nat}

/-- What a reader takes from a file's directory record, if anything. -/
def centralRead (q : Nat × StoredFile) : Option Zip.CentralEntry :=
  (recordAt q.1 q.2).centralRecord.fixed.resolve (recordAt q.1 q.2).centralRecord.extra

theorem run_cen (hname : f.name.length ≤ u16Max) (rest : Bytes) :
    Zip.readCentral.run (cen off f ++ rest) =
      (centralRead (off, f)).map fun e => (e, rest) := by
  have hn : (recordAt off f).centralRecord.name.length < 2 ^ 16 := Nat.lt_succ_of_le hname
  have he : (recordAt off f).centralRecord.extra.length < 2 ^ 16 := by
    rw [length_centralRecord_extra]
    split <;> omega
  unfold cen
  rw [centralDirEntry_eq_encode]
  exact Zip.run_readCentral_encode hn he (Nat.two_pow_pos 16) rest

theorem centralRead_eq_some_iff (hoff : off < 2 ^ 64) :
    centralRead (off, f) = some (f.entry off) ↔
      f.body.length ≤ u32Max ∧ ¬ (f.body.length = u32Max ∧ off > u32Max) := by
  have hfixed : (recordAt off f).centralRecord.fixed = ⟨f.name, f.crc.toNat,
      f.body.length % 2 ^ 32, f.body.length % 2 ^ 32, min off (ones 4)⟩ := by
    unfold Zip.CentralHeader.fixed EntryMeta.centralRecord recordAt
    dsimp only
    rw [Nat.mod_eq_of_lt f.crc.toNat_lt, ones_four]
    by_cases ho : off > u32Max
    · rw [if_pos ho, Nat.min_eq_right (Nat.le_of_lt ho)]
      rfl
    · rw [if_neg ho, Nat.min_eq_left (Nat.le_of_not_lt ho)]
      unfold u32Max at ho
      rw [Nat.mod_eq_of_lt (show off < 2 ^ 32 by omega)]
  have hextra : (recordAt off f).centralRecord.extra = Zip.wideOffset off := rfl
  unfold centralRead
  dsimp only
  rw [hfixed, hextra]
  exact Zip.resolve_wideOffset_iff hoff

theorem reads_loc (hname : f.name.length ≤ u16Max) (hsize : f.body.length ≤ u32Max) :
    Reads Zip.readLocal (loc f) f.localEntry :=
  local_readsBack (e := recordAt 0 f) hname hsize

end

/-! ## Archives -/

theorem readEnds_archive (content dir : Bytes) (count : Nat)
    (hlen : content.length + dir.length < 2 ^ 64) (hcount : count < 2 ^ 64) :
    Zip.readEnds (content ++ dir ++ endRecords count content.length dir.length) =
      some ⟨count, dir.length, content.length⟩ := by
  rw [endRecords_eq_encode]
  exact Zip.readEnds_capped versionMadeBy versionNeeded List.length_append
    (by rw [List.length_append]; exact hlen) hcount

/-- An archive reads back as its files exactly when it is readable. -/
theorem IsArchive.readsBack_iff {src : Source} {files order : List SourceFile}
    {offsetOf : FileId → Option Nat} {cdSize : Nat} {archive : Bytes}
    (h : IsArchive src files order offsetOf (bodySize order) cdSize archive)
    (hsizes : SizesListed src files) (hnames : ∀ f ∈ files, f.name.length ≤ u16Max)
    (hlen : bodySize order + directorySize order < 2 ^ 64) :
    Zip.readArchive archive = some (entriesRead src order) ↔ Readable order := by
  have hlisted : SizesListed src order := fun f hf => hsizes f (h.each_once.subset hf)
  have hat := storedAt_stored hlisted
  have hcontent : (storedContents loc (order.map (stored src))).length = bodySize order := by
    rw [storedContents_stored hlisted, ← content_eq, length_content hlisted]
  have hdir : (storedDirectory loc cen (order.map (stored src))).length = directorySize order := by
    rw [storedDirectory_stored hlisted, length_directory]
  -- each directory record has at least one byte
  have hcount : order.length ≤ directorySize order := by
    have hone : ∀ n ∈ (placed order).map fun p => centralDirEntryLen p.2.name p.1, 1 ≤ n := by
      intro n hn
      obtain ⟨p, _, rfl⟩ := List.mem_map.1 hn
      unfold centralDirEntryLen
      dsimp only
      omega
    have hsum := List.length_le_sum_of_one_le _ hone
    unfold placed at hsum
    rwa [List.length_map, length_offsetsFrom] at hsum
  have hlayout : archive = storedContents loc (order.map (stored src)) ++
      storedDirectory loc cen (order.map (stored src)) ++ endRecords order.length
        (storedContents loc (order.map (stored src))).length
        (storedDirectory loc cen (order.map (stored src))).length := by
    rw [hcontent, storedContents_stored hlisted, storedDirectory_stored hlisted, h.layout,
      content_eq, h.directory_size]
  have hends := readEnds_archive (storedContents loc (order.map (stored src)))
    (storedDirectory loc cen (order.map (stored src))) order.length
    (by rw [hcontent, hdir]; exact hlen) (by omega)
  rw [← List.length_map (stored src)] at hends
  have hpos : ∀ p ∈ placed order, p.1 < 2 ^ 64 := by
    intro p hp
    have hmem : (Prod.map id (stored src) p) ∈ storedAt loc (order.map (stored src)) :=
      hat ▸ List.mem_map_of_mem hp
    have hle := Zip.position_le_stored loc hmem
    rw [hcontent] at hle
    simp only [Prod.map_fst, id_eq] at hle
    omega
  rw [hlayout, ← storedEntries_stored hlisted, ← List.length_map (stored src)]
  rw [Zip.readArchive_stored_iff hends centralRead, hat]
  · unfold Readable
    rw [List.forall_mem_map]
    refine forall₂_congr fun p hp => ?_
    have hsize : (stored src p.2).body.length = p.2.size := hlisted _ (mem_of_mem_placed hp)
    rw [← hsize]
    exact centralRead_eq_some_iff (hpos p hp)
  · intro q hq rest
    rw [hat] at hq
    obtain ⟨p, hp, rfl⟩ := List.mem_map.1 hq
    exact run_cen (hnames _ (h.each_once.subset (mem_of_mem_placed hp))) rest
  · intro q hq hval
    rw [hat] at hq
    obtain ⟨p, hp, rfl⟩ := List.mem_map.1 hq
    exact reads_loc (hnames _ (h.each_once.subset (mem_of_mem_placed hp)))
      ((centralRead_eq_some_iff (hpos p hp)).1 hval).1

end S3Archive.FigmentEngine
