import S3Archive.JNicholson.ArchiveFormat

/-!
# j-nicholson98: the archive reads back

The stream of `S3Archive.JNicholson.ArchiveFormat`, cut into parts, read through
its end records. `assemble_readsBack_iff` says when that gives back every item:
unless an item of exactly `2 ^ 32 - 1` bytes has its local header above
`2 ^ 32 - 1`, because its size then reads as a sentinel while the extra field
holds the offset only.
-/

namespace S3Archive.JNicholson

open Zip (StoredFile SizeLost ones storedContents storedDirectory storedAt)

/-! ## Records -/

section

variable {f : StoredFile} {off : Nat}

theorem reads_loc (h : Fits f) : Reads Zip.readLocal (loc f) f.localEntry := by
  refine Zip.readLocal_encode (h := localRecord f) h.2 (Nat.two_pow_pos 16) ?_
  unfold Zip.LocalEntry.resolve Zip.LocalHeader.fixed localRecord
  dsimp only
  rw [Nat.mod_eq_of_lt f.crc.toNat_lt, Nat.mod_eq_of_lt h.1, Zip.Wide.resolve_nil]
  rfl

theorem fixed_centralRecord (h : Fits f) : (centralRecord off f).fixed =
    ⟨f.name, f.crc.toNat, f.body.length, f.body.length, min off (ones 4)⟩ := by
  have hmin : min off (ones 4) < 2 ^ 32 := by
    rw [ones_four]
    unfold u32Max
    omega
  unfold Zip.CentralHeader.fixed centralRecord
  dsimp only
  rw [Nat.mod_eq_of_lt f.crc.toNat_lt, Nat.mod_eq_of_lt h.1, Nat.mod_eq_of_lt hmin]

theorem reads_cen (h : Fits f) (hoff : off < 2 ^ 64) (hok : ¬ SizeLost f.body.length off) :
    Reads Zip.readCentral (cen off f) (f.entry off) := by
  refine Zip.readCentral_encode (h := centralRecord off f) h.2 (Zip.length_wideOffset off)
    (Nat.two_pow_pos 16) ?_
  rw [fixed_centralRecord h]
  exact Zip.resolve_wideOffset hoff hok

theorem reads_cen_none (h : Fits f) (hoff : off < 2 ^ 64) (hlost : SizeLost f.body.length off)
    (rest : Bytes) : Zip.readCentral.run (cen off f ++ rest) = none := by
  refine Zip.readCentral_encode_none (h := centralRecord off f) h.2 (Zip.length_wideOffset off)
    (Nat.two_pow_pos 16) ?_ rest
  rw [fixed_centralRecord h]
  exact Zip.resolve_wideOffset_none hoff hlost

end

/-! ## The archive -/

section

variable {files : List StoredFile} (hfits : ∀ f ∈ files, Fits f)
  (hlen : (untilEnds files).length < 2 ^ 64)

include hlen

theorem readEnds_stream : Zip.readEnds (stream files) =
    some ⟨files.length, (storedDirectory loc cen files).length,
      (storedContents loc files).length⟩ := by
  have hcount := length_le_storedDirectory files
  have hsum : (untilEnds files).length =
      (storedContents loc files).length + (storedDirectory loc cen files).length :=
    List.length_append
  exact readEnds_endBytes hsum (by omega) (by omega)

include hfits

theorem readArchive_stream (hok : ∀ q ∈ storedAt loc files, ¬ SizeLost q.2.body.length q.1) :
    Zip.readArchive (stream files) = some (Zip.storedEntries loc files) := by
  refine Zip.readArchive_stored (readEnds_stream hlen) (fun f hf => reads_loc (hfits f hf)) ?_
  intro q hq
  have hle := Zip.position_le_stored loc hq
  rw [untilEnds, List.length_append] at hlen
  exact reads_cen (hfits _ (snd_mem_of_mem_offsetsFrom _ hq)) (by omega) (hok q hq)

theorem readArchive_stream_none (hex : ∃ q ∈ storedAt loc files, SizeLost q.2.body.length q.1) :
    Zip.readArchive (stream files) = none := by
  have hpos : ∀ q ∈ storedAt loc files, Fits q.2 ∧ q.1 < 2 ^ 64 := by
    intro q hq
    have hle := Zip.position_le_stored loc hq
    rw [untilEnds, List.length_append] at hlen
    exact ⟨hfits _ (snd_mem_of_mem_offsetsFrom _ hq), by omega⟩
  refine Zip.readArchive_stored_none (readEnds_stream hlen) (fun q hq hok => ?_)
    (fun q hq hbad => ?_) hex
  · exact reads_cen (hpos q hq).1 (hpos q hq).2 hok
  · exact reads_cen_none (hpos q hq).1 (hpos q hq).2 hbad

end

/-! ## Items -/

def Item.len (item : Item) : Nat := 30 + (utf8 item.name).length + item.body.length

/-- The items with the positions of their local headers. -/
def placed (items : List Item) : List (Nat × Item) := offsetsFrom Item.len 0 items

/-- Where the directory ends. -/
def directoryEnd (items : List Item) : Nat :=
  (items.map Item.len).sum + ((placed items).map fun q =>
    46 + (utf8 q.2.name).length + if q.1 > u32Max then 12 else 0).sum

/-- What a reader should get: names, CRCs, sizes, positions and bodies, in order. -/
def expected (items : List Item) : List (Zip.CentralEntry × Zip.LocalEntry × Bytes) :=
  (placed items).map fun q =>
    (⟨utf8 q.2.name, q.2.crc.toNat, q.2.body.length, q.2.body.length, q.1⟩,
      ⟨utf8 q.2.name, q.2.crc.toNat, q.2.body.length, q.2.body.length⟩, q.2.body)

/-- The parts are all full but the last, there is at least one, they are numbered from 1, and
their concatenation reads back as the items. -/
def ArchiveReadsBack (partSize : Nat) (items : List Item) : Prop :=
  ∃ uploaded archive, assemble partSize items = some uploaded ∧
    IsChunking partSize (uploaded.map Prod.snd) archive ∧ uploaded ≠ [] ∧
    uploaded.map Prod.fst = List.range' 1 uploaded.length ∧
    Zip.readArchive archive = some (expected items)

theorem storedAt_map (items : List Item) :
    storedAt loc (items.map stored) = (placed items).map (Prod.map id stored) := by
  have hw (item : Item) : Zip.storedLen loc (stored item) = item.len := by
    rw [Zip.storedLen, loc, Zip.LocalHeader.length_encode]
    simp [localRecord, stored, Item.len]
  rw [storedAt, offsetsFrom_map]
  simp only [hw]
  rfl

theorem storedEntries_map (items : List Item) :
    Zip.storedEntries loc (items.map stored) = expected items := by
  rw [Zip.storedEntries, storedAt_map, List.map_map]
  rfl

theorem length_cen (off : Nat) (f : StoredFile) :
    (cen off f).length = 46 + f.name.length + if off > u32Max then 12 else 0 := by
  rw [cen, Zip.CentralHeader.length_encode]
  simp only [centralRecord, List.length_nil, Nat.add_zero, Zip.wideOffset, ones_four]
  split <;> simp

theorem length_untilEnds (items : List Item) :
    (untilEnds (items.map stored)).length = directoryEnd items := by
  have hdir : (storedDirectory loc cen (items.map stored)).length =
      ((placed items).map fun q =>
        46 + (utf8 q.2.name).length + if q.1 > u32Max then 12 else 0).sum := by
    rw [storedDirectory, List.length_flatMap, storedAt_map, List.map_map]
    congr 1
    exact List.map_congr_left fun q _ => length_cen q.1 (stored q.2)
  have hcontents : (storedContents loc (items.map stored)).length = (items.map Item.len).sum := by
    rw [Zip.length_storedContents, List.map_map]
    congr 1
    refine List.map_congr_left fun item _ => ?_
    rw [Function.comp_apply, Zip.storedLen, loc, Zip.LocalHeader.length_encode]
    simp [localRecord, stored, Item.len]
  rw [untilEnds, List.length_append, hcontents, hdir]
  rfl

theorem lost_iff {items : List Item} :
    (∃ q ∈ storedAt loc (items.map stored), SizeLost q.2.body.length q.1) ↔
      ∃ q ∈ placed items, q.2.body.length = u32Max ∧ u32Max < q.1 := by
  rw [storedAt_map]
  simp only [List.mem_map, exists_exists_and_eq_and, SizeLost, ones_four]
  rfl

section

variable {partSize : Nat} {items : List Item}

theorem fits_map (hfits : ∀ item ∈ items, Fits (stored item)) : ∀ f ∈ items.map stored, Fits f := by
  intro f hf
  obtain ⟨item, hitem, rfl⟩ := List.mem_map.1 hf
  exact hfits item hitem

/-- An archive that reads back has no lost size, and its positions fit in 64 bits. -/
theorem ArchiveReadsBack.fits (hP : 1 ≤ partSize) (h : ArchiveReadsBack partSize items) :
    (¬ ∃ q ∈ placed items, q.2.body.length = u32Max ∧ u32Max < q.1) ∧
      directoryEnd items < 2 ^ 64 := by
  obtain ⟨uploaded, archive, hrun, hchunks, -, -, hread⟩ := h
  obtain ⟨hfits, hlen, hstream, -, -⟩ := assemble_eq_some hP hrun
  have harchive : archive = stream (items.map stored) :=
    hchunks.flatten_eq.symm.trans hstream.flatten_eq
  rw [harchive] at hread
  refine ⟨fun hex => ?_, by rwa [← length_untilEnds]⟩
  rw [readArchive_stream_none (fits_map hfits) hlen (lost_iff.2 hex)] at hread
  cases hread

theorem archiveReadsBack (hP : 1 ≤ partSize) (hfits : ∀ item ∈ items, Fits (stored item))
    (hok : ¬ ∃ q ∈ placed items, q.2.body.length = u32Max ∧ u32Max < q.1)
    (hend : directoryEnd items < 2 ^ 64) : ArchiveReadsBack partSize items := by
  rw [← length_untilEnds] at hend
  obtain ⟨uploaded, hrun⟩ := exists_assemble hP hfits hend
  obtain ⟨-, -, hchunks, hnumbers, hne⟩ := assemble_eq_some hP hrun
  refine ⟨uploaded, _, hrun, hchunks, hne, hnumbers, ?_⟩
  rw [← storedEntries_map]
  refine readArchive_stream (fits_map hfits) hend fun q hq hlost => hok ?_
  exact lost_iff.1 ⟨q, hq, hlost⟩

end

/-- The archive reads back exactly when no item of `2 ^ 32 - 1` bytes has its local header above
`2 ^ 32 - 1`, and the directory ends below `2 ^ 64`. -/
theorem assemble_readsBack_iff {partSize : Nat} {items : List Item} (hP : 1 ≤ partSize)
    (hname : ∀ item ∈ items, (utf8 item.name).length ≤ 65535)
    (hsize : ∀ item ∈ items, item.body.length < 2 ^ 32) :
    ArchiveReadsBack partSize items ↔
      (¬ ∃ q ∈ placed items, q.2.body.length = 2 ^ 32 - 1 ∧ 2 ^ 32 - 1 < q.1) ∧
        directoryEnd items < 2 ^ 64 := by
  constructor
  · exact fun h => h.fits hP
  · rintro ⟨hok, hend⟩
    refine archiveReadsBack hP (fun item hitem => ?_) hok hend
    exact ⟨hsize item hitem, Nat.lt_succ_of_le (hname item hitem)⟩

/-- An item named `a` of three bytes and an item named `b` of two. -/
def twoItems : List Item := [⟨"a", 0x55BC801D, [1, 2, 3]⟩, ⟨"b", 0x55DF2374, [4, 5]⟩]

/-- Two items in parts of 64 bytes. -/
theorem assemble_readsBack_iff_two : ArchiveReadsBack 64 twoItems :=
  (assemble_readsBack_iff (by decide) (by decide) (by decide)).2 ⟨by decide, by decide⟩

/-- After an item of `2 ^ 32 - 1` bytes the size of another one is lost. -/
theorem not_readsBack_pair {partSize : Nat} {item : Item} (hP : 1 ≤ partSize)
    (h : item.body.length = u32Max) : ¬ ArchiveReadsBack partSize [item, item] := by
  intro hread
  refine (hread.fits hP).1 ⟨(0 + item.len, item), ?_, h, ?_⟩
  · exact List.mem_cons_of_mem _ List.mem_cons_self
  · unfold Item.len
    omega

/-- An item named `a` of `n` zero bytes. -/
def zeros (n : Nat) : Item := ⟨"a", 0, List.replicate n 0⟩

theorem length_zeros (n : Nat) : (zeros n).body.length = n := List.length_replicate

/-- Two items of 4 GiB − 1: the second header is behind the first body. -/
theorem assemble_not_readsBack : ¬ ArchiveReadsBack 10485760 [zeros 4294967295, zeros 4294967295] :=
  not_readsBack_pair (by decide) (length_zeros 4294967295)

end S3Archive.JNicholson
