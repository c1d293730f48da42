import S3Archive.SebstoC.ZipLayout
import Mathlib.Algebra.Order.BigOperators.Group.List

/-!
# sebsto C: the archive reads back

The encoder's records as the layouts of `S3Archive.Zip.Record`, and the archive
read through its end records. `readArchive_archive` says what a reader gets of any
files: nothing when there are more than 65535 and no ZIP64 record says so.
-/

namespace S3Archive.SebstoC

open Zip (StoredFile ones storedContents storedDirectory storedAt)

/-! ## Fields -/

theorem ones_four : ones 4 = 0xFFFFFFFF := by decide

theorem needZip64_eq {n : Nat} (h : n < 2 ^ 64) :
    needZip64 (UInt64.ofNat n) = decide (ones 4 ≤ n) := by
  have hn : (UInt64.ofNat n).toNat = n := UInt64.toNat_ofNat_of_lt' h
  unfold needZip64
  refine decide_eq_decide.2 ?_
  rw [ones_four, ge_iff_le, UInt64.le_iff_toNat_le, hn]
  rfl

theorem field32_eq {n : Nat} (h : n < 2 ^ 64) : field32 (UInt64.ofNat n) = min n (ones 4) := by
  unfold field32
  rw [needZip64_eq h, UInt64.toNat_ofNat_of_lt' h, ← ones_four]
  by_cases hn : ones 4 ≤ n
  · rw [if_pos (by simpa using hn), Nat.min_eq_right hn]
  · rw [if_neg (by simpa using hn), Nat.min_eq_left (by omega)]

section

variable {f : StoredFile} {off : Nat} (hsize : f.body.length < 2 ^ 64) (hoff : off < 2 ^ 64)

include hsize hoff

theorem anyZip64_eq : anyZip64 (entryAt off f) =
    decide ¬(f.body.length < ones 4 ∧ off < ones 4) := by
  unfold anyZip64 entryAt
  rw [needZip64_eq hsize, needZip64_eq hoff, ← Bool.decide_or]
  refine decide_eq_decide.2 ?_
  omega

theorem zip64Payload_eq : zip64Payload (entryAt off f) = Zip.wideFields f.body.length off := by
  have hfield {v : Nat} (hv : v < 2 ^ 64) :
      (if needZip64 (UInt64.ofNat v) then leBytes 8 (UInt64.ofNat v).toNat else []) =
        Zip.wideField v := by
    unfold Zip.wideField
    rw [needZip64_eq hv, UInt64.toNat_ofNat_of_lt' hv]
    by_cases h : v < ones 4
    · rw [if_pos h, if_neg (by simpa using h)]
    · rw [if_neg h, if_pos (by simpa using h)]
  unfold zip64Payload Zip.wideFields entryAt
  dsimp only
  rw [← hfield hsize, ← hfield hoff]
  split
  · rw [List.append_assoc]
  · rfl

end

@[simp] theorem length_keptName (f : StoredFile) :
    (keptName f).length = f.name.length % 2 ^ 16 := by
  rw [keptName, List.length_take]
  omega

theorem keptName_eq {f : StoredFile} (h : f.name.length < 2 ^ 16) : keptName f = f.name := by
  rw [keptName, Nat.mod_eq_of_lt h, List.take_length]

/-! ## Records -/

def localRecord (f : StoredFile) : Zip.LocalHeader where
  version := 20
  flags := 0
  method := 0
  time := 0
  date := 0
  crc := f.crc.toNat
  compressed := f.body.length
  uncompressed := f.body.length
  name := keptName f
  extra := []

def centralRecord (off : Nat) (f : StoredFile) : Zip.CentralHeader where
  madeBy := 45
  version := if f.body.length < ones 4 ∧ off < ones 4 then 20 else 45
  flags := 0
  method := 0
  time := 0
  date := 0
  crc := f.crc.toNat
  compressed := min f.body.length (ones 4)
  uncompressed := min f.body.length (ones 4)
  disk := 0
  internal := 0
  external := 0
  offset := min off (ones 4)
  name := keptName f
  extra := Zip.wideExtra f.body.length off
  comment := []

theorem leBytes_zero_add (v w : Nat) : leBytes (v + w) 0 = leBytes v 0 ++ leBytes w 0 := by
  induction v with
  | zero => rw [Nat.zero_add]; rfl
  | succ v ih => rw [Nat.succ_add, leBytes, leBytes, ih]; rfl

section

variable {f : StoredFile} {off : Nat} (hsize : f.body.length < 2 ^ 64)

include hsize

theorem loc_eq_encode : loc f = (localRecord f).encode := by
  have hlen : (UInt64.ofNat f.body.length).toNat = f.body.length :=
    UInt64.toNat_ofNat_of_lt' hsize
  unfold loc localHeader Zip.LocalHeader.encode localRecord nameLen entryAt
  dsimp only
  rw [hlen, length_keptName, leBytes_zero_add 2 2]
  simp [Zip.localSig]

theorem cen_eq_encode (hoff : off < 2 ^ 64) : cen off f = (centralRecord off f).encode := by
  have hany := anyZip64_eq hsize hoff
  have hextra : centralDirExtra (entryAt off f) =
      Zip.zip64Extra (Zip.wideFields f.body.length off) := by
    rw [centralDirExtra, zip64Payload_eq hsize hoff]
    rfl
  have hwide : (if anyZip64 (entryAt off f) then centralDirExtra (entryAt off f) else []) =
      Zip.wideExtra f.body.length off := by
    rw [hany, hextra, Zip.wideExtra]
    by_cases h : f.body.length < ones 4 ∧ off < ones 4
    · rw [if_pos h, if_neg (by simpa using h)]
    · rw [if_neg h, if_pos (decide_eq_true h)]
  have hversion : (if anyZip64 (entryAt off f) then 45 else 20) =
      if f.body.length < ones 4 ∧ off < ones 4 then 20 else 45 := by
    rw [hany]
    by_cases h : f.body.length < ones 4 ∧ off < ones 4
    · rw [if_pos h, if_neg (by simpa using h)]
    · rw [if_neg h, if_pos (decide_eq_true h)]
  have hlen : (if anyZip64 (entryAt off f) then (centralDirExtra (entryAt off f)).length else 0) =
      (Zip.wideExtra f.body.length off).length := by
    rw [← hwide]
    split <;> rfl
  unfold cen centralDirHeader Zip.CentralHeader.encode centralRecord
  rw [hwide, hversion, hlen, nameLen]
  dsimp only [entryAt]
  rw [field32_eq hsize, field32_eq hoff, length_keptName, leBytes_zero_add 2 2]
  simp [Zip.centralSig]

end

/-! ## The end records -/

section

variable {count cdSize cdOffset : Nat} (hcount : count < 2 ^ 64) (hsize : cdSize < 2 ^ 64)
  (hoff : cdOffset < 2 ^ 64)

/-- The end record, each field capped at its sentinel. -/
def cappedRecord (count cdSize cdOffset : Nat) : Zip.EndHeader :=
  ⟨0, 0, min count (ones 2), min count (ones 2), min cdSize (ones 4), min cdOffset (ones 4)⟩

theorem zip64Locator_eq_encode (hend : cdOffset + cdSize < 2 ^ 64) :
    zip64Locator (UInt64.ofNat cdOffset + UInt64.ofNat cdSize) =
      Zip.encodeLocator 0 (cdOffset + cdSize) 1 := by
  rw [zip64Locator, ← UInt64.ofNat_add, UInt64.toNat_ofNat_of_lt' hend]
  rfl

include hcount hsize hoff

theorem zip64Eocd_eq_encode :
    zip64Eocd (UInt64.ofNat count) (UInt64.ofNat cdSize) (UInt64.ofNat cdOffset) =
      Zip.EndHeader.encode64 ⟨0, 0, count, count, cdSize, cdOffset⟩ 45 45 := by
  rw [zip64Eocd, UInt64.toNat_ofNat_of_lt' hcount, UInt64.toNat_ofNat_of_lt' hsize,
    UInt64.toNat_ofNat_of_lt' hoff, leBytes_zero_add 4 4]
  simp [Zip.EndHeader.encode64, Zip.zip64EndSig]

theorem eocd_eq_encode :
    eocd (UInt64.ofNat count) (UInt64.ofNat cdSize) (UInt64.ofNat cdOffset) =
      (cappedRecord count cdSize cdOffset).encode := by
  have hcnt : (if UInt64.ofNat count > 0xFFFF then 0xFFFF else (UInt64.ofNat count).toNat) =
      min count (ones 2) := by
    have htwo : ones 2 = 0xFFFF := by decide
    rw [UInt64.toNat_ofNat_of_lt' hcount, htwo]
    by_cases h : UInt64.ofNat count > 0xFFFF
    · rw [if_pos h, Nat.min_eq_right]
      rw [gt_iff_lt, UInt64.lt_iff_toNat_lt, UInt64.toNat_ofNat_of_lt' hcount] at h
      exact Nat.le_of_lt h
    · rw [if_neg h, Nat.min_eq_left]
      rw [gt_iff_lt, UInt64.lt_iff_toNat_lt, UInt64.toNat_ofNat_of_lt' hcount] at h
      exact Nat.le_of_not_lt h
  unfold eocd
  dsimp only
  rw [hcnt, field32_eq hsize, field32_eq hoff, leBytes_zero_add 2 2]
  simp [Zip.EndHeader.encode, cappedRecord, Zip.endSig]

/-- A ZIP64 end record is written. -/
def NeedsZip64 (count cdSize cdOffset : Nat) : Prop :=
  ones 4 ≤ count ∨ ones 4 ≤ cdOffset ∨ ones 4 ≤ cdSize

instance : Decidable (NeedsZip64 count cdSize cdOffset) :=
  inferInstanceAs (Decidable (_ ∨ _ ∨ _))

theorem endBytes_eq (hend : cdOffset + cdSize < 2 ^ 64) :
    endBytes (UInt64.ofNat count) (UInt64.ofNat cdSize) (UInt64.ofNat cdOffset) =
      (if NeedsZip64 count cdSize cdOffset then
        Zip.EndHeader.encode64 ⟨0, 0, count, count, cdSize, cdOffset⟩ 45 45 ++
          Zip.encodeLocator 0 (cdOffset + cdSize) 1
      else []) ++ (cappedRecord count cdSize cdOffset).encode := by
  have hneed : (needZip64 (UInt64.ofNat count) || needZip64 (UInt64.ofNat cdOffset) ||
      needZip64 (UInt64.ofNat cdSize)) = decide (NeedsZip64 count cdSize cdOffset) := by
    rw [needZip64_eq hcount, needZip64_eq hoff, needZip64_eq hsize, ← Bool.decide_or,
      ← Bool.decide_or]
    refine decide_eq_decide.2 ?_
    rw [NeedsZip64, or_assoc]
  unfold endBytes
  rw [hneed, zip64Eocd_eq_encode hcount hsize hoff, zip64Locator_eq_encode hend,
    eocd_eq_encode hcount hsize hoff]
  by_cases h : NeedsZip64 count cdSize cdOffset
  · rw [if_pos h, if_pos (decide_eq_true h)]
  · rw [if_neg h, if_neg (by simpa using h)]

end

/-- What a reader gets of the ends: the count is cut at 65535 when no ZIP64 record is written. -/
theorem readEnds_endBytes {pre : Bytes} {count cdSize cdOffset : Nat}
    (hpre : pre.length = cdOffset + cdSize) (hend : cdOffset + cdSize < 2 ^ 64)
    (hcount : count < 2 ^ 64) :
    Zip.readEnds (pre ++ endBytes (UInt64.ofNat count) (UInt64.ofNat cdSize)
        (UInt64.ofNat cdOffset)) =
      some ⟨if NeedsZip64 count cdSize cdOffset then count else min count (ones 2), cdSize,
        cdOffset⟩ := by
  rw [endBytes_eq hcount (by omega) (by omega) hend]
  by_cases hz : NeedsZip64 count cdSize cdOffset
  · rw [if_pos hz, if_pos hz]
    exact Zip.readEnds_capped 45 45 hpre (by omega) hcount
  · have hentry : (cappedRecord count cdSize cdOffset).entry =
        ⟨min count (ones 2), cdSize, cdOffset⟩ := by
      unfold NeedsZip64 at hz
      rw [ones_four] at hz
      have htwo : ones 2 = 0xFFFF := by decide
      unfold cappedRecord Zip.EndHeader.entry
      rw [ones_four, htwo]
      congr 1 <;> dsimp only <;> omega
    rw [if_neg hz, if_neg hz, List.nil_append, Zip.readEnds_literal, hentry]
    rw [hentry, hpre]

/-! ## The archive -/

/-- The count of the entries fits its two bytes or is in a ZIP64 record. -/
def CountKept (files : List StoredFile) : Prop :=
  files.length ≤ ones 2 ∨ NeedsZip64 files.length (storedDirectory loc cen files).length
    (storedContents loc files).length

instance (files : List StoredFile) : Decidable (CountKept files) :=
  inferInstanceAs (Decidable (_ ∨ _))

/-- What a reader gets of the file's directory record. -/
def keptEntry (q : Nat × StoredFile) : Zip.CentralEntry :=
  ⟨keptName q.2, q.2.crc.toNat, q.2.body.length, q.2.body.length, q.1⟩

/-- What a reader gets of the file's header and body. -/
def keptFile (f : StoredFile) : Zip.LocalEntry × Bytes :=
  (⟨keptName f, f.crc.toNat, f.body.length % 2 ^ 32, f.body.length % 2 ^ 32⟩,
    f.body.take (f.body.length % 2 ^ 32))

section

variable {f : StoredFile} {off : Nat} (hsize : f.body.length < 2 ^ 64)

include hsize

theorem reads_loc : Reads Zip.readLocal (loc f) (keptFile f).1 := by
  have hname : (keptName f).length < 2 ^ 16 := by
    rw [length_keptName]
    exact Nat.mod_lt _ (Nat.two_pow_pos 16)
  rw [loc_eq_encode hsize]
  refine Zip.readLocal_encode (h := localRecord f) hname (Nat.two_pow_pos 16) ?_
  unfold Zip.LocalEntry.resolve Zip.LocalHeader.fixed localRecord
  dsimp only
  rw [Nat.mod_eq_of_lt f.crc.toNat_lt, Zip.Wide.resolve_nil]
  rfl

theorem reads_stored : Reads Zip.readStored
    (loc f ++ f.body.take (f.body.length % 2 ^ 32)) (keptFile f) := by
  refine Zip.readStored_append (reads_loc hsize) ?_
  rw [List.length_take]
  exact Nat.min_eq_left (Nat.mod_le _ _)

theorem reads_cen (hoff : off < 2 ^ 64) : Reads Zip.readCentral (cen off f) (keptEntry (off, f)) := by
  have hname : (keptName f).length < 2 ^ 16 := by
    rw [length_keptName]
    exact Nat.mod_lt _ (Nat.two_pow_pos 16)
  have hextra : (Zip.wideExtra f.body.length off).length < 2 ^ 16 :=
    Nat.lt_of_le_of_lt (Zip.length_wideExtra_le _ _) (by decide)
  have hmin (v : Nat) : min v (ones 4) % 2 ^ 32 = min v (ones 4) := by
    refine Nat.mod_eq_of_lt ?_
    rw [ones_four]
    omega
  rw [cen_eq_encode hsize hoff]
  refine Zip.readCentral_encode (h := centralRecord off f) hname hextra (Nat.two_pow_pos 16) ?_
  unfold Zip.CentralEntry.resolve Zip.CentralHeader.fixed centralRecord
  dsimp only
  rw [Nat.mod_eq_of_lt f.crc.toNat_lt, hmin, hmin, Zip.Wide.resolve_wideExtra hsize hoff]
  rfl

end

section

variable {files : List StoredFile}

/-- Each directory record takes at least 46 bytes. -/
theorem length_le_storedDirectory (files : List StoredFile) :
    files.length ≤ (storedDirectory loc cen files).length := by
  have hle : ∀ qs : List (Nat × StoredFile),
      qs.length ≤ (qs.flatMap fun q => cen q.1 q.2).length := by
    intro qs
    induction qs with
    | nil => exact Nat.le_refl _
    | cons q qs ih =>
      have hone : 1 ≤ (cen q.1 q.2).length := by
        rw [cen, centralDirHeader]
        simp only [List.length_append, List.length_flatten, List.map_cons, List.sum_cons,
          leBytes_length]
        omega
      rw [List.flatMap_cons, List.length_append, List.length_cons]
      omega
  have hall := hle (storedAt loc files)
  rwa [Zip.length_storedAt] at hall

variable (hlen : (archive files).length < 2 ^ 64)

include hlen

theorem length_untilEnds_lt :
    (storedContents loc files).length + (storedDirectory loc cen files).length < 2 ^ 64 := by
  rw [archive, List.length_append, List.length_append] at hlen
  omega

theorem fits_of_mem {q : Nat × StoredFile} (hq : q ∈ storedAt loc files) :
    q.2.body.length < 2 ^ 64 ∧ q.1 < 2 ^ 64 := by
  have hle := Zip.position_le_stored loc hq
  have hsum := length_untilEnds_lt hlen
  rw [Zip.storedLen] at hle
  omega

theorem readEnds_archive : Zip.readEnds (archive files) =
    some ⟨if CountKept files then files.length else ones 2,
      (storedDirectory loc cen files).length, (storedContents loc files).length⟩ := by
  have hsum := length_untilEnds_lt hlen
  have hcount := length_le_storedDirectory files
  have hpre : (storedContents loc files ++ storedDirectory loc cen files).length =
      (storedContents loc files).length + (storedDirectory loc cen files).length :=
    List.length_append
  have hread := readEnds_endBytes hpre hsum (show files.length < 2 ^ 64 by omega)
  have hcut : (if NeedsZip64 files.length (storedDirectory loc cen files).length
        (storedContents loc files).length then files.length else min files.length (ones 2)) =
      if CountKept files then files.length else ones 2 := by
    by_cases hkept : CountKept files
    · rw [if_pos hkept]
      split
      case isTrue => rfl
      case isFalse hz => exact Nat.min_eq_left (hkept.resolve_right hz)
    · rw [if_neg hkept, if_neg fun hz => hkept (.inr hz)]
      exact Nat.min_eq_right (Nat.le_of_not_le fun hn => hkept (.inl hn))
  rw [archive, hread, hcut]

theorem readArchive_archive : Zip.readArchive (archive files) =
    if CountKept files then
      some ((storedAt loc files).map fun q => (keptEntry q, keptFile q.2))
    else none := by
  have hends := readEnds_archive hlen
  have hcen (q : Nat × StoredFile) (hq : q ∈ storedAt loc files) :
      Reads Zip.readCentral (cen q.1 q.2) (keptEntry q) :=
    reads_cen (fits_of_mem hlen hq).1 (fits_of_mem hlen hq).2
  by_cases hcount : CountKept files
  · rw [if_pos hcount] at hends ⊢
    refine Zip.readArchive_records hends hcen (fun q _ => rfl) (fun f hf => reads_stored ?_)
      (fun f _ => ?_)
    · rw [← map_snd_offsetsFrom (Zip.storedLen loc) 0 files] at hf
      obtain ⟨q, hq, rfl⟩ := List.mem_map.1 hf
      exact (fits_of_mem hlen hq).1
    · exact (List.prefix_append_right_inj (loc f)).2 (List.take_prefix _ _)
  · -- the count of the end record is 65535, and the directory has more records
    rw [if_neg hcount] at hends ⊢
    have hdir : At (archive files) (storedContents loc files).length
        (storedDirectory loc cen files) := ⟨_, _, rfl, rfl⟩
    have hshort : ones 2 < (storedAt loc files).length := by
      rw [Zip.length_storedAt]
      exact Nat.lt_of_not_le fun hn => hcount (.inl hn)
    have hpos (q : Nat × StoredFile) (hq : q ∈ storedAt loc files) : cen q.1 q.2 ≠ [] := by
      rw [cen, centralDirHeader]
      exact List.append_ne_nil_of_left_ne_nil (List.cons_ne_nil _ _) _
    have hnone := Zip.readDirectory_at_short hdir hshort hpos hcen
    simp only [Zip.readArchive, hends, Option.bind_eq_bind, Option.bind_some]
    rw [storedDirectory, hnone]
    rfl

end

/-! ## Items -/

variable {crc32 : Bytes → UInt32} {items : List Item}

/-- An item as a file of a stored archive. -/
def stored (crc32 : Bytes → UInt32) (item : Item) : StoredFile :=
  ⟨item.name, crc32 item.data, item.data⟩

theorem collect_appends : Appends collect id := by
  intro u data eof u' h
  exact (Prod.mk.inj h).2.symm

theorem addItems_total (crc32 : Bytes → UInt32) (items : List Item) {z : ZipWriter Bytes}
    {files : List StoredFile} (hz : Holds id z files) :
    ∃ z', (addItems collect crc32 items).run z = (0, z') ∧
      Holds id z' (files ++ items.map (stored crc32)) := by
  induction items generalizing z files with
  | nil => exact ⟨z, rfl, by simpa using hz⟩
  | cons item items ih =>
    obtain ⟨z₁, h₁⟩ := hz.add_total collect_appends (fun _ _ => rfl) crc32 item.name item.data
    obtain ⟨z', hrun, hz'⟩ := ih (hz.add collect_appends h₁)
    refine ⟨z', ?_, by simpa [stored] using hz'⟩
    rw [addItems, run_orReturn, h₁]
    exact hrun

theorem emitted_eq (crc32 : Bytes → UInt32) (items : List Item) :
    emitted crc32 items = archive (items.map (stored crc32)) := by
  obtain ⟨z, hadd, hz⟩ := addItems_total crc32 items (@Holds.init _ id [] rfl)
  obtain ⟨z', hfin⟩ := hz.finish_total collect_appends fun _ _ _ => rfl
  obtain ⟨u, data, -, hlast, hsent⟩ := hz.finish collect_appends hfin
  rw [emitted, run_orReturn, hadd]
  change ((zipWriterFinish collect).run z).2.user = _
  rw [hfin, ← (Prod.mk.inj hlast).2]
  exact hsent

def Item.len (item : Item) : Nat := 30 + item.name.length + item.data.length

/-- The items with the positions of their local headers. -/
def placed (items : List Item) : List (Nat × Item) := offsetsFrom Item.len 0 items

/-- Where the central directory starts. -/
def contentsLen (items : List Item) : Nat := (items.map Item.len).sum

/-- The extra field of a directory record: both sizes and the offset, each when it needs ZIP64. -/
def extraLen (size off : Nat) : Nat :=
  if size < 2 ^ 32 - 1 ∧ off < 2 ^ 32 - 1 then 0
  else 4 + (if size < 2 ^ 32 - 1 then 0 else 16) + (if off < 2 ^ 32 - 1 then 0 else 8)

/-- The length of the central directory. -/
def directoryLen (items : List Item) : Nat :=
  ((placed items).map fun q => 46 + q.2.name.length + extraLen q.2.data.length q.1).sum

/-- What a reader should get: names, CRCs, sizes, positions and bodies, in order. -/
def expected (crc32 : Bytes → UInt32) (items : List Item) :
    List (Zip.CentralEntry × Zip.LocalEntry × Bytes) :=
  (placed items).map fun q =>
    (⟨q.2.name, (crc32 q.2.data).toNat, q.2.data.length, q.2.data.length, q.1⟩,
      ⟨q.2.name, (crc32 q.2.data).toNat, q.2.data.length, q.2.data.length⟩, q.2.data)

/-- What the writer emits reads back: the ends of the archive and every item. -/
def ReadsBack (crc32 : Bytes → UInt32) (items : List Item) : Prop :=
  Zip.readEnds (emitted crc32 items) =
      some ⟨items.length, directoryLen items, contentsLen items⟩ ∧
    Zip.readArchive (emitted crc32 items) = some (expected crc32 items)

theorem storedLen_stored {item : Item} (h : item.name.length ≤ 65535) :
    Zip.storedLen loc (stored crc32 item) = item.len := by
  have hhead : (localHeader (entryAt 0 (stored crc32 item))).length = 30 := by simp [localHeader]
  rw [Zip.storedLen, loc, List.length_append, length_keptName, hhead, stored, Item.len]
  dsimp only
  omega

theorem length_wideExtra (size off : Nat) :
    (Zip.wideExtra size off).length = extraLen size off := by
  have hones : ones 4 = 2 ^ 32 - 1 := by decide
  have hfield (v : Nat) : (Zip.wideField v).length = if v < 2 ^ 32 - 1 then 0 else 8 := by
    rw [Zip.wideField, hones]
    split <;> simp
  unfold Zip.wideExtra extraLen Zip.wideFields
  rw [hones]
  by_cases h : size < 2 ^ 32 - 1 ∧ off < 2 ^ 32 - 1
  · rw [if_pos h, if_pos h]
    rfl
  · rw [if_neg h, if_neg h, Zip.zip64Extra_length, List.length_append, List.length_append, hfield,
      hfield]
    split <;> omega

theorem length_cen {f : StoredFile} {off : Nat} (hsize : f.body.length < 2 ^ 64)
    (hoff : off < 2 ^ 64) (hname : f.name.length < 2 ^ 16) :
    (cen off f).length = 46 + f.name.length + extraLen f.body.length off := by
  rw [cen_eq_encode hsize hoff, Zip.CentralHeader.length_encode, centralRecord]
  dsimp only
  rw [keptName_eq hname, length_wideExtra]
  rfl

section

variable (crc32) (hname : ∀ item ∈ items, item.name.length ≤ 65535)

include hname

theorem storedAt_map : storedAt loc (items.map (stored crc32)) =
    (placed items).map (Prod.map id (stored crc32)) := by
  have hw : ∀ item ∈ items, Zip.storedLen loc (stored crc32 item) = item.len :=
    fun item hitem => storedLen_stored (hname item hitem)
  rw [storedAt, offsetsFrom_map, offsetsFrom_congr _ hw]
  rfl

theorem length_contents :
    (storedContents loc (items.map (stored crc32))).length = contentsLen items := by
  rw [Zip.length_storedContents, List.map_map, contentsLen]
  exact congrArg List.sum (List.map_congr_left fun item hitem => storedLen_stored (hname item hitem))

variable (hlen : (emitted crc32 items).length < 2 ^ 64)

include hlen

theorem length_directory :
    (storedDirectory loc cen (items.map (stored crc32))).length = directoryLen items := by
  rw [emitted_eq] at hlen
  have hmem (q : Nat × Item) (hq : q ∈ placed items) :
      Prod.map id (stored crc32) q ∈ storedAt loc (items.map (stored crc32)) := by
    rw [storedAt_map crc32 hname]
    exact List.mem_map_of_mem hq
  rw [storedDirectory, List.length_flatMap, storedAt_map crc32 hname, List.map_map, directoryLen]
  refine congrArg List.sum (List.map_congr_left fun q hq => ?_)
  obtain ⟨hs, ho⟩ := fits_of_mem hlen (hmem q hq)
  have hn := hname q.2 (snd_mem_of_mem_offsetsFrom _ hq)
  exact length_cen hs ho (Nat.lt_succ_of_le hn)

theorem readEnds_emitted : Zip.readEnds (emitted crc32 items) =
    some ⟨if CountKept (items.map (stored crc32)) then items.length else 65535,
      directoryLen items, contentsLen items⟩ := by
  have hdir := length_directory crc32 hname hlen
  rw [emitted_eq] at hlen ⊢
  rw [readEnds_archive hlen, hdir, length_contents crc32 hname, List.length_map]
  rfl

theorem countKept_iff : CountKept (items.map (stored crc32)) ↔
    items.length ≤ 65535 ∨ 2 ^ 32 - 1 ≤ contentsLen items ∨ 2 ^ 32 - 1 ≤ directoryLen items := by
  have hdir := length_directory crc32 hname hlen
  have hcount := length_le_storedDirectory (items.map (stored crc32))
  have hones : ones 4 = 2 ^ 32 - 1 := by decide
  have htwo : ones 2 = 65535 := by decide
  rw [List.length_map, hdir] at hcount
  rw [CountKept, NeedsZip64, List.length_map, hdir, length_contents crc32 hname, hones, htwo]
  omega

theorem readArchive_emitted (hsize : ∀ item ∈ items, item.data.length < 2 ^ 32) :
    Zip.readArchive (emitted crc32 items) =
      if CountKept (items.map (stored crc32)) then some (expected crc32 items) else none := by
  rw [emitted_eq] at hlen ⊢
  rw [readArchive_archive hlen, storedAt_map crc32 hname, List.map_map, expected]
  congr 2
  refine List.map_congr_left fun q hq => ?_
  have hitem : q.2 ∈ items := snd_mem_of_mem_offsetsFrom _ hq
  have hn : keptName (stored crc32 q.2) = q.2.name :=
    keptName_eq (Nat.lt_succ_of_le (hname _ hitem))
  have hs : (stored crc32 q.2).body.length % 2 ^ 32 = q.2.data.length :=
    Nat.mod_eq_of_lt (hsize _ hitem)
  rw [Function.comp_apply, Prod.map, keptEntry, keptFile]
  dsimp only [id]
  rw [hn, hs]
  exact congrArg (fun body => (_, _, body)) List.take_length

end

/-- The archive reads back exactly when it has at most 65535 entries or a ZIP64 end record. -/
theorem emitted_readsBack_iff {crc32 : Bytes → UInt32} {items : List Item}
    (hname : ∀ item ∈ items, item.name.length ≤ 65535)
    (hsize : ∀ item ∈ items, item.data.length < 2 ^ 32)
    (hlen : (emitted crc32 items).length < 2 ^ 64) :
    ReadsBack crc32 items ↔
      items.length ≤ 65535 ∨ 2 ^ 32 - 1 ≤ contentsLen items ∨ 2 ^ 32 - 1 ≤ directoryLen items := by
  rw [← countKept_iff crc32 hname hlen, ReadsBack, readArchive_emitted crc32 hname hlen hsize]
  constructor
  · rintro ⟨-, hread⟩
    by_contra hkept
    rw [if_neg hkept] at hread
    cases hread
  · intro hkept
    rw [readEnds_emitted crc32 hname hlen, if_pos hkept, if_pos hkept]
    exact ⟨rfl, rfl⟩

/-! ## Items in any order -/

/-- The length of a directory without ZIP64 extra fields. -/
def plainDirectoryLen (items : List Item) : Nat :=
  (items.map fun item => 46 + item.name.length).sum

theorem directoryLen_eq (h : contentsLen items < 2 ^ 32 - 1) :
    directoryLen items = plainDirectoryLen items := by
  have hplain (q : Nat × Item) (hq : q ∈ placed items) : extraLen q.2.data.length q.1 = 0 := by
    have hle := end_le_of_mem_offsetsFrom Item.len hq
    rw [contentsLen] at h
    rw [Item.len] at hle
    exact if_pos ⟨by omega, by omega⟩
  have hsnd : items.map (fun item => 46 + item.name.length) =
      (placed items).map fun q => 46 + q.2.name.length := by
    conv_lhs => rw [← map_snd_offsetsFrom Item.len 0 items, List.map_map]
    rfl
  rw [directoryLen, plainDirectoryLen, hsnd]
  refine congrArg List.sum (List.map_congr_left fun q hq => ?_)
  rw [hplain q hq, Nat.add_zero]

/-- What a reader gets of an item: its name as far as two bytes count it, its data as far as four
bytes do. -/
def keptItem (item : Item) : Item :=
  ⟨item.name.take (item.name.length % 2 ^ 16), item.data.take (item.data.length % 2 ^ 32)⟩

/-- The items that a reader gets of an archive, in order. -/
def readItems (bs : Bytes) : Option (List Item) :=
  (Zip.readArchive bs).map fun es => es.map fun e => ⟨e.1.name, e.2.2⟩

theorem readItems_archive (crc32 : Bytes → UInt32) (items : List Item)
    (hlen : (archive (items.map (stored crc32))).length < 2 ^ 64) :
    readItems (archive (items.map (stored crc32))) =
      if CountKept (items.map (stored crc32)) then some (items.map keptItem) else none := by
  have hmap : (storedAt loc (items.map (stored crc32))).map
      (fun q => (⟨(keptEntry q).name, (keptFile q.2).2⟩ : Item)) = items.map keptItem := by
    have hsnd := map_snd_offsetsFrom (Zip.storedLen loc) 0 (items.map (stored crc32))
    have hkept := congrArg (List.map fun f => (⟨keptName f, (keptFile f).2⟩ : Item)) hsnd
    rw [List.map_map, List.map_map] at hkept
    exact hkept
  rw [readItems, readArchive_archive hlen]
  split
  · rw [Option.map_some, List.map_map, ← hmap]
    rfl
  · rfl

theorem keptItem_eq_iff {item : Item} : keptItem item = item ↔
    item.name.length < 2 ^ 16 ∧ item.data.length < 2 ^ 32 := by
  constructor
  · intro h
    have hname := congrArg (fun item => item.name.length) h
    have hdata := congrArg (fun item => item.data.length) h
    simp only [keptItem, List.length_take] at hname hdata
    omega
  · rintro ⟨hname, hdata⟩
    rw [keptItem, Nat.mod_eq_of_lt hname, Nat.mod_eq_of_lt hdata, List.take_length,
      List.take_length]

/-- Cut items are the items themselves, in any order, only when nothing was cut. -/
theorem perm_keptItem_iff {items : List Item} : (items.map keptItem).Perm items ↔
    ∀ item ∈ items, item.name.length < 2 ^ 16 ∧ item.data.length < 2 ^ 32 := by
  constructor
  · intro hperm item hitem
    have hlen (g : Item → Nat) (hle : ∀ x, g (keptItem x) ≤ g x) : g (keptItem item) = g item := by
      -- the sums over both lists agree, so no term is smaller
      have hsum := (hperm.map g).sum_eq
      rw [List.map_map] at hsum
      by_contra hne
      have hlt := List.sum_lt_sum (g ∘ keptItem) g (fun x _ => hle x)
        ⟨item, hitem, Nat.lt_of_le_of_ne (hle item) hne⟩
      omega
    have hname := hlen (fun x => x.name.length) fun x => by simp [keptItem]
    have hdata := hlen (fun x => x.data.length) fun x => by simp [keptItem]
    simp only [keptItem, List.length_take] at hname hdata
    omega
  · intro h
    rw [List.map_congr_left fun item hitem => keptItem_eq_iff.2 (h item hitem), List.map_id']

/-- The CRC-32 of the contents `[1, 2, 3]` and `[4, 5]`. -/
def crcOfTwo (body : Bytes) : UInt32 := if body = [1, 2, 3] then 0x55BC801D else 0x55DF2374

/-- A file `a` of three bytes and a file `b` of two. -/
def twoItems : List Item := [⟨[0x61], [1, 2, 3]⟩, ⟨[0x62], [4, 5]⟩]

/-- Few entries are read back through the classic end record. -/
theorem emitted_readsBack_iff_two : ReadsBack crcOfTwo twoItems :=
  (emitted_readsBack_iff (by decide) (by decide) (by decide +kernel)).2 (.inl (by decide))

/-! ## Bounds on the length -/

theorem length_cen_le (off : Nat) (f : StoredFile) :
    (cen off f).length ≤ 74 + f.name.length := by
  have hpayload : (zip64Payload (entryAt off f)).length ≤ 24 := by
    unfold zip64Payload
    rw [List.length_append]
    split <;> split <;> simp
  have hhead : (centralDirHeader (entryAt off f)).length = 46 := by simp [centralDirHeader]
  have hname := length_keptName f
  have hmod := Nat.mod_le f.name.length (2 ^ 16)
  rw [cen, List.length_append, List.length_append, hhead, hname]
  split
  · simp only [centralDirExtra, List.length_append, List.length_cons, List.length_nil,
      leBytes_length]
    omega
  · rw [List.length_nil]
    omega

theorem length_endBytes_le (count cdSize cdOffset : UInt64) :
    (endBytes count cdSize cdOffset).length ≤ 98 := by
  have h₁ : (eocd count cdSize cdOffset).length = 22 := by simp [eocd]
  have h₂ : (zip64Eocd count cdSize cdOffset).length = 56 := by simp [zip64Eocd]
  have h₃ : (zip64Locator (cdOffset + cdSize)).length = 20 := by simp [zip64Locator]
  rw [endBytes, List.length_append, h₁]
  split
  · rw [List.length_append, h₂, h₃]
  · exact Nat.le_add_left _ _

/-- The length of a directory whose records all have the longest extra field. -/
def directoryCap (items : List Item) : Nat := (items.map fun item => 74 + item.name.length).sum

theorem sum_placed_le {w : Nat × Item → Nat} (hw : ∀ q, w q ≤ 74 + q.2.name.length) :
    ((placed items).map w).sum ≤ directoryCap items := by
  have hsnd : items.map (fun item => 74 + item.name.length) =
      (placed items).map fun q => 74 + q.2.name.length := by
    conv_lhs => rw [← map_snd_offsetsFrom Item.len 0 items, List.map_map]
    rfl
  rw [directoryCap, hsnd]
  exact List.sum_le_sum fun q _ => hw q

theorem directoryLen_le (items : List Item) : directoryLen items ≤ directoryCap items := by
  refine sum_placed_le fun q => ?_
  have hextra : extraLen q.2.data.length q.1 ≤ 28 := by
    unfold extraLen
    split
    · exact Nat.zero_le _
    · split <;> split <;> omega
  omega

theorem length_emitted_le (crc32 : Bytes → UInt32) {items : List Item}
    (hname : ∀ item ∈ items, item.name.length ≤ 65535) :
    (emitted crc32 items).length ≤ contentsLen items + directoryCap items + 98 := by
  have hdir : (storedDirectory loc cen (items.map (stored crc32))).length ≤
      directoryCap items := by
    rw [storedDirectory, List.length_flatMap, storedAt_map crc32 hname, List.map_map]
    exact sum_placed_le fun q => length_cen_le q.1 (stored crc32 q.2)
  rw [emitted_eq, archive, List.length_append, List.length_append, length_contents crc32 hname]
  exact Nat.add_le_add (Nat.add_le_add_left hdir _) (length_endBytes_le _ _ _)

/-- More than 65535 entries in a small archive are not read back. -/
theorem not_readsBack_of_many (crc32 : Bytes → UInt32) {items : List Item}
    (hname : ∀ item ∈ items, item.name.length ≤ 65535) (hmany : 65535 < items.length)
    (hsmall : contentsLen items + directoryCap items < 2 ^ 32 - 1) : ¬ ReadsBack crc32 items := by
  rintro ⟨hends, -⟩
  have hlen := length_emitted_le crc32 hname
  have hdir := directoryLen_le items
  rw [readEnds_emitted crc32 hname (by omega), if_neg] at hends
  · injection hends with hends
    injection hends with hcount
    omega
  · rw [countKept_iff crc32 hname (by omega)]
    omega

/-- `n` empty objects named `a`. -/
def empties (n : Nat) : List Item := List.replicate n ⟨[0x61], []⟩

theorem contentsLen_empties (n : Nat) : contentsLen (empties n) = n * 31 := by
  simp [contentsLen, empties, Item.len]

theorem directoryCap_empties (n : Nat) : directoryCap (empties n) = n * 75 := by
  simp [directoryCap, empties]

/-- One object more than the 16 bits of the count hold. -/
theorem emitted_not_readsBack : ¬ ReadsBack (fun _ => 0) (empties 65536) := by
  refine not_readsBack_of_many _ (fun item hitem => ?_) ?_ ?_
  · rw [(List.mem_replicate.1 hitem).2]
    decide
  · rw [empties, List.length_replicate]
    decide
  · rw [contentsLen_empties, directoryCap_empties]
    decide

end S3Archive.SebstoC
