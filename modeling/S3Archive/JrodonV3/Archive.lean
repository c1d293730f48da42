import S3Archive.JrodonV3.Legality
import S3Archive.JrodonV3.PartOutput
import S3Archive.JrodonV3.ZipRoundTrip

/-!
# jrodon-v3: the archive as a whole

The outputs of the part jobs, one after the other, are a ZIP archive of the
files (`IsArchive`): `planJobs_archive`. The headers may reach the central
directory element in any order.
-/

namespace S3Archive.JrodonV3

open FileEntry
open RegularZipPart (partSize)

/-- A file's local header and its whole body. -/
def entryBytes (src : Source) (f : FileInfo) (h : LocalFileHeader CRC32) : Bytes :=
  h.dump ++ src.body f.bucketName f.key

/-- `archive` holds the files in the order `order` with the given local headers, then one
directory header for each file, then the end records. -/
structure IsArchive (src : Source) (files order : List FileInfo)
    (headers : List (LocalFileHeader CRC32)) (eocd : EndOfCentralDirectory64)
    (archive : Bytes) : Prop where
  each_once : order.Perm files
  header_of : List.Forall₂ (fun f h => h.name = f.name ∧ h.fileSize = f.size ∧
    h.crc32 = src.crc32 f.bucketName f.key) order headers
  layout : archive = (List.zipWith (entryBytes src) order headers).flatten ++
    headers.flatMap (fun h => (CentralDirectoryFileHeader.fromLoc h).dump) ++ eocd.dump
  /-- The offset stored in a directory header is where its local header is. -/
  offset_actual : List.Forall₂ (fun f h => At archive (CentralDirectoryFileHeader.fromLoc h).locOffset
    (entryBytes src f h)) order headers
  count_actual : eocd.recordCount = files.length
  directory_actual : At archive eocd.centralDirectoryOffset
    (headers.flatMap fun h => (CentralDirectoryFileHeader.fromLoc h).dump)
  directory_size : eocd.centralDirectorySize =
    (headers.flatMap fun h => (CentralDirectoryFileHeader.fromLoc h).dump).length
  end_actual : At archive eocd.eocd64Offset eocd.dump
  end_readable : archive.length < 2 ^ 64 → eocd.ReadsBack

/-! ## Files at offsets -/

/-- The local header of a file at an offset. -/
def fileLoc (src : Source) (p : Nat × FileEntry) : LocalFileHeader CRC32 :=
  ⟨p.1, p.2.name, src.crc32 p.2.bucketName p.2.key, p.2.size⟩

def fileBytes (src : Source) (p : Nat × FileEntry) : Bytes := entryBytes src p.2 (fileLoc src p)

def fileCdfh (src : Source) (p : Nat × FileEntry) : CentralDirectoryFileHeader :=
  .fromLoc (fileLoc src p)

/-- The bodies of the files have their listed sizes. -/
def SizesListed (src : Source) (files : List FileInfo) : Prop :=
  ∀ f ∈ files, (src.body f.bucketName f.key).length = f.size

theorem length_fileBytes {src : Source} {p : Nat × FileEntry}
    (h : (src.body p.2.bucketName p.2.key).length = p.2.size) :
    (fileBytes src p).length = p.2.entrySize := by
  unfold fileBytes entryBytes
  rw [List.length_append, LocalFileHeader.length_dump, h]
  rfl

theorem length_dump_fileCdfh (src : Source) (p : Nat × FileEntry) :
    (fileCdfh src p).dump.length = cdfhSize p := by
  rw [CentralDirectoryFileHeader.length_dump]
  rfl

/-- The local headers of an archive. -/
def fileHeaders (src : Source) (order : List FileEntry) : List (LocalFileHeader CRC32) :=
  (placed order).map (fileLoc src)

/-- The directory headers of an archive. -/
def directory (src : Source) (order : List FileEntry) : List CentralDirectoryFileHeader :=
  (placed order).map (fileCdfh src)

theorem length_directory (src : Source) (order : List FileEntry) :
    ((directory src order).flatMap CentralDirectoryFileHeader.dump).length =
      directorySize order := by
  unfold directory directorySize
  rw [List.length_flatMap, List.map_map]
  congr 1
  refine List.map_congr_left fun p _ => ?_
  exact length_dump_fileCdfh src p

theorem length_content {src : Source} {off : Nat} {fs : List FileEntry} (h : SizesListed src fs) :
    ((offsetsFrom entrySize off fs).flatMap (fileBytes src)).length = partSize fs := by
  have hmap : (offsetsFrom entrySize off fs).map (fun p => (fileBytes src p).length) =
      ((offsetsFrom entrySize off fs).map Prod.snd).map entrySize := by
    rw [List.map_map]
    refine List.map_congr_left fun p hp => ?_
    exact length_fileBytes (h _ (snd_mem_of_mem_offsetsFrom _ hp))
  rw [List.length_flatMap, hmap, map_snd_offsetsFrom]
  rfl

/-! ## Outputs of upload parts -/

section

variable {ch : CdfhChannel} {src : Source} {received : List CentralDirectoryFileHeader}

theorem flatMap_getElems (off : Nat) (fs : List FileEntry) :
    (getElems ch off fs).flatMap (UploadPartElement.bytes src received) =
      (offsetsFrom entrySize off fs).flatMap (fileBytes src) := by
  unfold getElems
  rw [List.flatMap_map]
  rfl

theorem length_bytes_getElems {off : Nat} {fs : List FileEntry} (h : SizesListed src fs) :
    ∀ e ∈ getElems ch off fs, (e.bytes src received).length = e.elemSize := by
  intro e he
  obtain ⟨p, hp, rfl⟩ := List.mem_map.1 he
  exact length_fileBytes (h _ (snd_mem_of_mem_offsetsFrom _ hp))

/-- The upload part's share of the large file: its header and the downloaded bytes. -/
theorem Duo.bytes_bigElem (off : Nat) (d : Duo) :
    (d.bigElem ch off).bytes src received =
      (fileLoc src (off + partSize d.regular, d.big)).dump ++
        (src.body d.big.bucketName d.big.key).take d.start := by
  unfold bigElem
  by_cases h : d.start > 0
  · rw [if_pos h]; rfl
  · rw [if_neg h, Nat.eq_zero_of_not_pos h]
    simp [entryElem, UploadPartElement.bytes, SerializableEntryFromS3.bytes,
      SerializableEntryFromS3.stream, SerializableEntryFromS3.resolvedLoc, fileLoc,
      LocalFileHeader.setCrc, LocalFileHeader.new]

theorem Duo.output_uploadJob {off n : Nat} {d : Duo} (h : SizesListed src d.files) :
    (uploadJob n (d.uploadElems ch off)).output src received =
      some ((offsetsFrom entrySize off d.regular).flatMap (fileBytes src) ++
        ((fileLoc src (off + partSize d.regular, d.big)).dump ++
          (src.body d.big.bucketName d.big.key).take d.start)) := by
  have hbig : (src.body d.big.bucketName d.big.key).length = d.big.size :=
    h _ (List.mem_append_right _ List.mem_cons_self)
  have hfloor := d.copy_floor
  have hexact : ∀ e ∈ d.uploadElems ch off, (e.bytes src received).length = e.elemSize := by
    intro e he
    rcases List.mem_append.1 he with he | he
    · exact length_bytes_getElems (fun f hf => h f (List.mem_append_left _ hf)) e he
    · rw [List.mem_singleton.1 he, d.bytes_bigElem, d.elemSize_bigElem, List.length_append,
        LocalFileHeader.length_dump, List.length_take, hbig]
      show d.big.locSize + min d.start d.big.size = d.big.locSize + d.start
      omega
  refine (writeElems_exact hexact).trans ?_
  unfold uploadElems
  rw [List.flatMap_append, flatMap_getElems]
  simp [d.bytes_bigElem]

theorem Duo.output_copyJob {n : Nat} {d : Duo}
    (hbig : (src.body d.big.bucketName d.big.key).length = d.big.size) :
    (d.copyJob n).output src received =
      some ((src.body d.big.bucketName d.big.key).drop d.start) := by
  have hfloor := d.copy_floor
  have hmin : 0 < minPartSize := by decide
  show copyBytes _ (if d.start > 0 then _ else _) = _
  by_cases h : d.start > 0
  · rw [if_pos h]
    have hrange : d.start ≤ d.big.size - 1 ∧
        d.big.size - 1 < (src.body d.big.bucketName d.big.key).length := by
      rw [hbig]
      omega
    refine (if_pos hrange).trans ?_
    -- the range ends at the last byte
    rw [List.take_of_length_le]
    rw [List.length_drop]
    dsimp only
    omega
  · rw [if_neg h, Nat.eq_zero_of_not_pos h]
    rfl

/-- A job outputs exactly `part_size` bytes. -/
def Outputs (src : Source) (received : List CentralDirectoryFileHeader) (job : PartJob)
    (out : Bytes) : Prop :=
  job.output src received = some out ∧ out.length = job.partSize

/-- The two parts of each Duo hold its files one after the other. -/
theorem outputs_duoJobs {ds : List Duo} (h : SizesListed src (ds.flatMap Duo.files))
    (off n : Nat) :
    ∃ outs, List.Forall₂ (Outputs src received) (duoJobs ch off n ds) outs ∧
      outs.flatten = (offsetsFrom entrySize off (ds.flatMap Duo.files)).flatMap (fileBytes src) := by
  induction ds generalizing off n with
  | nil => exact ⟨[], .nil, rfl⟩
  | cons d ds ih =>
    rw [List.flatMap_cons] at h ⊢
    have hd : SizesListed src d.files := fun f hf => h f (List.mem_append_left _ hf)
    have hbig : (src.body d.big.bucketName d.big.key).length = d.big.size :=
      hd _ (List.mem_append_right _ List.mem_cons_self)
    have hreg : SizesListed src d.regular := fun f hf => hd f (List.mem_append_left _ hf)
    have hfloor := d.copy_floor
    obtain ⟨outs, houts, hflat⟩ :=
      ih (fun f hf => h f (List.mem_append_right _ hf)) (off + partSize d.files) (n + 2)
    refine ⟨_ :: _ :: outs, .cons ⟨d.output_uploadJob hd, ?_⟩
      (.cons ⟨d.output_copyJob hbig, ?_⟩ houts), ?_⟩
    · rw [partSize_uploadJob, d.sum_uploadElems, List.length_append, length_content hreg,
        List.length_append, LocalFileHeader.length_dump, List.length_take, hbig]
      show _ + (d.big.locSize + min d.start d.big.size) = _
      omega
    · rw [List.length_drop, hbig]
      rfl
    · have hsum : (d.files.map entrySize).sum = partSize d.files := rfl
      have hregsum : (d.regular.map entrySize).sum = partSize d.regular := rfl
      rw [List.flatten_cons, List.flatten_cons, hflat, offsetsFrom_append, List.flatMap_append, hsum]
      unfold Duo.files
      rw [offsetsFrom_append, List.flatMap_append, hregsum]
      simp [fileBytes, entryBytes]
      rw [← List.append_assoc, List.take_append_drop]

/-! ## Headers -/

theorem filterMap_getElems (off : Nat) (fs : List FileEntry) :
    (getElems ch off fs).filterMap (UploadPartElement.cdfh? src) =
      (offsetsFrom entrySize off fs).map (fileCdfh src) := by
  unfold getElems
  rw [List.filterMap_map]
  show List.filterMap (some ∘ fileCdfh src) _ = _
  rw [List.filterMap_eq_map]

theorem cdfhs_duoJobs (ds : List Duo) (off n : Nat) :
    (duoJobs ch off n ds).flatMap (PartJob.cdfhs src) =
      (offsetsFrom entrySize off (ds.flatMap Duo.files)).map (fileCdfh src) := by
  induction ds generalizing off n with
  | nil => rfl
  | cons d ds ih =>
    have hup : (uploadJob n (d.uploadElems ch off)).cdfhs src =
        (offsetsFrom entrySize off d.files).map (fileCdfh src) := by
      show (d.uploadElems ch off).filterMap _ = _
      unfold Duo.uploadElems Duo.files Duo.bigElem
      rw [List.filterMap_append, filterMap_getElems, offsetsFrom_append, List.map_append]
      rfl
    have hcopy : (d.copyJob (n + 1)).cdfhs src = [] := rfl
    have hsum : (d.files.map entrySize).sum = partSize d.files := rfl
    rw [duoJobs, List.flatMap_cons, List.flatMap_cons, hup, hcopy, ih, List.flatMap_cons,
      offsetsFrom_append, List.map_append, hsum]
    rfl

/-- Each file's entry sends one header. -/
theorem cdfhs_jobList (ch : CdfhChannel) (src : Source) (duos : List Duo)
    (tail : List FileEntry) :
    (jobList ch duos tail).flatMap (PartJob.cdfhs src) =
      directory src (duos.flatMap Duo.files ++ tail) := by
  have hlast : ∀ elems n, (uploadJob n elems).cdfhs src =
      elems.filterMap (UploadPartElement.cdfh? src) := fun _ _ => rfl
  unfold jobList directory
  rw [List.flatMap_append, cdfhs_duoJobs, placed_append, List.map_append]
  simp only [List.flatMap_cons, List.flatMap_nil, List.append_nil, hlast, List.filterMap_append,
    filterMap_getElems]
  simp [cdElem, UploadPartElement.cdfh?]

theorem sorted_directory (src : Source) (order : List FileEntry) :
    ((directory src order).map CentralDirectoryFileHeader.locOffset).Pairwise (· < ·) := by
  have hmap : (directory src order).map CentralDirectoryFileHeader.locOffset =
      (placed order).map Prod.fst := by
    unfold directory
    rw [List.map_map]
    rfl
  rw [hmap]
  exact pairwise_offsetsFrom _ entrySize_pos 0 order

/-- Whatever the order of arrival, the headers are stored in archive order. -/
theorem storedCdfhs_eq {order : List FileEntry} (h : received.Perm (directory src order)) :
    storedCdfhs (endRecords order) received = directory src order := by
  refine collect_values h (sorted_directory src order) ?_
  unfold directory placed
  rw [List.length_map, length_offsetsFrom]
  rfl

theorem bytes_cdElem {order : List FileEntry} (h : received.Perm (directory src order)) :
    (cdElem ch order).bytes src received =
      (directory src order).flatMap CentralDirectoryFileHeader.dump ++ (endRecords order).dump := by
  show (storedCdfhs _ _).flatMap _ ++ _ = _
  rw [storedCdfhs_eq h]

/-- The central directory fills its slice. -/
theorem length_bytes_cdElem {order : List FileEntry} (h : received.Perm (directory src order)) :
    ((cdElem ch order).bytes src received).length = (cdElem ch order).elemSize := by
  rw [bytes_cdElem h, List.length_append, length_directory, EndOfCentralDirectory64.length_dump]
  rfl

end

/-! ## The archive -/

theorem outputs_jobList (ch : CdfhChannel) {src : Source} {duos : List Duo}
    {tail : List FileEntry} (h : SizesListed src (duos.flatMap Duo.files ++ tail))
    {received : List CentralDirectoryFileHeader}
    (hreceived : received.Perm (directory src (duos.flatMap Duo.files ++ tail))) :
    ∃ outs, List.Forall₂ (Outputs src received) (jobList ch duos tail) outs ∧
      outs.flatten = (placed (duos.flatMap Duo.files ++ tail)).flatMap (fileBytes src) ++
        (directory src (duos.flatMap Duo.files ++ tail)).flatMap CentralDirectoryFileHeader.dump ++
        (endRecords (duos.flatMap Duo.files ++ tail)).dump := by
  have htail : SizesListed src tail := fun f hf => h f (List.mem_append_right _ hf)
  obtain ⟨outs, houts, hflat⟩ := @outputs_duoJobs ch src received duos
    (fun f hf => h f (List.mem_append_left _ hf)) 0 1
  have hexact : ∀ e ∈ getElems ch (partSize (duos.flatMap Duo.files)) tail ++
      [cdElem ch (duos.flatMap Duo.files ++ tail)],
      (e.bytes src received).length = e.elemSize := by
    intro e he
    rcases List.mem_append.1 he with he | he
    · exact length_bytes_getElems htail e he
    · rw [List.mem_singleton.1 he]
      exact length_bytes_cdElem hreceived
  have hlast := writeElems_exact hexact
  refine ⟨outs ++ [_], List.rel_append houts (.cons ⟨hlast, ?_⟩ .nil), ?_⟩
  · rw [partSize_uploadJob, List.length_flatMap]
    congr 1
    exact List.map_congr_left hexact
  · rw [List.flatten_append, hflat, placed_append, List.flatMap_append, List.flatten_singleton,
      List.flatMap_append, flatMap_getElems]
    simp [bytes_cdElem hreceived]

theorem forall₂_placed {src : Source} {R : FileInfo → LocalFileHeader CRC32 → Prop} {off : Nat}
    {order : List FileEntry} (h : ∀ p ∈ offsetsFrom entrySize off order, R p.2 (fileLoc src p)) :
    List.Forall₂ R order ((offsetsFrom entrySize off order).map (fileLoc src)) := by
  induction order generalizing off with
  | nil => exact .nil
  | cons f fs ih =>
    refine .cons (h _ List.mem_cons_self) (ih fun p hp => h p (List.mem_cons_of_mem _ hp))

theorem zipWith_placed (src : Source) (off : Nat) (order : List FileEntry) :
    (List.zipWith (entryBytes src) order ((offsetsFrom entrySize off order).map (fileLoc src))).flatten =
      (offsetsFrom entrySize off order).flatMap (fileBytes src) := by
  induction order generalizing off with
  | nil => rfl
  | cons f fs ih =>
    rw [offsetsFrom_cons, List.map_cons, List.zipWith_cons_cons, List.flatten_cons, ih,
      List.flatMap_cons]
    rfl

theorem length_le_partSize (fs : List FileEntry) : fs.length ≤ partSize fs := by
  induction fs with
  | nil => exact Nat.le_refl _
  | cons f fs ih =>
    have hpos := entrySize_pos f
    have hsum : partSize (f :: fs) = f.entrySize + partSize fs := rfl
    rw [List.length_cons]
    omega

theorem isArchive {src : Source} {files order : List FileInfo} (horder : order.Perm files)
    (h : SizesListed src files) :
    IsArchive src files order (fileHeaders src order) (endRecords order)
      ((placed order).flatMap (fileBytes src) ++
        (directory src order).flatMap CentralDirectoryFileHeader.dump ++
        (endRecords order).dump) := by
  have hsizes : SizesListed src order := fun f hf => h f (horder.subset hf)
  have hlen : ((placed order).flatMap (fileBytes src)).length = partSize order :=
    length_content hsizes
  have hdir : (fileHeaders src order).flatMap (fun h => (CentralDirectoryFileHeader.fromLoc h).dump) =
      (directory src order).flatMap CentralDirectoryFileHeader.dump := by
    unfold fileHeaders directory
    rw [List.flatMap_map, List.flatMap_map]
    rfl
  refine ⟨horder, ?_, ?_, ?_, ?_, ?_, ?_, ?_, ?_⟩
  · exact forall₂_placed fun p _ => ⟨rfl, rfl, rfl⟩
  · unfold fileHeaders placed at *
    rw [zipWith_placed, hdir]
  · refine forall₂_placed fun p hp => ?_
    have hat := @at_flatMap _ _ _ (fileBytes src) _ _
      (fun q hq => length_fileBytes (hsizes _ (snd_mem_of_mem_offsetsFrom _ hq))) [] rfl _ hp
    exact hat.append_right.append_right
  · exact horder.length_eq
  · rw [hdir]
    exact ⟨_, _, rfl, hlen⟩
  · rw [hdir, length_directory]
    rfl
  · refine ⟨_, [], (List.append_nil _).symm, ?_⟩
    rw [List.length_append, hlen, length_directory]
    rfl
  · intro hfit
    rw [List.length_append, List.length_append, hlen, length_directory] at hfit
    have hcount := length_le_partSize order
    refine EndOfCentralDirectory64.readsBack ?_ ?_ ?_
    · show order.length < 2 ^ 64
      omega
    · show directorySize order < 2 ^ 64
      omega
    · show partSize order < 2 ^ 64
      omega

/-- The outputs of the part jobs of any files, in part-number order, are their archive. -/
theorem planJobs_archive (ch : CdfhChannel) {src : Source} {files : List FileInfo}
    (h : SizesListed src files) :
    ∃ jobs order headers eocd, planJobs ch files = .ok jobs ∧
      NumberedFrom PartJob.partNumber 1 jobs ∧
      ∀ received, received.Perm (jobs.flatMap (PartJob.cdfhs src)) →
        ∃ outs, List.Forall₂ (Outputs src received) jobs outs ∧
          IsArchive src files order headers eocd outs.flatten := by
  obtain ⟨p, hjobs, htail, _⟩ := planJobs_eq ch files
  rw [← htail] at hjobs
  have hsizes : SizesListed src p.order := fun f hf => h f (p.perm.subset hf)
  refine ⟨_, p.order, fileHeaders src p.order, endRecords p.order, hjobs,
    (jobList_legal ch p.big_mem _).numbered, fun received hreceived => ?_⟩
  rw [cdfhs_jobList] at hreceived
  obtain ⟨outs, houts, hflat⟩ := outputs_jobList ch hsizes hreceived
  refine ⟨outs, houts, ?_⟩
  rw [hflat]
  exact isArchive p.perm h

/-! ## Four files -/

/-- Two large files and two small ones. -/
def fourFiles : List FileInfo :=
  [⟨[0x61], [0x73], [0x61], 20971520⟩, ⟨[0x62], [0x73], [0x62], 3⟩,
    ⟨[0x63], [0x73], [0x63], 6291456⟩, ⟨[0x64], [0x73], [0x64], 2⟩]

/-- Their bodies are zeros. -/
def fourSource : Source where
  body _ key :=
    List.replicate (((fourFiles.find? fun f => f.key = key).map FileInfo.size).getD 0) 0
  crc32 _ key :=
    ⟨leBytes 4 (if key = [0x61] then 0x38773417
      else if key = [0x62] then 0xFF41D912
      else if key = [0x63] then 0x383F104C
      else 0x41D912FF), leBytes_length 4 _⟩

theorem sizesListed_fourFiles : SizesListed fourSource fourFiles := by
  have hsizes : ∀ f ∈ fourFiles,
      ((fourFiles.find? fun g => g.key = f.key).map FileInfo.size).getD 0 = f.size := by decide
  intro f hf
  unfold fourSource
  rw [List.length_replicate]
  exact hsizes f hf

/-- The small files pad the first part of a large one. -/
theorem planJobs_archive_four :
    ∃ jobs order headers eocd, planJobs 0 fourFiles = .ok jobs ∧
      NumberedFrom PartJob.partNumber 1 jobs ∧
      ∀ received, received.Perm (jobs.flatMap (PartJob.cdfhs fourSource)) →
        ∃ outs, List.Forall₂ (Outputs fourSource received) jobs outs ∧
          IsArchive fourSource fourFiles order headers eocd outs.flatten :=
  planJobs_archive 0 sizesListed_fourFiles

end S3Archive.JrodonV3
