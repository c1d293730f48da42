import S3Archive.Base.Offsets
import S3Archive.JrodonV3.Plan
import S3Archive.JrodonV3.PartBuilder

/-!
# jrodon-v3: the job list of a plan

The builder, run over the Duos of a plan and some Singles, makes two jobs for
each Duo (`duoJobs`) and one last upload job with all other files and the
central directory (`planJobs_eq`). `PartJobsBuilder.after` is the state of the
builder once the files `done` are registered.
-/

namespace S3Archive.JrodonV3

open FileEntry
open RegularZipPart (partSize)

/-- The files of an archive with the offsets of their local headers. -/
abbrev placed (order : List FileEntry) : List (Nat × FileEntry) := offsetsFrom entrySize 0 order

theorem placed_append (xs ys : List FileEntry) :
    placed (xs ++ ys) = placed xs ++ offsetsFrom entrySize (partSize xs) ys := by
  have hsum : 0 + (xs.map entrySize).sum = partSize xs := Nat.zero_add _
  rw [← hsum]
  exact offsetsFrom_append _ _ _ _

/-- The predicted size of the directory header of a file whose local header is at an offset. -/
def cdfhSize (p : Nat × FileEntry) : Nat :=
  CentralDirectoryFileHeader.predictSize p.2.size p.2.name.length p.1

def directorySize (order : List FileEntry) : Nat := ((placed order).map cdfhSize).sum

/-- The end records of an archive with the given files. -/
def endRecords (order : List FileEntry) : EndOfCentralDirectory64 where
  recordCount := order.length
  centralDirectorySize := directorySize order
  centralDirectoryOffset := partSize order
  eocd64Offset := partSize order + directorySize order

def entryElem (ch : CdfhChannel) (operation : S3ObjectOperation) (p : Nat × FileEntry) :
    UploadPartElement :=
  .entryFromS3 ⟨⟨.new p.1 p.2.name p.2.size, operation, p.2.bucketName, p.2.key⟩, ch⟩

/-- The elements of files that are downloaded whole. -/
def getElems (ch : CdfhChannel) (off : Nat) (fs : List FileEntry) : List UploadPartElement :=
  (offsetsFrom entrySize off fs).map (entryElem ch .get)

def cdElem (ch : CdfhChannel) (order : List FileEntry) : UploadPartElement :=
  .centralDirectory (directorySize order + (endRecords order).size) (endRecords order) ch

/-- An upload job that has the size of its elements. -/
def uploadJob (n : Nat) (elems : List UploadPartElement) : PartJob :=
  ⟨n, (elems.map UploadPartElement.elemSize).sum, .upload elems⟩

namespace Duo

/-- The large file's element of the upload part. -/
def bigElem (ch : CdfhChannel) (off : Nat) (d : Duo) : UploadPartElement :=
  entryElem ch (if d.start > 0 then .partialGet d.start else .head)
    (off + partSize d.regular, d.big)

def uploadElems (ch : CdfhChannel) (off : Nat) (d : Duo) : List UploadPartElement :=
  getElems ch off d.regular ++ [d.bigElem ch off]

def copyJob (n : Nat) (d : Duo) : PartJob :=
  ⟨n, d.big.size - d.start, .copy ⟨d.big.bucketName, d.big.key⟩
    (if d.start > 0 then some ⟨d.start, d.big.size - 1⟩ else none)⟩

end Duo

/-- The jobs of Duos, the first one with number `n` and with its part at `off`. -/
def duoJobs (ch : CdfhChannel) : Nat → Nat → List Duo → List PartJob
  | _, _, [] => []
  | off, n, d :: ds =>
    uploadJob n (d.uploadElems ch off) :: d.copyJob (n + 1) ::
      duoJobs ch (off + partSize d.files) (n + 2) ds

/-! ## Sizes of elements -/

@[simp] theorem elemSize_entryElem_get (ch : CdfhChannel) (p : Nat × FileEntry) :
    (entryElem ch .get p).elemSize = p.2.entrySize := rfl

theorem sum_getElems (ch : CdfhChannel) (off : Nat) (fs : List FileEntry) :
    ((getElems ch off fs).map UploadPartElement.elemSize).sum = partSize fs := by
  induction fs generalizing off with
  | nil => rfl
  | cons f fs ih =>
    show f.entrySize + ((getElems ch (off + f.entrySize) fs).map _).sum = f.entrySize + partSize fs
    rw [ih]

theorem Duo.elemSize_bigElem (ch : CdfhChannel) (off : Nat) (d : Duo) :
    (d.bigElem ch off).elemSize = d.big.locSize + d.start := by
  unfold bigElem
  by_cases h : d.start > 0
  · rw [if_pos h]; rfl
  · rw [if_neg h, Nat.eq_zero_of_not_pos h]; rfl

theorem Duo.sum_uploadElems (ch : CdfhChannel) (off : Nat) (d : Duo) :
    ((d.uploadElems ch off).map UploadPartElement.elemSize).sum =
      partSize d.regular + d.big.locSize + d.start := by
  unfold uploadElems
  rw [List.map_append, List.sum_append, sum_getElems]
  simp only [List.map_cons, List.map_nil, List.sum_cons, List.sum_nil, d.elemSize_bigElem]
  omega

@[simp] theorem partSize_uploadJob (n : Nat) (elems : List UploadPartElement) :
    (uploadJob n elems).partSize = (elems.map UploadPartElement.elemSize).sum := rfl

@[simp] theorem partNumber_uploadJob (n : Nat) (elems : List UploadPartElement) :
    (uploadJob n elems).partNumber = n := rfl

@[simp] theorem partNumber_copyJob (n : Nat) (d : Duo) : (d.copyJob n).partNumber = n := rfl

theorem getElems_append (ch : CdfhChannel) (off : Nat) (fs gs : List FileEntry) :
    getElems ch off (fs ++ gs) = getElems ch off fs ++ getElems ch (off + partSize fs) gs := by
  unfold getElems RegularZipPart.partSize
  rw [offsetsFrom_append, List.map_append]

@[simp] theorem length_duoJobs (ch : CdfhChannel) (off n : Nat) (ds : List Duo) :
    (duoJobs ch off n ds).length = 2 * ds.length := by
  induction ds generalizing off n with
  | nil => rfl
  | cons d ds ih =>
    simp only [duoJobs, List.length_cons, ih]
    omega

/-! ## The builder -/

namespace PartJobsBuilder

/-- The builder after the files `done` were registered and the jobs `jobs` made. -/
def after (ch : CdfhChannel) (done : List FileEntry) (jobs : List PartJob) : PartJobsBuilder :=
  ⟨partSize done, (placed done).map cdfhSize, jobs, ch⟩

variable {ch : CdfhChannel} {done : List FileEntry} {jobs : List PartJob}

theorem register_after (f : FileEntry) :
    ((after ch done jobs).pushCdfhSize f).advance f.entrySize = after ch (done ++ [f]) jobs := by
  unfold after pushCdfhSize advance
  rw [placed_append, List.map_append, partSize_append, partSize_singleton]
  rfl

theorem elements_after (fs : List FileEntry) :
    (after ch done jobs).elements fs =
      (getElems ch (partSize done) fs, after ch (done ++ fs) jobs) := by
  induction fs generalizing done with
  | nil => rw [List.append_nil]; rfl
  | cons f fs ih =>
    have hstep : ((after ch done jobs).pushCdfhSize f).advance
        ((LocalFileHeader.new (after ch done jobs).currentArchiveOffset f.name f.size).size +
          f.size) = after ch (done ++ [f]) jobs := register_after f
    unfold elements
    simp only [hstep, ih, partSize_append, partSize_singleton, List.append_assoc,
      List.singleton_append]
    rfl

/-- After a copy part, or first of all, the files go into a new upload part. -/
theorem addFiles_new (hlast : ∀ job ∈ jobs.getLast?, job.isCopy) (fs : List FileEntry) :
    (after ch done jobs).addFiles fs =
      after ch (done ++ fs)
        (jobs ++ [uploadJob (jobs.length + 1) (getElems ch (partSize done) fs)]) := by
  unfold addFiles
  rw [elements_after]
  split
  · next n size elems h =>
    have : false = true := hlast _ h
    cases this
  · rfl

/-- After an upload part the files join it. -/
theorem addFiles_append (n : Nat) (elems : List UploadPartElement) (fs : List FileEntry) :
    (after ch done (jobs ++ [uploadJob n elems])).addFiles fs =
      after ch (done ++ fs)
        (jobs ++ [uploadJob n (elems ++ getElems ch (partSize done) fs)]) := by
  unfold addFiles
  rw [elements_after]
  have hlast : (after ch done (jobs ++ [uploadJob n elems])).parts.getLast? =
      some (uploadJob n elems) := List.getLast?_concat
  have hinit : (after ch done (jobs ++ [uploadJob n elems])).parts.dropLast = jobs :=
    List.dropLast_concat
  rw [hlast, hinit]
  rfl

/-- A copy part follows an upload part, which takes the header and the downloaded bytes. -/
theorem internalCopyFile_append (n : Nat) (elems : List UploadPartElement) (f : FileEntry)
    (startByte : Option Nat) (hstart : startByte.getD 0 ≤ f.size) :
    (after ch done (jobs ++ [uploadJob n elems])).internalCopyFile f startByte =
      .ok (after ch (done ++ [f])
        (jobs ++ [uploadJob n (elems ++ [entryElem ch
          (match startByte with | some k => .partialGet k | none => .head) (partSize done, f)])] ++
          [⟨jobs.length + 2, f.size - startByte.getD 0, .copy ⟨f.bucketName, f.key⟩
            (startByte.map fun k => ⟨k, f.size - 1⟩)⟩])) := by
  have hlast : (after ch done (jobs ++ [uploadJob n elems])).parts.getLast? =
      some (uploadJob n elems) := List.getLast?_concat
  have hinit : (after ch done (jobs ++ [uploadJob n elems])).parts.dropLast = jobs :=
    List.dropLast_concat
  have hlen : (after ch done (jobs ++ [uploadJob n elems])).parts.length = jobs.length + 1 := by
    show (jobs ++ [uploadJob n elems]).length = _
    simp
  have hadvance : (LocalFileHeader.new (partSize done) f.name f.size).size +
      startByte.getD 0 + (f.size - startByte.getD 0) = f.entrySize := by
    show f.locSize + _ + _ = f.locSize + f.size
    omega
  have hreg := @register_after ch done (jobs ++ [uploadJob n elems]) f
  unfold internalCopyFile
  rw [hlast]
  unfold uploadJob
  dsimp only
  rw [show (after ch done _).currentArchiveOffset = partSize done from rfl, hadvance]
  unfold uploadJob at hinit hlen hreg
  rw [hreg, hinit, hlen]
  cases startByte <;> simp [after, entryElem, element]

theorem isCopy_of_getLast?_duoJobs {off n : Nat} {ds : List Duo}
    (hlast : ∀ job ∈ jobs.getLast?, job.isCopy) :
    ∀ job ∈ (jobs ++ duoJobs ch off n ds).getLast?, job.isCopy := by
  induction ds generalizing jobs off n with
  | nil => simpa [duoJobs] using hlast
  | cons d ds ih =>
    have hcopy : ∀ job ∈ (jobs ++ [uploadJob n (d.uploadElems ch off), d.copyJob (n + 1)]).getLast?,
        job.isCopy := by
      intro job hjob
      rw [List.getLast?_append] at hjob
      obtain rfl : d.copyJob (n + 1) = job := by simpa using hjob
      rfl
    have := @ih _ (off + partSize d.files) (n + 2) hcopy
    simpa [duoJobs] using this

/-- A Duo becomes an upload part and a copy part. -/
theorem addPart_duo (hlast : ∀ job ∈ jobs.getLast?, job.isCopy) (d : Duo) :
    (after ch done jobs).addPart d.part =
      .ok (after ch (done ++ d.files)
        (jobs ++ [uploadJob (jobs.length + 1) (d.uploadElems ch (partSize done)),
          d.copyJob (jobs.length + 2)])) := by
  have hsize := d.copy_floor
  unfold Duo.part Duo.copy Duo.uploadElems Duo.bigElem Duo.copyJob Duo.files
  by_cases h : d.start > 0
  · rw [if_pos h, if_pos h, if_pos h]
    show ((after ch done jobs).addFiles d.regular).internalCopyFile d.big (some d.start) = _
    rw [addFiles_new hlast, internalCopyFile_append _ _ _ _ (by dsimp only [Option.getD]; omega)]
    simp
  · rw [if_neg h, if_neg h, if_neg h]
    obtain hz : d.start = 0 := by omega
    show ((after ch done jobs).addFiles d.regular).internalCopyFile d.big none = _
    rw [addFiles_new hlast, internalCopyFile_append _ _ _ _ (by dsimp only [Option.getD]; omega)]
    simp [hz]

theorem foldlM_duos (hlast : ∀ job ∈ jobs.getLast?, job.isCopy) (ds : List Duo) :
    (ds.map Duo.part).foldlM addPart (after ch done jobs) =
      .ok (after ch (done ++ ds.flatMap Duo.files)
        (jobs ++ duoJobs ch (partSize done) (jobs.length + 1) ds)) := by
  induction ds generalizing done jobs with
  | nil => simp [duoJobs]; rfl
  | cons d ds ih =>
    have hcopy := @isCopy_of_getLast?_duoJobs ch jobs (partSize done)
      (jobs.length + 1) [d] hlast
    rw [List.map_cons, List.foldlM_cons, addPart_duo hlast]
    refine (ih hcopy).trans ?_
    simp [duoJobs]

theorem foldlM_singles (n : Nat) (elems : List UploadPartElement) (groups : List RegularZipPart) :
    (groups.map .single).foldlM addPart (after ch done (jobs ++ [uploadJob n elems])) =
      .ok (after ch (done ++ groups.flatten)
        (jobs ++ [uploadJob n (elems ++ getElems ch (partSize done) groups.flatten)])) := by
  induction groups generalizing done elems with
  | nil => simp [getElems]; rfl
  | cons r groups ih =>
    rw [List.map_cons, List.foldlM_cons]
    have hstep : (after ch done (jobs ++ [uploadJob n elems])).addPart (.single r) =
        .ok (after ch (done ++ r)
          (jobs ++ [uploadJob n (elems ++ getElems ch (partSize done) r)])) := by
      rw [addPart, addFiles_append]
    rw [hstep]
    refine (ih _).trans ?_
    rw [partSize_append, List.flatten_cons, getElems_append]
    simp

theorem finalize_append (n : Nat) (elems : List UploadPartElement) :
    (after ch done (jobs ++ [uploadJob n elems])).finalize =
      jobs ++ [uploadJob n (elems ++ [cdElem ch done])] := by
  have hlast : (after ch done (jobs ++ [uploadJob n elems])).parts.getLast? =
      some (uploadJob n elems) := List.getLast?_concat
  have hinit : (after ch done (jobs ++ [uploadJob n elems])).parts.dropLast = jobs :=
    List.dropLast_concat
  unfold finalize
  rw [hlast, hinit]
  simp [uploadJob, cdElem, endRecords, after, directorySize]

theorem finalize_new (hlast : ∀ job ∈ jobs.getLast?, job.isCopy) :
    (after ch done jobs).finalize = jobs ++ [uploadJob (jobs.length + 1) [cdElem ch done]] := by
  unfold finalize
  split
  · next n size elems h =>
    have : false = true := hlast _ h
    cases this
  · simp [uploadJob, cdElem, endRecords, after, directorySize]

end PartJobsBuilder

open PartJobsBuilder

/-- The jobs of Duos and of the files that follow them. -/
def jobList (ch : CdfhChannel) (duos : List Duo) (tail : List FileEntry) : List PartJob :=
  duoJobs ch 0 1 duos ++
    [uploadJob (2 * duos.length + 1) (getElems ch (partSize (duos.flatMap Duo.files)) tail ++
      [cdElem ch (duos.flatMap Duo.files ++ tail)])]

/-- However the files after the Duos are grouped, they end up in one part. -/
theorem intoPartJobs_eq (ch : CdfhChannel) (duos : List Duo) (groups : List RegularZipPart) :
    intoPartJobs ch (duos.map Duo.part ++ groups.map .single) =
      .ok (jobList ch duos groups.flatten) := by
  have hnil : ∀ job ∈ ([] : List PartJob).getLast?, job.isCopy := by simp
  have hnew : PartJobsBuilder.new ch = after ch [] [] := rfl
  have hcopy := @isCopy_of_getLast?_duoJobs ch [] 0 1 duos hnil
  rw [List.nil_append] at hcopy
  unfold intoPartJobs
  rw [hnew, List.foldlM_append, foldlM_duos hnil]
  simp only [List.nil_append, List.length_nil, Nat.zero_add, partSize_nil]
  cases groups with
  | nil =>
    show Except.ok (finalize _) = _
    rw [finalize_new hcopy, length_duoJobs]
    simp [jobList, getElems]
  | cons r groups =>
    have hstep : (after ch (duos.flatMap Duo.files) (duoJobs ch 0 1 duos)).addPart (.single r) =
        .ok (after ch (duos.flatMap Duo.files ++ r) (duoJobs ch 0 1 duos ++
          [uploadJob (2 * duos.length + 1)
            (getElems ch (partSize (duos.flatMap Duo.files)) r)])) := by
      rw [addPart, addFiles_new hcopy, length_duoJobs]
    show ((ZipLayoutPart.single r :: groups.map .single).foldlM addPart _ >>= _) = _
    rw [List.foldlM_cons, hstep]
    show ((groups.map ZipLayoutPart.single).foldlM addPart _ >>= _) = _
    rw [foldlM_singles]
    show Except.ok (finalize _) = _
    rw [finalize_append, partSize_append, ← getElems_append, List.append_assoc]
    rfl

/-- The jobs of every list of files are the jobs of a plan for it. -/
theorem planJobs_eq (ch : CdfhChannel) (files : List FileInfo) :
    ∃ p : Plan files, planJobs ch files = .ok (jobList ch p.duos (leftOver files)) ∧
      p.tail = leftOver files ∧ (∀ d ∈ p.duos, d.Within maxRegularSize) ∧
      ∀ d ∈ p.duos, 0 < d.start → p.queue = [] := by
  obtain ⟨p, groups, hlayout, hflat, htail, hwithin, hstart⟩ := fromFilesInfo_eq files
  refine ⟨p, ?_, htail, hwithin, hstart⟩
  unfold planJobs
  rw [hlayout, intoPartJobs_eq, hflat]

end S3Archive.JrodonV3
