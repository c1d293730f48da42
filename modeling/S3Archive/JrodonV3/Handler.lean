import S3Archive.Base.Listing
import S3Archive.JrodonV3.DirectoryOrder
import S3Archive.JrodonV3.FanOutRefinement
import S3Archive.JrodonV3.MemoryBudget
import S3Archive.JrodonV3.Reading

/-!
# jrodon-v3: a whole job

`HandlerRun` is the `Archive` invocation from the listing to the completed upload,
its part jobs run here or by sub-workers. Whatever the pages, the workers and the
order of the replies, the object it completes holds every object below the prefix
once, and reads back exactly when no offset is lost (`archiveJob_readsBack`).
-/

namespace S3Archive.JrodonV3

open FileEntry
open RegularZipPart (partSize)

/-! ## The lister -/

def listObject (bucketName s3Prefix : Bytes) : List FileInfo → ObjectSummary → List FileInfo :=
  listNamed (fun fileInfos filename key size =>
    fileInfos ++ [⟨filename, bucketName, key.bytes, size⟩]) s3Prefix

def listFiles (bucketName keyPrefix : Bytes) (pages : List (Except Error (List ObjectSummary))) :
    Except Error (List FileInfo) :=
  foldPages (listObject bucketName (s3Prefix keyPrefix)) [] pages

/-- The files of a job. -/
def jobFiles (b : S3Bucket) (bucketName keyPrefix : Bytes) : List FileInfo :=
  (jobObjects b keyPrefix).map fun x =>
    ⟨x.1, bucketName, s3Prefix keyPrefix ++ x.1, x.2.body.length⟩

/-- The objects as S3 gives them: the bodies, and their checksums in the form of the records. -/
def bucketSource (crc32 : Bytes → UInt32) (b : S3Bucket) : Source where
  body _ key := ((b.get ⟨key⟩).map S3Object.body).getD []
  crc32 _ key := ⟨leBytes 4 (crc32 (((b.get ⟨key⟩).map S3Object.body).getD [])).toNat,
    leBytes_length 4 _⟩

/-! ## Jobs -/

/-- Sort the parts by number; the store joins them. -/
def completeMultipartUpload (parts : List CompletedPartInfo) : Bytes :=
  completeUpload (parts.map fun part => (part.partNumber, part.content))

/-- What `execute` returns, with or without a `LambdaExecutor`. -/
inductive Executes (src : Source) (jobs : List PartJob) :
    Except Unit (List CompletedPartInfo) → Prop
  | locally {evs : List LocalEvent} {s : LocalState}
      (hrun : LocalRun src (.start jobs false) evs s) (hfin : s.Finished) :
    Executes src jobs s.outcome
  | fanOut {workerCount : Nat} {evs : List FanOutEvent} {s : FanOutState}
      {result : Except Unit (List CompletedPartInfo)} (hworkers : 0 < workerCount)
      (hrun : FanOutRun src (.start workerCount jobs) evs s) (hreturns : Returns s result) :
    Executes src jobs result

/-- A job: whether it succeeds, and what it has put at the archive's key. -/
inductive HandlerRun (src : Source) (b : S3Bucket) (bucketName filesPrefix : Bytes) :
    Except Unit Unit → Option Bytes → Prop
  /-- Listing the objects or opening the upload fails. -/
  | startFails : HandlerRun src b bucketName filesPrefix (.error ()) none
  | executeFails {replies : List (Except Error (List ObjectSummary))} {files : List FileInfo}
      {jobs : List PartJob} {ch : CdfhChannel} (hreplies : RepliesTo b filesPrefix replies)
      (hlist : listFiles bucketName filesPrefix replies = .ok files)
      (hplan : planJobs ch files = .ok jobs) (hexec : Executes src jobs (.error ())) :
    HandlerRun src b bucketName filesPrefix (.error ()) none
  /-- The reply to the completion may be lost, but not be wrong. -/
  | completes {replies : List (Except Error (List ObjectSummary))} {files : List FileInfo}
      {jobs : List PartJob} {ch : CdfhChannel} {parts : List CompletedPartInfo}
      {result : Except Unit Unit} {landed : Bool} (hreplies : RepliesTo b filesPrefix replies)
      (hlist : listFiles bucketName filesPrefix replies = .ok files)
      (hplan : planJobs ch files = .ok jobs) (hexec : Executes src jobs (.ok parts))
      (hok : result = .ok () → landed = true) :
    HandlerRun src b bucketName filesPrefix result
      (if landed then some (completeMultipartUpload parts) else none)

/-! ## The files -/

section

variable {crc32 : Bytes → UInt32} {b : S3Bucket} {bucketName filesPrefix : Bytes}

theorem listFiles_bucket {replies : List (Except Error (List ObjectSummary))}
    {files : List FileInfo} (h : RepliesTo b filesPrefix replies)
    (hfiles : listFiles bucketName filesPrefix replies = .ok files) :
    files = jobFiles b bucketName filesPrefix := by
  have happend : ∀ (xs : List (Bytes × S3Object)) (out : List FileInfo),
      xs.foldl (fun out x =>
        out ++ [⟨x.1, bucketName, s3Prefix filesPrefix ++ x.1, x.2.body.length⟩]) out =
        out ++ xs.map fun x =>
          ⟨x.1, bucketName, s3Prefix filesPrefix ++ x.1, x.2.body.length⟩ := by
    intro xs
    induction xs with
    | nil => exact fun out => (List.append_nil out).symm
    | cons x xs ih =>
      intro out
      rw [List.foldl_cons, ih, List.append_assoc]
      rfl
  rw [foldPages_bucket h hfiles, happend]
  rfl

theorem exists_of_mem_jobFiles {f : FileInfo} (hf : f ∈ jobFiles b bucketName filesPrefix) :
    ∃ o, (f.name, o) ∈ jobObjects b filesPrefix ∧ f.key = s3Prefix filesPrefix ++ f.name ∧
      f.size = o.body.length := by
  obtain ⟨x, hx, rfl⟩ := List.mem_map.1 hf
  exact ⟨x.2, hx, rfl, rfl⟩

theorem body_bucketSource {f : FileInfo} {o : S3Object}
    (ho : (f.name, o) ∈ jobObjects b filesPrefix) (hkey : f.key = s3Prefix filesPrefix ++ f.name) :
    (bucketSource crc32 b).body f.bucketName f.key = o.body := by
  show ((b.get ⟨f.key⟩).map S3Object.body).getD [] = o.body
  rw [hkey, (mem_jobObjects.1 ho).1]
  rfl

theorem sizesListed_jobFiles :
    SizesListed (bucketSource crc32 b) (jobFiles b bucketName filesPrefix) := by
  intro f hf
  obtain ⟨o, ho, hkey, hsize⟩ := exists_of_mem_jobFiles hf
  rw [body_bucketSource ho hkey, hsize]

theorem length_name_le (hb : Bounded b) {f : FileInfo}
    (hf : f ∈ jobFiles b bucketName filesPrefix) : f.name.length ≤ 1024 := by
  obtain ⟨o, ho, _⟩ := exists_of_mem_jobFiles hf
  exact hb.length_jobName ho

section

variable (hb : Bounded b) {order : List FileEntry}
  (hperm : order.Perm (jobFiles b bucketName filesPrefix))

include hb hperm

/-- A file adds at most 1074 bytes to its size. -/
theorem partSize_jobFiles_le :
    partSize order ≤ (order.map FileInfo.size).sum + 1074 * order.length := by
  have hnames : ∀ f ∈ order, f.name.length ≤ 1024 := fun f hf =>
    length_name_le hb (hperm.subset hf)
  clear hperm
  induction order with
  | nil => exact Nat.zero_le _
  | cons f order ih =>
    have hname := hnames f List.mem_cons_self
    have hrest := ih fun g hg => hnames g (List.mem_cons_of_mem _ hg)
    have hcons : partSize (f :: order) = f.entrySize + partSize order := rfl
    have hentry : f.entrySize ≤ f.size + 1074 := by
      unfold entrySize locSize LocalFileHeader.predictSize LocalFileHeader.baseLocLength
        LocalFileHeader.locZip64extLength
      split <;> omega
    rw [List.map_cons, List.sum_cons, List.length_cons, hcons]
    omega

theorem directorySize_jobFiles_le : directorySize order ≤ 1098 * order.length := by
  unfold directorySize
  rw [← length_offsetsFrom entrySize 0 order]
  refine (List.sum_le_card_nsmul _ 1098 fun n hn => ?_).trans (Nat.le_of_eq ?_)
  · obtain ⟨p, hp, rfl⟩ := List.mem_map.1 hn
    have hname := length_name_le hb (hperm.subset (snd_mem_of_mem_offsetsFrom _ hp))
    unfold cdfhSize CentralDirectoryFileHeader.predictSize
      CentralDirectoryFileHeader.baseCdfhLength
      CentralDirectoryFileHeader.cdfhOffsetZip64extLength
      CentralDirectoryFileHeader.cdfhSizeZip64extLength LocalFileHeader.locZip64extLength
    split
    · omega
    · split <;> omega
  · rw [List.length_map, nsmul_eq_mul, Nat.mul_comm]
    rfl

theorem total_lt : partSize order + directorySize order < 2 ^ 64 := by
  have hsizes : (order.map FileInfo.size).sum < 2 ^ 63 := by
    rw [(hperm.map FileInfo.size).sum_eq]
    unfold jobFiles
    rw [List.map_map]
    exact hb.sum_jobObjects filesPrefix
  have hlen : order.length ≤ 2 ^ 32 := by
    rw [hperm.length_eq]
    unfold jobFiles
    rw [List.length_map]
    exact hb.length_jobObjects filesPrefix
  have hbody := partSize_jobFiles_le hb hperm
  have hdir := directorySize_jobFiles_le hb hperm
  omega

end

/-! ## The parts -/

/-- Completing all parts in any order gives the outputs of the jobs, joined. -/
theorem completeMultipartUpload_eq {src : Source} {dir : List CentralDirectoryFileHeader}
    {jobs : List PartJob} {parts : List CompletedPartInfo} {outs : List Bytes}
    (hmatched : Matched (PartJob.CompletedAs src dir) jobs parts)
    (hnumbered : NumberedFrom PartJob.partNumber 1 jobs)
    (houts : List.Forall₂ (Outputs src dir) jobs outs) :
    completeMultipartUpload parts = outs.flatten := by
  have hpart : ∀ (job : PartJob) (part : CompletedPartInfo), job.CompletedAs src dir part →
      (part.partNumber, part.content) = (job.partNumber, (job.output src dir).getD []) := by
    rintro job part ⟨hnumber, hout⟩
    rw [hnumber, hout]
    rfl
  have hperm := hmatched.map_perm hpart
  have hnum : NumberedFrom Prod.fst 1
      (jobs.map fun job => (job.partNumber, (job.output src dir).getD [])) := by
    unfold NumberedFrom at hnumbered ⊢
    rw [List.map_map, List.length_map, ← hnumbered]
    rfl
  have hcontents : (jobs.map fun job => (job.partNumber, (job.output src dir).getD [])).map
      Prod.snd = outs := by
    rw [List.map_map]
    clear hmatched hnumbered hperm hnum
    induction houts with
    | nil => rfl
    | cons hout _ ih =>
      rw [List.map_cons, ih]
      congr 1
      show (PartJob.output src dir _).getD [] = _
      rw [hout.1]
      rfl
  unfold completeMultipartUpload
  rw [completeUpload_of_perm hnum hperm, hcontents]

/-- The parts of a fan-out that succeeds, for the headers in the order in which they came. -/
theorem FanOutRun.parts_planned {src : Source} {ch : CdfhChannel} {files : List FileInfo}
    {p : Plan files} {workerCount : Nat} {evs : List FanOutEvent} {s : FanOutState}
    {parts : List CompletedPartInfo} (hworkers : 0 < workerCount)
    (hrun : FanOutRun src (.start workerCount (jobList ch p.duos p.tail)) evs s)
    (hreturns : Returns s (.ok parts)) :
    Matched (PartJob.CompletedAs src s.localExec.channel.sent) (jobList ch p.duos p.tail) parts ∧
      s.localExec.channel.sent.Perm (directory src p.order) := by
  have hheaders : (JobSet.planned ch src p.duos p.tail).headers =
      ((jobList ch p.duos p.tail).flatMap (PartJob.cdfhs src) : List _) := by
    rw [cdfhs_jobList]
    rfl
  obtain ⟨bs, hbs, htiled, hstart⟩ := exists_fanOutInv_start (K := .planned ch src p.duos p.tail)
    (fun job hjob hdel => convert_planned hjob hdel) hheaders hworkers
  have hsound := FanOutRun.sound hrun (.inr hstart) htiled
  cases hreturns with
  | @ok local_ delegated hfin hlocal hb =>
    obtain ⟨hok, rfl⟩ := LocalState.of_outcome_ok hlocal
    have hrefines := (hsound.inv_of_done hb).refinesLocal hbs hb hfin hok
    have hsent := hrefines.headers
    rw [cdfhs_jobList] at hsent
    exact ⟨hrefines.outputs, hsent⟩

/-- What a job completes is the archive of its files, in some order. -/
theorem HandlerRun.archive {result : Except Unit Unit} {archive : Bytes}
    (h : HandlerRun (bucketSource crc32 b) b bucketName filesPrefix result (some archive)) :
    ∃ order, order.Perm (jobFiles b bucketName filesPrefix) ∧
      archive = archiveOf (bucketSource crc32 b) order := by
  generalize hobject : some archive = object at h
  cases h with
  | startFails => cases hobject
  | executeFails => cases hobject
  | @completes _ files jobs ch parts _ landed hreplies hlist hplan hexec hok =>
    cases landed with
    | false => cases hobject
    | true =>
      obtain rfl := Option.some.inj hobject
      obtain rfl := listFiles_bucket hreplies hlist
      obtain ⟨p, hjobs, htail, _⟩ := planJobs_eq ch (jobFiles b bucketName filesPrefix)
      rw [← htail] at hjobs
      obtain rfl := Except.ok.inj (hjobs.symm.trans hplan)
      refine ⟨p.order, p.perm, ?_⟩
      have hnumbered := (jobList_legal ch p.big_mem p.tail).numbered
      have hsizes : SizesListed (bucketSource crc32 b) p.order := fun f hf =>
        sizesListed_jobFiles f (p.perm.subset hf)
      -- the parts are the outputs of the jobs for the headers in some order
      obtain ⟨dir, hdir, hmatched⟩ : ∃ dir, dir.Perm (directory (bucketSource crc32 b) p.order) ∧
          Matched (PartJob.CompletedAs (bucketSource crc32 b) dir) (jobList ch p.duos p.tail)
            parts := by
        generalize hresult : (.ok parts : Except Unit (List CompletedPartInfo)) = result at hexec
        cases hexec with
        | locally hrun hfin =>
          obtain ⟨hokay, rfl⟩ := LocalState.of_outcome_ok hresult.symm
          exact ⟨_, .refl _,
            ((LocalInv.start_planned ch (bucketSource crc32 b) p.duos p.tail).run hrun).completed
              hfin hokay⟩
        | fanOut hworkers hrun hreturns =>
          subst hresult
          obtain ⟨hmatched, hheaders⟩ := FanOutRun.parts_planned (p := p) hworkers hrun hreturns
          exact ⟨_, hheaders, hmatched⟩
      obtain ⟨outs, houts, hflat⟩ := outputs_jobList ch hsizes hdir
      rw [completeMultipartUpload_eq hmatched hnumbered houts, hflat]
      rfl

/-- What is read of a job are the names and the bodies of its objects. -/
theorem entriesRead_perm {order : List FileEntry}
    (h : order.Perm (jobFiles b bucketName filesPrefix)) :
    ((entriesRead (bucketSource crc32 b) order).map fun e => (e.1.name, e.2.2)).Perm
      ((jobObjects b filesPrefix).map fun x => (x.1, x.2.body)) := by
  have hread : (entriesRead (bucketSource crc32 b) order).map (fun e => (e.1.name, e.2.2)) =
      order.map fun f => (f.name, (bucketSource crc32 b).body f.bucketName f.key) := by
    conv_rhs => rw [← map_snd_offsetsFrom entrySize 0 order]
    unfold entriesRead placed
    rw [List.map_map, List.map_map]
    rfl
  rw [hread]
  refine (h.map _).trans (.of_eq ?_)
  unfold jobFiles
  rw [List.map_map]
  refine List.map_congr_left fun x hx => ?_
  exact congrArg (Prod.mk x.1)
    (body_bucketSource (f := ⟨x.1, bucketName, s3Prefix filesPrefix ++ x.1, x.2.body.length⟩)
      hx rfl)

theorem archive_reads (hb : Bounded b) {order : List FileEntry} {archive : Bytes}
    (hperm : order.Perm (jobFiles b bucketName filesPrefix))
    (harchive : archive = archiveOf (bucketSource crc32 b) order)
    (hne : archive.length ≠ u32Max + u32Max + 22) :
    Zip.readArchive archive = some (entriesRead (bucketSource crc32 b) order) ↔ Readable order := by
  subst harchive
  refine readArchive_iff (fun f hf => ?_) (fun f hf => ?_) (total_lt hb hperm) hne
  · exact sizesListed_jobFiles f (hperm.subset hf)
  · exact (length_name_le hb (hperm.subset hf)).trans (by decide)

theorem length_archiveOf {src : Source} {order : List FileEntry} (h : SizesListed src order) :
    (archiveOf src order).length =
      partSize order + directorySize order + (endRecords order).size := by
  unfold archiveOf
  rw [List.length_append, List.length_append, length_directory, EndOfCentralDirectory64.length_dump]
  congr 2
  exact length_content h

/-- Bodies below the limit of the size fields all fit them. -/
theorem readable_jobFiles {order : List FileEntry}
    (hperm : order.Perm (jobFiles b bucketName filesPrefix))
    (hsmall : ∀ x ∈ jobObjects b filesPrefix, x.2.body.length < u32Max) : Readable order := by
  intro p hp
  obtain ⟨o, ho, _, hsize⟩ :=
    exists_of_mem_jobFiles (hperm.subset (snd_mem_of_mem_offsetsFrom _ hp))
  have hlt := hsmall _ ho
  dsimp only at hlt
  omega

/-- A job that succeeds leaves an archive. -/
theorem HandlerRun.isSome {src : Source} {result : Except Unit Unit} {object : Option Bytes}
    (h : HandlerRun src b bucketName filesPrefix result object) (hok : result = .ok ()) :
    object.isSome = true := by
  cases h with
  | startFails => cases hok
  | executeFails => cases hok
  | completes hreplies hlist hplan hexec hlanded =>
    rw [hlanded hok]
    rfl

/-- A listing of which every page comes finds the files of the job. -/
theorem listFiles_pages (bucketName : Bytes) {pages : List (Bucket.Page Key S3Object)}
    (hpages : Bucket.Pages b (Key.startsWith (s3Prefix filesPrefix)) none pages) :
    listFiles bucketName filesPrefix (pages.map fun p => .ok (p.contents.map S3Object.summary)) =
      .ok (jobFiles b bucketName filesPrefix) := by
  obtain ⟨files, hfiles⟩ : ∃ files, listFiles bucketName filesPrefix
      (pages.map fun p => .ok (p.contents.map S3Object.summary)) = .ok files := by
    unfold listFiles
    rw [foldPages_ok]
    exact ⟨_, rfl⟩
  rw [hfiles, listFiles_bucket ⟨pages, hpages, .inl rfl⟩ hfiles]

/-- A job whose parts fit the memory can succeed. -/
theorem exists_handlerRun_ok (crc32 : Bytes → UInt32)
    {pages : List (Bucket.Page Key S3Object)}
    (hpages : Bucket.Pages b (Key.startsWith (s3Prefix filesPrefix)) none pages)
    (hfits : FitsMemory (jobFiles b bucketName filesPrefix)) :
    ∃ archive, HandlerRun (bucketSource crc32 b) b bucketName filesPrefix (.ok ())
      (some archive) := by
  obtain ⟨p, hjobs, hgrantable⟩ :=
    exists_planJobs_grantable_iff 0 (jobFiles b bucketName filesPrefix)
  have hsizes : SizesListed (bucketSource crc32 b) p.order := fun f hf =>
    sizesListed_jobFiles f (p.perm.subset hf)
  obtain ⟨outs, houts, _⟩ := outputs_jobList 0 hsizes (.refl _)
  have hsome := (List.forall₂_and_left (p := fun job : PartJob => ∃ out, job.output
    (bucketSource crc32 b) (directory (bucketSource crc32 b) p.order) = some out) _ _).1
      (houts.imp fun _ _ h => ⟨⟨_, h.1⟩, h⟩)
  obtain ⟨evs, s, hrun, hfin, hok⟩ :=
    (LocalInv.start_planned 0 (bucketSource crc32 b) p.duos p.tail).exists_run_ok
      (directoryLast_jobList p.duos p.tail) (hgrantable.2 hfits) hsome.1
  have hexec := Executes.locally hrun hfin
  unfold LocalState.outcome at hexec
  rw [hok] at hexec
  exact ⟨_, @HandlerRun.completes _ _ _ _ _ _ _ _ _ _ true ⟨pages, hpages, .inl rfl⟩
    (listFiles_pages bucketName hpages) hjobs hexec fun _ => rfl⟩

end

/-- A job that succeeds leaves an archive. Whatever a job leaves, its parts built here or by any
number of sub-workers, are the bytes of an archive of the objects below the prefix, each once, under
the rest of its key, with its body; it reads back exactly when no file of more than `u32Max` bytes
is at `u32Max`. At one length the end record of all ones is ambiguous. -/
theorem archiveJob_readsBack {crc32 : Bytes → UInt32} {b : S3Bucket}
    {bucketName filesPrefix : Bytes} {result : Except Unit Unit} {object : Option Bytes}
    (hb : Bounded b)
    (h : HandlerRun (bucketSource crc32 b) b bucketName filesPrefix result object) :
    (result = .ok () → object.isSome = true) ∧ ∀ archive, object = some archive → ∃ order,
      order.Perm (jobFiles b bucketName filesPrefix) ∧
      archive = archiveOf (bucketSource crc32 b) order ∧
      (archive.length ≠ u32Max + u32Max + 22 →
        (Zip.readArchive archive = some (entriesRead (bucketSource crc32 b) order) ↔
          Readable order)) ∧
      ((entriesRead (bucketSource crc32 b) order).map fun e => (e.1.name, e.2.2)).Perm
        ((jobObjects b filesPrefix).map fun x => (x.1, x.2.body)) := by
  refine ⟨h.isSome, ?_⟩
  rintro archive rfl
  obtain ⟨order, hperm, harchive⟩ := h.archive
  exact ⟨order, hperm, harchive, fun hne => archive_reads hb hperm harchive hne,
    entriesRead_perm hperm⟩

/-! ## A job with four objects -/

theorem length_bodyA : ([1, 2, 3] : Bytes).length < 2 ^ 63 := by decide

theorem length_bodyB : ([4, 5] : Bytes).length < 2 ^ 63 := by decide

theorem length_bodyQ : ([9] : Bytes).length < 2 ^ 63 := by decide

theorem length_zeros : (List.replicate 20971520 (0 : UInt8)).length < 2 ^ 63 := by
  rw [List.length_replicate]
  decide

def objectA : S3Object := ⟨[1, 2, 3], none, length_bodyA⟩

def objectB : S3Object := ⟨[4, 5], none, length_bodyB⟩

def objectQ : S3Object := ⟨[9], none, length_bodyQ⟩

def zeros : S3Object := ⟨List.replicate 20971520 0, none, length_zeros⟩

/-- Two small objects and one of 20 MiB below `p/`, and one beside it. -/
def fourBucket : S3Bucket :=
  (((Bucket.empty.put ⟨utf8 "p/a"⟩ objectA).put ⟨utf8 "p/b"⟩ objectB).put ⟨utf8 "p/c"⟩ zeros).put
    ⟨utf8 "q"⟩ objectQ

/-- The CRC-32 of their contents. -/
def crcOfFour (body : Bytes) : UInt32 :=
  if body = [1, 2, 3] then 0x55BC801D
  else if body = [4, 5] then 0x55DF2374
  else if body = [9] then 0xABDE5729
  else 0x38773417

theorem length_body_zeros : zeros.body.length = 20971520 := List.length_replicate

theorem jobFiles_fourBucket : jobFiles fourBucket (utf8 "bucket") (utf8 "p") =
    [⟨utf8 "a", utf8 "bucket", utf8 "p/a", 3⟩, ⟨utf8 "b", utf8 "bucket", utf8 "p/b", 2⟩,
      ⟨utf8 "c", utf8 "bucket", utf8 "p/c", 20971520⟩] := by
  have hobjects : jobObjects fourBucket (utf8 "p") =
      [(utf8 "a", objectA), (utf8 "b", objectB), (utf8 "c", zeros)] := rfl
  unfold jobFiles
  rw [hobjects]
  simp only [List.map_cons, List.map_nil, length_body_zeros]
  rfl

theorem fitsMemory_fourBucket :
    FitsMemory (jobFiles fourBucket (utf8 "bucket") (utf8 "p")) := by
  rw [jobFiles_fourBucket]
  decide +kernel

theorem bounded_fourBucket : Bounded fourBucket := by
  have hobjects : fourBucket.objects = [(⟨utf8 "p/a"⟩, objectA), (⟨utf8 "p/b"⟩, objectB),
      (⟨utf8 "p/c"⟩, zeros), (⟨utf8 "q"⟩, objectQ)] := rfl
  refine ⟨by decide, by decide, ?_⟩
  rw [hobjects]
  simp only [List.map_cons, List.map_nil, List.sum_cons, List.sum_nil, length_body_zeros]
  decide

/-- The small objects pad the first part of the large one, whose rest is copied; the third part has
the directory. The archive reads back. -/
theorem archiveJob_readsBack_four :
    ∃ archive, HandlerRun (bucketSource crcOfFour fourBucket) fourBucket (utf8 "bucket") (utf8 "p")
        (.ok ()) (some archive) ∧
      ∃ order, order.Perm (jobFiles fourBucket (utf8 "bucket") (utf8 "p")) ∧
        archive = archiveOf (bucketSource crcOfFour fourBucket) order ∧
        Zip.readArchive archive = some (entriesRead (bucketSource crcOfFour fourBucket) order) := by
  obtain ⟨archive, hjob⟩ := exists_handlerRun_ok crcOfFour
    (@Bucket.Pages.last _ _ _ _ _ _ 1000 (by decide) rfl) fitsMemory_fourBucket
  obtain ⟨order, hperm, harchive, hread, _⟩ :=
    (archiveJob_readsBack bounded_fourBucket hjob).2 archive rfl
  refine ⟨archive, hjob, order, hperm, harchive, (hread ?_).2 ?_⟩
  · -- 20 MiB and the headers
    have hbody := partSize_jobFiles_le bounded_fourBucket hperm
    have hdir := directorySize_jobFiles_le bounded_fourBucket hperm
    have hsize : (endRecords order).size ≤ 98 := by
      unfold EndOfCentralDirectory64.size
      split <;> decide
    have hsum := (hperm.map FileInfo.size).sum_eq
    have hlen : order.length = 3 := hperm.length_eq
    have hlisted : SizesListed (bucketSource crcOfFour fourBucket) order :=
      fun f hf => sizesListed_jobFiles f (hperm.subset hf)
    rw [jobFiles_fourBucket] at hsum
    rw [harchive, length_archiveOf hlisted]
    have hmax : u32Max = 4294967295 := rfl
    simp only [List.map_cons, List.map_nil, List.sum_cons, List.sum_nil] at hsum
    omega
  · refine readable_jobFiles hperm fun x hx => ?_
    have hx : x ∈ [(utf8 "a", objectA), (utf8 "b", objectB), (utf8 "c", zeros)] := hx
    simp only [List.mem_cons, List.not_mem_nil, or_false] at hx
    rcases hx with rfl | rfl | rfl
    · decide
    · decide
    · rw [length_body_zeros]
      decide

end S3Archive.JrodonV3
