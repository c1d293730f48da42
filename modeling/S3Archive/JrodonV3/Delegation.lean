import S3Archive.JrodonV3.FanOut
import S3Archive.JrodonV3.PlannedJobs

/-!
# jrodon-v3: jobs for sub-workers

A planned upload job without the central directory survives the conversion to a
`DelegatedPartJob` and back (`convert_planned`). What a rebuilt job outputs and
which headers it sends does not depend on the channel it is given, and a batch of
rebuilt jobs is a `JobSet` of its own (`JobSet.handler`).
-/

namespace S3Archive.JrodonV3

open RegularZipPart (partSize)

/-! ## Conversion -/

/-- The channel that the element sends to or receives from. -/
def UploadPartElement.channel : UploadPartElement → CdfhChannel
  | .entryFromS3 e => e.cdfhSender
  | .centralDirectory _ _ ch => ch

/-- The elements of entries that share a sender. -/
def entryElems (ch : CdfhChannel) (entries : List SerializableEntryFromS3) :
    List UploadPartElement :=
  entries.map fun e => .entryFromS3 ⟨e, ch⟩

theorem exists_entryElems {ch : CdfhChannel} {elems : List UploadPartElement}
    (hentry : ∀ e ∈ elems, e.isEntry) (hch : ∀ e ∈ elems, e.channel = ch) :
    ∃ entries, elems = entryElems ch entries := by
  induction elems with
  | nil => exact ⟨[], rfl⟩
  | cons e elems ih =>
    obtain ⟨entries, rfl⟩ := ih (fun e he => hentry e (List.mem_cons_of_mem _ he))
      (fun e he => hch e (List.mem_cons_of_mem _ he))
    cases e with
    | entryFromS3 e =>
      obtain rfl : e.cdfhSender = ch := hch _ List.mem_cons_self
      exact ⟨e.entry :: entries, rfl⟩
    | centralDirectory total eocd c => cases hentry _ List.mem_cons_self

theorem filterMap_entryElems (ch : CdfhChannel) (entries : List SerializableEntryFromS3) :
    (entryElems ch entries).filterMap UploadPartElement.entry? = entries := by
  unfold entryElems
  rw [List.filterMap_map]
  exact List.filterMap_some

/-- The last entry gives the sender; the entries keep their order. -/
theorem newFromPartJob_entryElems (ch : CdfhChannel) (n size : Nat)
    (entries : List SerializableEntryFromS3) (last : SerializableEntryFromS3) :
    DelegatedPartJob.newFromPartJob ⟨n, size, .upload (entryElems ch (entries ++ [last]))⟩ =
      .ok (⟨n, size, entries ++ [last]⟩, ch) := by
  have hsplit : entryElems ch (entries ++ [last]) =
      entryElems ch entries ++ [.entryFromS3 ⟨last, ch⟩] := List.map_append
  have hall : (entryElems ch (entries ++ [last])).all UploadPartElement.isEntry = true := by
    unfold entryElems
    rw [List.all_map]
    exact List.all_eq_true.2 fun _ _ => rfl
  unfold DelegatedPartJob.newFromPartJob
  dsimp only
  rw [if_pos hall, hsplit, List.getLast?_concat, List.dropLast_concat, filterMap_entryElems]

/-- A delegatable job with some entry is converted, and rebuilding it gives it back. -/
theorem convert_of_delegatable {ch : CdfhChannel} {job : PartJob} (hdel : job.delegatable)
    (hne : job.elems ≠ []) (hch : ∀ e ∈ job.elems, e.channel = ch) :
    ∃ d, DelegatedPartJob.newFromPartJob job = .ok (d, ch) ∧ PartJob.new d ch = job := by
  obtain ⟨n, size, jobType⟩ := job
  cases jobType with
  | copy source range => cases hdel
  | upload elems =>
    obtain ⟨entries, rfl⟩ := exists_entryElems (List.all_eq_true.1 hdel) hch
    rcases List.eq_nil_or_concat entries with rfl | ⟨entries, last, rfl⟩
    · exact absurd rfl hne
    · rw [List.concat_eq_append]
      exact ⟨_, newFromPartJob_entryElems ch n size entries last, rfl⟩

theorem mapM_convert {ch : CdfhChannel} {jobs : List PartJob}
    (h : ∀ job ∈ jobs, ∃ d, DelegatedPartJob.newFromPartJob job = .ok (d, ch) ∧
      PartJob.new d ch = job) :
    ∃ ds, jobs.mapM convert = .ok ds ∧ ds.map (PartJob.new · ch) = jobs := by
  induction jobs with
  | nil => exact ⟨[], rfl, rfl⟩
  | cons job jobs ih =>
    obtain ⟨d, hd, hnew⟩ := h job List.mem_cons_self
    obtain ⟨ds, hds, hmap⟩ := ih fun job hjob => h job (List.mem_cons_of_mem _ hjob)
    have hconv : convert job = .ok d := by
      unfold convert
      rw [hd]
      rfl
    refine ⟨d :: ds, ?_, ?_⟩
    · rw [List.mapM_cons, hconv, hds]
      rfl
    · rw [List.map_cons, hnew, hmap]

/-! ## The planned jobs -/

theorem channel_getElems {ch : CdfhChannel} {off : Nat} {fs : List FileEntry} :
    ∀ e ∈ getElems ch off fs, e.channel = ch := by
  intro e he
  obtain ⟨p, _, rfl⟩ := List.mem_map.1 he
  rfl

theorem channel_duoJobs {ch : CdfhChannel} {ds : List Duo} (off n : Nat) :
    ∀ job ∈ duoJobs ch off n ds, ∀ e ∈ job.elems, e.channel = ch := by
  refine forall_duoJobs (fun d _ off n => ⟨?_, ?_⟩) off n
  · intro e he
    rcases List.mem_append.1 he with he | he
    · exact channel_getElems e he
    · rw [List.mem_singleton.1 he]
      rfl
  · intro e he
    cases he

theorem elems_ne_nil_duoJobs {ch : CdfhChannel} {ds : List Duo} (off n : Nat) :
    ∀ job ∈ duoJobs ch off n ds, job.delegatable → job.elems ≠ [] := by
  refine forall_duoJobs (fun d _ off n => ⟨?_, ?_⟩) off n
  · intro _
    exact List.append_ne_nil_of_right_ne_nil _ (List.cons_ne_nil _ _)
  · intro hdel
    cases hdel

/-- The last job has the central directory. -/
theorem not_delegatable_lastJob (n : Nat) (elems : List UploadPartElement) (ch : CdfhChannel)
    (order : List FileEntry) : (uploadJob n (elems ++ [cdElem ch order])).delegatable = false := by
  show (elems ++ [cdElem ch order]).all UploadPartElement.isEntry = false
  rw [List.all_append]
  exact Bool.and_false _

/-- Every job of the plan that is sent to a worker survives the conversion. -/
theorem convert_planned {ch : CdfhChannel} {duos : List Duo} {tail : List FileEntry} {job : PartJob}
    (hjob : job ∈ jobList ch duos tail) (hdel : job.delegatable) :
    ∃ d, DelegatedPartJob.newFromPartJob job = .ok (d, ch) ∧ PartJob.new d ch = job := by
  rcases List.mem_append.1 hjob with hjob | hjob
  · exact convert_of_delegatable hdel (elems_ne_nil_duoJobs 0 1 job hjob hdel)
      (channel_duoJobs 0 1 job hjob)
  · rw [List.mem_singleton.1 hjob, not_delegatable_lastJob] at hdel
    cases hdel

/-! ## Rebuilt jobs -/

section

variable (src : Source) (d : DelegatedPartJob) (snd : CdfhChannel)

theorem elems_new : (PartJob.new d snd).elems = entryElems snd d.entriesFromS3 := rfl

/-- The headers that a delegated job sends. -/
def DelegatedPartJob.cdfhs : List CentralDirectoryFileHeader :=
  d.entriesFromS3.map (SerializableEntryFromS3.cdfh src)

theorem cdfhs_new : (PartJob.new d snd).cdfhs src = d.cdfhs src := by
  show (entryElems snd d.entriesFromS3).filterMap _ = _
  unfold entryElems DelegatedPartJob.cdfhs
  rw [List.filterMap_map]
  show List.filterMap (some ∘ SerializableEntryFromS3.cdfh src) _ = _
  rw [List.filterMap_eq_map]

theorem writeElems_entryElems (snd' : CdfhChannel) (received received' : List CentralDirectoryFileHeader)
    (remain : Nat) (entries : List SerializableEntryFromS3) :
    writeElems src received remain (entryElems snd entries) =
      writeElems src received' remain (entryElems snd' entries) := by
  induction entries generalizing remain with
  | nil => rfl
  | cons e entries ih =>
    show (if _ then (writeElems src received _ (entryElems snd entries)).map _ else none) =
      if _ then (writeElems src received' _ (entryElems snd' entries)).map _ else none
    rw [ih]
    rfl

/-- The part of a rebuilt job does not depend on its channel, nor on any headers. -/
theorem output_new (snd' : CdfhChannel) (received received' : List CentralDirectoryFileHeader) :
    (PartJob.new d snd).output src received = (PartJob.new d snd').output src received' :=
  writeElems_entryElems src snd snd' received received' _ _

end

/-! ## The handler's jobs -/

/-- The job's size is the sum of the sizes of its entries. -/
def DelegatedPartJob.Tiled (d : DelegatedPartJob) : Prop :=
  d.partSize = ((entryElems 0 d.entriesFromS3).map UploadPartElement.elemSize).sum

theorem tiled_new {d : DelegatedPartJob} (h : d.Tiled) (snd : CdfhChannel) :
    (PartJob.new d snd).partSize =
      ((PartJob.new d snd).elems.map UploadPartElement.elemSize).sum := by
  rw [elems_new]
  refine h.trans ?_
  unfold entryElems
  rw [List.map_map, List.map_map]
  rfl

/-- What the handler runs for a batch. No element waits for headers. -/
def JobSet.handler (src : Source) (snd : CdfhChannel) (jobs : List DelegatedPartJob)
    (h : ∀ d ∈ jobs, d.Tiled) : JobSet where
  jobs := jobs.map (PartJob.new · snd)
  headers := (jobs.flatMap (DelegatedPartJob.cdfhs src) : List _)
  dir := []
  tiled := by
    intro job hjob _
    obtain ⟨d, hd, rfl⟩ := List.mem_map.1 hjob
    exact tiled_new (h d hd) snd
  directory := by
    intro job hjob total eocd ch he
    obtain ⟨d, _, rfl⟩ := List.mem_map.1 hjob
    obtain ⟨e, _, he⟩ := List.mem_map.1 he
    cases he

theorem flatMap_cdfhs_new (src : Source) (snd : CdfhChannel) (jobs : List DelegatedPartJob) :
    (jobs.map (PartJob.new · snd)).flatMap (PartJob.cdfhs src) =
      jobs.flatMap (DelegatedPartJob.cdfhs src) := by
  rw [List.flatMap_map]
  simp only [cdfhs_new]

theorem LocalInv.start_handler (src : Source) (snd : CdfhChannel) (jobs : List DelegatedPartJob)
    (h : ∀ d ∈ jobs, d.Tiled) :
    LocalInv src (.handler src snd jobs h) 0 (.start (jobs.map (PartJob.new · snd)) false) := by
  refine LocalInv.start (J := .handler src snd jobs h) ?_ fun _ => rfl
  rw [add_zero]
  show (((jobs.map (PartJob.new · snd)).flatMap (PartJob.cdfhs src) : List _) :
    Multiset CentralDirectoryFileHeader) = _
  rw [flatMap_cdfhs_new]
  rfl

end S3Archive.JrodonV3
