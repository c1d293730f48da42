import S3Archive.JrodonV3.Archive
import S3Archive.JrodonV3.LocalProgress

/-!
# jrodon-v3: local execution of the planned jobs

`JobSet.planned` is the job list of a layout as a `JobSet`: the central directory
needs the headers of all files, in archive order. `alwaysGranted_iff` says when
the requests for permits of such a list are all granted.
-/

namespace S3Archive.JrodonV3

open RegularZipPart (partSize)

/-! ## The job set of a layout -/

section

variable {ch : CdfhChannel} {ds : List Duo}

theorem tiled_uploadJob (n : Nat) (elems : List UploadPartElement) :
    (uploadJob n elems).partSize =
      ((uploadJob n elems).elems.map UploadPartElement.elemSize).sum := rfl

theorem tiled_duoJobs (off n : Nat) : ∀ job ∈ duoJobs ch off n ds, job.isCopy = false →
    job.partSize = (job.elems.map UploadPartElement.elemSize).sum := by
  refine forall_duoJobs (fun d _ off n => ⟨?_, ?_⟩) off n
  · exact fun _ => tiled_uploadJob _ _
  · intro hup
    cases hup

/-- The only directory element of a job list is its last element. -/
theorem directory_jobList {duos : List Duo} {tail : List FileEntry} {job : PartJob}
    (hjob : job ∈ jobList ch duos tail) {e : UploadPartElement} (he : e ∈ job.elems)
    (hdir : e.isEntry = false) : e = cdElem ch (duos.flatMap Duo.files ++ tail) := by
  rcases List.mem_append.1 hjob with hjob | hjob
  · rw [isEntry_duoJobs 0 1 job hjob e he] at hdir
    cases hdir
  · rw [List.mem_singleton.1 hjob] at he
    rcases List.mem_append.1 he with he | he
    · rw [isEntry_getElems e he] at hdir
      cases hdir
    · exact List.mem_singleton.1 he

theorem directoryLast_jobList (duos : List Duo) (tail : List FileEntry) :
    DirectoryLast (jobList ch duos tail) := by
  unfold DirectoryLast jobList
  rw [List.dropLast_concat]
  exact isEntry_duoJobs 0 1

end

/-- The job list of Duos and of the files after them. -/
def JobSet.planned (ch : CdfhChannel) (src : Source) (duos : List Duo) (tail : List FileEntry) :
    JobSet where
  jobs := jobList ch duos tail
  headers := JrodonV3.directory src (duos.flatMap Duo.files ++ tail)
  dir := JrodonV3.directory src (duos.flatMap Duo.files ++ tail)
  tiled := by
    intro job hjob hup
    rcases List.mem_append.1 hjob with hjob | hjob
    · exact tiled_duoJobs 0 1 job hjob hup
    · rw [List.mem_singleton.1 hjob]
      exact tiled_uploadJob _ _
  directory := by
    intro job hjob total eocd c he
    cases directory_jobList hjob he rfl
    refine ⟨rfl, sorted_directory _ _, ?_⟩
    unfold JrodonV3.directory
    rw [List.length_map, length_offsetsFrom]
    rfl

theorem LocalInv.start_planned (ch : CdfhChannel) (src : Source) (duos : List Duo)
    (tail : List FileEntry) :
    LocalInv src (.planned ch src duos tail) 0 (.start (jobList ch duos tail) false) := by
  refine LocalInv.start (J := .planned ch src duos tail) ?_ fun _ => rfl
  rw [add_zero]
  show (((jobList ch duos tail).flatMap (PartJob.cdfhs src) : List _) :
    Multiset CentralDirectoryFileHeader) = _
  rw [cdfhs_jobList]
  rfl

/-! ## Requests for permits -/

/-- In every run, as long as a job waits for its permits some step other than a fault is
enabled, and runs are bounded: no request waits forever. -/
def AlwaysGranted (src : Source) (jobs : List PartJob) : Prop :=
  (∃ n, ∀ evs s, LocalRun src (.start jobs false) evs s → evs.length ≤ n) ∧
    ∀ evs s, LocalRun src (.start jobs false) evs s → s.queue ≠ [] →
      ∃ ev s', LocalStep src s ev s' ∧ ev.isFault = false

/-- A request above the total is never granted. -/
theorem LocalStep.keeps_waiting {src : Source} {s s' : LocalState} {ev : LocalEvent} {job : PartJob}
    (hbig : maxPartJobTasksMemory < job.memoryBudgetNeeded)
    (h : job ∈ s.queue ∧ s.permits ≤ maxPartJobTasksMemory) (hpermits : s'.permits ≤ maxPartJobTasksMemory)
    (hstep : LocalStep src s ev s') : job ∈ s'.queue := by
  obtain ⟨hjob, hle⟩ := h
  cases hstep with
  | @acquire first rest hq hfits =>
    rw [hq] at hjob
    rcases List.mem_cons.1 hjob with rfl | hjob
    · omega
    · exact hjob
  | task hrun htask => exact hjob
  | finish hrun hend => exact hjob

theorem LocalInv.permits_le {src : Source} {J : JobSet} {outer : Multiset CentralDirectoryFileHeader}
    {s : LocalState} (h : LocalInv src J outer s) : s.permits ≤ maxPartJobTasksMemory := by
  have := h.permits
  omega

/-- A run that cannot be continued without a fault. -/
theorem LocalInv.exists_maximal {src : Source} {J : JobSet}
    {outer : Multiset CentralDirectoryFileHeader} {s : LocalState} (h : LocalInv src J outer s) :
    ∃ evs t, LocalRun src s evs t ∧
      ¬ ∃ ev t', LocalStep src t ev t' ∧ ev.isFault = false := by
  induction hn : s.weight (Multiset.card J.headers) using Nat.strong_induction_on
    generalizing s with
  | _ n ih =>
  by_cases hstep : ∃ ev t', LocalStep src s ev t' ∧ ev.isFault = false
  · obtain ⟨ev, s', hstep, _⟩ := hstep
    obtain ⟨evs, t, hrun, hmax⟩ := ih _ (hn ▸ h.weight_lt hstep) (h.step hstep) rfl
    exact ⟨ev :: evs, t, .cons hstep hrun, hmax⟩
  · exact ⟨[], s, .refl s, hstep⟩

/-- The requests are all granted exactly when each is within the total. -/
theorem alwaysGranted_iff {src : Source} {J : JobSet}
    (h : LocalInv src J 0 (.start J.jobs false)) (hlast : DirectoryLast J.jobs) :
    AlwaysGranted src J.jobs ↔ Grantable J.jobs := by
  constructor
  · intro hgranted
    by_contra hno
    obtain ⟨job, hjob, hbig⟩ : ∃ job ∈ J.jobs, maxPartJobTasksMemory < job.memoryBudgetNeeded := by
      by_contra hall
      exact hno fun job hjob => Nat.le_of_not_lt fun hbig => hall ⟨job, hjob, hbig⟩
    -- the job is still waiting when nothing else can happen
    obtain ⟨evs, t, hrun, hmax⟩ := h.exists_maximal
    have hwait : LocalInv src J 0 t ∧ job ∈ t.queue := by
      refine hrun.invariant (P := fun s => LocalInv src J 0 s ∧ job ∈ s.queue) ⟨h, hjob⟩ ?_
      rintro a ev b ⟨hinv, hmem⟩ hstep
      have hinv' := hinv.step hstep
      exact ⟨hinv', hstep.keeps_waiting hbig ⟨hmem, hinv.permits_le⟩ hinv'.permits_le⟩
    exact hmax (hgranted.2 evs t hrun (List.ne_nil_of_mem hwait.2))
  · intro hbudget
    refine ⟨⟨_, fun evs s hrun => h.length_le hrun⟩, fun evs s hrun hq => ?_⟩
    refine (h.run hrun).progress hlast hbudget hrun.outside_eq ?_
    exact fun hfin => hq hfin.1

end S3Archive.JrodonV3
