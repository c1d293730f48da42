import Mathlib.Data.List.Chain
import S3Archive.Base.Upload
import S3Archive.JrodonV3.JobList

/-!
# jrodon-v3: the part jobs form a legal multipart upload

`JobsLegal` states the rules: numbering, minimum sizes, an upload part before
each copy part, copy ranges inside their source, and the central directory as
the last element of the last part. `planJobs_legal` proves them for every list
of files.
-/

namespace S3Archive.JrodonV3

open RegularZipPart (partSize)

/-- A copy job reads a non-empty range that ends at the last byte of a listed file. -/
def PartJob.CopyInside (files : List FileInfo) (job : PartJob) : Prop :=
  match job.partJobType with
  | .upload _ => True
  | .copy source range =>
    ∃ f ∈ files, source = ⟨f.bucketName, f.key⟩ ∧ 0 < job.partSize ∧
      match range with
      | none => job.partSize = f.size
      | some r => r.start ≤ r.stop ∧ r.stop + 1 = f.size ∧ job.partSize = r.stop + 1 - r.start

/-- The job ends with the central directory and has no other directory element. -/
def PartJob.EndsWithDirectory (job : PartJob) : Prop :=
  ∃ elems total eocd ch,
    job.partJobType = .upload (elems ++ [.centralDirectory total eocd ch]) ∧
      ∀ e ∈ elems, e.isEntry

structure JobsLegal (files : List FileInfo) (jobs : List PartJob) : Prop where
  numbered : NumberedFrom PartJob.partNumber 1 jobs
  floored : Floored PartJob.partSize minPartSize jobs
  first_upload : ∀ job ∈ jobs.head?, job.isCopy = false
  no_adjacent_copies : jobs.IsChain fun a b => ¬ (a.isCopy ∧ b.isCopy)
  copies_inside : ∀ job ∈ jobs, job.CopyInside files
  directory_last : ∃ init last, jobs = init ++ [last] ∧ last.EndsWithDirectory ∧
    ∀ job ∈ init, ∀ e ∈ job.elems, e.isEntry

/-! ## The jobs of the Duos -/

section

variable {ch : CdfhChannel} {ds : List Duo}

/-- What holds of both jobs of each Duo holds of all jobs. -/
theorem forall_duoJobs {P : PartJob → Prop}
    (h : ∀ d ∈ ds, ∀ off n, P (uploadJob n (d.uploadElems ch off)) ∧ P (d.copyJob (n + 1)))
    (off n : Nat) : ∀ job ∈ duoJobs ch off n ds, P job := by
  induction ds generalizing off n with
  | nil => simp [duoJobs]
  | cons d ds ih =>
    intro job hjob
    obtain ⟨hup, hcopy⟩ := h d List.mem_cons_self off n
    rcases List.mem_cons.1 hjob with rfl | hjob
    · exact hup
    · rcases List.mem_cons.1 hjob with rfl | hjob
      · exact hcopy
      · exact ih (fun e he => h e (List.mem_cons_of_mem _ he)) _ _ job hjob

theorem numbered_duoJobs (off n : Nat) :
    NumberedFrom PartJob.partNumber n (duoJobs ch off n ds) := by
  induction ds generalizing off n with
  | nil => exact .nil _ _
  | cons d ds ih => exact .cons rfl (.cons rfl (ih _ _))

theorem floor_duoJobs (off n : Nat) :
    ∀ job ∈ duoJobs ch off n ds, minPartSize ≤ job.partSize := by
  refine forall_duoJobs (fun d _ off n => ⟨?_, ?_⟩) off n
  · rw [partSize_uploadJob, d.sum_uploadElems]
    exact d.upload_floor
  · have := d.copy_floor
    show minPartSize ≤ d.big.size - d.start
    omega

theorem isEntry_getElems {off : Nat} {fs : List FileEntry} :
    ∀ e ∈ getElems ch off fs, e.isEntry := by
  intro e he
  obtain ⟨p, _, rfl⟩ := List.mem_map.1 he
  rfl

theorem isEntry_duoJobs (off n : Nat) :
    ∀ job ∈ duoJobs ch off n ds, ∀ e ∈ job.elems, e.isEntry := by
  refine forall_duoJobs (fun d _ off n => ⟨?_, ?_⟩) off n
  · intro e he
    rcases List.mem_append.1 he with he | he
    · exact isEntry_getElems e he
    · rw [List.mem_singleton.1 he]; rfl
  · intro e he
    cases he

/-- A copy part takes the rest of its file. -/
theorem Duo.copyInside_copyJob {files : List FileInfo} {d : Duo} (hmem : d.big ∈ files) (n : Nat) :
    (d.copyJob n).CopyInside files := by
  have hfloor := d.copy_floor
  have hmin : 0 < minPartSize := by decide
  refine ⟨d.big, hmem, rfl, ?_, ?_⟩
  · show 0 < d.big.size - d.start
    omega
  · by_cases h : d.start > 0
    · rw [if_pos h]
      refine ⟨?_, ?_, ?_⟩
      · show d.start ≤ d.big.size - 1
        omega
      · show d.big.size - 1 + 1 = d.big.size
        omega
      · show d.big.size - d.start = d.big.size - 1 + 1 - d.start
        omega
    · rw [if_neg h]
      show d.big.size - d.start = d.big.size
      omega

/-- Upload and copy parts alternate. -/
theorem chain_duoJobs {last : PartJob} (hlast : last.isCopy = false) (off n : Nat) :
    (∀ job ∈ (duoJobs ch off n ds ++ [last]).head?, job.isCopy = false) ∧
      (duoJobs ch off n ds ++ [last]).IsChain fun a b => ¬ (a.isCopy ∧ b.isCopy) := by
  induction ds generalizing off n with
  | nil => simp [duoJobs, hlast]
  | cons d ds ih =>
    obtain ⟨hhead, hchain⟩ := ih (off + partSize d.files) (n + 2)
    have hup : (uploadJob n (d.uploadElems ch off)).isCopy = false := rfl
    constructor
    · simp [duoJobs, hup]
    · rw [duoJobs, List.cons_append, List.cons_append, List.isChain_cons_cons]
      refine ⟨by simp [hup], ?_⟩
      rw [List.isChain_cons]
      refine ⟨fun job hjob => ?_, hchain⟩
      simp [hhead job hjob]

end

/-! ## All jobs -/

theorem jobList_legal (ch : CdfhChannel) {files : List FileInfo} {duos : List Duo}
    (hmem : ∀ d ∈ duos, d.big ∈ files) (tail : List FileEntry) :
    JobsLegal files (jobList ch duos tail) := by
  have hchain := @chain_duoJobs ch duos
    (uploadJob (2 * duos.length + 1) (getElems ch (partSize (duos.flatMap Duo.files)) tail ++
      [cdElem ch (duos.flatMap Duo.files ++ tail)])) rfl 0 1
  have hcopies := @forall_duoJobs ch duos (PartJob.CopyInside files)
    (fun d hd off n => ⟨trivial, d.copyInside_copyJob (hmem d hd) (n + 1)⟩) 0 1
  refine ⟨?_, ?_, hchain.1, hchain.2, ?_, ?_⟩
  · refine (numbered_duoJobs 0 1).append (.cons ?_ (.nil _ _))
    rw [partNumber_uploadJob, length_duoJobs]
    omega
  · exact .append_singleton (floor_duoJobs 0 1) _
  · intro job hjob
    rcases List.mem_append.1 hjob with hjob | hjob
    · exact hcopies job hjob
    · rw [List.mem_singleton.1 hjob]; trivial
  · exact ⟨_, _, rfl, ⟨_, _, _, _, rfl, isEntry_getElems⟩, isEntry_duoJobs 0 1⟩

theorem Plan.big_mem {files : List FileInfo} (p : Plan files) : ∀ d ∈ p.duos, d.big ∈ files := by
  intro d hd
  refine p.perm.subset (List.mem_append_left _ ?_)
  exact List.mem_flatMap_of_mem hd (List.mem_append_right _ List.mem_cons_self)

/-- The planner never panics, and its part jobs are a legal multipart upload. -/
theorem planJobs_legal (ch : CdfhChannel) (files : List FileInfo) :
    ∃ jobs, planJobs ch files = .ok jobs ∧ JobsLegal files jobs := by
  obtain ⟨p, hjobs, _⟩ := planJobs_eq ch files
  exact ⟨_, hjobs, jobList_legal ch p.big_mem _⟩

end S3Archive.JrodonV3
