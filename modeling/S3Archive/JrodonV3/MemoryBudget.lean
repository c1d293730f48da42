import S3Archive.JrodonV3.PlannedJobs

/-!
# jrodon-v3: the memory budget of the planned jobs

The upload parts of the Duos are bounded by the passes that fill them
(`Duo.uploadSize_le`). All other files end up in the last part, together with the
central directory, and nothing bounds that part: the layout's `Single` parts are
merged by the builder. `planJobs_budget_iff` says when all budgets can be granted.
-/

namespace S3Archive.JrodonV3

open FileEntry
open RegularZipPart (partSize)

/-! ## The condition -/

/-- The files of a layout in the order of the archive. -/
def archiveOrder (files : List FileInfo) : List FileEntry :=
  (fromFilesInfo files).flatMap ZipLayoutPart.files

/-- The upload half of a part of the layout: its regular files, and of a copied file the header
and the bytes before the copy. -/
def ZipLayoutPart.uploadSize : ZipLayoutPart → Nat
  | .single regular => partSize regular
  | .duo regular (.fullCopy f) => partSize regular + f.locSize
  | .duo regular (.partialCopy f start) => partSize regular + f.locSize + start

/-- The name does not fit the 16-bit length field of a ZIP header. -/
def ZipLayoutPart.HasLongName (part : ZipLayoutPart) : Prop :=
  ∃ f ∈ part.files, u16Max < f.name.length

instance (part : ZipLayoutPart) : Decidable part.HasLongName :=
  inferInstanceAs (Decidable (∃ f ∈ part.files, u16Max < f.name.length))

/-- What passes 1 to 3 put into no Duo fits the memory of the part jobs, together with the
directory, and so does each Duo with a name that no ZIP header can hold. -/
def FitsMemory (files : List FileInfo) : Prop :=
  partSize (leftOver files) + (directorySize (archiveOrder files) +
      (endRecords (archiveOrder files)).size) ≤ maxPartJobTasksMemory ∧
    ∀ part ∈ fromFilesInfo files, part.HasLongName →
      part.uploadSize ≤ maxPartJobTasksMemory

instance (files : List FileInfo) : Decidable (FitsMemory files) := inferInstanceAs (Decidable (_ ∧ _))

/-! ## The upload parts of the Duos -/

theorem Duo.uploadSize_part (d : Duo) :
    d.part.uploadSize = partSize d.regular + d.big.locSize + d.start := by
  unfold part copy
  by_cases h : d.start > 0
  · rw [if_pos h]; rfl
  · rw [if_neg h, Nat.eq_zero_of_not_pos h]; rfl

/-- The passes fill a Duo's regular half with at most one file too many each. -/
theorem Duo.uploadSize_le {d : Duo} (h : d.Within maxRegularSize) (hname : ¬ d.part.HasLongName) :
    d.part.uploadSize ≤ maxPartJobTasksMemory := by
  have hnames : ∀ f ∈ d.files, f.name.length ≤ u16Max := by
    intro f hf
    refine Nat.le_of_not_lt fun hlong => hname ⟨f, ?_, hlong⟩
    rwa [d.files_part]
  have hregular := h hnames
  have hloc := FileEntry.locSize_le (hnames d.big (List.mem_append_right _ List.mem_cons_self))
  have hstart := d.start_le
  rw [d.uploadSize_part]
  unfold maxRegularSize at hregular
  unfold maxPartJobTasksMemory
  have hmin : minPartSize = 5 * 1024 * 1024 := rfl
  have hmax : maxLocSize = 65585 := rfl
  omega

section

variable {ch : CdfhChannel} {ds : List Duo}

theorem exists_uploadJob_mem {d : Duo} (hd : d ∈ ds) (off n : Nat) :
    ∃ off' n', uploadJob n' (d.uploadElems ch off') ∈ duoJobs ch off n ds := by
  induction ds generalizing off n with
  | nil => cases hd
  | cons e ds ih =>
    rcases List.mem_cons.1 hd with rfl | hd
    · exact ⟨off, n, List.mem_cons_self⟩
    · obtain ⟨off', n', hmem⟩ := ih hd (off + partSize e.files) (n + 2)
      exact ⟨off', n', List.mem_cons_of_mem _ (List.mem_cons_of_mem _ hmem)⟩

/-- The request of an upload job is its size, cut at `u32::MAX`. -/
theorem budget_uploadJob_le {n : Nat} {elems : List UploadPartElement} :
    (uploadJob n elems).memoryBudgetNeeded ≤ maxPartJobTasksMemory ↔
      (elems.map UploadPartElement.elemSize).sum ≤ maxPartJobTasksMemory := by
  have hcut : maxPartJobTasksMemory < u32Max := by decide
  show min (elems.map UploadPartElement.elemSize).sum u32Max ≤ _ ↔ _
  constructor
  · intro h
    rcases Nat.le_total (elems.map UploadPartElement.elemSize).sum u32Max with hle | hle
    · rwa [Nat.min_eq_left hle] at h
    · rw [Nat.min_eq_right hle] at h
      omega
  · exact fun h => Nat.le_trans (Nat.min_le_left _ _) h

theorem grantable_duoJobs (off n : Nat) :
    Grantable (duoJobs ch off n ds) ↔
      ∀ d ∈ ds, d.part.uploadSize ≤ maxPartJobTasksMemory := by
  constructor
  · intro h d hd
    obtain ⟨off', n', hmem⟩ := @exists_uploadJob_mem ch ds d hd off n
    have hle := budget_uploadJob_le.1 (h _ hmem)
    rwa [d.sum_uploadElems, ← d.uploadSize_part] at hle
  · intro h
    refine forall_duoJobs (fun d hd off n => ⟨?_, ?_⟩) off n
    · rw [budget_uploadJob_le, d.sum_uploadElems, ← d.uploadSize_part]
      exact h d hd
    · show 256 * 1024 ≤ maxPartJobTasksMemory
      decide

end

/-! ## The last part -/

theorem grantable_jobList (ch : CdfhChannel) (duos : List Duo) (tail : List FileEntry) :
    Grantable (jobList ch duos tail) ↔
      (∀ d ∈ duos, d.part.uploadSize ≤ maxPartJobTasksMemory) ∧
        partSize tail + (directorySize (duos.flatMap Duo.files ++ tail) +
          (endRecords (duos.flatMap Duo.files ++ tail)).size) ≤ maxPartJobTasksMemory := by
  have hlast : ((getElems ch (partSize (duos.flatMap Duo.files)) tail ++
      [cdElem ch (duos.flatMap Duo.files ++ tail)]).map UploadPartElement.elemSize).sum =
      partSize tail + (directorySize (duos.flatMap Duo.files ++ tail) +
        (endRecords (duos.flatMap Duo.files ++ tail)).size) := by
    rw [List.map_append, List.sum_append, sum_getElems]
    rfl
  rw [← hlast, ← grantable_duoJobs 0 1, ← budget_uploadJob_le]
  constructor
  · intro h
    exact ⟨fun job hjob => h job (List.mem_append_left _ hjob),
      h _ (List.mem_append_right _ List.mem_cons_self)⟩
  · rintro ⟨hduos, hlast⟩ job hjob
    rcases List.mem_append.1 hjob with hjob | hjob
    · exact hduos job hjob
    · rw [List.mem_singleton.1 hjob]
      exact hlast

theorem archiveOrder_eq {files : List FileInfo} {duos : List Duo} {groups : List RegularZipPart}
    (h : fromFilesInfo files = duos.map Duo.part ++ groups.map .single) :
    archiveOrder files = duos.flatMap Duo.files ++ groups.flatten := by
  unfold archiveOrder
  rw [h, List.flatMap_append, List.flatMap_map, List.flatMap_map]
  have hduos : (duos.flatMap fun d => d.part.files) = duos.flatMap Duo.files := by
    simp only [Duo.files_part]
  have hgroups : (groups.flatMap fun r => (ZipLayoutPart.single r).files) = groups.flatten :=
    List.flatMap_id'
  rw [hduos, hgroups]

theorem partSize_le_flatten {groups : List RegularZipPart} {r : RegularZipPart} (hr : r ∈ groups) :
    partSize r ≤ partSize groups.flatten := by
  obtain ⟨gs₁, gs₂, rfl⟩ := List.append_of_mem hr
  rw [List.flatten_append, List.flatten_cons, partSize_append, partSize_append]
  omega

/-! ## When all budgets can be granted -/

/-- Every request for permits is within the total, and in every run every request is granted. -/
def BudgetsGranted (src : Source) (jobs : List PartJob) : Prop :=
  Grantable jobs ∧ AlwaysGranted src jobs

/-- The requests of a planned job list are all within the total exactly when it fits. -/
theorem exists_planJobs_grantable_iff (ch : CdfhChannel) (files : List FileInfo) :
    ∃ p : Plan files, planJobs ch files = .ok (jobList ch p.duos p.tail) ∧
      (Grantable (jobList ch p.duos p.tail) ↔ FitsMemory files) := by
  obtain ⟨p, groups, hlayout, hflat, htail, hwithin, _⟩ := fromFilesInfo_eq files
  have hgroups : groups.flatten = p.tail := hflat.trans htail.symm
  have hjobs : planJobs ch files = .ok (jobList ch p.duos groups.flatten) := by
    unfold planJobs
    rw [hlayout, intoPartJobs_eq]
  rw [hgroups] at hjobs
  refine ⟨p, hjobs, ?_⟩
  unfold FitsMemory
  rw [grantable_jobList, archiveOrder_eq hlayout, hlayout, ← htail, hgroups]
  constructor
  · rintro ⟨hduos, hlast⟩
    refine ⟨hlast, fun part hpart _ => ?_⟩
    rcases List.mem_append.1 hpart with hpart | hpart
    · obtain ⟨d, hd, rfl⟩ := List.mem_map.1 hpart
      exact hduos d hd
    · obtain ⟨r, hr, rfl⟩ := List.mem_map.1 hpart
      have hle := partSize_le_flatten hr
      rw [hgroups] at hle
      show partSize r ≤ _
      omega
  · rintro ⟨hlast, hlong⟩
    refine ⟨fun d hd => ?_, hlast⟩
    by_cases hname : d.part.HasLongName
    · exact hlong _ (List.mem_append_left _ (List.mem_map_of_mem hd)) hname
    · exact d.uploadSize_le (hwithin d hd) hname

/-- Local execution grants every request exactly when the files without a Duo fit into one part. -/
theorem planJobs_budget_iff (ch : CdfhChannel) (src : Source) (files : List FileInfo) :
    ∃ jobs, planJobs ch files = .ok jobs ∧ (BudgetsGranted src jobs ↔ FitsMemory files) := by
  obtain ⟨p, hjobs, hgrantable⟩ := exists_planJobs_grantable_iff ch files
  have hgranted : AlwaysGranted src (jobList ch p.duos p.tail) ↔
      Grantable (jobList ch p.duos p.tail) :=
    alwaysGranted_iff (LocalInv.start_planned ch src p.duos p.tail)
      (directoryLast_jobList p.duos p.tail)
  refine ⟨_, hjobs, ?_⟩
  unfold BudgetsGranted
  rw [hgranted, and_self]
  exact hgrantable

/-! ## Eleven files below the minimal part size -/

/-- Eleven files of one byte less than `MIN_PART_SIZE`. -/
def elevenFiles : List FileInfo :=
  [97, 98, 99, 100, 101, 102, 103, 104, 105, 106, 107].map fun c =>
    ⟨[c], [98], [c], minPartSize - 1⟩

theorem leftOver_elevenFiles : leftOver elevenFiles = elevenFiles := by
  have hsort : sortBySize elevenFiles = elevenFiles := by decide
  have hpass : pass1 elevenFiles = ([], elevenFiles) := by
    have hlast : elevenFiles = elevenFiles.dropLast ++ [⟨[107], [98], [107], minPartSize - 1⟩] := by
      decide
    rw [hlast, pass1_concat]
    exact if_neg (by decide)
  unfold leftOver beforePass4
  rw [hsort, hpass]
  rfl

/-- They make one part of more than `MAX_PART_JOB_TASKS_MEMORY` bytes, which waits forever. -/
theorem elevenFiles_not_granted :
    ∃ jobs, planJobs 0 elevenFiles = .ok jobs ∧
      (∃ job ∈ jobs, maxPartJobTasksMemory < job.memoryBudgetNeeded) ∧
      ∀ src, ¬ AlwaysGranted src jobs := by
  obtain ⟨p, hjobs, _⟩ := planJobs_eq 0 elevenFiles
  rw [leftOver_elevenFiles] at hjobs
  have hno : ¬ Grantable (jobList 0 p.duos elevenFiles) := by
    intro h
    have hsize : maxPartJobTasksMemory < partSize elevenFiles := by decide
    have hle := ((grantable_jobList 0 p.duos elevenFiles).1 h).2
    omega
  refine ⟨_, hjobs, ?_, fun src hgranted => ?_⟩
  · by_contra hall
    exact hno fun job hjob => Nat.le_of_not_lt fun hbig => hall ⟨job, hjob, hbig⟩
  · exact hno ((alwaysGranted_iff (LocalInv.start_planned 0 src p.duos elevenFiles)
      (directoryLast_jobList p.duos elevenFiles)).1 hgranted)

end S3Archive.JrodonV3
