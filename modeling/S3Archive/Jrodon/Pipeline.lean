import S3Archive.Base.Bytes
import S3Archive.Base.Run

/-!
# jrodon: the download, zip and upload pipeline

`createMultipartArchive` as a transition system. One task downloads each file
and sends it to the ZIP job, whose bytes the uploader sends as parts. The
result of a download task is not looked at, and a failed ZIP job only logs and
returns. `pipeline_complete_iff` says when a run that returns `Ok` has made an
archive of all files.
-/

namespace S3Archive.Jrodon

structure FileInfo where
  name : Bytes
  key : Bytes
  size : Nat
  deriving DecidableEq, Repr

/-- An entry of the ZIP: a name and its data. -/
abbrev ZipEntry := Bytes × Bytes

/-- The ZIP job. -/
inductive ZipJob where
  /-- It receives files; the entries it has written. -/
  | adding (entries : List ZipEntry)
  /-- The ZIP is finalized and flushed. -/
  | finished (entries : List ZipEntry)
  /-- It has returned early: after an error of `add_file`, `finish` or `flush`. -/
  | returned
  deriving DecidableEq, Repr

/-- What the completed object is. -/
inductive UploadedArchive where
  | zip (entries : List ZipEntry)
  /-- The parts sealed before the ZIP job returned; there are no end records. -/
  | truncated
  deriving DecidableEq, Repr

def ZipJob.uploaded : ZipJob → UploadedArchive
  | .finished entries => .zip entries
  | _ => .truncated

/-- The entries written by a job that has met no error. -/
def ZipJob.entries? : ZipJob → Option (List ZipEntry)
  | .adding entries => some entries
  | .finished entries => some entries
  | .returned => none

def ZipJob.receives : ZipJob → Bool
  | .adding _ => true
  | _ => false

structure PipelineState where
  /-- Files whose download has not been spawned. -/
  queue : List FileInfo
  /-- Free memory permits. -/
  permits : Nat
  /-- Files that are being downloaded. -/
  downloading : List FileInfo
  /-- Files that are sent to the ZIP job, with their data. -/
  channel : List (FileInfo × Bytes)
  zip : ZipJob
  /-- Some part could not be uploaded. -/
  partFailed : Bool
  /-- What `create_multipart_archive` has returned. -/
  outcome : Option (Except Unit UploadedArchive)

/-- Maximum memory that pending downloads can consume. -/
def maxDownloadsMemory : Nat := 20 * 1024 * 1024

def PipelineState.start (files : List FileInfo) : PipelineState where
  queue := files
  permits := maxDownloadsMemory
  downloading := []
  channel := []
  zip := .adding []
  partFailed := false
  outcome := none

/-- The permits of a file: its size as a `u32`. -/
def FileInfo.permits (f : FileInfo) : Nat := f.size % 2 ^ 32

inductive PipelineEvent where
  | spawn
  | downloaded
  | downloadFailed (f : FileInfo)
  | add
  | addFailed
  | finish
  | finishFailed
  | uploadFailed
  | complete
  | completeFailed
  deriving DecidableEq, Repr

/-- The events after which the archive lacks a file, or is no archive. -/
def PipelineEvent.losesFile : PipelineEvent → Bool
  | .downloadFailed _ => true
  | .addFailed => true
  | .finishFailed => true
  | _ => false

/-- `fetch` is what a download of a file gives when it succeeds. -/
inductive PipelineStep (fetch : FileInfo → Bytes) :
    PipelineState → PipelineEvent → PipelineState → Prop where
  | spawn {s : PipelineState} {f : FileInfo} {queue : List FileInfo} (hrun : s.outcome = none)
      (hqueue : s.queue = f :: queue) (hpermits : f.permits ≤ s.permits) :
    PipelineStep fetch s .spawn
      { s with
        queue
        permits := s.permits - f.permits
        downloading := s.downloading ++ [f] }
  | downloaded {s : PipelineState} {f : FileInfo} {fs₁ fs₂ : List FileInfo}
      (hrun : s.outcome = none) (hdown : s.downloading = fs₁ ++ f :: fs₂)
      (hopen : s.zip.receives) :
    PipelineStep fetch s .downloaded
      { s with downloading := fs₁ ++ fs₂, channel := s.channel ++ [(f, fetch f)] }
  /-- The receiver is gone: the send fails, and nobody looks at it. -/
  | notSent {s : PipelineState} {f : FileInfo} {fs₁ fs₂ : List FileInfo}
      (hrun : s.outcome = none) (hdown : s.downloading = fs₁ ++ f :: fs₂)
      (hclosed : s.zip.receives = false) :
    PipelineStep fetch s .downloaded
      { s with downloading := fs₁ ++ fs₂, permits := s.permits + f.permits }
  /-- The task ends with an error that nobody looks at. -/
  | downloadFailed {s : PipelineState} {f : FileInfo} {fs₁ fs₂ : List FileInfo}
      (hrun : s.outcome = none) (hdown : s.downloading = fs₁ ++ f :: fs₂) :
    PipelineStep fetch s (.downloadFailed f)
      { s with downloading := fs₁ ++ fs₂, permits := s.permits + f.permits }
  | add {s : PipelineState} {f : FileInfo} {data : Bytes} {channel : List (FileInfo × Bytes)}
      {entries : List ZipEntry} (hrun : s.outcome = none) (hzip : s.zip = .adding entries)
      (hchannel : s.channel = (f, data) :: channel) :
    PipelineStep fetch s .add
      { s with
        channel
        permits := s.permits + f.permits
        zip := .adding (entries ++ [(f.name, data)]) }
  /-- The ZIP job logs the error and returns; what is in the channel is dropped. -/
  | addFailed {s : PipelineState} {entries : List ZipEntry} (hrun : s.outcome = none)
      (hzip : s.zip = .adding entries) (hchannel : s.channel ≠ []) :
    PipelineStep fetch s .addFailed
      { s with
        channel := []
        permits := s.permits + (s.channel.map fun p => p.1.permits).sum
        zip := .returned }
  /-- The channel is closed: all senders are dropped. -/
  | finish {s : PipelineState} {entries : List ZipEntry} (hrun : s.outcome = none)
      (hzip : s.zip = .adding entries) (hchannel : s.channel = []) (hqueue : s.queue = [])
      (hdown : s.downloading = []) :
    PipelineStep fetch s .finish { s with zip := .finished entries }
  | finishFailed {s : PipelineState} {entries : List ZipEntry} (hrun : s.outcome = none)
      (hzip : s.zip = .adding entries) (hchannel : s.channel = []) (hqueue : s.queue = [])
      (hdown : s.downloading = []) :
    PipelineStep fetch s .finishFailed { s with zip := .returned }
  | uploadFailed {s : PipelineState} (hrun : s.outcome = none) :
    PipelineStep fetch s .uploadFailed { s with partFailed := true }
  /-- The download job has spawned all downloads, the ZIP job has ended, all parts are uploaded. -/
  | complete {s : PipelineState} (hrun : s.outcome = none) (hqueue : s.queue = [])
      (hzip : s.zip.receives = false) (hparts : s.partFailed = false) :
    PipelineStep fetch s .complete { s with outcome := some (.ok s.zip.uploaded) }
  | completeFailed {s : PipelineState} (hrun : s.outcome = none) :
    PipelineStep fetch s .completeFailed { s with outcome := some (.error ()) }

abbrev PipelineRun (fetch : FileInfo → Bytes) :
    PipelineState → List PipelineEvent → PipelineState → Prop := Run (PipelineStep fetch)

/-- Every listed file is an entry with its data, exactly once, and there are no others. -/
def UploadedArchive.CompleteFor (fetch : FileInfo → Bytes) (files : List FileInfo)
    (archive : UploadedArchive) : Prop :=
  ∃ entries, archive = .zip entries ∧ entries.Perm (files.map fun f => (f.name, fetch f))

/-! ## What a run keeps -/

/-- The entry of a file whose download succeeds. -/
def FileInfo.entry (fetch : FileInfo → Bytes) (f : FileInfo) : ZipEntry := (f.name, fetch f)

/-- The files whose download has failed. -/
def failedFiles (evs : List PipelineEvent) : List FileInfo :=
  evs.filterMap fun
    | .downloadFailed f => some f
    | _ => none

/-- The files on their way to the ZIP job, as the entries they become. -/
def PipelineState.underway (fetch : FileInfo → Bytes) (s : PipelineState) : List ZipEntry :=
  s.channel.map (fun p => (p.1.name, p.2)) ++
    (s.downloading.map (FileInfo.entry fetch) ++ s.queue.map (FileInfo.entry fetch))

/-- Until the ZIP job meets an error each file is an entry, under way, or lost by its download. -/
structure PipelineInv (fetch : FileInfo → Bytes) (files : List FileInfo) (evs : List PipelineEvent)
    (s : PipelineState) : Prop where
  account : ∀ entries, s.zip.entries? = some entries →
    (entries ++ (s.underway fetch ++ (failedFiles evs).map (FileInfo.entry fetch))).Perm
      (files.map (FileInfo.entry fetch))
  drained : ∀ entries, s.zip = .finished entries → s.underway fetch = []
  returned : s.zip = .returned ↔ .addFailed ∈ evs ∨ .finishFailed ∈ evs
  outcome : ∀ archive, s.outcome = some (.ok archive) →
    archive = s.zip.uploaded ∧ s.zip.receives = false

section

variable {fetch : FileInfo → Bytes} {files : List FileInfo} {evs : List PipelineEvent}
  {s s' : PipelineState}

theorem failedFiles_append_of {ev : PipelineEvent} (h : ∀ f, ev ≠ .downloadFailed f) :
    failedFiles (evs ++ [ev]) = failedFiles evs := by
  unfold failedFiles
  rw [List.filterMap_append]
  cases ev with
  | downloadFailed f => exact absurd rfl (h f)
  | _ => exact List.append_nil _

/-- A step that moves files along and leaves the ZIP job as it is. -/
theorem PipelineInv.move (hinv : PipelineInv fetch files evs s) {ev : PipelineEvent}
    (hadd : ev ≠ .addFailed) (hfinish : ev ≠ .finishFailed) (hzip : s'.zip = s.zip)
    (houtcome : s'.outcome = s.outcome)
    (haccount : ∀ entries, s.zip.entries? = some entries →
      (s'.underway fetch ++ (failedFiles (evs ++ [ev])).map (FileInfo.entry fetch)).Perm
        (s.underway fetch ++ (failedFiles evs).map (FileInfo.entry fetch)))
    (hdrained : s.underway fetch = [] → s'.underway fetch = []) :
    PipelineInv fetch files (evs ++ [ev]) s' := by
  refine ⟨fun entries h => ?_, fun entries h => ?_, ?_, ?_⟩
  · rw [hzip] at h
    exact ((haccount entries h).append_left entries).trans (hinv.account entries h)
  · rw [hzip] at h
    exact hdrained (hinv.drained entries h)
  · rw [hzip, hinv.returned]
    simp [hadd.symm, hfinish.symm]
  · rw [houtcome, hzip]
    exact hinv.outcome

theorem PipelineInv.step (hinv : PipelineInv fetch files evs s) {ev : PipelineEvent}
    (h : PipelineStep fetch s ev s') : PipelineInv fetch files (evs ++ [ev]) s' := by
  cases h with
  | spawn hrun hqueue hpermits =>
    refine hinv.move (by simp) (by simp) rfl rfl (fun _ _ => ?_) fun hnil => ?_
    · rw [failedFiles_append_of (by simp)]
      unfold PipelineState.underway
      rw [hqueue]
      simp
    · unfold PipelineState.underway at hnil
      rw [hqueue] at hnil
      simp at hnil
  | @downloaded f fs₁ fs₂ hrun hdown hopen =>
    refine hinv.move (by simp) (by simp) rfl rfl (fun _ _ => ?_) fun hnil => ?_
    · rw [failedFiles_append_of (by simp)]
      unfold PipelineState.underway
      rw [hdown, List.perm_iff_count]
      intro e
      simp [List.count_cons, FileInfo.entry]
      omega
    · unfold PipelineState.underway at hnil
      rw [hdown] at hnil
      simp at hnil
  | @notSent f fs₁ fs₂ hrun hdown hclosed =>
    refine hinv.move (by simp) (by simp) rfl rfl (fun entries h => ?_) fun hnil => ?_
    · -- a job that has written all entries leaves no file under way
      cases hzip : s.zip with
      | adding es =>
        rw [hzip] at hclosed
        cases hclosed
      | finished es =>
        have hnil := hinv.drained es hzip
        unfold PipelineState.underway at hnil
        rw [hdown] at hnil
        simp at hnil
      | returned =>
        rw [hzip] at h
        cases h
    · unfold PipelineState.underway at hnil
      rw [hdown] at hnil
      simp at hnil
  | @downloadFailed f fs₁ fs₂ hrun hdown =>
    refine hinv.move (by simp) (by simp) rfl rfl (fun _ _ => ?_) fun hnil => ?_
    · unfold PipelineState.underway failedFiles
      rw [hdown, List.perm_iff_count]
      intro e
      simp [List.count_cons, FileInfo.entry]
      omega
    · unfold PipelineState.underway at hnil
      rw [hdown] at hnil
      simp at hnil
  | @add f data channel entries hrun hzip hchannel =>
    have haccount := hinv.account entries (by rw [hzip]; rfl)
    have hreturned := hinv.returned
    rw [hzip] at hreturned
    refine ⟨fun es h => ?_, fun es h => (by cases h), ?_, fun archive h => ?_⟩
    · cases h
      refine .trans ?_ haccount
      rw [failedFiles_append_of (by simp)]
      unfold PipelineState.underway
      rw [hchannel, List.append_assoc]
      exact .refl _
    · simpa using hreturned
    · rw [show s.outcome = none from hrun] at h
      cases h
  | addFailed hrun hzip hchannel =>
    refine ⟨fun es h => (by cases h), fun es h => (by cases h), ?_, fun archive h => ?_⟩
    · simp
    · rw [show s.outcome = none from hrun] at h
      cases h
  | @finish entries hrun hzip hchannel hqueue hdown =>
    have haccount := hinv.account entries (by rw [hzip]; rfl)
    have hreturned := hinv.returned
    rw [hzip] at hreturned
    refine ⟨fun es h => ?_, fun es _ => ?_, ?_, fun archive h => ?_⟩
    · cases h
      rw [failedFiles_append_of (by simp)]
      exact haccount
    · unfold PipelineState.underway
      rw [hchannel, hqueue, hdown]
      rfl
    · simpa using hreturned
    · rw [show s.outcome = none from hrun] at h
      cases h
  | finishFailed hrun hzip hchannel hqueue hdown =>
    refine ⟨fun es h => (by cases h), fun es h => (by cases h), ?_, fun archive h => ?_⟩
    · simp
    · rw [show s.outcome = none from hrun] at h
      cases h
  | uploadFailed hrun =>
    refine hinv.move (by simp) (by simp) rfl rfl (fun _ _ => ?_) fun hnil => hnil
    rw [failedFiles_append_of (by simp)]
    exact .refl _
  | complete hrun hqueue hzip hparts =>
    refine ⟨fun es h => ?_, hinv.drained, ?_, fun archive h => ?_⟩
    · rw [failedFiles_append_of (by simp)]
      exact hinv.account es h
    · simpa using hinv.returned
    · cases h
      exact ⟨rfl, hzip⟩
  | completeFailed hrun =>
    refine ⟨fun es h => ?_, hinv.drained, ?_, fun archive h => (by cases h)⟩
    · rw [failedFiles_append_of (by simp)]
      exact hinv.account es h
    · simpa using hinv.returned

/-- The invariant holds in every run. -/
theorem pipelineInv_run (h : PipelineRun fetch (.start files) evs s) :
    PipelineInv fetch files evs s := by
  induction h with
  | refl =>
    refine ⟨fun es h => ?_, fun es h => (by cases h), ?_, fun archive h => (by cases h)⟩
    · cases h
      simp [PipelineState.underway, PipelineState.start, failedFiles]
    · simp [PipelineState.start]
  | step hrun hstep ih => exact ih.step hstep

/-! ## Returning Ok -/

theorem losesFile_iff : (∀ ev ∈ evs, ev.losesFile = false) ↔
    failedFiles evs = [] ∧ .addFailed ∉ evs ∧ .finishFailed ∉ evs := by
  constructor
  · intro h
    refine ⟨?_, fun hmem => ?_, fun hmem => ?_⟩
    · unfold failedFiles
      rw [List.filterMap_eq_nil_iff]
      intro ev hev
      cases ev with
      | downloadFailed f => cases h _ hev
      | _ => rfl
    · cases h _ hmem
    · cases h _ hmem
  · rintro ⟨hfailed, hadd, hfinish⟩ ev hev
    unfold failedFiles at hfailed
    rw [List.filterMap_eq_nil_iff] at hfailed
    cases ev with
    | downloadFailed f => cases hfailed _ hev
    | addFailed => exact absurd hev hadd
    | finishFailed => exact absurd hev hfinish
    | _ => rfl

/-- A run that returns `Ok` has made an archive of all files if and only if no download, and no
write into the ZIP, has failed in it. -/
theorem pipeline_complete_iff {archive : UploadedArchive}
    (h : PipelineRun fetch (.start files) evs s) (hok : s.outcome = some (.ok archive)) :
    archive.CompleteFor fetch files ↔ ∀ ev ∈ evs, ev.losesFile = false := by
  have hinv := pipelineInv_run h
  obtain ⟨rfl, hclosed⟩ := hinv.outcome archive hok
  rw [losesFile_iff]
  have hreturned := hinv.returned
  cases hzip : s.zip with
  | adding entries =>
    rw [hzip] at hclosed
    cases hclosed
  | returned =>
    refine iff_of_false ?_ fun hnone => ?_
    · rintro ⟨entries, heq, _⟩
      cases heq
    · rcases hreturned.1 hzip with hmem | hmem
      · exact hnone.2.1 hmem
      · exact hnone.2.2 hmem
  | finished entries =>
    have haccount := hinv.account entries (by rw [hzip]; rfl)
    rw [hinv.drained entries hzip, List.nil_append] at haccount
    rw [hzip] at hreturned
    constructor
    · rintro ⟨entries', heq, hperm⟩
      cases heq
      refine ⟨?_, ?_, ?_⟩
      · have hlen := haccount.length_eq
        rw [List.length_append, hperm.length_eq, List.length_map, List.length_map,
          List.length_map] at hlen
        apply List.length_eq_zero_iff.1
        omega
      · exact fun hmem => by cases hreturned.2 (.inl hmem)
      · exact fun hmem => by cases hreturned.2 (.inr hmem)
    · rintro ⟨hfailed, _, _⟩
      rw [hfailed, List.map_nil, List.append_nil] at haccount
      exact ⟨entries, rfl, haccount⟩

end

/-- A file `a` of three bytes and a file `b` of two. -/
def twoFiles : List FileInfo := [⟨[0x61], [0x61], 3⟩, ⟨[0x62], [0x62], 2⟩]

def fetchTwo (f : FileInfo) : Bytes := if f.size = 3 then [1, 2, 3] else [4, 5]

/-- Two files are downloaded at once, and the second one is added first. -/
theorem pipeline_complete_iff_two :
    ∃ s, PipelineRun fetchTwo (.start twoFiles)
        [.spawn, .spawn, .downloaded, .add, .downloaded, .add, .finish, .complete] s ∧
      s.outcome = some (.ok (.zip [([0x62], [4, 5]), ([0x61], [1, 2, 3])])) ∧
      UploadedArchive.CompleteFor fetchTwo twoFiles
        (.zip [([0x62], [4, 5]), ([0x61], [1, 2, 3])]) := by
  have hrun : PipelineRun fetchTwo (.start twoFiles)
      [.spawn, .spawn, .downloaded, .add, .downloaded, .add, .finish, .complete]
      ⟨[], 20971520, [], [], .finished [([0x62], [4, 5]), ([0x61], [1, 2, 3])], false,
        some (.ok (.zip [([0x62], [4, 5]), ([0x61], [1, 2, 3])]))⟩ := by
    refine .cons (.spawn rfl rfl (by decide)) ?_
    refine .cons (.spawn rfl rfl (by decide)) ?_
    refine .cons (@PipelineStep.downloaded _ _ _ [_] [] rfl rfl rfl) ?_
    refine .cons (.add rfl rfl rfl) ?_
    refine .cons (@PipelineStep.downloaded _ _ _ [] [] rfl rfl rfl) ?_
    refine .cons (.add rfl rfl rfl) ?_
    refine .cons (.finish rfl rfl rfl rfl rfl) ?_
    exact .cons (.complete rfl rfl rfl rfl) (.refl _)
  exact ⟨_, hrun, rfl, (pipeline_complete_iff hrun rfl).2 (by decide)⟩

/-- The download of the only file fails, and an archive without entries is completed. -/
theorem pipeline_not_complete :
    ∃ s archive, PipelineRun (fun _ => [1]) (.start [⟨[0x61], [0x61], 1⟩])
        [.spawn, .downloadFailed ⟨[0x61], [0x61], 1⟩, .finish, .complete] s ∧
      s.outcome = some (.ok archive) ∧
      ¬ archive.CompleteFor (fun _ => [1]) [⟨[0x61], [0x61], 1⟩] := by
  have hrun : PipelineRun (fun _ => [1]) (.start [⟨[0x61], [0x61], 1⟩])
      [.spawn, .downloadFailed ⟨[0x61], [0x61], 1⟩, .finish, .complete]
      ⟨[], 20971520, [], [], .finished [], false, some (.ok (.zip []))⟩ := by
    refine .cons (.spawn rfl rfl (by decide)) ?_
    refine .cons (@PipelineStep.downloadFailed _ _ _ [] [] rfl rfl) ?_
    refine .cons (.finish rfl rfl rfl rfl rfl) ?_
    exact .cons (.complete rfl rfl rfl rfl) (.refl _)
  refine ⟨_, _, hrun, rfl, ?_⟩
  rintro ⟨entries, heq, hperm⟩
  cases heq
  exact absurd hperm.length_eq (by decide)

end S3Archive.Jrodon
