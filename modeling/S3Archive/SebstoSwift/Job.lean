import S3Archive.SebstoTs.Job
import S3Archive.SebstoSwift.PipelineProgress

/-!
# sebsto Swift: a whole job

`JobStep` is a step of the pipeline in which a download gives the bytes of its object
and the store keeps the parts that it acknowledges. Unless something has failed
(`Pipeline.Lost`), each file is on its way or in the archive (`FilesFlow`), each
byte of the archive is in a chunk or about to be (`ZipFlow`), and each chunk is on
its way or stored (`PartsFlow`). `pipeline_archive` is what `runPipeline` has
uploaded when it returns, and `exists_run_returned` says that it can return.
-/

namespace S3Archive.SebstoSwift

open SebstoTs (bodiesOfTwo bodiesOfTwo_b crcOfTwo length_bodiesOfTwo ne_append_singleton)

/-! ## Runs over objects -/

/-- The pipeline, and the parts whose upload has ended well. -/
structure Job where
  pipeline : Pipeline
  stored : List UploadChunk := []

def Job.start (files : List FileInfo) : Job := { pipeline := .start files }

/-- The upload of `chunk` ends well. -/
def Pipeline.uploaded (s : Pipeline) (chunk : UploadChunk) (rest : List UploadChunk)
    (eTag : String) : Pipeline :=
  { s with
    producer := s.producer.releaseSlot
    upload :=
      { s.upload with
        inflight := rest
        done := s.upload.done ++ [some ⟨eTag, chunk.partNumber⟩] } }

inductive JobStep (crc32 : Bytes → UInt32) (bodies : String → Bytes) :
    Job → PipelineEvent → Job → Prop where
  | uploaded {s : Pipeline} {stored cs₁ cs₂ : List UploadChunk} {chunk : UploadChunk}
      {eTag : String} (halive : s.supervisor ≠ .trapped)
      (hinflight : s.upload.inflight = cs₁ ++ chunk :: cs₂) :
    JobStep crc32 bodies ⟨s, stored⟩ .upload
      ⟨s.uploaded chunk (cs₁ ++ cs₂) eTag, stored ++ [chunk]⟩
  /-- Any other step; a file that is sent has the bytes of its object. -/
  | other {s s' : Pipeline} {stored : List UploadChunk} {ev : PipelineEvent}
      (h : PipelineStep crc32 s ev s')
      (hdone : ∀ part, s'.upload.done ≠ s.upload.done ++ [some part])
      (hbytes : ∀ f, s'.fileChannel.buffered = s.fileChannel.buffered ++ [f] →
        f.buffer = bodies f.name) :
    JobStep crc32 bodies ⟨s, stored⟩ ev ⟨s', stored⟩

abbrev JobRun (crc32 : Bytes → UInt32) (bodies : String → Bytes) := Run (JobStep crc32 bodies)

/-! ## Failures -/

/-- Something has failed, so that `runPipeline` will not return. -/
def Pipeline.Lost (s : Pipeline) : Prop :=
  s.supervisor = .unwinding ∨ s.supervisor = .threw ∨ s.supervisor = .trapped ∨
    s.download.failed = true ∨ none ∈ s.upload.done ∨ s.upload.phase.failed = true

/-- The stages that have returned to `runPipeline`, and their result. -/
def Pipeline.Passed (s : Pipeline) : Prop :=
  match s.supervisor with
  | .awaitingZip => s.download.phase = .returned
  | .awaitingUpload => s.download.phase = .returned ∧ s.zip.phase = .returned
  | .returned parts => s.download.phase = .returned ∧ s.zip.phase = .returned ∧
    s.upload.phase = .returned ∧ s.upload.completed = parts
  | _ => True

/-- A stage that has ended stays as it is. -/
structure Pipeline.Ends (s : Pipeline) : Prop where
  joined : s.download.phase.final = true → s.download.inflight = []
  clean : s.download.phase = .returned → s.download.failed = false
  uploaded : s.upload.phase.final = true → s.upload.inflight = []
  drained : s.upload.phase = .returned → s.upload.done = []
  passed : s.Passed

/-! ## What is on its way -/

def DownloadPhase.files : DownloadPhase → List FileInfo
  | looping files => files
  | waiting file files => file :: files
  | _ => []

section

variable (crc32 : Bytes → UInt32) (bodies : String → Bytes)

/-- What the download of a file sends. -/
def FileInfo.downloaded (file : FileInfo) : DownloadedFile :=
  ⟨file.name, bodies file.name, crc32 (bodies file.name), file.size⟩

/-- Each file is to be downloaded, in the channel, or among `got`, which the archive stage has
received. -/
structure FilesFlow (files : List FileInfo) (got : List DownloadedFile) (s : Pipeline) : Prop where
  perm : ((s.download.phase.files ++ s.download.inflight).map (FileInfo.downloaded crc32 bodies) ++
    (s.fileChannel.buffered ++ got)).Perm (files.map (FileInfo.downloaded crc32 bodies))
  finished : s.fileChannel.terminated = true → s.download.phase = .returned
  ended : s.zip.phase.ended = true →
    s.fileChannel.buffered = [] ∧ s.fileChannel.terminated = true

end

/-- The bytes up to the end of what is being appended. -/
def ZipTask.Out (got : List DownloadedFile) (task : ZipTask) (out : Bytes) : Prop :=
  match task with
  | entry _ z => got.foldlM zipFile ({}, []) = some (z, out)
  | ends => runZipStage got = some out

/-- The chunks, the one that is filled and what is being appended are the archive so far. -/
def Pipeline.Written (got : List DownloadedFile) (chunks : List UploadChunk) (s : Pipeline) :
    Prop :=
  match s.zip.phase with
  | .receiving => ∃ out, got.foldlM zipFile ({}, []) = some (s.zip.locals, out) ∧
    Chunked chunkSize (chunks.map UploadChunk.data) s.producer.buffer out
  | .appending bytes task => ∃ out, task.Out got out ∧
    Chunked chunkSize (chunks.map UploadChunk.data) (s.producer.buffer ++ bytes) out
  | .emitting bytes task => ∃ out, task.Out got out ∧
    Chunked chunkSize (chunks.map UploadChunk.data) (s.producer.buffer ++ bytes) out
  | .finishing => ∃ out, runZipStage got = some out ∧
    Chunked chunkSize (chunks.map UploadChunk.data) s.producer.buffer out
  | _ => ∃ out, runZipStage got = some out ∧
    IsChunking chunkSize (chunks.map UploadChunk.data) out

/-- `chunks` are the chunks that were emitted for the files in `got`. -/
structure ZipFlow (got : List DownloadedFile) (chunks : List UploadChunk) (s : Pipeline) :
    Prop where
  size : s.producer.chunkSize = chunkSize
  numbered : NumberedFrom UploadChunk.partNumber 1 chunks
  next : s.producer.nextPartNumber = chunks.length + 1
  written : s.Written got chunks

/-- Each chunk is in the stream, being uploaded, or stored. -/
structure PartsFlow (chunks stored : List UploadChunk) (s : Pipeline) : Prop where
  perm : (stored ++ s.upload.inflight ++ s.upload.phase.held ++
    s.producer.stream.buffered).Perm chunks
  numbers : ((s.upload.completed.map some ++ s.upload.done).map
    (Option.map CompletedPart.partNumber)).Perm (stored.map fun chunk => some chunk.partNumber)
  closed : s.producer.stream.terminated = true → s.zip.phase = .returned
  drained : s.upload.phase = .draining ∨ s.upload.phase = .returned →
    s.producer.stream.terminated = true ∧ s.producer.stream.buffered = []

/-- The three flows of a run without a failure. -/
structure Flow (crc32 : Bytes → UInt32) (bodies : String → Bytes) (files : List FileInfo)
    (stored : List UploadChunk) (s : Pipeline) (got : List DownloadedFile)
    (chunks : List UploadChunk) : Prop where
  files : FilesFlow crc32 bodies files got s
  zip : ZipFlow got chunks s
  parts : PartsFlow chunks stored s

section

variable {crc32 : Bytes → UInt32} {bodies : String → Bytes} {files : List FileInfo}
  {evs : List PipelineEvent} {ev : PipelineEvent} {s s' : Pipeline} {j j' : Job}

theorem UploadStep.lost (h : UploadStep s ev s')
    (hlost : none ∈ s.upload.done ∨ s.upload.phase.failed = true) :
    none ∈ s'.upload.done ∨ s'.upload.phase.failed = true := by
  cases h with
  | recv hphase | recvFull hphase | recvEnd hphase | cancelled hphase =>
    exact hlost.imp_right fun h => by simp [hphase, UploadPhase.failed] at h
  | reaped hphase hdone =>
    rw [hphase, hdone] at hlost
    simpa [UploadPhase.failed, UploadStage.addTask] using hlost
  | drained hphase hdone =>
    rw [hphase, hdone] at hlost
    exact .inl (by simpa [UploadPhase.failed] using hlost)
  | reapThrew hphase hdone => exact .inr rfl
  | drainThrew hphase hdone => exact .inr rfl
  | drainEnd hphase hinflight hdone =>
    rw [hphase, hdone] at hlost
    simp [UploadPhase.failed] at hlost
  | threw hphase hinflight => exact .inr rfl
  | uploaded hinflight => exact hlost.imp_left (List.mem_append_left _)
  | uploadFailed hinflight => exact hlost.imp_left (List.mem_append_left _)

theorem PipelineStep.lost (h : PipelineStep crc32 s ev s') (hlost : s.Lost) : s'.Lost := by
  unfold Pipeline.Lost at hlost ⊢
  cases h with
  | download halive h =>
    obtain ⟨_, _, hupload, hsupervisor⟩ := h.frame
    have hfailed : s.download.failed = true → s'.download.failed = true := by
      cases h with
      | downloadFailed hinflight => exact fun _ => rfl
      | _ => exact id
    rw [hupload, hsupervisor]
    tauto
  | zip halive h =>
    obtain ⟨hdownload, hupload, hsupervisor, _⟩ := h.frame
    rwa [hdownload, hupload, hsupervisor]
  | upload halive h =>
    obtain ⟨_, _, hdownload, _, hsupervisor, _, _⟩ := h.frame
    have hup := h.lost
    rw [hdownload, hsupervisor]
    tauto
  | supervisor h =>
    cases h with
    | downloadThrew hphase hdownload => exact .inl rfl
    | uploadThrew hphase hupload => exact .inr (.inl rfl)
    | unwound hphase hzip hupload => exact .inr (.inl rfl)
    | downloadReturned hphase | zipReturned hphase | uploadReturned hphase =>
      rw [hphase] at hlost
      simpa using hlost
  | trap hopen htraps => exact .inr (.inr (.inl rfl))

theorem Pipeline.Ends.start (files : List FileInfo) : (Pipeline.start files).Ends := by
  refine ⟨?_, ?_, ?_, ?_, trivial⟩
  · simp [Pipeline.start]
  · simp [Pipeline.start]
  · simp [Pipeline.start]
  · simp [Pipeline.start]

theorem Pipeline.Ends.download (hends : s.Ends) (h : DownloadStep crc32 s ev s') : s'.Ends := by
  obtain ⟨hjoined, hclean, huploaded, hdrained, hpassed⟩ := hends
  have hopen := h.open hjoined
  obtain ⟨hzip, _, hupload, hsupervisor⟩ := h.frame
  have hpassed' : s'.Passed := by
    unfold Pipeline.Passed at hpassed ⊢
    rw [hsupervisor]
    cases hs : s.supervisor with
    | awaitingZip =>
      rw [hs] at hpassed
      simp [hpassed, DownloadPhase.final] at hopen
    | awaitingUpload | returned parts =>
      rw [hs] at hpassed
      simp [hpassed.1, DownloadPhase.final] at hopen
    | _ => trivial
  refine ⟨?_, ?_, by rwa [hupload], by rwa [hupload], hpassed'⟩
  · cases h with
    | downloaded hinflight | downloadFailed hinflight =>
      exact fun hfinal => absurd hfinal (by simp [hopen])
    | joined hphase hinflight | joinThrew hphase hinflight => exact fun _ => hinflight
    | _ => simp [DownloadPhase.final, DownloadStage.download]
  · cases h with
    | downloaded hinflight => exact hclean
    | downloadFailed hinflight =>
      intro hphase
      have hphase : s.download.phase = .returned := hphase
      simp [hphase, DownloadPhase.final] at hopen
    | joined hphase hinflight hfailed => exact fun _ => hfailed
    | _ => simp [DownloadStage.download]

theorem Pipeline.Ends.zip (hends : s.Ends) (h : ZipStep s ev s') : s'.Ends := by
  obtain ⟨hjoined, hclean, huploaded, hdrained, hpassed⟩ := hends
  have hopen := h.open
  obtain ⟨hdownload, hupload, hsupervisor, _⟩ := h.frame
  refine ⟨by rwa [hdownload], by rwa [hdownload], by rwa [hupload], by rwa [hupload], ?_⟩
  unfold Pipeline.Passed at hpassed ⊢
  rw [hsupervisor, hdownload, hupload]
  cases hs : s.supervisor with
  | awaitingZip => simpa [hs] using hpassed
  | awaitingUpload =>
    rw [hs] at hpassed
    exact absurd hpassed.2 hopen
  | returned parts =>
    rw [hs] at hpassed
    exact absurd hpassed.2.1 hopen
  | _ => trivial

theorem Pipeline.Ends.upload (hends : s.Ends) (h : UploadStep s ev s') : s'.Ends := by
  obtain ⟨hjoined, hclean, huploaded, hdrained, hpassed⟩ := hends
  have hopen := h.open huploaded
  obtain ⟨_, _, hdownload, hzip, hsupervisor, _, _⟩ := h.frame
  have hpassed' : s'.Passed := by
    unfold Pipeline.Passed at hpassed ⊢
    rw [hsupervisor, hdownload, hzip]
    cases hs : s.supervisor with
    | awaitingZip => simpa [hs] using hpassed
    | awaitingUpload => simpa [hs] using hpassed
    | returned parts =>
      rw [hs] at hpassed
      simp [hpassed.2.2.1, UploadPhase.final] at hopen
    | _ => trivial
  refine ⟨by rwa [hdownload], by rwa [hdownload], ?_, ?_, hpassed'⟩
  · cases h with
    | uploaded hinflight | uploadFailed hinflight =>
      exact fun hfinal => absurd hfinal (by simp [hopen])
    | drainEnd hphase hinflight | threw hphase hinflight => exact fun _ => hinflight
    | cancelled hphase => exact huploaded
    | _ => simp_all [UploadPhase.final, UploadStage.addTask]
  · cases h with
    | drainEnd hphase hinflight hdone => exact fun _ => hdone
    | uploaded hinflight | uploadFailed hinflight =>
      intro hphase
      have hphase : s.upload.phase = .returned := hphase
      simp [hphase, UploadPhase.final] at hopen
    | cancelled hphase => exact hdrained
    | _ => simp_all [UploadStage.addTask]

theorem Pipeline.Ends.supervisor (hends : s.Ends) (h : SupervisorStep s s') : s'.Ends := by
  obtain ⟨hjoined, hclean, huploaded, hdrained, hpassed⟩ := hends
  unfold Pipeline.Passed at hpassed
  cases h with
  | downloadReturned hphase hdownload => exact ⟨hjoined, hclean, huploaded, hdrained, hdownload⟩
  | zipReturned hphase hzip =>
    rw [hphase] at hpassed
    exact ⟨hjoined, hclean, huploaded, hdrained, hpassed, hzip⟩
  | uploadReturned hphase hupload =>
    rw [hphase] at hpassed
    exact ⟨hjoined, hclean, huploaded, hdrained, hpassed.1, hpassed.2, hupload, rfl⟩
  | downloadThrew hphase | uploadThrew hphase | unwound hphase =>
    exact ⟨hjoined, hclean, huploaded, hdrained, trivial⟩

theorem PipelineStep.ends (h : PipelineStep crc32 s ev s') (hends : s.Ends) : s'.Ends := by
  cases h with
  | download halive h => exact hends.download h
  | zip halive h => exact hends.zip h
  | upload halive h => exact hends.upload h
  | supervisor h => exact hends.supervisor h
  | trap hopen htraps => exact { hends with passed := trivial }

/-! ## Steps of the downloads -/

theorem FilesFlow.download {got : List DownloadedFile} (hends : s.Ends)
    (hflow : FilesFlow crc32 bodies files got s) (h : DownloadStep crc32 s ev s')
    (hbytes : ∀ f, s'.fileChannel.buffered = s.fileChannel.buffered ++ [f] →
      f.buffer = bodies f.name) :
    s'.download.failed = true ∨ FilesFlow crc32 bodies files got s' := by
  obtain ⟨hperm, hfinished, hended⟩ := hflow
  have hopen := h.open hends.joined
  have hlive : s.fileChannel.terminated = false :=
    Bool.eq_false_iff.2 fun h => by simp [hfinished h, DownloadPhase.final] at hopen
  have hrunning : ¬ s.zip.phase.ended = true := fun h => by simp [(hended h).2] at hlive
  cases h with
  | acquire hphase hroom =>
    rw [hphase] at hperm
    refine .inr ⟨List.Perm.trans (List.Perm.append_right _ (List.Perm.map _ ?_)) hperm,
      by simp [hlive, DownloadStage.download], fun h => absurd h hrunning⟩
    simp only [DownloadStage.download, DownloadPhase.files]
    rw [← List.append_assoc]
    exact List.perm_append_singleton _ _
  | acquireWait hphase hfull =>
    rw [hphase] at hperm
    exact .inr ⟨hperm, by simp [hlive], fun h => absurd h hrunning⟩
  | acquired hphase hwoken =>
    rw [hphase] at hperm
    refine .inr ⟨List.Perm.trans (List.Perm.append_right _ (List.Perm.map _ ?_)) hperm,
      by simp [hlive, DownloadStage.download], fun h => absurd h hrunning⟩
    simp only [DownloadStage.download, DownloadPhase.files]
    rw [← List.append_assoc]
    exact List.perm_append_singleton _ _
  | loopEnd hphase =>
    rw [hphase] at hperm
    exact .inr ⟨hperm, by simp [hlive], fun h => absurd h hrunning⟩
  | @downloaded file fs₁ fs₂ buffer hinflight hsize =>
    have hyield (f : DownloadedFile) :
        (s.fileChannel.yield f).buffered = s.fileChannel.buffered ++ [f] := by
      simp [AsyncStream.yield, hlive]
    have hbody : buffer = bodies file.name := hbytes _ (hyield _)
    refine .inr ⟨List.Perm.trans ?_ hperm, ?_, fun h => absurd h hrunning⟩
    · rw [hinflight, hyield, hbody]
      classical
      rw [List.perm_iff_count]
      intro x
      simp only [FileInfo.downloaded, List.map_append, List.map_cons, List.count_append,
        List.count_cons, List.count_nil]
      omega
    · simp [AsyncStream.yield, hlive]
  | downloadFailed hinflight => exact .inl rfl
  | joined hphase hinflight hfailed =>
    rw [hphase] at hperm
    exact .inr ⟨hperm, fun _ => rfl, fun h => absurd h hrunning⟩
  | joinThrew hphase hinflight hfailed =>
    rw [hphase] at hperm
    exact .inr ⟨hperm, by simp [hlive], fun h => absurd h hrunning⟩

/-! ## Steps of the archive stage -/

theorem zipFile_append {z z' : ZipLocals} {file : DownloadedFile} {bytes : Bytes}
    (h : zipFile (z, []) file = some (z', bytes)) (out : Bytes) :
    zipFile (z, out) file = some (z', out ++ bytes) := by
  simp only [zipFile, Option.bind_eq_bind, Option.bind_eq_some_iff, Option.pure_def,
    Option.some.injEq, Prod.mk.injEq] at h ⊢
  obtain ⟨size, hsize, lfh, hlfh, a, ha, b, hb, c, hc, d, hd, off, hoff, rfl, rfl⟩ := h
  exact ⟨size, hsize, lfh, hlfh, a, ha, b, hb, c, hc, d, hd, off, hoff, rfl, by simp⟩

/-- The entry does not depend on what was appended before. -/
theorem zipFile_nil {z z' : ZipLocals} {out out' : Bytes} {file : DownloadedFile}
    (h : zipFile (z, out) file = some (z', out')) :
    ∃ bytes, zipFile (z, []) file = some (z', bytes) := by
  simp only [zipFile, Option.bind_eq_bind, Option.bind_eq_some_iff, Option.pure_def,
    Option.some.injEq, Prod.mk.injEq] at h ⊢
  obtain ⟨size, hsize, lfh, hlfh, a, ha, b, hb, c, hc, d, hd, off, hoff, rfl, _⟩ := h
  exact ⟨_, size, hsize, lfh, hlfh, a, ha, b, hb, c, hc, d, hd, off, hoff, rfl, rfl⟩

theorem ZipFlow.recv {got : List DownloadedFile} {chunks : List UploadChunk}
    {file : DownloadedFile} {z : ZipLocals} {bytes : Bytes} (hflow : ZipFlow got chunks s)
    (hphase : s.zip.phase = .receiving) (hzip : zipFile (s.zip.locals, []) file = some (z, bytes)) :
    ∃ out, (got ++ [file]).foldlM zipFile ({}, []) = some (z, out) ∧
      Chunked chunkSize (chunks.map UploadChunk.data) (s.producer.buffer ++ bytes) out := by
  have hwritten := hflow.written
  unfold Pipeline.Written at hwritten
  rw [hphase] at hwritten
  obtain ⟨out, hgot, hchunked⟩ := hwritten
  refine ⟨out ++ bytes, ?_, hchunked.append bytes⟩
  rw [List.foldlM_append, hgot]
  simp [zipFile_append hzip out]

/-- A chunk that is emitted is in the stream. -/
theorem PartsFlow.emit {chunks stored : List UploadChunk} (hflow : PartsFlow chunks stored s)
    (hopen : s.zip.phase ≠ .returned) (zip : ZipStageState) :
    PartsFlow (chunks ++ [⟨s.producer.nextPartNumber, s.producer.buffer⟩]) stored
      { s with producer := s.producer.emitFullChunk, zip } := by
  obtain ⟨hperm, hnumbers, hclosed, hdrained⟩ := hflow
  have hlive : s.producer.stream.terminated = false :=
    Bool.eq_false_iff.2 fun h => hopen (hclosed h)
  have hyield : s.producer.emitFullChunk.stream =
      ⟨s.producer.stream.buffered ++ [⟨s.producer.nextPartNumber, s.producer.buffer⟩], false⟩ := by
    simp [ChunkProducer.emitFullChunk, AsyncStream.yield, hlive]
  refine ⟨?_, hnumbers, ?_, fun hphase => ?_⟩
  · rw [hyield]
    dsimp only
    rw [← List.append_assoc]
    exact hperm.append_right _
  · rw [hyield]
    exact fun h => (by cases h)
  · rw [(hdrained hphase).1] at hlive
    cases hlive

/-- The archive stage goes on without a change of the stream. -/
theorem PartsFlow.zip {chunks stored : List UploadChunk} {zip : ZipStageState}
    {p : ChunkProducer} {c : AsyncStream DownloadedFile} {byteBudget : ByteSemaphore}
    (hflow : PartsFlow chunks stored s) (hopen : s.zip.phase ≠ .returned)
    (hstream : p.stream = s.producer.stream) :
    PartsFlow chunks stored { s with byteBudget, fileChannel := c, producer := p, zip } := by
  obtain ⟨hperm, hnumbers, hclosed, hdrained⟩ := hflow
  refine ⟨?_, hnumbers, fun hterm => absurd (hclosed ?_) hopen, ?_⟩
  · rwa [hstream]
  · rwa [← hstream]
  · rwa [hstream]

section

variable {got : List DownloadedFile} {chunks stored : List UploadChunk}

theorem Flow.zipStep (hflow : Flow crc32 bodies files stored s got chunks) (h : ZipStep s ev s')
    (hlost : ¬ s.Lost) (hfill : s.zip.phase.Filling s.producer) :
    ∃ got' chunks', Flow crc32 bodies files stored s' got' chunks' := by
  have hopen := h.open
  obtain ⟨_, hfill⟩ := hfill
  obtain ⟨⟨hperm, hfinished, hended⟩, hzip, hparts⟩ := hflow
  obtain ⟨hsize, hnumbered, hnext, hwritten'⟩ := hzip
  have hwritten := hwritten'
  unfold Pipeline.Written at hwritten
  cases h with
  | @recv file buffered z bytes hphase hbuffered hfile =>
    obtain ⟨out, hout, hchunked⟩ := ZipFlow.recv ⟨hsize, hnumbered, hnext, hwritten'⟩ hphase hfile
    refine ⟨got ++ [file], chunks, ⟨?_, hfinished, ?_⟩,
      ⟨hsize, hnumbered, hnext, out, hout, hchunked⟩, hparts.zip hopen rfl⟩
    · refine List.Perm.trans (List.Perm.append_left _ ?_) hperm
      rw [hbuffered, ← List.append_assoc]
      exact List.perm_append_singleton _ _
    · exact fun h => (by cases h)
  | @recvEnd bytes hphase hbuffered hover hends =>
    rw [hphase] at hwritten
    obtain ⟨out, hgot, hchunked⟩ := hwritten
    have hterm : s.fileChannel.terminated = true :=
      hover.resolve_right fun h => hlost (.inl h)
    refine ⟨got, chunks, ⟨hperm, hfinished, fun _ => ⟨hbuffered, hterm⟩⟩,
      ⟨hsize, hnumbered, hnext, out ++ bytes, ?_, hchunked.append bytes⟩, hparts.zip hopen rfl⟩
    show runZipStage got = some (out ++ bytes)
    unfold runZipStage
    simp only [hgot, hends, Option.bind_eq_bind, Option.bind_some, Option.pure_def]
  | @fill bytes rest task p hphase hbytes hfilled =>
    rw [hphase] at hwritten hended hfill
    obtain ⟨out, hout, hchunked⟩ := hwritten
    obtain ⟨hp, hchunk⟩ := ChunkProducer.fill_eq hfilled
    obtain ⟨heq, hle, hrest⟩ := fillChunk_spec hchunk hfill
    rw [← heq] at hchunked
    have hstream : p.stream = s.producer.stream := by rw [hp]
    have hend : ∀ phase : ZipPhase, phase.ended = (ZipPhase.appending bytes task).ended →
        phase.ended = true → s.fileChannel.buffered = [] ∧ s.fileChannel.terminated = true :=
      fun phase h hphase => hended (h ▸ hphase)
    have hnumber : p.nextPartNumber = chunks.length + 1 := by
      rw [hp]
      exact hnext
    have hpsize : p.chunkSize = chunkSize := by
      rw [hp]
      exact hsize
    refine ⟨got, chunks, ⟨hperm, hfinished, ?_⟩, ⟨hpsize, hnumbered, hnumber, ?_⟩,
      hparts.zip hopen hstream⟩
    · refine hend _ ?_
      unfold ZipPhase.appended
      split
      · cases task <;> rfl
      · cases task <;> rfl
    · unfold Pipeline.Written ZipPhase.appended
      by_cases hfull : p.buffer.length = p.chunkSize
      · simp only [if_pos hfull]
        exact ⟨out, hout, hchunked⟩
      · simp only [if_neg hfull]
        rw [hrest (by omega)] at hchunked
        exact ⟨out, hout, hchunked⟩
  | @emit bytes task hphase hslot =>
    rw [hphase] at hwritten hended hfill
    obtain ⟨out, hout, hchunked⟩ := hwritten
    have hfull : s.producer.buffer.length = chunkSize := hsize ▸ hfill
    refine ⟨got, _, ⟨hperm, hfinished, ?_⟩, ⟨hsize, hnumbered.snoc (by dsimp only; omega),
      by simp [ChunkProducer.emitFullChunk, hnext], out, hout, ?_⟩, hparts.emit hopen _⟩
    · cases task with
      | entry file z => exact fun h => (by cases h)
      | ends => exact fun _ => hended rfl
    · rw [List.map_append]
      exact hchunked.cutPiece hfull
  | @entryEnd file z hphase =>
    rw [hphase] at hwritten
    obtain ⟨out, hout, hchunked⟩ := hwritten
    rw [List.append_nil] at hchunked
    exact ⟨got, chunks, ⟨hperm, hfinished, fun h => (by cases h)⟩,
      ⟨hsize, hnumbered, hnext, out, hout, hchunked⟩, hparts.zip hopen rfl⟩
  | endsEnd hphase =>
    rw [hphase] at hwritten hended
    obtain ⟨out, hout, hchunked⟩ := hwritten
    rw [List.append_nil] at hchunked
    exact ⟨got, chunks, ⟨hperm, hfinished, fun _ => hended rfl⟩,
      ⟨hsize, hnumbered, hnext, out, hout, hchunked⟩, hparts.zip hopen rfl⟩
  | finishEmit hphase hbuffer hslot =>
    rw [hphase] at hwritten hended hfill
    obtain ⟨out, hout, hchunked⟩ := hwritten
    have hle : s.producer.buffer.length ≤ chunkSize := hsize ▸ Nat.le_of_lt hfill
    refine ⟨got, _, ⟨hperm, hfinished, fun _ => hended rfl⟩,
      ⟨hsize, hnumbered.snoc (by dsimp only; omega), by simp [ChunkProducer.emitFullChunk, hnext],
        out, hout, ?_⟩, hparts.emit hopen _⟩
    rw [List.map_append]
    exact hchunked.last hle
  | finishEmpty hphase hbuffer =>
    rw [hphase] at hwritten hended
    obtain ⟨out, hout, hchunked⟩ := hwritten
    rw [hbuffer] at hchunked
    exact ⟨got, chunks, ⟨hperm, hfinished, fun _ => hended rfl⟩,
      ⟨hsize, hnumbered, hnext, out, hout, hchunked.done⟩, hparts.zip hopen rfl⟩
  | finishClose hphase =>
    rw [hphase] at hwritten hended
    obtain ⟨hperm', hnumbers, hclosed, hdrained⟩ := hparts
    exact ⟨got, chunks, ⟨hperm, hfinished, fun _ => hended rfl⟩,
      ⟨hsize, hnumbered, hnext, hwritten⟩,
      ⟨hperm', hnumbers, fun _ => rfl, fun h => ⟨rfl, (hdrained h).2⟩⟩⟩

/-! ## Steps of the uploads -/

theorem PartsFlow.upload (hflow : PartsFlow chunks stored s) (h : UploadStep s ev s')
    (hlost : ¬ s.Lost) (hdone : ∀ part, s'.upload.done ≠ s.upload.done ++ [some part]) :
    s'.Lost ∨ PartsFlow chunks stored s' := by
  obtain ⟨hperm, hnumbers, hclosed, hdrained⟩ := hflow
  unfold Pipeline.Lost at hlost
  cases h with
  | recv hphase hbuffered hroom =>
    rw [hphase, hbuffered] at hperm
    refine .inr ⟨?_, hnumbers, hclosed, by simp [UploadStage.addTask]⟩
    simpa [UploadStage.addTask, UploadPhase.held] using hperm
  | recvFull hphase hbuffered hfull =>
    rw [hphase, hbuffered] at hperm
    refine .inr ⟨?_, hnumbers, hclosed, by simp⟩
    simpa [UploadPhase.held] using hperm
  | recvEnd hphase hbuffered hended =>
    rw [hphase] at hperm
    exact .inr ⟨hperm, hnumbers, hclosed, fun _ => ⟨hended, hbuffered⟩⟩
  | cancelled hphase hcancel hopen => exact absurd (.inl hcancel) hlost
  | reaped hphase hresult =>
    rw [hphase] at hperm
    rw [hresult] at hnumbers
    refine .inr ⟨?_, ?_, hclosed, by simp [UploadStage.addTask]⟩
    · simpa [UploadStage.addTask, UploadPhase.held] using hperm
    · simpa [UploadStage.addTask] using hnumbers
  | reapThrew hphase hresult => exact .inl (.inr (.inr (.inr (.inr (.inr rfl)))))
  | drained hphase hresult =>
    rw [hresult] at hnumbers
    exact .inr ⟨hperm, by simpa using hnumbers, hclosed, hdrained⟩
  | drainThrew hphase hresult => exact .inl (.inr (.inr (.inr (.inr (.inr rfl)))))
  | drainEnd hphase hinflight hresult =>
    rw [hphase] at hperm hdrained
    exact .inr ⟨hperm, hnumbers, hclosed, fun _ => hdrained (.inl rfl)⟩
  | threw hphase hinflight => exact .inl (.inr (.inr (.inr (.inr (.inr rfl)))))
  | uploaded hinflight => exact absurd rfl (hdone _)
  | uploadFailed hinflight =>
    exact .inl (.inr (.inr (.inr (.inr (.inl (List.mem_append_right _ List.mem_cons_self))))))

theorem PartsFlow.uploaded {cs₁ cs₂ : List UploadChunk} {chunk : UploadChunk}
    (hflow : PartsFlow chunks stored s) (hinflight : s.upload.inflight = cs₁ ++ chunk :: cs₂)
    (eTag : String) :
    PartsFlow chunks (stored ++ [chunk]) (s.uploaded chunk (cs₁ ++ cs₂) eTag) := by
  obtain ⟨hperm, hnumbers, hclosed, hdrained⟩ := hflow
  refine ⟨List.Perm.trans ?_ hperm, ?_, hclosed, hdrained⟩
  · rw [hinflight, List.perm_iff_count]
    intro x
    simp only [Pipeline.uploaded, ChunkProducer.releaseSlot, List.count_append, List.count_cons,
      List.count_nil]
    omega
  · have hmore := hnumbers.append_right [some chunk.partNumber]
    simpa [Pipeline.uploaded] using hmore

/-- What the upload stage does not touch. -/
theorem Flow.frame {stored' : List UploadChunk}
    (hflow : Flow crc32 bodies files stored s got chunks)
    (hdownload : s'.download = s.download) (hchannel : s'.fileChannel = s.fileChannel)
    (hzip : s'.zip = s.zip) (hbuffer : s'.producer.buffer = s.producer.buffer)
    (hsize : s'.producer.chunkSize = s.producer.chunkSize)
    (hnext : s'.producer.nextPartNumber = s.producer.nextPartNumber)
    (hparts : PartsFlow chunks stored' s') :
    Flow crc32 bodies files stored' s' got chunks := by
  obtain ⟨⟨hperm, hfinished, hended⟩, ⟨hsize', hnumbered, hnext', hwritten⟩, _⟩ := hflow
  refine ⟨⟨?_, ?_, ?_⟩, ⟨?_, hnumbered, ?_, ?_⟩, hparts⟩
  · rwa [hdownload, hchannel]
  · rwa [hdownload, hchannel]
  · rwa [hzip, hchannel]
  · rwa [hsize]
  · rwa [hnext]
  · unfold Pipeline.Written at hwritten ⊢
    rwa [hzip, hbuffer]

/-! ## Every step -/

theorem Flow.step (hflow : Flow crc32 bodies files stored s got chunks) (hlost : ¬ s.Lost)
    (hends : s.Ends) (hfill : s.zip.phase.Filling s.producer) (h : PipelineStep crc32 s ev s')
    (hdone : ∀ part, s'.upload.done ≠ s.upload.done ++ [some part])
    (hbytes : ∀ f, s'.fileChannel.buffered = s.fileChannel.buffered ++ [f] →
      f.buffer = bodies f.name) :
    s'.Lost ∨ ∃ got' chunks', Flow crc32 bodies files stored s' got' chunks' := by
  cases h with
  | download halive h =>
    obtain ⟨hzip, hproducer, hupload, _⟩ := h.frame
    obtain ⟨hfiles, ⟨hsize, hnumbered, hnext, hwritten⟩, hparts⟩ := hflow
    obtain ⟨hperm, hnumbers, hclosed, hdrained⟩ := hparts
    rcases hfiles.download hends h hbytes with hfailed | hfiles'
    · exact .inl (.inr (.inr (.inr (.inl hfailed))))
    · refine .inr ⟨got, chunks, hfiles', ⟨by rwa [hproducer], hnumbered, by rwa [hproducer], ?_⟩,
        ⟨by rwa [hproducer, hupload], by rwa [hupload], by rwa [hproducer, hzip],
          by rwa [hproducer, hupload]⟩⟩
      unfold Pipeline.Written at hwritten ⊢
      rwa [hproducer, hzip]
  | zip halive h => exact .inr (hflow.zipStep h hlost hfill)
  | upload halive h =>
    obtain ⟨_, hchannel, hdownload, hzip, _, hbuffer, hsize⟩ := h.frame
    have hnext : s'.producer.nextPartNumber = s.producer.nextPartNumber := by
      cases h <;> rfl
    refine (hflow.parts.upload h hlost hdone).imp_right fun hparts => ?_
    exact ⟨got, chunks, hflow.frame hdownload hchannel hzip hbuffer hsize hnext hparts⟩
  | supervisor h =>
    obtain ⟨supervisor, rfl, _⟩ := h.frame
    exact .inr ⟨got, chunks, hflow.frame rfl rfl rfl rfl rfl rfl { hflow.parts with }⟩
  | trap hopen htraps => exact .inl (.inr (.inr (.inl rfl)))

end

theorem Flow.start (files : List FileInfo) :
    Flow crc32 bodies files [] (.start files) [] [] := by
  refine ⟨⟨?_, ?_, ?_⟩, ⟨rfl, .nil _ _, rfl, [], rfl, .nil _⟩, ⟨?_, ?_, ?_, ?_⟩⟩
  · simp [Pipeline.start, DownloadPhase.files]
  · simp [Pipeline.start]
  · exact fun h => (by cases h)
  · exact .nil
  · exact .nil
  · exact fun h => (by cases h)
  · simp [Pipeline.start]

theorem JobStep.pipeline (h : JobStep crc32 bodies j ev j') :
    PipelineStep crc32 j.pipeline ev j'.pipeline := by
  cases h with
  | uploaded halive hinflight => exact .upload halive (.uploaded hinflight)
  | other h hdone hbytes => exact h

/-- Something has failed, or all is accounted for. -/
structure JobInv (crc32 : Bytes → UInt32) (bodies : String → Bytes) (files : List FileInfo)
    (j : Job) : Prop where
  ends : j.pipeline.Ends
  filling : j.pipeline.zip.phase.Filling j.pipeline.producer
  flow : j.pipeline.Lost ∨
    ∃ got chunks, Flow crc32 bodies files j.stored j.pipeline got chunks

theorem JobInv.start (files : List FileInfo) : JobInv crc32 bodies files (.start files) := by
  have hsize : 0 < chunkSize := by decide
  exact ⟨.start files, ⟨hsize, hsize⟩, .inr ⟨[], [], .start files⟩⟩

theorem JobInv.step (hinv : JobInv crc32 bodies files j) (h : JobStep crc32 bodies j ev j') :
    JobInv crc32 bodies files j' := by
  obtain ⟨hends, hfill, hflow⟩ := hinv
  refine ⟨h.pipeline.ends hends, h.pipeline.filling hfill, ?_⟩
  by_cases hlost : j.pipeline.Lost
  · exact .inl (h.pipeline.lost hlost)
  · obtain ⟨got, chunks, hflow⟩ := hflow.resolve_left hlost
    cases h with
    | uploaded halive hinflight =>
      exact .inr ⟨got, chunks, hflow.frame rfl rfl rfl rfl rfl rfl
        (hflow.parts.uploaded hinflight _)⟩
    | other h hdone hbytes => exact hflow.step hlost hends hfill h hdone hbytes

theorem JobRun.inv (h : JobRun crc32 bodies (.start files) evs j) :
    JobInv crc32 bodies files j :=
  Run.invariant h (.start files) fun _ _ _ hinv hstep => hinv.step hstep

/-! ## Jobs in which nothing fails -/

/-- Nothing has failed. -/
structure Pipeline.Clean (s : Pipeline) : Prop where
  download : s.download.failed = false
  joined : s.download.phase ≠ .threw
  results : none ∉ s.upload.done
  upload : s.upload.phase.failed = false
  unwinding : s.supervisor ≠ .unwinding
  ended : s.supervisor.final = true → ∃ parts, s.supervisor = .returned parts

theorem Pipeline.Clean.alive (hclean : s.Clean) :
    s.supervisor ≠ .threw ∧ s.supervisor ≠ .trapped := by
  have hended := hclean.ended
  constructor
  · intro h
    rw [h] at hended
    obtain ⟨parts, hparts⟩ := hended rfl
    cases hparts
  · intro h
    rw [h] at hended
    obtain ⟨parts, hparts⟩ := hended rfl
    cases hparts

theorem Pipeline.Clean.not_lost (hclean : s.Clean) : ¬ s.Lost := by
  rintro (h | h | h | h | h | h)
  · exact hclean.unwinding h
  · exact hclean.alive.1 h
  · exact hclean.alive.2 h
  · rw [hclean.download] at h
    cases h
  · exact hclean.results h
  · rw [hclean.upload] at h
    cases h

theorem DownloadStep.clean (h : DownloadStep crc32 s ev s') (hclean : s.Clean)
    (hev : ev.failure = false) : s'.Clean := by
  obtain ⟨hdownload, hjoined, hresults, hupload, hunwinding, hended⟩ := hclean
  cases h with
  | acquire | acquireWait | acquired | loopEnd | joined =>
    exact ⟨hdownload, nofun, hresults, hupload, hunwinding, hended⟩
  | downloaded hinflight hsize =>
    exact ⟨hdownload, hjoined, hresults, hupload, hunwinding, hended⟩
  | downloadFailed hinflight => cases hev
  | joinThrew hphase hinflight hfailed =>
    rw [hdownload] at hfailed
    cases hfailed

theorem UploadStep.clean (h : UploadStep s ev s') (hclean : s.Clean)
    (hev : ev.failure = false) : s'.Clean := by
  obtain ⟨hdownload, hjoined, hresults, hupload, hunwinding, hended⟩ := hclean
  cases h with
  | recv | recvFull | recvEnd | drainEnd =>
    exact ⟨hdownload, hjoined, hresults, rfl, hunwinding, hended⟩
  | cancelled hphase hcancel hopen => exact absurd hcancel hunwinding
  | reaped hphase hdone =>
    rw [hdone] at hresults
    exact ⟨hdownload, hjoined, fun h => hresults (List.mem_cons_of_mem _ h), rfl, hunwinding,
      hended⟩
  | drained hphase hdone =>
    rw [hdone] at hresults
    exact ⟨hdownload, hjoined, fun h => hresults (List.mem_cons_of_mem _ h), hupload, hunwinding,
      hended⟩
  | reapThrew hphase hdone | drainThrew hphase hdone =>
    rw [hdone] at hresults
    exact absurd List.mem_cons_self hresults
  | threw hphase hinflight =>
    rw [hphase] at hupload
    cases hupload
  | uploaded hinflight =>
    exact ⟨hdownload, hjoined, by simpa using hresults, hupload, hunwinding, hended⟩
  | uploadFailed hinflight => cases hev

theorem SupervisorStep.clean (h : SupervisorStep s s') (hclean : s.Clean) : s'.Clean := by
  obtain ⟨hdownload, hjoined, hresults, hupload, hunwinding, hended⟩ := hclean
  cases h with
  | downloadReturned | zipReturned =>
    exact ⟨hdownload, hjoined, hresults, hupload, nofun, nofun⟩
  | uploadReturned =>
    exact ⟨hdownload, hjoined, hresults, hupload, nofun, fun _ => ⟨_, rfl⟩⟩
  | downloadThrew hphase hthrew => exact absurd hthrew hjoined
  | uploadThrew hphase hthrew =>
    rw [hthrew] at hupload
    cases hupload
  | unwound hphase => exact absurd hphase hunwinding

/-- A step that is no failure and no trap leaves the pipeline clean. -/
theorem PipelineStep.clean (h : PipelineStep crc32 s ev s') (hclean : s.Clean)
    (hev : ev.failure = false) (htraps : ¬ s.traps) : s'.Clean := by
  cases h with
  | download halive h => exact h.clean hclean hev
  | zip halive h =>
    obtain ⟨hdownload, hupload, hsupervisor, _⟩ := h.frame
    obtain ⟨hfailed, hjoined, hresults, hphase, hunwinding, hended⟩ := hclean
    exact ⟨by rwa [hdownload], by rwa [hdownload], by rwa [hupload], by rwa [hupload],
      by rwa [hsupervisor], by rwa [hsupervisor]⟩
  | upload halive h => exact h.clean hclean hev
  | supervisor h => exact h.clean hclean
  | trap hopen h => exact absurd h htraps

/-- Such a step leaks nothing: the stream is open until the archive stage has returned. -/
theorem PartsFlow.not_leaks {chunks stored : List UploadChunk}
    (hflow : PartsFlow chunks stored s) (h : PipelineStep crc32 s ev s')
    (hev : ev.failure = false) (htraps : ¬ s.traps) : ev.leaks = false := by
  cases h with
  | download halive h => cases h <;> first | rfl | cases hev
  | zip halive h =>
    have hopen := h.open
    cases h with
    | emit hphase hslot => exact Bool.eq_false_iff.2 fun h => hopen (hflow.closed h)
    | _ => rfl
  | upload halive h => cases h <;> first | rfl | cases hev
  | supervisor h => rfl
  | trap hopen h => exact absurd h htraps

/-- A step that is no failure, in which a download gives the bytes of its object. -/
theorem PipelineStep.job (h : PipelineStep crc32 s ev s') (hev : ev.failure = false)
    (hbodies : ∀ f ∈ s.download.inflight, (bodies f.name).length = f.size)
    (stored : List UploadChunk) :
    ∃ ev' t stored', PipelineStep crc32 s ev' t ∧ ev'.failure = false ∧
      JobStep crc32 bodies ⟨s, stored⟩ ev' ⟨t, stored'⟩ := by
  have hother (hdone : ∀ part, s'.upload.done ≠ s.upload.done ++ [some part])
      (hchannel : ∀ f, s'.fileChannel.buffered ≠ s.fileChannel.buffered ++ [f]) :
      ∃ ev' t stored', PipelineStep crc32 s ev' t ∧ ev'.failure = false ∧
        JobStep crc32 bodies ⟨s, stored⟩ ev' ⟨t, stored'⟩ :=
    ⟨ev, s', stored, h, hev, .other h hdone fun f hf => absurd hf (hchannel f)⟩
  have hkeep {α : Type} (l : List α) (a : α) (rest : List α) : rest ≠ a :: rest ++ l := by
    intro heq
    have hlen := congrArg List.length heq
    simp at hlen
    omega
  have hsame : ∀ part, s.upload.done ≠ s.upload.done ++ [some part] :=
    fun part => ne_append_singleton _ _
  cases h with
  | download halive h =>
    cases h with
    | @downloaded file fs₁ fs₂ buffer hinflight hsize =>
      have hmem : file ∈ s.download.inflight := by
        rw [hinflight]
        exact List.mem_append_right _ List.mem_cons_self
      have hstep : PipelineStep crc32 s .download _ :=
        .download halive (.downloaded hinflight (hbodies file hmem))
      refine ⟨_, _, stored, hstep, rfl, .other hstep hsame fun f hf => ?_⟩
      dsimp only [AsyncStream.yield] at hf
      split at hf
      · exact absurd hf (ne_append_singleton _ f)
      · obtain rfl := List.singleton_inj.1 (List.append_cancel_left hf)
        rfl
    | downloadFailed hinflight => cases hev
    | _ => exact hother hsame (ne_append_singleton _)
  | zip halive h =>
    cases h with
    | recv hphase hbuffered hzip =>
      refine hother hsame fun f => ?_
      rw [hbuffered]
      exact hkeep _ _ _
    | _ => exact hother hsame (ne_append_singleton _)
  | upload halive h =>
    cases h with
    | @uploaded chunk cs₁ cs₂ eTag hinflight =>
      have hstep : PipelineStep crc32 s .upload (s.uploaded chunk (cs₁ ++ cs₂) eTag) :=
        .upload halive (.uploaded hinflight)
      exact ⟨_, _, _, hstep, rfl, .uploaded halive hinflight⟩
    | uploadFailed hinflight => cases hev
    | reaped hphase hdone | drained hphase hdone | reapThrew hphase hdone
    | drainThrew hphase hdone =>
      refine hother (fun part => ?_) (ne_append_singleton _)
      rw [hdone]
      exact hkeep _ _ _
    | _ => exact hother hsame (ne_append_singleton _)
  | supervisor h =>
    obtain ⟨supervisor, rfl, _⟩ := h.frame
    exact hother hsame (ne_append_singleton _)
  | trap hopen htraps => exact hother hsame (ne_append_singleton _)

/-- The records of the files fit their fields. -/
structure Recordable (crc32 : Bytes → UInt32) (bodies : String → Bytes) (files : List FileInfo) :
    Prop where
  sizes : ∀ f ∈ files, (bodies f.name).length = f.size
  names : ∀ f ∈ files, (utf8 f.name).length < 2 ^ 16
  total : SebstoTs.archiveLength
    ((files.map (FileInfo.downloaded crc32 bodies)).map DownloadedFile.toTs) < 2 ^ 64

/-- The archive stage does not trap over some of the files. -/
theorem Recordable.exists_runZipStage {got rest : List DownloadedFile}
    (hrec : Recordable crc32 bodies files)
    (hperm : (rest ++ got).Perm (files.map (FileInfo.downloaded crc32 bodies))) :
    ∃ bs, runZipStage got = some bs := by
  refine SebstoSwift.exists_runZipStage (fun f hf => ?_) ?_
  · obtain ⟨g, hg, rfl⟩ := List.mem_map.1 (hperm.subset (List.mem_append_right _ hf))
    exact hrec.names g hg
  · have htotal := hrec.total
    have hsum := ((hperm.map DownloadedFile.toTs).map fun f =>
      128 + 2 * (utf8 f.name).length + f.body.length).sum_eq
    unfold SebstoTs.archiveLength at htotal ⊢
    simp only [List.map_append, List.sum_append] at hsum
    omega

theorem Flow.not_traps {stored : List UploadChunk} {got : List DownloadedFile}
    {chunks : List UploadChunk} (hflow : Flow crc32 bodies files stored s got chunks)
    (hrec : Recordable crc32 bodies files) : ¬ s.traps := by
  rintro ⟨hphase, htraps⟩
  obtain ⟨⟨hperm, hfinished, _⟩, ⟨_, _, _, hwritten⟩, _⟩ := hflow
  unfold Pipeline.Written at hwritten
  rw [hphase] at hwritten
  obtain ⟨out, hgot, _⟩ := hwritten
  cases hbuffered : s.fileChannel.buffered with
  | cons file buffered =>
    rw [hbuffered] at htraps hperm
    -- the files received so far and the next one can be zipped
    have hmove : (buffered ++ (got ++ [file])).Perm (file :: buffered ++ got) := by
      rw [← List.append_assoc]
      exact List.perm_append_singleton _ _
    have hperm' := (hmove.append_left _).trans hperm
    rw [← List.append_assoc] at hperm'
    obtain ⟨bs, hbs⟩ := hrec.exists_runZipStage hperm'
    simp only [runZipStage, List.foldlM_append, hgot, List.foldlM_cons, List.foldlM_nil,
      Option.bind_eq_bind, Option.bind_some, Option.bind_eq_some_iff, Option.pure_def] at hbs
    obtain ⟨⟨z, out'⟩, ⟨_, hfile, _⟩, _⟩ := hbs
    obtain ⟨bytes, hbytes⟩ := zipFile_nil hfile
    have hnone : zipFile (s.zip.locals, []) file = none := htraps
    rw [hbytes] at hnone
    cases hnone
  | nil =>
    rw [hbuffered] at htraps hperm
    obtain ⟨_, hnone⟩ := htraps
    obtain ⟨bs, hbs⟩ := hrec.exists_runZipStage hperm
    simp [runZipStage, hgot, hnone] at hbs

/-- Nothing has failed in the job so far, and its stages are in order. -/
structure Job.Sound (crc32 : Bytes → UInt32) (bodies : String → Bytes) (files : List FileInfo)
    (j : Job) : Prop where
  inv : JobInv crc32 bodies files j
  stages : StagesInv j.pipeline
  clean : j.pipeline.Clean

theorem Job.Sound.start (files : List FileInfo) : Job.Sound crc32 bodies files (.start files) :=
  ⟨.start files, (PipelineInv.start files).stages, rfl, nofun, nofun, rfl, nofun, nofun⟩

/-- A sound job whose pipeline has not returned goes on. -/
theorem Job.Sound.lower (h : j.Sound crc32 bodies files) (hrec : Recordable crc32 bodies files) :
    (∃ parts, j.pipeline.supervisor = .returned parts) ∨ ∃ evs j',
      JobRun crc32 bodies j evs j' ∧ j'.Sound crc32 bodies files ∧
        j'.pipeline.todo < j.pipeline.todo := by
  obtain ⟨⟨s, stored⟩, hinv, hstages, hclean⟩ := j, h
  cases hfinal : s.supervisor.final with
  | true => exact .inl (hclean.ended hfinal)
  | false =>
    right
    obtain ⟨got, chunks, hflow⟩ := hinv.flow.resolve_left hclean.not_lost
    have htraps := hflow.not_traps hrec
    have henabled : s.Enabled crc32 := hstages.progress hfinal
    obtain ⟨ev, s', hstep, hev⟩ := henabled
    have hbodies : ∀ f ∈ s.download.inflight, (bodies f.name).length = f.size := by
      intro f hf
      have hmem := hflow.files.perm.subset (List.mem_append_left _
        (List.mem_map_of_mem (List.mem_append_right _ hf)))
      obtain ⟨g, hg, heq⟩ := List.mem_map.1 hmem
      have hsize := hrec.sizes g hg
      obtain ⟨hname, _, _, hlen⟩ := DownloadedFile.mk.inj heq
      rwa [hname, hlen] at hsize
    obtain ⟨ev', t, stored', hstep', hev', hjob⟩ := hstep.job hev hbodies stored
    have hkeep := hflow.parts.not_leaks hstep' hev' htraps
    exact ⟨[ev'], ⟨t, stored'⟩, .cons hjob (.refl _),
      ⟨hinv.step hjob, hstages.step hstep' hkeep, hstep'.clean hclean hev' htraps⟩,
      hstep'.todo_lt hinv.filling⟩

/-- When the records fit, the pipeline returns in some run. -/
theorem exists_run_returned (hrec : Recordable crc32 bodies files) :
    ∃ evs j parts, JobRun crc32 bodies (.start files) evs j ∧
      j.pipeline.supervisor = .returned parts := by
  obtain ⟨evs, j, hrun, _, parts, hreturned⟩ := Run.exists_final
    (P := Job.Sound crc32 bodies files) (.start files) fun j hj => hj.lower hrec
  exact ⟨evs, j, parts, hrun, hreturned⟩

/-! ## The archive -/

/-- `completeMultipartUpload` with the parts that `runPipeline` returns. -/
def Job.object (j : Job) (parts : List CompletedPart) : Bytes :=
  completeListed (parts.map CompletedPart.partNumber)
    (j.stored.map fun chunk => (chunk.partNumber, chunk.data))

/-- What is left of a pipeline that has returned. -/
theorem JobInv.returned (hinv : JobInv crc32 bodies files j) {parts : List CompletedPart}
    (hreturned : j.pipeline.supervisor = .returned parts) :
    ∃ got chunks, got.Perm (files.map (FileInfo.downloaded crc32 bodies)) ∧
      runZipStage got = some (j.object parts) ∧ j.stored.Perm chunks ∧
      NumberedFrom UploadChunk.partNumber 1 chunks ∧
      IsChunking chunkSize (chunks.map UploadChunk.data) (j.object parts) := by
  obtain ⟨⟨hjoined, hclean, huploaded, hdone, hpassed⟩, _, hflow⟩ := hinv
  unfold Pipeline.Passed at hpassed
  rw [hreturned] at hpassed
  obtain ⟨hdownload, hzip, hupload, hparts⟩ := hpassed
  have hnone := hdone hupload
  have hlost : ¬ j.pipeline.Lost := by
    unfold Pipeline.Lost
    rw [hreturned, hclean hdownload, hnone, hupload]
    simp [UploadPhase.failed]
  obtain ⟨got, chunks, ⟨hperm, _, hended⟩, ⟨_, hnumbered, _, hwritten⟩, hstored, hnumbers, _,
    hdrained⟩ := hflow.resolve_left hlost
  unfold Pipeline.Written at hwritten
  rw [hzip] at hwritten hended
  obtain ⟨out, hout, hchunking⟩ := hwritten
  rw [hdownload, hjoined (by rw [hdownload]; rfl), (hended rfl).1] at hperm
  rw [huploaded (by rw [hupload]; rfl), hupload, (hdrained (.inr hupload)).2] at hstored
  simp only [UploadPhase.held, List.append_nil] at hstored
  have hobject : j.object parts = out := by
    have hnum : NumberedFrom Prod.fst 1
        (chunks.map fun chunk => (chunk.partNumber, chunk.data)) := by
      unfold NumberedFrom at hnumbered ⊢
      rw [List.map_map, List.length_map]
      exact hnumbered
    have hlisted : (parts.map CompletedPart.partNumber).Perm
        ((j.stored.map fun chunk => (chunk.partNumber, chunk.data)).map Prod.fst) := by
      rw [hparts, hnone, List.append_nil, List.map_map] at hnumbers
      have hsome := hnumbers.filterMap id
      rw [List.filterMap_map, List.filterMap_map] at hsome
      rw [List.map_map]
      simpa [List.filterMap_eq_map, Function.comp_def] using hsome
    unfold Job.object
    rw [completeListed_of_perm hnum (hstored.map _) hlisted, List.map_map]
    exact hchunking.flatten_eq
  refine ⟨got, chunks, hperm, ?_, hstored, hnumbered, ?_⟩
  · rw [hobject]
    exact hout
  · rw [hobject]
    exact hchunking

/-- The parts that are stored hold the archive. -/
theorem JobInv.length_le (hinv : JobInv crc32 bodies files j) {parts : List CompletedPart}
    (hreturned : j.pipeline.supervisor = .returned parts) :
    SebstoTs.archiveLength ((files.map (FileInfo.downloaded crc32 bodies)).map
      DownloadedFile.toTs) ≤ j.stored.length * chunkSize := by
  obtain ⟨got, chunks, hperm, hzip, hstored, _, hchunking⟩ := hinv.returned hreturned
  have hlen := hchunking.length_le_mul
  obtain ⟨_, _, harchive⟩ := SebstoTs.runZipStage_eq_some_iff.1 (runZipStage_toTs hzip)
  have hsum := ((hperm.map DownloadedFile.toTs).map fun f =>
    128 + 2 * (utf8 f.name).length + f.body.length).sum_eq
  rw [harchive, SebstoTs.length_streamedArchive, List.length_map, ← hstored.length_eq] at hlen
  unfold SebstoTs.archiveLength at hlen ⊢
  rwa [← hsum]

end

/-- The entry of a file. -/
def FileInfo.entry (crc32 : Bytes → UInt32) (bodies : String → Bytes) (file : FileInfo) :
    Zip.StreamedFile :=
  ⟨utf8 file.name, crc32 (bodies file.name), bodies file.name⟩

/-- In every run, whatever the order of the tasks: if `runPipeline` returns, the parts that are
stored are numbered from 1, all but the last have `chunkSize` bytes, and the object that the listed
parts make is an archive of all files, each once. -/
theorem pipeline_archive {crc32 : Bytes → UInt32} {bodies : String → Bytes}
    {files : List FileInfo} {evs : List PipelineEvent} {j : Job} {parts : List CompletedPart}
    (h : JobRun crc32 bodies (.start files) evs j)
    (hreturned : j.pipeline.supervisor = .returned parts) :
    ∃ (entries : List Zip.StreamedFile) (chunks : List UploadChunk),
      entries.Perm (files.map (FileInfo.entry crc32 bodies)) ∧
      Zip.StreamedReadsBack (j.object parts) entries ∧ j.stored.Perm chunks ∧
      NumberedFrom UploadChunk.partNumber 1 chunks ∧
      IsChunking chunkSize (chunks.map UploadChunk.data) (j.object parts) := by
  obtain ⟨got, chunks, hperm, hzip, hstored, hnumbered, hchunking⟩ := h.inv.returned hreturned
  have hread := SebstoTs.runZipStage_readsBack (runZipStage_toTs hzip)
  refine ⟨_, chunks, ?_, hread, hstored, hnumbered, hchunking⟩
  have hentries := (hperm.map DownloadedFile.toTs).map SebstoTs.streamed
  rw [List.map_map, List.map_map, List.map_map] at hentries
  rw [List.map_map]
  exact hentries

/-! ## A job with two objects -/

/-- An object of three bytes and one of 20 MiB. -/
def twoObjects : List FileInfo := [⟨"a", 3⟩, ⟨"b", 20971520⟩]

theorem entries_twoObjects : twoObjects.map (FileInfo.entry crcOfTwo bodiesOfTwo) =
    [⟨utf8 "a", 0x55BC801D, [1, 2, 3]⟩,
      ⟨utf8 "b", 0x38773417, List.replicate 20971520 0⟩] := by
  have ha : bodiesOfTwo "a" = [1, 2, 3] := rfl
  simp only [twoObjects, FileInfo.entry, List.map_cons, List.map_nil, ha, bodiesOfTwo_b]
  rfl

section

variable {crc32 : Bytes → UInt32} {bodies : String → Bytes}

theorem archiveLength_twoObjects (ha : (bodies "a").length = 3)
    (hb : (bodies "b").length = 20971520) :
    SebstoTs.archiveLength ((twoObjects.map (FileInfo.downloaded crc32 bodies)).map
      DownloadedFile.toTs) = 20971881 := by
  simp only [SebstoTs.archiveLength, twoObjects, FileInfo.downloaded, DownloadedFile.toTs,
    List.map_cons, List.map_nil, List.sum_cons, List.sum_nil, ha, hb]
  rfl

/-- The records of the two objects fit. -/
theorem recordable_twoObjects (ha : (bodies "a").length = 3)
    (hb : (bodies "b").length = 20971520) : Recordable crc32 bodies twoObjects := by
  refine ⟨fun f hf => ?_, by decide, by rw [archiveLength_twoObjects ha hb]; decide⟩
  simp only [twoObjects, List.mem_cons, List.not_mem_nil, or_false] at hf
  rcases hf with rfl | rfl
  · exact ha
  · exact hb

/-- The pipeline returns in some run over the two objects, with more than one part stored. -/
theorem exists_run_twoObjects (ha : (bodies "a").length = 3)
    (hb : (bodies "b").length = 20971520) :
    ∃ evs j parts, JobRun crc32 bodies (.start twoObjects) evs j ∧
      j.pipeline.supervisor = .returned parts ∧ 1 < j.stored.length := by
  have hrec : Recordable crc32 bodies twoObjects := recordable_twoObjects ha hb
  obtain ⟨evs, j, parts, hrun, hreturned⟩ := exists_run_returned hrec
  have hlen := hrun.inv.length_le hreturned
  rw [archiveLength_twoObjects ha hb, show chunkSize = 10485760 from rfl] at hlen
  exact ⟨evs, j, parts, hrun, hreturned, by omega⟩

end

/-- Two objects are archived in parts of 10 MiB. -/
theorem pipeline_archive_two : ∃ (j : Job) (parts : List CompletedPart)
    (entries : List Zip.StreamedFile), j.pipeline.supervisor = .returned parts ∧
      1 < j.stored.length ∧
      entries.Perm [⟨utf8 "a", 0x55BC801D, [1, 2, 3]⟩,
        ⟨utf8 "b", 0x38773417, List.replicate 20971520 0⟩] ∧
      Zip.StreamedReadsBack (j.object parts) entries := by
  obtain ⟨evs, j, parts, hrun, hreturned, hmany⟩ :=
    exists_run_twoObjects length_bodiesOfTwo.1 length_bodiesOfTwo.2
  obtain ⟨entries, _, hperm, hread, _⟩ := pipeline_archive hrun hreturned
  rw [entries_twoObjects] at hperm
  exact ⟨j, parts, entries, hreturned, hmany, hperm, hread⟩

end S3Archive.SebstoSwift
