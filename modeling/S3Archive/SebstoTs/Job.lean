import S3Archive.Base.Chunks
import S3Archive.Base.Upload
import S3Archive.SebstoTs.PipelineProgress
import Mathlib.Algebra.Order.BigOperators.Group.List

/-!
# sebsto TypeScript: a whole job

`StoredStep` is a step of the job in which a download gives the bytes of its object
and the store keeps the parts that it acknowledges. Unless a stage will reject
(`Stages.Lost`), each file is on its way or in the archive (`FilesFlow`), each byte of
the archive is in a chunk or about to be (`ZipFlow`), and each chunk is on its way,
stored, or lost (`PartsFlow`). `runArchiveJob_archive` is what a completed job leaves,
and `exists_run_completed` says that a job can complete without a failure.
-/

namespace S3Archive.SebstoTs

/-! ## Runs over objects -/

/-- The job, the parts whose upload has ended well, and those whose upload has failed. -/
structure StoredJob where
  job : Job
  stored : List UploadChunk := []
  lost : List UploadChunk := []

def StoredJob.start (files : List FileInfo) : StoredJob := { job := .start files }

/-- The upload of `chunk` ends well. -/
def Stages.uploaded (s : Stages) (chunk : UploadChunk) (rest : List UploadChunk)
    (etag : String) : Stages :=
  { s with
    producer := s.producer.releaseSlot
    upload :=
      { phase := s.upload.phase.settle true rest
        inflight := rest
        completed := s.upload.completed ++ [⟨etag, chunk.partNumber⟩] } }

/-- An upload fails. -/
def Stages.uploadFailed (s : Stages) (rest : List UploadChunk) : Stages :=
  { s with
    producer := s.producer.releaseSlot
    upload := { s.upload with phase := s.upload.phase.settle false rest, inflight := rest } }

/-- An upload ends, well or not. -/
def UploadEvent.settles : UploadEvent → Bool
  | uploaded _ _ => true
  | failed _ _ => true
  | _ => false

def StageEvent.settles : StageEvent → Bool
  | upload ev => ev.settles
  | _ => false

def JobEvent.settles : JobEvent → Bool
  | stage ev => ev.settles
  | _ => false

inductive StoredStep (crc32 : Bytes → UInt32) (bodies : String → Bytes) :
    StoredJob → JobEvent → StoredJob → Prop where
  | uploaded {s : Stages} {phase : JobPhase} {stored lost cs₁ cs₂ : List UploadChunk}
      {chunk : UploadChunk} {etag : String} (halive : phase ≠ .crashed)
      (hinflight : s.upload.inflight = cs₁ ++ chunk :: cs₂) (hetag : etag ≠ "") :
    StoredStep crc32 bodies ⟨⟨s, phase⟩, stored, lost⟩
      (.stage (.upload (.uploaded chunk.partNumber etag)))
      ⟨⟨s.uploaded chunk (cs₁ ++ cs₂) etag, phase⟩, stored ++ [chunk], lost⟩
  | uploadFailed {s : Stages} {phase : JobPhase} {stored lost cs₁ cs₂ : List UploadChunk}
      {chunk : UploadChunk} (halive : phase ≠ .crashed)
      (hinflight : s.upload.inflight = cs₁ ++ chunk :: cs₂) :
    StoredStep crc32 bodies ⟨⟨s, phase⟩, stored, lost⟩
      (.stage (.upload (.failed chunk.partNumber s.upload.phase.waiting)))
      ⟨⟨s.uploadFailed (cs₁ ++ cs₂), phase⟩, stored, lost ++ [chunk]⟩
  /-- Any other step; a file that is sent has the bytes of its object. -/
  | other {j j' : Job} {stored lost : List UploadChunk} {ev : JobEvent}
      (h : JobStep crc32 j ev j') (hother : ev.settles = false)
      (hbytes : ∀ f, j'.stages.fileChannel.queue = j.stages.fileChannel.queue ++ [f] →
        f.body = bodies f.name) :
    StoredStep crc32 bodies ⟨j, stored, lost⟩ ev ⟨j', stored, lost⟩

abbrev StoredRun (crc32 : Bytes → UInt32) (bodies : String → Bytes) :=
  Run (StoredStep crc32 bodies)

theorem StoredStep.job {crc32 : Bytes → UInt32} {bodies : String → Bytes} {j j' : StoredJob}
    {ev : JobEvent} (h : StoredStep crc32 bodies j ev j') : JobStep crc32 j.job ev j'.job := by
  cases h with
  | uploaded halive hinflight hetag => exact .stage halive (.upload (.uploaded hinflight hetag))
  | uploadFailed halive hinflight => exact .stage halive (.upload (.failed hinflight))
  | other h hother hbytes => exact h

/-! ## Failures -/

/-- A stage has rejected or will. -/
def Stages.Lost (s : Stages) : Prop :=
  s.download.failed = true ∨ s.zip.phase = .rejected ∨ s.upload.phase = .rejected

/-- A join of the downloads that goes well is one of downloads that have. -/
structure DownloadStage.Ends (d : DownloadStage) : Prop where
  joining : d.phase = .joining none → d.failed = false
  joined : d.phase = .joining (some true) → d.inflight = [] ∧ d.failed = false
  resolved : d.phase = .resolved → d.inflight = [] ∧ d.failed = false
  refused : d.phase.refused = true → d.failed = true

/-- A join of the uploads that goes well waits for all of them. -/
structure UploadStage.Ends (u : UploadStage) : Prop where
  joined : u.phase = .joining (some true) → u.inflight = []
  resolved : ∀ parts, u.phase = .resolved parts → parts = u.parts ∧ u.inflight = []

/-! ## What is on its way -/

def DownloadPhase.files : DownloadPhase → List FileInfo
  | looping files => files
  | waiting file files => file :: files
  | _ => []

section

variable (crc32 : Bytes → UInt32) (bodies : String → Bytes)

/-- What the download of a file sends. -/
def FileInfo.downloaded (file : FileInfo) : DownloadedFile :=
  ⟨file.name, bodies file.name, crc32 (bodies file.name), file.size⟩

/-- Each file is to be downloaded, in the channel, or among `got`, which the archive writer has
received. -/
structure FilesFlow (files : List FileInfo) (got : List DownloadedFile) (s : Stages) : Prop where
  perm : ((s.download.phase.files ++ s.download.inflight).map (FileInfo.downloaded crc32 bodies) ++
    (s.fileChannel.queue ++ got)).Perm (files.map (FileInfo.downloaded crc32 bodies))
  finished : s.fileChannel.closed = true → s.download.phase.final = true
  ended : s.zip.phase.ended = true → s.fileChannel.queue = [] ∧ s.fileChannel.closed = true

end

/-- The bytes up to the end of what is being appended. -/
def ZipTask.Out (got : List DownloadedFile) (z : ZipLocals) (task : ZipTask) (out : Bytes) :
    Prop :=
  match task with
  | entry file buffers => ∃ outs, got.foldlM zipFile ({}, []) = some (z.add file buffers, outs) ∧
    out = outs.flatten
  | ends => runZipStage got = some out

/-- The chunks, the one that is filled and what is being appended are the archive so far. -/
def Stages.Written (got : List DownloadedFile) (chunks : List UploadChunk) (s : Stages) : Prop :=
  match s.zip.phase with
  | .receiving => ∃ outs, got.foldlM zipFile ({}, []) = some (s.zip.locals, outs) ∧
    Chunked chunkSizeBytes (chunks.map UploadChunk.data) s.producer.buffer outs.flatten
  | .appending buffers task => ∃ out, task.Out got s.zip.locals out ∧
    Chunked chunkSizeBytes (chunks.map UploadChunk.data)
      (s.producer.buffer ++ buffers.flatten) out
  | .emitting buffers task => ∃ out, task.Out got s.zip.locals out ∧
    Chunked chunkSizeBytes (chunks.map UploadChunk.data)
      (s.producer.buffer ++ buffers.flatten) out
  | .finishing => ∃ out, runZipStage got = some out ∧
    (Chunked chunkSizeBytes (chunks.map UploadChunk.data) s.producer.buffer out ∨
      s.producer.buffer = [] ∧ IsChunking chunkSizeBytes (chunks.map UploadChunk.data) out)
  | .resolved => ∃ out, runZipStage got = some out ∧
    IsChunking chunkSizeBytes (chunks.map UploadChunk.data) out
  | .rejected => True

/-- `chunks` are the chunks that were emitted for the files in `got`. -/
structure ZipFlow (got : List DownloadedFile) (chunks : List UploadChunk) (s : Stages) :
    Prop where
  size : s.producer.chunkSize = chunkSizeBytes
  numbered : NumberedFrom UploadChunk.partNumber 1 chunks
  next : s.producer.nextPartNumber = chunks.length + 1
  nonempty : ∀ chunk ∈ chunks, chunk.data ≠ []
  written : s.Written got chunks

/-- Each chunk is stored, lost, being uploaded, or queued. -/
structure PartsFlow (chunks stored lost : List UploadChunk) (s : Stages) : Prop where
  perm : (stored ++ lost ++ (s.upload.inflight ++ s.upload.phase.held ++
    s.producer.chunkQueue)).Perm chunks
  numbers : s.upload.completed.map CompletedPart.partNumber = stored.map UploadChunk.partNumber
  closed : s.producer.closed = true → s.zip.phase = .resolved
  drained : s.upload.phase.ended = true →
    s.producer.closed = true ∧ s.producer.chunkQueue = []

/-- The three flows of a run in which no stage rejects. -/
structure Flow (crc32 : Bytes → UInt32) (bodies : String → Bytes) (files : List FileInfo)
    (stored lost : List UploadChunk) (s : Stages) (got : List DownloadedFile)
    (chunks : List UploadChunk) : Prop where
  files : FilesFlow crc32 bodies files got s
  zip : ZipFlow got chunks s
  parts : PartsFlow chunks stored lost s

section

variable {crc32 : Bytes → UInt32} {bodies : String → Bytes} {files : List FileInfo}
  {s s' : Stages}

/-! ## Stages that have settled -/

theorem StageStep.lost {ev : StageEvent} (h : StageStep crc32 s ev s') (hlost : s.Lost) :
    s'.Lost := by
  unfold Stages.Lost at hlost ⊢
  cases h with
  | downloadFailed hinflight => exact .inl rfl
  | zipFailed hrunning => exact .inr (.inl rfl)
  | upload h => exact hlost.imp_right (Or.imp_right h.rejected)
  | recv hphase | recvEnd hphase | fill hphase | emit hphase | entryEnd hphase | endsEnd hphase
  | finishEmit hphase | finishClose hphase =>
    have hopen : s.zip.phase ≠ .rejected := by simp [hphase]
    exact hlost.imp_right (Or.imp_left fun h => absurd h hopen)
  | _ => exact hlost

namespace DownloadPhase

variable {phase : DownloadPhase} {ok : Bool} {rest : List FileInfo}

theorem joining_settle (h : phase.settle ok rest = .joining none) :
    phase = .joining none ∧ ok = true := by
  unfold settle at h
  split at h
  · cases ok with
    | true => exact ⟨rfl, rfl⟩
    | false => cases h
  · rename_i hjoin
    exact absurd h hjoin

theorem joined_settle (h : phase.settle ok rest = .joining (some true)) :
    phase = .joining none ∧ ok = true ∧ rest = [] ∨ phase = .joining (some true) := by
  rcases joined_of_settle h with hrest | hphase
  · unfold settle at h
    split at h
    · cases ok with
      | true => exact .inl ⟨rfl, rfl, hrest⟩
      | false => cases h
    · exact .inr h
  · exact .inr hphase

theorem refused_settle_true (h : (phase.settle true rest).refused = true) :
    phase.refused = true := by
  unfold settle at h
  split at h
  · split at h <;> cases h
  · exact h

@[simp] theorem files_settle : (phase.settle ok rest).files = phase.files := by
  unfold settle
  split
  · split <;> rfl
  · rfl

end DownloadPhase

theorem StageStep.downloadEnds {ev : StageEvent} (h : StageStep crc32 s ev s')
    (hends : s.download.Ends) : s'.download.Ends := by
  obtain ⟨hjoining, hjoined, hresolved, hrefused⟩ := hends
  cases h with
  | acquire | acquired => exact ⟨nofun, nofun, nofun, nofun⟩
  | acquireWait => exact ⟨nofun, nofun, nofun, nofun⟩
  | loopEnd hphase =>
    unfold DownloadStage.join
    cases s.download.failed with
    | true => exact ⟨nofun, nofun, nofun, fun _ => rfl⟩
    | false =>
      cases s.download.inflight with
      | nil => exact ⟨nofun, fun _ => ⟨rfl, rfl⟩, nofun, nofun⟩
      | cons file rest => exact ⟨fun _ => rfl, nofun, nofun, nofun⟩
  | downloaded hinflight hsize =>
    refine ⟨fun h => ?_, fun h => ?_, fun h => ?_, fun h => ?_⟩
    · exact hjoining (DownloadPhase.joining_settle h).1
    · rcases DownloadPhase.joined_settle h with ⟨hphase, _, hrest⟩ | hphase
      · exact ⟨hrest, hjoining hphase⟩
      · simp [(hjoined hphase).1] at hinflight
    · simp [(hresolved (DownloadPhase.settle_eq_resolved.1 h)).1] at hinflight
    · exact hrefused (DownloadPhase.refused_settle_true h)
  | downloadFailed hinflight =>
    refine ⟨fun h => ?_, fun h => ?_, fun h => ?_, fun _ => rfl⟩
    · cases (DownloadPhase.joining_settle h).2
    · rcases DownloadPhase.joined_settle h with ⟨_, hok, _⟩ | hphase
      · cases hok
      · simp [(hjoined hphase).1] at hinflight
    · simp [(hresolved (DownloadPhase.settle_eq_resolved.1 h)).1] at hinflight
  | @downloadEnd ok hphase =>
    cases ok with
    | true => exact ⟨nofun, nofun, fun _ => hjoined hphase, nofun⟩
    | false => exact ⟨nofun, nofun, nofun, fun _ => hrefused (by rw [hphase]; rfl)⟩
  | _ => exact ⟨hjoining, hjoined, hresolved, hrefused⟩

theorem UploadStep.ends {p p' : ChunkProducer} {u u' : UploadStage} {ev : UploadEvent}
    (h : UploadStep p u ev p' u') (hends : u.Ends) : u'.Ends := by
  obtain ⟨hjoined, hresolved⟩ := hends
  cases h with
  | recv | raced => exact ⟨nofun, nofun⟩
  | recvFull | raceRejected | joinRejected => exact ⟨nofun, nofun⟩
  | recvEnd hphase hqueue hclosed =>
    refine ⟨fun h => ?_, nofun⟩
    simpa using h
  | joined hphase =>
    refine ⟨nofun, fun parts h => ?_⟩
    cases h
    exact ⟨rfl, hjoined hphase⟩
  | uploaded hinflight | failed hinflight =>
    refine ⟨fun h => ?_, fun parts h => ?_⟩
    · rcases UploadPhase.joined_of_settle h with hrest | hphase
      · exact hrest
      · simp [hjoined hphase] at hinflight
    · simp [(hresolved parts (UploadPhase.settle_eq_resolved.1 h)).2] at hinflight

theorem StageStep.uploadEnds {ev : StageEvent} (h : StageStep crc32 s ev s')
    (hends : s.upload.Ends) : s'.upload.Ends := by
  cases h with
  | upload h => exact h.ends hends
  | _ => exact hends

/-! ## Steps of the downloads -/

theorem StageStep.download_open (h : StageStep crc32 s .download s') (hends : s.download.Ends)
    (hclean : s.download.failed = false) : s.download.phase.final = false := by
  cases h with
  | acquire hphase | acquireWait hphase | acquired hphase | loopEnd hphase | downloadEnd hphase =>
    rw [hphase]
    rfl
  | downloaded hinflight hsize =>
    refine Bool.eq_false_iff.2 fun hfinal => ?_
    rcases DownloadPhase.of_final hfinal with hphase | hphase
    · simp [(hends.resolved hphase).1] at hinflight
    · have hfailed := hends.refused (by rw [hphase]; rfl)
      rw [hclean] at hfailed
      cases hfailed

theorem FilesFlow.download {got : List DownloadedFile} (hflow : FilesFlow crc32 bodies files got s)
    (h : StageStep crc32 s .download s') (hopen : s.download.phase.final = false)
    (hbytes : ∀ f, s'.fileChannel.queue = s.fileChannel.queue ++ [f] →
      f.body = bodies f.name) : FilesFlow crc32 bodies files got s' := by
  obtain ⟨hperm, hfinished, hended⟩ := hflow
  have hlive : ¬ s.fileChannel.closed = true := fun h => by simp [hfinished h] at hopen
  have hrunning : ¬ s.zip.phase.ended = true := fun h => hlive (hended h).2
  cases h with
  | acquire hphase | acquired hphase =>
    rw [hphase] at hperm
    refine ⟨List.Perm.trans (List.Perm.append_right _ (List.Perm.map _ ?_)) hperm,
      fun h => absurd h hlive, fun h => absurd h hrunning⟩
    simp only [DownloadStage.download, DownloadPhase.files]
    rw [← List.append_assoc]
    exact List.perm_append_singleton _ _
  | acquireWait hphase =>
    rw [hphase] at hperm
    exact ⟨hperm, fun h => absurd h hlive, fun h => absurd h hrunning⟩
  | loopEnd hphase =>
    rw [hphase] at hperm
    exact ⟨hperm, fun h => absurd h hlive, fun h => absurd h hrunning⟩
  | @downloaded file fs₁ fs₂ body hinflight hsize =>
    have hbody : body = bodies file.name := hbytes _ rfl
    refine ⟨List.Perm.trans ?_ hperm, fun h => absurd h hlive, fun h => absurd h hrunning⟩
    rw [hinflight, hbody, DownloadPhase.files_settle]
    classical
    rw [List.perm_iff_count]
    intro x
    simp only [FileChannel.send, FileInfo.downloaded, List.map_append, List.map_cons,
      List.count_append, List.count_cons, List.count_nil]
    omega
  | @downloadEnd ok hphase =>
    rw [hphase] at hperm
    refine ⟨?_, fun _ => ?_, fun h => absurd h hrunning⟩
    · cases ok <;> exact hperm
    · cases ok <;> rfl

/-! ## Steps of the archive writer -/

section

variable {got : List DownloadedFile} {chunks stored lost : List UploadChunk}

/-- A chunk that is emitted is queued. -/
theorem PartsFlow.emit (hflow : PartsFlow chunks stored lost s) (hopen : s.zip.phase ≠ .resolved)
    (zip : ZipStageState) :
    PartsFlow (chunks ++ [⟨s.producer.nextPartNumber, s.producer.buffer⟩]) stored lost
      { s with producer := s.producer.emitFullChunk, zip } := by
  obtain ⟨hperm, hnumbers, hclosed, hdrained⟩ := hflow
  have hlive : ¬ s.producer.closed = true := fun h => hopen (hclosed h)
  refine ⟨?_, hnumbers, fun h => absurd h hlive, fun h => absurd (hdrained h).1 hlive⟩
  have hmore := hperm.append_right [⟨s.producer.nextPartNumber, s.producer.buffer⟩]
  simpa [ChunkProducer.emitFullChunk] using hmore

/-- The archive writer goes on without a change of the queue. -/
theorem PartsFlow.zip {zip : ZipStageState} {p : ChunkProducer} {c : FileChannel}
    {byteBudget : ByteSemaphore} (hflow : PartsFlow chunks stored lost s)
    (hopen : s.zip.phase ≠ .resolved) (hqueue : p.chunkQueue = s.producer.chunkQueue)
    (hclosed : p.closed = s.producer.closed) :
    PartsFlow chunks stored lost { s with byteBudget, fileChannel := c, producer := p, zip } := by
  obtain ⟨hperm, hnumbers, hclosed', hdrained⟩ := hflow
  refine ⟨?_, hnumbers, fun h => absurd (hclosed' ?_) hopen, ?_⟩
  · rwa [hqueue]
  · rwa [← hclosed]
  · rwa [hqueue, hclosed]

theorem ZipFlow.emit (hflow : ZipFlow got chunks s) (hbuffer : s.producer.buffer ≠ [])
    {zip : ZipStageState}
    (hwritten : Stages.Written got (chunks ++ [⟨s.producer.nextPartNumber, s.producer.buffer⟩])
      { s with producer := s.producer.emitFullChunk, zip }) :
    ZipFlow got (chunks ++ [⟨s.producer.nextPartNumber, s.producer.buffer⟩])
      { s with producer := s.producer.emitFullChunk, zip } := by
  obtain ⟨hsize, hnumbered, hnext, hnonempty, _⟩ := hflow
  refine ⟨hsize, hnumbered.snoc (by dsimp only; omega), ?_, ?_, hwritten⟩
  · simp [ChunkProducer.emitFullChunk, hnext]
  · intro chunk hchunk
    rcases List.mem_append.1 hchunk with hchunk | hchunk
    · exact hnonempty chunk hchunk
    · rw [List.mem_singleton.1 hchunk]
      exact hbuffer

theorem Flow.zipStep (hflow : Flow crc32 bodies files stored lost s got chunks)
    (h : StageStep crc32 s .zip s') (hfill : s.zip.phase.Filling s.producer) :
    ∃ got' chunks', Flow crc32 bodies files stored lost s' got' chunks' := by
  obtain ⟨_, hfill⟩ := hfill
  obtain ⟨⟨hperm, hfinished, hended⟩, hzip, hparts⟩ := hflow
  have hzip' := hzip
  obtain ⟨hsize, hnumbered, hnext, hnonempty, hwritten⟩ := hzip'
  unfold Stages.Written at hwritten
  cases h with
  | @recv file queue buffers hphase hqueue hbuffers =>
    rw [hphase] at hwritten
    obtain ⟨outs, hgot, hchunked⟩ := hwritten
    have hopen : s.zip.phase ≠ .resolved := by simp [hphase]
    refine ⟨got ++ [file], chunks, ⟨?_, hfinished, fun h => (by cases h)⟩,
      ⟨hsize, hnumbered, hnext, hnonempty, (outs ++ buffers).flatten, ⟨outs ++ buffers, ?_, rfl⟩,
        ?_⟩, hparts.zip hopen rfl rfl⟩
    · refine List.Perm.trans (List.Perm.append_left _ ?_) hperm
      rw [hqueue, ← List.append_assoc]
      exact List.perm_append_singleton _ _
    · rw [List.foldlM_append, hgot]
      simp [zipFile, hbuffers]
    · rw [List.flatten_append]
      exact hchunked.append _
  | @recvEnd buffers hphase hqueue hclosed hbuffers =>
    rw [hphase] at hwritten
    obtain ⟨outs, hgot, hchunked⟩ := hwritten
    have hopen : s.zip.phase ≠ .resolved := by simp [hphase]
    refine ⟨got, chunks, ⟨hperm, hfinished, fun _ => ⟨hqueue, hclosed⟩⟩,
      ⟨hsize, hnumbered, hnext, hnonempty, (outs ++ buffers).flatten, ?_, ?_⟩,
      hparts.zip hopen rfl rfl⟩
    · show runZipStage got = some (outs ++ buffers).flatten
      unfold runZipStage
      simp only [hgot, hbuffers, Option.bind_eq_bind, Option.bind_some, Option.pure_def]
    · rw [List.flatten_append]
      exact hchunked.append _
  | @fill buffer rest buffers task p hphase hfilled =>
    rw [hphase] at hwritten hended hfill
    obtain ⟨out, hout, hchunked⟩ := hwritten
    have hopen : s.zip.phase ≠ .resolved := by simp [hphase]
    obtain ⟨hp, hchunk⟩ := ChunkProducer.fill_eq hfilled
    obtain ⟨heq, hle, hrest⟩ := fillChunk_spec hchunk hfill
    rw [List.flatten_cons, ← List.append_assoc, ← heq] at hchunked
    have hnumber : p.nextPartNumber = chunks.length + 1 := by
      rw [hp]
      exact hnext
    have hpsize : p.chunkSize = chunkSizeBytes := by
      rw [hp]
      exact hsize
    refine ⟨got, chunks, ⟨hperm, hfinished, ?_⟩, ⟨hpsize, hnumbered, hnumber, hnonempty, ?_⟩,
      hparts.zip hopen (by rw [hp]) (by rw [hp])⟩
    · rw [ZipPhase.ended_appended]
      exact hended
    · unfold Stages.Written ZipPhase.appended
      by_cases hfull : p.buffer.length = p.chunkSize
      · simp only [if_pos hfull]
        exact ⟨out, hout, by rwa [List.flatten_cons, ← List.append_assoc]⟩
      · simp only [if_neg hfull]
        rw [hrest (by omega), List.append_nil] at hchunked
        exact ⟨out, hout, hchunked⟩
  | @emit buffers task hphase hslot =>
    rw [hphase] at hwritten hended hfill
    obtain ⟨out, hout, hchunked⟩ := hwritten
    have hopen : s.zip.phase ≠ .resolved := by simp [hphase]
    have hfull : s.producer.buffer.length = chunkSizeBytes := hsize ▸ hfill
    have hbuffer : s.producer.buffer ≠ [] := by
      intro hnil
      rw [hnil] at hfull
      cases hfull
    refine ⟨got, _, ⟨hperm, hfinished, hended⟩, hzip.emit hbuffer ⟨out, hout, ?_⟩,
      hparts.emit hopen _⟩
    rw [List.map_append]
    exact hchunked.cutPiece hfull
  | @entryEnd file buffers hphase =>
    rw [hphase] at hwritten
    obtain ⟨out, ⟨outs, hgot, rfl⟩, hchunked⟩ := hwritten
    have hopen : s.zip.phase ≠ .resolved := by simp [hphase]
    rw [List.flatten_nil, List.append_nil] at hchunked
    exact ⟨got, chunks, ⟨hperm, hfinished, fun h => (by cases h)⟩,
      ⟨hsize, hnumbered, hnext, hnonempty, outs, hgot, hchunked⟩, hparts.zip hopen rfl rfl⟩
  | endsEnd hphase =>
    rw [hphase] at hwritten hended
    obtain ⟨out, hout, hchunked⟩ := hwritten
    have hopen : s.zip.phase ≠ .resolved := by simp [hphase]
    rw [List.flatten_nil, List.append_nil] at hchunked
    exact ⟨got, chunks, ⟨hperm, hfinished, fun _ => hended rfl⟩,
      ⟨hsize, hnumbered, hnext, hnonempty, out, hout, .inl hchunked⟩, hparts.zip hopen rfl rfl⟩
  | finishEmit hphase hbuffer hslot =>
    rw [hphase] at hwritten hfill
    obtain ⟨out, hout, hchunked⟩ := hwritten
    have hopen : s.zip.phase ≠ .resolved := by simp [hphase]
    have hle : s.producer.buffer.length ≤ chunkSizeBytes := hsize ▸ Nat.le_of_lt hfill
    have hchunked := hchunked.resolve_right fun h => hbuffer h.1
    refine ⟨got, _, ⟨hperm, hfinished, hended⟩, hzip.emit hbuffer ?_, hparts.emit hopen _⟩
    unfold Stages.Written
    rw [hphase, List.map_append]
    exact ⟨out, hout, .inr ⟨rfl, hchunked.last hle⟩⟩
  | finishClose hphase hbuffer =>
    rw [hphase] at hwritten hended
    obtain ⟨out, hout, hchunked⟩ := hwritten
    obtain ⟨hperm', hnumbers, hclosed, hdrained⟩ := hparts
    refine ⟨got, chunks, ⟨hperm, hfinished, fun _ => hended rfl⟩,
      ⟨hsize, hnumbered, hnext, hnonempty, out, hout, ?_⟩,
      ⟨hperm', hnumbers, fun _ => rfl, fun h => ⟨rfl, (hdrained h).2⟩⟩⟩
    rcases hchunked with hchunked | ⟨_, hchunking⟩
    · rw [hbuffer] at hchunked
      exact hchunked.done
    · exact hchunking

/-! ## Steps of the uploads -/

theorem PartsFlow.upload {ev : UploadEvent} {p : ChunkProducer} {u : UploadStage}
    (hflow : PartsFlow chunks stored lost s) (h : UploadStep s.producer s.upload ev p u)
    (hother : ev.settles = false) :
    u.phase = .rejected ∨ PartsFlow chunks stored lost { s with producer := p, upload := u } := by
  obtain ⟨hperm, hnumbers, hclosed, hdrained⟩ := hflow
  cases h with
  | recv hphase hqueue =>
    rw [hphase, hqueue] at hperm
    refine .inr ⟨?_, hnumbers, hclosed, fun h => (by cases h)⟩
    simpa [UploadStage.upload, UploadPhase.held] using hperm
  | recvFull hphase hqueue =>
    rw [hphase, hqueue] at hperm
    refine .inr ⟨?_, hnumbers, hclosed, fun h => (by cases h)⟩
    simpa [UploadPhase.held] using hperm
  | recvEnd hphase hqueue hended =>
    rw [hphase] at hperm
    exact .inr ⟨hperm, hnumbers, hclosed, fun _ => ⟨hended, hqueue⟩⟩
  | raced hphase =>
    rw [hphase] at hperm
    refine .inr ⟨?_, hnumbers, hclosed, fun h => (by cases h)⟩
    simpa [UploadStage.upload, UploadPhase.held] using hperm
  | raceRejected hphase | joinRejected hphase => exact .inl rfl
  | joined hphase =>
    rw [hphase] at hperm hdrained
    exact .inr ⟨hperm, hnumbers, hclosed, fun _ => hdrained rfl⟩
  | uploaded hinflight | failed hinflight => cases hother

theorem PartsFlow.uploaded {cs₁ cs₂ : List UploadChunk} {chunk : UploadChunk}
    (hflow : PartsFlow chunks stored lost s) (hinflight : s.upload.inflight = cs₁ ++ chunk :: cs₂)
    (etag : String) :
    PartsFlow chunks (stored ++ [chunk]) lost (s.uploaded chunk (cs₁ ++ cs₂) etag) := by
  obtain ⟨hperm, hnumbers, hclosed, hdrained⟩ := hflow
  refine ⟨List.Perm.trans ?_ hperm, ?_, hclosed, ?_⟩
  · rw [hinflight, List.perm_iff_count]
    intro x
    simp only [Stages.uploaded, ChunkProducer.releaseSlot, UploadPhase.held_settle,
      List.count_append, List.count_cons, List.count_nil]
    omega
  · simp [Stages.uploaded, hnumbers]
  · simpa [Stages.uploaded, ChunkProducer.releaseSlot] using hdrained

theorem PartsFlow.uploadFailed {cs₁ cs₂ : List UploadChunk} {chunk : UploadChunk}
    (hflow : PartsFlow chunks stored lost s)
    (hinflight : s.upload.inflight = cs₁ ++ chunk :: cs₂) :
    PartsFlow chunks stored (lost ++ [chunk]) (s.uploadFailed (cs₁ ++ cs₂)) := by
  obtain ⟨hperm, hnumbers, hclosed, hdrained⟩ := hflow
  refine ⟨List.Perm.trans ?_ hperm, hnumbers, hclosed, ?_⟩
  · rw [hinflight, List.perm_iff_count]
    intro x
    simp only [Stages.uploadFailed, ChunkProducer.releaseSlot, UploadPhase.held_settle,
      List.count_append, List.count_cons, List.count_nil]
    omega
  · simpa [Stages.uploadFailed, ChunkProducer.releaseSlot] using hdrained

theorem UploadStep.nextPartNumber {ev : UploadEvent} {p p' : ChunkProducer} {u u' : UploadStage}
    (h : UploadStep p u ev p' u') : p'.nextPartNumber = p.nextPartNumber := by
  cases h <;> rfl

/-- What the upload stage does not touch. -/
theorem Flow.upload {stored' lost' : List UploadChunk} {p : ChunkProducer} {u : UploadStage}
    (hflow : Flow crc32 bodies files stored lost s got chunks)
    (hbuffer : p.buffer = s.producer.buffer) (hsize : p.chunkSize = s.producer.chunkSize)
    (hnext : p.nextPartNumber = s.producer.nextPartNumber)
    (hparts : PartsFlow chunks stored' lost' { s with producer := p, upload := u }) :
    Flow crc32 bodies files stored' lost' { s with producer := p, upload := u } got chunks := by
  obtain ⟨hfiles, ⟨hsize', hnumbered, hnext', hnonempty, hwritten⟩, _⟩ := hflow
  refine ⟨{ hfiles with }, ⟨?_, hnumbered, ?_, hnonempty, ?_⟩, hparts⟩
  · exact hsize.trans hsize'
  · exact hnext.trans hnext'
  · unfold Stages.Written at hwritten ⊢
    dsimp only
    rwa [hbuffer]

/-! ## Every step -/

theorem StageStep.download_frame (h : StageStep crc32 s .download s') :
    s'.producer = s.producer ∧ s'.zip = s.zip ∧ s'.upload = s.upload := by
  cases h <;> exact ⟨rfl, rfl, rfl⟩

theorem Flow.downloadStep (hflow : Flow crc32 bodies files stored lost s got chunks)
    (h : StageStep crc32 s .download s') (hopen : s.download.phase.final = false)
    (hbytes : ∀ f, s'.fileChannel.queue = s.fileChannel.queue ++ [f] →
      f.body = bodies f.name) : Flow crc32 bodies files stored lost s' got chunks := by
  obtain ⟨hproducer, hzip, hupload⟩ := h.download_frame
  obtain ⟨hfiles, ⟨hsize, hnumbered, hnext, hnonempty, hwritten⟩, hparts⟩ := hflow
  obtain ⟨hperm, hnumbers, hclosed, hdrained⟩ := hparts
  refine ⟨hfiles.download h hopen hbytes, ⟨?_, hnumbered, ?_, hnonempty, ?_⟩, ?_, ?_, ?_, ?_⟩
  · rwa [hproducer]
  · rwa [hproducer]
  · unfold Stages.Written at hwritten ⊢
    rwa [hproducer, hzip]
  · rwa [hproducer, hupload]
  · rwa [hupload]
  · rwa [hproducer, hzip]
  · rwa [hproducer, hupload]

theorem Flow.step {ev : StageEvent} (hflow : Flow crc32 bodies files stored lost s got chunks)
    (hends : s.download.Ends) (hclean : s.download.failed = false)
    (hfill : s.zip.phase.Filling s.producer) (h : StageStep crc32 s ev s')
    (hother : ev.settles = false)
    (hbytes : ∀ f, s'.fileChannel.queue = s.fileChannel.queue ++ [f] → f.body = bodies f.name) :
    s'.Lost ∨ ∃ got' chunks', Flow crc32 bodies files stored lost s' got' chunks' := by
  cases ev with
  | download =>
    have hopen := h.download_open hends hclean
    exact .inr ⟨got, chunks, hflow.downloadStep h hopen hbytes⟩
  | downloadFailed inLoop =>
    cases h
    exact .inl (.inl rfl)
  | zip => exact .inr (hflow.zipStep h hfill)
  | zipFailed =>
    cases h
    exact .inl (.inr (.inl rfl))
  | upload ev =>
    cases h with
    | upload h =>
      obtain ⟨hbuffer, hsize⟩ := h.buffer
      have hnext := h.nextPartNumber
      rcases hflow.parts.upload h hother with hrejected | hparts
      · exact .inl (.inr (.inr hrejected))
      · exact .inr ⟨got, chunks, hflow.upload hbuffer hsize hnext hparts⟩

end

theorem Flow.start (files : List FileInfo) :
    Flow crc32 bodies files [] [] (Job.start files).stages [] [] := by
  refine ⟨⟨?_, ?_, ?_⟩, ⟨rfl, .nil _ _, rfl, by simp, [], rfl, .nil _⟩, ⟨?_, ?_, ?_, ?_⟩⟩
  · simp [Job.start, DownloadPhase.files]
  · exact fun h => (by cases h)
  · exact fun h => (by cases h)
  · exact .nil
  · rfl
  · exact fun h => (by cases h)
  · exact fun h => (by cases h)

/-! ## Jobs -/

/-- All three stages have resolved. -/
structure Stages.Passed (s : Stages) : Prop where
  download : s.download.phase = .resolved
  zip : s.zip.phase = .resolved
  upload : ∃ parts, s.upload.phase = .resolved parts

theorem Stages.passed_of_settled (hsettled : s.settled = true) (hrejected : s.rejected = false) :
    s.Passed := by
  simp only [settled, rejected, Bool.and_eq_true, Bool.or_eq_false_iff, beq_eq_false_iff_ne]
    at hsettled hrejected
  obtain ⟨⟨hdownload, hzip⟩, hupload⟩ := hsettled
  obtain ⟨⟨hdownload', hzip'⟩, hupload'⟩ := hrejected
  refine ⟨?_, ?_, ?_⟩
  · exact (DownloadPhase.of_final hdownload).resolve_right hdownload'
  · cases hphase : s.zip.phase with
    | resolved => rfl
    | rejected => exact absurd hphase hzip'
    | _ => simp [hphase, ZipPhase.final] at hzip
  · exact (UploadPhase.of_final hupload).resolve_right hupload'

/-- Stages that have resolved are at their ends. -/
theorem Stages.Passed.not_step {ev : StageEvent} (hpassed : s.Passed) (hdownload : s.download.Ends)
    (hupload : s.upload.Ends) : ¬ StageStep crc32 s ev s' := by
  obtain ⟨hd, hz, parts, hu⟩ := hpassed
  have hdownloads := (hdownload.resolved hd).1
  have huploads := (hupload.resolved parts hu).2
  intro h
  cases h with
  | acquire hphase | acquireWait hphase | acquired hphase | loopEnd hphase | downloadEnd hphase =>
    simp [hd] at hphase
  | downloaded hinflight | downloadFailed hinflight => simp [hdownloads] at hinflight
  | recv hphase | recvEnd hphase | fill hphase | emit hphase | entryEnd hphase | endsEnd hphase
  | finishEmit hphase | finishClose hphase => simp [hz] at hphase
  | zipFailed hrunning => simp [hz, ZipPhase.running] at hrunning
  | upload h =>
    cases h with
    | recv hphase | recvFull hphase | recvEnd hphase | raced hphase | raceRejected hphase
    | joined hphase | joinRejected hphase => simp [hu] at hphase
    | uploaded hinflight | failed hinflight => simp [huploads] at hinflight

/-- A stage has rejected or will, or all is accounted for. -/
structure StoredInv (crc32 : Bytes → UInt32) (bodies : String → Bytes) (files : List FileInfo)
    (j : StoredJob) : Prop where
  download : j.job.stages.download.Ends
  upload : j.job.stages.upload.Ends
  filling : j.job.stages.zip.phase.Filling j.job.stages.producer
  passed : j.job.phase = .completing ∨ j.job.phase = .completed → j.job.stages.Passed
  flow : j.job.stages.Lost ∨
    ∃ got chunks, Flow crc32 bodies files j.stored j.lost j.job.stages got chunks

theorem StoredInv.start (files : List FileInfo) :
    StoredInv crc32 bodies files (.start files) := by
  have hsize : 0 < chunkSizeBytes := by decide
  refine ⟨⟨nofun, nofun, nofun, nofun⟩, ⟨nofun, nofun⟩, ⟨hsize, hsize⟩, ?_, ?_⟩
  · simp [StoredJob.start, Job.start]
  · exact .inr ⟨[], [], .start files⟩

/-- The ends of the stages, and that a job which completes has passed them. -/
theorem JobStep.passed {j j' : Job} {ev : JobEvent} (h : JobStep crc32 j ev j')
    (hdownload : j.stages.download.Ends) (hupload : j.stages.upload.Ends)
    (hpassed : j.phase = .completing ∨ j.phase = .completed → j.stages.Passed) :
    j'.stages.download.Ends ∧ j'.stages.upload.Ends ∧
      (j'.phase = .completing ∨ j'.phase = .completed → j'.stages.Passed) := by
  cases h with
  | stage halive h =>
    refine ⟨h.downloadEnds hdownload, h.uploadEnds hupload, fun hphase => ?_⟩
    exact absurd h ((hpassed hphase).not_step hdownload hupload)
  | settled hphase hsettled =>
    refine ⟨hdownload, hupload, fun h => ?_⟩
    cases hrejected : j.stages.rejected with
    | true => simp [hrejected] at h
    | false => exact Stages.passed_of_settled hsettled hrejected
  | completed hphase => exact ⟨hdownload, hupload, fun _ => hpassed (.inl hphase)⟩
  | completeFailed hphase | aborted hphase | crashed hphase =>
    exact ⟨hdownload, hupload, fun h => (by simp at h)⟩

theorem JobStep.lost {j j' : Job} {ev : JobEvent} (h : JobStep crc32 j ev j')
    (hlost : j.stages.Lost) : j'.stages.Lost := by
  cases h with
  | stage halive h => exact h.lost hlost
  | _ => exact hlost

theorem StoredStep.inv {j j' : StoredJob} {ev : JobEvent}
    (hinv : StoredInv crc32 bodies files j) (h : StoredStep crc32 bodies j ev j') :
    StoredInv crc32 bodies files j' := by
  obtain ⟨hdownload, hupload, hfill, hpassed, hflow⟩ := hinv
  obtain ⟨hdownload', hupload', hpassed'⟩ := h.job.passed hdownload hupload hpassed
  refine ⟨hdownload', hupload', h.job.filling hfill, hpassed', ?_⟩
  by_cases hlost : j.job.stages.Lost
  · exact .inl (h.job.lost hlost)
  · obtain ⟨got, chunks, hflow⟩ := hflow.resolve_left hlost
    cases h with
    | uploaded halive hinflight hetag =>
      exact .inr ⟨got, chunks, hflow.upload rfl rfl rfl (hflow.parts.uploaded hinflight _)⟩
    | uploadFailed halive hinflight =>
      exact .inr ⟨got, chunks, hflow.upload rfl rfl rfl (hflow.parts.uploadFailed hinflight)⟩
    | other h hother hbytes =>
      cases h with
      | stage halive h =>
        have hclean := Bool.eq_false_iff.2 fun h => hlost (.inl h)
        exact hflow.step hdownload hclean hfill h hother hbytes
      | _ => exact .inr ⟨got, chunks, hflow⟩

theorem StoredRun.inv {evs : List JobEvent} {j : StoredJob}
    (h : StoredRun crc32 bodies (.start files) evs j) : StoredInv crc32 bodies files j :=
  Run.invariant h (.start files) fun _ _ _ hinv hstep => hstep.inv hinv

/-! ## Jobs in which nothing fails -/

/-- Nothing has failed. -/
structure Stages.Clean (s : Stages) : Prop where
  download : s.download.failed = false
  zip : s.zip.phase ≠ .rejected
  upload : s.upload.phase.refused = false

theorem UploadStep.clean {p p' : ChunkProducer} {u u' : UploadStage} {ev : UploadEvent}
    (h : UploadStep p u ev p' u') (hclean : u.phase.refused = false)
    (hev : (StageEvent.upload ev).failure = false) : u'.phase.refused = false := by
  cases h with
  | failed hinflight => cases hev
  | uploaded hinflight hetag =>
    unfold UploadPhase.settle
    split
    · rfl
    · split <;> rfl
    · exact hclean
  | recvEnd hphase hqueue hclosed =>
    dsimp only
    split <;> rfl
  | raceRejected hphase | joinRejected hphase =>
    rw [hphase] at hclean
    cases hclean
  | _ => rfl

theorem StageStep.clean {ev : StageEvent} (h : StageStep crc32 s ev s') (hclean : s.Clean)
    (hev : ev.failure = false) : s'.Clean := by
  obtain ⟨hdownload, hzip, hupload⟩ := hclean
  cases h with
  | downloadFailed hinflight => cases hev
  | zipFailed hrunning => cases hev
  | upload h => exact ⟨hdownload, hzip, h.clean hupload hev⟩
  | fill hphase hfill => exact ⟨hdownload, (ZipPhase.appended_ne _ _ _ _).2, hupload⟩
  | finishEmit => exact ⟨hdownload, hzip, hupload⟩
  | recv | recvEnd | emit | entryEnd | endsEnd | finishClose => exact ⟨hdownload, nofun, hupload⟩
  | _ => exact ⟨hdownload, hzip, hupload⟩

theorem Stages.Clean.not_lost (hclean : s.Clean) : ¬ s.Lost := by
  rintro (h | h | h)
  · rw [hclean.download] at h
    cases h
  · exact hclean.zip h
  · have hupload := hclean.upload
    rw [h] at hupload
    cases hupload

theorem Stages.Clean.rejected (hclean : s.Clean) (hends : s.download.Ends) :
    s.rejected = false := by
  have hdownload : s.download.phase ≠ .rejected := by
    intro h
    have hfailed := hends.refused (by rw [h]; rfl)
    rw [hclean.download] at hfailed
    cases hfailed
  have hupload : s.upload.phase ≠ .rejected := fun h => hclean.not_lost (.inr (.inr h))
  simp [Stages.rejected, hdownload, hupload, hclean.zip]

theorem ne_append_singleton {α : Type} (l : List α) (a : α) : l ≠ l ++ [a] := by simp

/-- A step that is no failure, in which a download gives the bytes of its object. -/
theorem StageStep.stored {ev : StageEvent} (h : StageStep crc32 s ev s')
    (hev : ev.failure = false)
    (hbodies : ∀ f ∈ s.download.inflight, (bodies f.name).length = f.size) {phase : JobPhase}
    (halive : phase ≠ .crashed) (stored lost : List UploadChunk) :
    ∃ ev' t stored', StageStep crc32 s ev' t ∧ ev'.failure = false ∧
      StoredStep crc32 bodies ⟨⟨s, phase⟩, stored, lost⟩ (.stage ev')
        ⟨⟨t, phase⟩, stored', lost⟩ := by
  have hother (hsettles : ev.settles = false)
      (hqueue : ∀ f, s'.fileChannel.queue ≠ s.fileChannel.queue ++ [f]) :
      ∃ ev' t stored', StageStep crc32 s ev' t ∧ ev'.failure = false ∧
        StoredStep crc32 bodies ⟨⟨s, phase⟩, stored, lost⟩ (.stage ev')
          ⟨⟨t, phase⟩, stored', lost⟩ :=
    ⟨ev, s', stored, h, hev, .other (.stage halive h) hsettles fun f hf => absurd hf (hqueue f)⟩
  cases h with
  | @downloaded file fs₁ fs₂ body hinflight hsize =>
    have hmem : file ∈ s.download.inflight := by
      rw [hinflight]
      exact List.mem_append_right _ List.mem_cons_self
    have hstep : StageStep crc32 s .download _ := .downloaded hinflight (hbodies file hmem)
    refine ⟨_, _, stored, hstep, rfl, .other (.stage halive hstep) rfl fun f hf => ?_⟩
    obtain rfl := List.singleton_inj.1 (List.append_cancel_left hf)
    rfl
  | downloadFailed hinflight => cases hev
  | zipFailed hrunning => cases hev
  | recv hphase hqueue hbuffers =>
    refine hother rfl fun f hf => ?_
    have hlen := congrArg List.length hf
    simp [hqueue] at hlen
    omega
  | upload h =>
    cases h with
    | failed hinflight => cases hev
    | uploaded hinflight hetag =>
      exact ⟨_, _, _, .upload (.uploaded hinflight hetag), rfl, .uploaded halive hinflight hetag⟩
    | _ => exact hother rfl (ne_append_singleton _)
  | _ => exact hother rfl (ne_append_singleton _)

/-- The records of the files fit their fields. -/
structure Recordable (crc32 : Bytes → UInt32) (bodies : String → Bytes) (files : List FileInfo) :
    Prop where
  sizes : ∀ f ∈ files, (bodies f.name).length = f.size
  names : ∀ f ∈ files, (utf8 f.name).length < 2 ^ 16
  total : archiveLength (files.map (FileInfo.downloaded crc32 bodies)) < 2 ^ 64

theorem Recordable.fits (hrec : Recordable crc32 bodies files) {file : DownloadedFile}
    (hfile : file ∈ files.map (FileInfo.downloaded crc32 bodies)) : Fits file := by
  have hle := List.single_le_sum (fun _ _ => Nat.zero_le _) _
    (List.mem_map_of_mem (f := fun f => 128 + 2 * (utf8 f.name).length + f.body.length) hfile)
  have htotal := hrec.total
  unfold archiveLength at htotal
  obtain ⟨f, hf, rfl⟩ := List.mem_map.1 hfile
  exact ⟨hrec.names f hf, by omega⟩

/-- The directory of some of the files fits. -/
theorem Recordable.endsFit {got rest : List DownloadedFile} (hrec : Recordable crc32 bodies files)
    (hperm : (rest ++ got).Perm (files.map (FileInfo.downloaded crc32 bodies))) :
    EndsFit (got.map streamed) := by
  have hlen : archiveLength got < 2 ^ 64 := by
    have hsum := (hperm.map fun f => 128 + 2 * (utf8 f.name).length + f.body.length).sum_eq
    have htotal := hrec.total
    unfold archiveLength at htotal ⊢
    rw [List.map_append, List.sum_append] at hsum
    omega
  rw [← length_streamedArchive] at hlen
  simp only [Zip.streamedArchive, List.length_append] at hlen
  refine endsFit_of_length (fun f hf => ?_) (by omega)
  obtain ⟨g, hg, rfl⟩ := List.mem_map.1 hf
  exact (hrec.fits (hperm.subset (List.mem_append_right _ hg))).1

/-- The archive writer does not throw. -/
theorem Flow.not_throws {stored lost : List UploadChunk} {got : List DownloadedFile}
    {chunks : List UploadChunk} (hflow : Flow crc32 bodies files stored lost s got chunks)
    (hrec : Recordable crc32 bodies files) : ¬ s.Throws := by
  rintro ⟨hphase, hthrows⟩
  obtain ⟨⟨hperm, _, _⟩, ⟨_, _, _, _, hwritten⟩, _⟩ := hflow
  cases hqueue : s.fileChannel.queue with
  | cons file queue =>
    rw [hqueue] at hthrows hperm
    have hfits := hrec.fits (hperm.subset (List.mem_append_right _ List.mem_cons_self))
    have hnone : fileBuffers file = none := hthrows
    rw [(fileBuffers_guarded file _).2 ⟨hfits, rfl⟩] at hnone
    cases hnone
  | nil =>
    rw [hqueue] at hthrows
    rw [hqueue, List.nil_append] at hperm
    obtain ⟨_, hnone⟩ := hthrows
    unfold Stages.Written at hwritten
    rw [hphase] at hwritten
    obtain ⟨outs, hfold, _⟩ := hwritten
    obtain ⟨_, hlocals⟩ := (zipFiles_guarded got _).1 hfold
    have hends := endBuffers_eq_some.2 ⟨hrec.endsFit hperm, rfl⟩
    rw [(Prod.mk.inj hlocals).1, hends] at hnone
    cases hnone

/-- Nothing has failed in the job so far, and its stages are in order. -/
structure StoredJob.Sound (crc32 : Bytes → UInt32) (bodies : String → Bytes)
    (files : List FileInfo) (j : StoredJob) : Prop where
  inv : StoredInv crc32 bodies files j
  stages : StagesInv j.job.stages
  clean : j.job.stages.Clean
  kept : j.lost = []
  phase : j.job.phase = .running ∨ j.job.phase = .completing ∨ j.job.phase = .completed

theorem StoredJob.Sound.start (files : List FileInfo) :
    StoredJob.Sound crc32 bodies files (.start files) :=
  ⟨.start files, (JobInv.start files).stages, ⟨rfl, nofun, rfl⟩, rfl, .inl rfl⟩

/-- A sound job that has not completed goes on. -/
theorem StoredJob.Sound.lower {j : StoredJob} (h : j.Sound crc32 bodies files)
    (hrec : Recordable crc32 bodies files) : j.job.phase = .completed ∨ ∃ evs j',
      StoredRun crc32 bodies j evs j' ∧ j'.Sound crc32 bodies files ∧
        j'.job.todo < j.job.todo := by
  obtain ⟨⟨⟨s, phase⟩, stored, lost⟩, hinv, hstages, hclean, hkept, hphase⟩ := j, h
  have hgo {ev : JobEvent} {j' : StoredJob}
      (hstep : StoredStep crc32 bodies ⟨⟨s, phase⟩, stored, lost⟩ ev j')
      (hstages' : StagesInv j'.job.stages) (hclean' : j'.job.stages.Clean) (hkept' : j'.lost = [])
      (hphase' : j'.job.phase = .running ∨ j'.job.phase = .completing ∨
        j'.job.phase = .completed) :
      ∃ evs j', StoredRun crc32 bodies ⟨⟨s, phase⟩, stored, lost⟩ evs j' ∧
        j'.Sound crc32 bodies files ∧ j'.job.todo < (Job.mk s phase).todo :=
    ⟨[ev], j', .cons hstep (.refl j'), ⟨hstep.inv hinv, hstages', hclean', hkept', hphase'⟩,
      hstep.job.todo_lt hinv.filling⟩
  rcases hphase with rfl | rfl | hphase
  · right
    cases hsettled : s.settled with
    | true =>
      refine hgo (.other (.settled rfl hsettled) rfl fun f hf => absurd hf ?_) hstages hclean hkept
        (.inr (.inl ?_))
      · exact ne_append_singleton _ f
      · rw [if_neg]
        rw [hclean.rejected hinv.download]
        decide
    | false =>
      obtain ⟨got, chunks, hflow⟩ := hinv.flow.resolve_left hclean.not_lost
      have henabled : s.Enabled crc32 := hstages.progress hsettled
      obtain ⟨ev, s', hstep, hthrows⟩ := henabled
      have hev : ev.failure = false :=
        Bool.eq_false_iff.2 fun h => hflow.not_throws hrec (hthrows h)
      have hbodies : ∀ f ∈ s.download.inflight, (bodies f.name).length = f.size := by
        intro f hf
        have hmem := hflow.files.perm.subset (List.mem_append_left _
          (List.mem_map_of_mem (List.mem_append_right _ hf)))
        obtain ⟨g, hg, heq⟩ := List.mem_map.1 hmem
        have hsize := hrec.sizes g hg
        obtain ⟨hname, _, _, hlen⟩ := DownloadedFile.mk.inj heq
        rwa [hname, hlen] at hsize
      obtain ⟨ev', t, stored', hstep', hev', hstored⟩ := hstep.stored hev hbodies
        (show JobPhase.running ≠ .crashed from nofun) stored lost
      refine hgo hstored (hstages.step hstep' ?_) (hstep'.clean hclean hev') hkept (.inl rfl)
      exact Bool.eq_false_iff.2 fun h => by
        rw [StageEvent.failure_of_missed h] at hev'
        cases hev'
  · exact .inr (hgo (.other (.completed rfl) rfl fun f hf => absurd hf (ne_append_singleton _ f))
      hstages hclean hkept (.inr (.inr rfl)))
  · exact .inl hphase

/-- When the records fit, a run completes without a failure. -/
theorem exists_run_completed (hrec : Recordable crc32 bodies files) :
    ∃ evs j, StoredRun crc32 bodies (.start files) evs j ∧ j.job.phase = .completed ∧
      j.lost = [] := by
  obtain ⟨evs, j, hrun, hsound, hphase⟩ := Run.exists_final
    (P := StoredJob.Sound crc32 bodies files) (.start files) fun j hj => hj.lower hrec
  exact ⟨evs, j, hrun, hphase, hsound.kept⟩

/-! ## The archive -/

/-- `completeMultipartUpload` with the parts that the upload stage returns. -/
def StoredJob.object (j : StoredJob) (parts : List CompletedPart) : Bytes :=
  completeListed (parts.map CompletedPart.partNumber)
    (j.stored.map fun chunk => (chunk.partNumber, chunk.data))

/-- The chunks that are not lost, in order. -/
theorem object_of_lost {j : StoredJob} {parts : List CompletedPart} {chunks : List UploadChunk}
    (hnumbered : NumberedFrom UploadChunk.partNumber 1 chunks)
    (hperm : (j.stored ++ j.lost).Perm chunks)
    (hlisted : (parts.map CompletedPart.partNumber).Perm (j.stored.map UploadChunk.partNumber)) :
    j.object parts =
      ((chunks.filter fun chunk => chunk ∉ j.lost).map UploadChunk.data).flatten := by
  have hinj : Function.Injective fun chunk : UploadChunk => (chunk.partNumber, chunk.data) := by
    rintro ⟨m, a⟩ ⟨n, b⟩ h
    cases h
    rfl
  have hparts := hperm.map fun chunk => (chunk.partNumber, chunk.data)
  rw [List.map_append] at hparts
  have hlt := hnumbered.pairwise
  unfold StoredJob.object
  rw [completeListed_of_all (by rwa [List.map_map]),
    completeUpload_of_missing (by rwa [List.map_map]) hparts, List.filter_map, List.map_map]
  congr 2
  refine List.filter_congr fun chunk _ => ?_
  simp only [Function.comp_apply, List.mem_map_of_injective hinj]

/-- What is left of a job that has passed its stages. -/
theorem StoredInv.complete {j : StoredJob} (hinv : StoredInv crc32 bodies files j)
    (hpassed : j.job.stages.Passed) : ∃ parts got archive chunks,
      j.job.stages.upload.phase = .resolved parts ∧
      got.Perm (files.map (FileInfo.downloaded crc32 bodies)) ∧ runZipStage got = some archive ∧
      NumberedFrom UploadChunk.partNumber 1 chunks ∧ (∀ chunk ∈ chunks, chunk.data ≠ []) ∧
      IsChunking chunkSizeBytes (chunks.map UploadChunk.data) archive ∧
      (j.stored ++ j.lost).Perm chunks ∧
      (parts.map CompletedPart.partNumber).Perm (j.stored.map UploadChunk.partNumber) := by
  obtain ⟨hdownload, hupload, _, _, hflow⟩ := hinv
  obtain ⟨hd, hz, parts, hu⟩ := hpassed
  obtain ⟨hdownloads, hclean⟩ := hdownload.resolved hd
  obtain ⟨hparts, huploads⟩ := hupload.resolved parts hu
  have hlost : ¬ j.job.stages.Lost := by
    unfold Stages.Lost
    simp [hclean, hz, hu]
  obtain ⟨got, chunks, ⟨hperm, _, hended⟩, ⟨_, hnumbered, _, hnonempty, hwritten⟩, hchunks,
    hnumbers, _, hdrained⟩ := hflow.resolve_left hlost
  unfold Stages.Written at hwritten
  rw [hz] at hwritten hended
  obtain ⟨archive, hout, hchunking⟩ := hwritten
  refine ⟨parts, got, archive, chunks, hu, ?_, hout, hnumbered, hnonempty, hchunking, ?_, ?_⟩
  · rw [hd, hdownloads, (hended rfl).1] at hperm
    exact hperm
  · rw [huploads, hu, (hdrained (by rw [hu]; rfl)).2] at hchunks
    simpa [UploadPhase.held] using hchunks
  · rw [hparts, ← hnumbers]
    exact j.job.stages.upload.parts_perm.map _

/-- The parts of a job without a failure hold the archive. -/
theorem StoredInv.length_le {j : StoredJob} (hinv : StoredInv crc32 bodies files j)
    (hpassed : j.job.stages.Passed) (hlost : j.lost = []) :
    archiveLength (files.map (FileInfo.downloaded crc32 bodies)) ≤
      j.stored.length * chunkSizeBytes := by
  obtain ⟨_, got, archive, chunks, _, hperm, hzip, _, _, hchunking, hchunks, _⟩ :=
    hinv.complete hpassed
  obtain ⟨_, _, rfl⟩ := runZipStage_eq_some_iff.1 hzip
  have hlen := hchunking.length_le_mul
  have hsum := (hperm.map fun f => 128 + 2 * (utf8 f.name).length + f.body.length).sum_eq
  rw [hlost, List.append_nil] at hchunks
  rw [length_streamedArchive, List.length_map, ← hchunks.length_eq] at hlen
  unfold archiveLength at hlen ⊢
  rwa [← hsum]

end

/-- The entry of a file. -/
def FileInfo.entry (crc32 : Bytes → UInt32) (bodies : String → Bytes) (file : FileInfo) :
    Zip.StreamedFile :=
  ⟨utf8 file.name, crc32 (bodies file.name), bodies file.name⟩

/-- In every run, whatever the order of the stages: the parts of a completed job are cut from an
archive of all files, each once, and the object that is left is that archive without the parts
whose upload has failed. -/
theorem runArchiveJob_archive {crc32 : Bytes → UInt32} {bodies : String → Bytes}
    {files : List FileInfo} {evs : List JobEvent} {j : StoredJob}
    (h : StoredRun crc32 bodies (.start files) evs j) (hphase : j.job.phase = .completed) :
    ∃ (parts : List CompletedPart) (entries : List Zip.StreamedFile) (archive : Bytes)
      (chunks : List UploadChunk),
      j.job.stages.upload.phase = .resolved parts ∧
      entries.Perm (files.map (FileInfo.entry crc32 bodies)) ∧
      Zip.StreamedReadsBack archive entries ∧
      NumberedFrom UploadChunk.partNumber 1 chunks ∧
      IsChunking chunkSizeBytes (chunks.map UploadChunk.data) archive ∧
      (j.stored ++ j.lost).Perm chunks ∧
      j.object parts =
        ((chunks.filter fun chunk => chunk ∉ j.lost).map UploadChunk.data).flatten ∧
      (j.object parts = archive ↔ j.lost = []) := by
  obtain ⟨parts, got, archive, chunks, hu, hperm, hzip, hnumbered, hnonempty, hchunking, hchunks,
    hlisted⟩ := h.inv.complete (h.inv.passed (.inr hphase))
  have hobject := object_of_lost hnumbered hchunks hlisted
  have hentries := hperm.map streamed
  rw [List.map_map] at hentries
  refine ⟨parts, got.map streamed, archive, chunks, hu, hentries, runZipStage_readsBack hzip,
    hnumbered, hchunking, hchunks, hobject, ?_⟩
  rw [hobject, ← hchunking.flatten_eq, flatten_filter_eq_iff hnonempty,
    List.eq_nil_iff_forall_not_mem]
  constructor
  · intro hall chunk hchunk
    have hmem := hchunks.subset (List.mem_append_right _ hchunk)
    simpa [hchunk] using hall chunk hmem
  · intro hnone chunk _
    simpa using hnone chunk

/-! ## A job with two files -/

/-- A file of three bytes and one of 20 MiB. -/
def twoFiles : List FileInfo := [⟨"a", 3⟩, ⟨"b", 20971520⟩]

def bodiesOfTwo (name : String) : Bytes :=
  if name = "a" then [1, 2, 3] else List.replicate 20971520 0

/-- The CRC-32 of their contents. -/
def crcOfTwo (body : Bytes) : UInt32 := if body = [1, 2, 3] then 0x55BC801D else 0x38773417

theorem bodiesOfTwo_b : bodiesOfTwo "b" = List.replicate 20971520 0 := if_neg (by decide)

theorem length_bodiesOfTwo :
    (bodiesOfTwo "a").length = 3 ∧ (bodiesOfTwo "b").length = 20971520 := by
  rw [bodiesOfTwo_b]
  exact ⟨rfl, List.length_replicate⟩

theorem archiveLength_twoFiles {crc32 : Bytes → UInt32} {bodies : String → Bytes}
    (ha : (bodies "a").length = 3) (hb : (bodies "b").length = 20971520) :
    archiveLength (twoFiles.map (FileInfo.downloaded crc32 bodies)) = 20971881 := by
  simp only [archiveLength, twoFiles, FileInfo.downloaded, List.map_cons, List.map_nil,
    List.sum_cons, List.sum_nil, ha, hb]
  rfl

/-- The records of the two files fit. -/
theorem recordable_twoFiles {crc32 : Bytes → UInt32} {bodies : String → Bytes}
    (ha : (bodies "a").length = 3) (hb : (bodies "b").length = 20971520) :
    Recordable crc32 bodies twoFiles := by
  refine ⟨fun f hf => ?_, by decide, by rw [archiveLength_twoFiles ha hb]; decide⟩
  simp only [twoFiles, List.mem_cons, List.not_mem_nil, or_false] at hf
  rcases hf with rfl | rfl
  · exact ha
  · exact hb

/-- In some run over the two files nothing fails, and more than one part is stored. -/
theorem exists_run_twoFiles {crc32 : Bytes → UInt32} {bodies : String → Bytes}
    (ha : (bodies "a").length = 3) (hb : (bodies "b").length = 20971520) :
    ∃ evs j, StoredRun crc32 bodies (.start twoFiles) evs j ∧ j.job.phase = .completed ∧
      j.lost = [] ∧ 1 < j.stored.length := by
  have hrec : Recordable crc32 bodies twoFiles := recordable_twoFiles ha hb
  obtain ⟨evs, j, hrun, hphase, hlost⟩ := exists_run_completed hrec
  have hlen := hrun.inv.length_le (hrun.inv.passed (.inr hphase)) hlost
  rw [archiveLength_twoFiles ha hb, show chunkSizeBytes = 10485760 from rfl] at hlen
  exact ⟨evs, j, hrun, hphase, hlost, by omega⟩

theorem entries_twoFiles : twoFiles.map (FileInfo.entry crcOfTwo bodiesOfTwo) =
    [⟨utf8 "a", 0x55BC801D, [1, 2, 3]⟩,
      ⟨utf8 "b", 0x38773417, List.replicate 20971520 0⟩] := by
  have ha : bodiesOfTwo "a" = [1, 2, 3] := rfl
  simp only [twoFiles, FileInfo.entry, List.map_cons, List.map_nil, ha, bodiesOfTwo_b]
  rfl

/-- Two files are archived in parts of 10 MiB. -/
theorem runArchiveJob_archive_two : ∃ (j : StoredJob) (parts : List CompletedPart)
    (entries : List Zip.StreamedFile), j.job.phase = .completed ∧ 1 < j.stored.length ∧
      entries.Perm [⟨utf8 "a", 0x55BC801D, [1, 2, 3]⟩,
        ⟨utf8 "b", 0x38773417, List.replicate 20971520 0⟩] ∧
      Zip.StreamedReadsBack (j.object parts) entries := by
  obtain ⟨evs, j, hrun, hphase, hlost, hmany⟩ :=
    exists_run_twoFiles length_bodiesOfTwo.1 length_bodiesOfTwo.2
  obtain ⟨parts, entries, archive, chunks, _, hperm, hread, _, _, _, _, hiff⟩ :=
    runArchiveJob_archive hrun hphase
  rw [entries_twoFiles] at hperm
  exact ⟨j, parts, entries, hphase, hmany, hperm, (hiff.2 hlost).symm ▸ hread⟩

end S3Archive.SebstoTs
