import S3Archive.SebstoTs.Pipeline

/-!
# sebsto TypeScript: every run of the job ends

`Job.todo` prices what is left to do: a byte costs less in the chunk than in the
buffer it comes from, and a chunk costs less than its bytes. Every step of the job
lowers it (`JobStep.todo_lt`), so a run has at most `(Job.start files).todo` steps.
-/

namespace S3Archive.SebstoTs

/-! ## Lengths of the buffers -/

theorem length_centralDirectoryHeader {entry : ZipEntry} {bs : Bytes}
    (h : centralDirectoryHeader entry = some bs) : bs.length = 74 + entry.nameBytes.length := by
  have hentry : entry = zipEntry entry.localHeaderOffset
      ⟨entry.nameBytes, entry.crc32, List.replicate entry.size 0⟩ := by
    simp [zipEntry]
  rw [hentry, centralDirectoryHeader_eq_some] at h
  rw [h.2, Zip.CentralHeader.length_encode]
  simp only [Zip.StreamedFile.centralRecord, Zip.zip64Extra_length,
    Zip.StreamedFile.length_wideData, List.length_nil]
  omega

def buffersTodo (buffers : List Bytes) : Nat := (buffers.map fun b => 6 * b.length + 1).sum

@[simp] theorem buffersTodo_nil : buffersTodo [] = 0 := rfl

@[simp] theorem buffersTodo_cons (b : Bytes) (buffers : List Bytes) :
    buffersTodo (b :: buffers) = 6 * b.length + 1 + buffersTodo buffers := by
  simp [buffersTodo]

@[simp] theorem buffersTodo_append (bs₁ bs₂ : List Bytes) :
    buffersTodo (bs₁ ++ bs₂) = buffersTodo bs₁ + buffersTodo bs₂ := by
  simp [buffersTodo]

/-- A file's own buffers, and its header in the directory. -/
def fileTodo (nameLen size : Nat) : Nat := 6 * (128 + 2 * nameLen + size) + 6

/-- The directory and the end records of the entries so far. -/
def ZipLocals.todo (z : ZipLocals) : Nat :=
  (z.entries.map fun e => 6 * (74 + e.nameBytes.length) + 1).sum + (6 * 98 + 3)

theorem buffersTodo_fileBuffers {file : DownloadedFile} {buffers : List Bytes}
    (h : fileBuffers file = some buffers) :
    buffersTodo buffers = 6 * (54 + (utf8 file.name).length + file.body.length) + 3 := by
  obtain ⟨-, rfl⟩ := (fileBuffers_guarded file buffers).1 h
  have hsum := sum_buffersOf file
  simp only [buffersOf, Zip.StreamedFile.contentLen, streamed, List.map_cons, List.map_nil,
    List.sum_cons, List.sum_nil, buffersTodo_cons, buffersTodo_nil] at hsum ⊢
  omega

theorem buffersTodo_headers {entries : List ZipEntry} {headers : List Bytes}
    (h : entries.mapM centralDirectoryHeader = some headers) :
    buffersTodo headers = (entries.map fun e => 6 * (74 + e.nameBytes.length) + 1).sum := by
  induction entries generalizing headers with
  | nil =>
    cases h
    rfl
  | cons e entries ih =>
    rw [List.mapM_cons] at h
    simp only [Option.bind_eq_bind, Option.bind_eq_some_iff, Option.pure_def,
      Option.some.injEq] at h
    obtain ⟨header, hheader, rest, hrest, rfl⟩ := h
    simp [ih hrest, length_centralDirectoryHeader hheader]

theorem buffersTodo_endBuffers {z : ZipLocals} {buffers : List Bytes}
    (h : endBuffers z = some buffers) : buffersTodo buffers = z.todo := by
  unfold endBuffers at h
  simp only [Option.bind_eq_bind, Option.bind_eq_some_iff, zip64EndOfCentralDirectory_eq_some,
    zip64EndOfCentralDirectoryLocator_eq_some, Option.pure_def, Option.some.injEq] at h
  obtain ⟨headers, hheaders, _, ⟨-, rfl⟩, _, ⟨-, rfl⟩, rfl⟩ := h
  have hend : endOfCentralDirectory.length = 22 := by decide
  simp only [buffersTodo_append, buffersTodo_headers hheaders, buffersTodo_cons, buffersTodo_nil,
    hend, Zip.EndHeader.length_encode64, Zip.length_encodeLocator, ZipLocals.todo]

theorem ZipLocals.todo_add (z : ZipLocals) (file : DownloadedFile) (buffers : List Bytes) :
    (z.add file buffers).todo = z.todo + (6 * (74 + (utf8 file.name).length) + 1) := by
  simp only [ZipLocals.todo, ZipLocals.add, List.map_append, List.map_cons, List.map_nil,
    List.sum_append, List.sum_cons, List.sum_nil]
  omega

/-! ## What is left to do -/

def FileInfo.todo (file : FileInfo) : Nat := fileTodo (utf8 file.name).length file.size

def DownloadPhase.todo : DownloadPhase → Nat
  | looping files => (files.map fun f => f.todo + 3).sum + 3
  | waiting file files => file.todo + 2 + (files.map fun f => f.todo + 3).sum + 3
  | joining _ => 2
  | resolved => 0
  | rejected => 0

def DownloadStage.todo (d : DownloadStage) : Nat :=
  d.phase.todo + (d.inflight.map fun f => f.todo + 1).sum

def FileChannel.todo (c : FileChannel) : Nat :=
  (c.queue.map fun f => fileTodo (utf8 f.name).length f.body.length).sum

/-- What comes after the buffers of a task. -/
def ZipTask.todo (z : ZipLocals) : ZipTask → Nat
  | entry file buffers => (z.add file buffers).todo + 5
  | ends => 3

def ZipStageState.todo (z : ZipStageState) : Nat :=
  match z.phase with
  | .receiving => z.locals.todo + 4
  | .appending buffers task => buffersTodo buffers + task.todo z.locals
  | .emitting buffers task => buffersTodo buffers + task.todo z.locals
  | .finishing => 2
  | .resolved => 0
  | .rejected => 0

def ChunkProducer.todo (p : ChunkProducer) : Nat := 5 * p.buffer.length + 4 * p.chunkQueue.length

def UploadPhase.todo : UploadPhase → Nat
  | receiving => 3
  | racing _ _ => 6
  | joining _ => 2
  | resolved _ => 0
  | rejected => 0

def UploadStage.todo (u : UploadStage) : Nat := u.phase.todo + 2 * u.inflight.length

def Stages.todo (s : Stages) : Nat :=
  s.download.todo + s.fileChannel.todo + s.zip.todo + s.producer.todo + s.upload.todo

def JobPhase.todo : JobPhase → Nat
  | running => 3
  | completing => 2
  | aborting => 1
  | completed => 0
  | aborted => 0
  | crashed => 0

def Job.todo (j : Job) : Nat := j.stages.todo + j.phase.todo

@[simp] theorem DownloadPhase.todo_settle (phase : DownloadPhase) (ok : Bool)
    (rest : List FileInfo) : (phase.settle ok rest).todo = phase.todo := by
  unfold settle
  split
  · split <;> rfl
  · rfl

@[simp] theorem UploadPhase.todo_settle (phase : UploadPhase) (ok : Bool)
    (rest : List UploadChunk) : (phase.settle ok rest).todo = phase.todo := by
  unfold settle
  split
  · rfl
  · split <;> rfl
  · rfl

theorem UploadStep.todo_lt {p p' : ChunkProducer} {u u' : UploadStage} {ev : UploadEvent}
    (h : UploadStep p u ev p' u') : p'.todo + u'.todo < p.todo + u.todo := by
  cases h with
  | recv hphase hqueue hroom =>
    simp [ChunkProducer.todo, UploadStage.todo, UploadStage.upload, UploadPhase.todo, hphase,
      hqueue]
    omega
  | recvFull hphase hqueue hfull =>
    simp [ChunkProducer.todo, UploadStage.todo, UploadPhase.todo, hphase, hqueue]
    omega
  | recvEnd hphase hqueue hclosed => simp [UploadStage.todo, UploadPhase.todo, hphase]
  | raced hphase =>
    simp [UploadStage.todo, UploadStage.upload, UploadPhase.todo, hphase]
    omega
  | raceRejected hphase => simp [UploadStage.todo, UploadPhase.todo, hphase]
  | joined hphase => simp [UploadStage.todo, UploadPhase.todo, hphase]
  | joinRejected hphase => simp [UploadStage.todo, UploadPhase.todo, hphase]
  | uploaded hinflight hetag =>
    simp [ChunkProducer.todo, ChunkProducer.releaseSlot, UploadStage.todo, hinflight]
  | failed hinflight =>
    simp [ChunkProducer.todo, ChunkProducer.releaseSlot, UploadStage.todo, hinflight]

/-! ## The chunk that is being filled -/

/-- Between two steps the chunk is full only while it waits to be emitted. -/
def ZipPhase.Filling (phase : ZipPhase) (p : ChunkProducer) : Prop :=
  0 < p.chunkSize ∧
    match phase with
    | emitting _ _ => p.buffer.length = p.chunkSize
    | rejected => True
    | _ => p.buffer.length < p.chunkSize

theorem UploadStep.buffer {p p' : ChunkProducer} {u u' : UploadStage} {ev : UploadEvent}
    (h : UploadStep p u ev p' u') : p'.buffer = p.buffer ∧ p'.chunkSize = p.chunkSize := by
  cases h <;> exact ⟨rfl, rfl⟩

/-- `fill` changes the chunk alone. -/
theorem ChunkProducer.fill_eq {p p' : ChunkProducer} {src rest : Bytes}
    (h : p.fill src = (p', rest)) :
    p' = { p with buffer := p'.buffer } ∧
      fillChunk p.chunkSize p.buffer src = (p'.buffer, rest) := by
  simp only [fill, Prod.mk.injEq] at h
  obtain ⟨rfl, rfl⟩ := h
  exact ⟨rfl, rfl⟩

/-- The archive writer's steps keep the chunk filling. -/
theorem StageStep.filling {crc32 : Bytes → UInt32} {s s' : Stages} {ev : StageEvent}
    (h : StageStep crc32 s ev s') (hfill : s.zip.phase.Filling s.producer) :
    s'.zip.phase.Filling s'.producer := by
  obtain ⟨hpos, hfill⟩ := hfill
  cases h with
  | recv hphase hqueue hbuffers =>
    rw [hphase] at hfill
    exact ⟨hpos, hfill⟩
  | recvEnd hphase hqueue hclosed hbuffers =>
    rw [hphase] at hfill
    exact ⟨hpos, hfill⟩
  | @fill buffer rest buffers task p hphase hfilled =>
    rw [hphase] at hfill
    obtain ⟨hp, hchunk⟩ := ChunkProducer.fill_eq hfilled
    obtain ⟨-, hle, -⟩ := fillChunk_spec hchunk hfill
    have hsize : p.chunkSize = s.producer.chunkSize := by rw [hp]
    refine ⟨hsize ▸ hpos, ?_⟩
    unfold ZipPhase.appended
    by_cases hfull : p.buffer.length = p.chunkSize
    · rw [if_pos hfull]
      exact hfull
    · rw [if_neg hfull]
      dsimp only
      omega
  | emit hphase hslot => exact ⟨hpos, hpos⟩
  | entryEnd hphase =>
    rw [hphase] at hfill
    exact ⟨hpos, hfill⟩
  | endsEnd hphase =>
    rw [hphase] at hfill
    exact ⟨hpos, hfill⟩
  | finishEmit hphase hbuffer hslot =>
    rw [hphase]
    exact ⟨hpos, hpos⟩
  | finishClose hphase hbuffer =>
    rw [hphase] at hfill
    exact ⟨hpos, hfill⟩
  | zipFailed hrunning => exact ⟨hpos, trivial⟩
  | upload h =>
    obtain ⟨hbuffer, hsize⟩ := h.buffer
    unfold ZipPhase.Filling
    rw [hbuffer, hsize]
    exact ⟨hpos, hfill⟩
  | _ => exact ⟨hpos, hfill⟩

theorem StageStep.todo_lt {crc32 : Bytes → UInt32} {s s' : Stages} {ev : StageEvent}
    (h : StageStep crc32 s ev s') (hfill : s.zip.phase.Filling s.producer) :
    s'.todo < s.todo := by
  obtain ⟨hpos, hfill⟩ := hfill
  unfold Stages.todo
  cases h with
  | acquire hphase hroom =>
    simp [DownloadStage.todo, DownloadStage.download, DownloadPhase.todo, hphase]
    omega
  | acquireWait hphase hfull =>
    simp [DownloadStage.todo, DownloadPhase.todo, hphase]
  | acquired hphase hwoken =>
    simp [DownloadStage.todo, DownloadStage.download, DownloadPhase.todo, hphase]
    omega
  | loopEnd hphase => simp [DownloadStage.todo, DownloadStage.join, DownloadPhase.todo, hphase]
  | downloaded hinflight hsize =>
    simp [DownloadStage.todo, FileChannel.todo, FileChannel.send, FileInfo.todo, hinflight, hsize]
    omega
  | downloadFailed hinflight =>
    simp [DownloadStage.todo, hinflight]
  | @downloadEnd ok hphase =>
    cases ok <;> simp [DownloadStage.todo, DownloadPhase.todo, FileChannel.todo,
      FileChannel.finish, hphase]
  | recv hphase hqueue hbuffers =>
    have hlen := buffersTodo_fileBuffers hbuffers
    simp only [FileChannel.todo, ZipStageState.todo, ZipTask.todo, ZipLocals.todo_add, fileTodo,
      hphase, hqueue, hlen, List.map_cons, List.sum_cons]
    omega
  | recvEnd hphase hqueue hclosed hbuffers =>
    simp only [ZipStageState.todo, ZipTask.todo, hphase, buffersTodo_endBuffers hbuffers]
    omega
  | @fill buffer rest buffers task p hphase hfilled =>
    rw [hphase] at hfill
    obtain ⟨hp, hchunk⟩ := ChunkProducer.fill_eq hfilled
    obtain ⟨hbytes, hle, hrest⟩ := fillChunk_spec hchunk hfill
    have hlen := congrArg List.length hbytes
    simp only [List.length_append] at hlen
    have hsize : p.chunkSize = s.producer.chunkSize := by rw [hp]
    have hqueue : p.chunkQueue = s.producer.chunkQueue := by rw [hp]
    unfold ZipPhase.appended
    by_cases hfull : p.buffer.length = p.chunkSize
    · simp only [if_pos hfull, ZipStageState.todo, hphase, buffersTodo_cons, ChunkProducer.todo,
        hqueue]
      omega
    · have hempty := hrest (by omega)
      rw [hempty, List.length_nil] at hlen
      simp only [if_neg hfull, ZipStageState.todo, hphase, buffersTodo_cons, ChunkProducer.todo,
        hqueue]
      omega
  | emit hphase hslot =>
    rw [hphase] at hfill
    simp only [ZipStageState.todo, hphase, ChunkProducer.todo, ChunkProducer.emitFullChunk,
      List.length_append, List.length_singleton, List.length_nil]
    omega
  | entryEnd hphase =>
    simp only [ZipStageState.todo, ZipTask.todo, hphase, buffersTodo_nil]
    omega
  | endsEnd hphase => simp [ZipStageState.todo, ZipTask.todo, hphase]
  | finishEmit hphase hbuffer hslot =>
    have := List.length_pos_of_ne_nil hbuffer
    simp only [ChunkProducer.todo, ChunkProducer.emitFullChunk, List.length_append,
      List.length_singleton, List.length_nil]
    omega
  | finishClose hphase hbuffer =>
    simp [ZipStageState.todo, hphase, ChunkProducer.todo, ChunkProducer.close]
  | zipFailed hrunning =>
    have hrejected : ({ s.zip with phase := .rejected } : ZipStageState).todo = 0 := rfl
    have hpositive : 0 < s.zip.todo := by
      unfold ZipStageState.todo
      cases hphase : s.zip.phase with
      | appending buffers task => cases task <;> simp [ZipTask.todo]
      | emitting buffers task => cases task <;> simp [ZipTask.todo]
      | resolved => simp [ZipPhase.running, hphase] at hrunning
      | rejected => simp [ZipPhase.running, hphase] at hrunning
      | _ => simp
    dsimp only
    rw [hrejected]
    omega
  | upload h =>
    have := h.todo_lt
    dsimp only
    omega

theorem JobStep.filling {crc32 : Bytes → UInt32} {j j' : Job} {ev : JobEvent}
    (h : JobStep crc32 j ev j') (hfill : j.stages.zip.phase.Filling j.stages.producer) :
    j'.stages.zip.phase.Filling j'.stages.producer := by
  cases h with
  | stage halive h => exact h.filling hfill
  | _ => exact hfill

theorem JobStep.todo_lt {crc32 : Bytes → UInt32} {j j' : Job} {ev : JobEvent}
    (h : JobStep crc32 j ev j') (hfill : j.stages.zip.phase.Filling j.stages.producer) :
    j'.todo < j.todo := by
  unfold Job.todo
  cases h with
  | stage halive h => exact Nat.add_lt_add_right (h.todo_lt hfill) _
  | settled hphase hsettled =>
    rw [hphase]
    cases j.stages.rejected <;> simp [JobPhase.todo]
  | completed hphase => simp [JobPhase.todo, hphase]
  | completeFailed hphase => simp [JobPhase.todo, hphase]
  | aborted hphase => simp [JobPhase.todo, hphase]
  | crashed hphase hfailed hloop => simp [JobPhase.todo, hphase]

theorem Job.filling_start (files : List FileInfo) :
    (Job.start files).stages.zip.phase.Filling (Job.start files).stages.producer := by
  have hsize : 0 < chunkSizeBytes := by decide
  exact ⟨hsize, hsize⟩

theorem JobRun.filling {crc32 : Bytes → UInt32} {files : List FileInfo} {evs : List JobEvent}
    {j : Job} (h : JobRun crc32 (.start files) evs j) :
    j.stages.zip.phase.Filling j.stages.producer :=
  Run.invariant (P := fun j => j.stages.zip.phase.Filling j.stages.producer) h
    (Job.filling_start files) fun _ _ _ hfill hstep => hstep.filling hfill

/-- A run of the job has a bounded number of steps. -/
theorem JobRun.length_le {crc32 : Bytes → UInt32} {files : List FileInfo} {evs : List JobEvent}
    {j : Job} (h : JobRun crc32 (.start files) evs j) :
    evs.length + j.todo ≤ (Job.start files).todo :=
  Run.length_le h (Job.filling_start files) (fun _ _ _ hfill hstep => hstep.filling hfill)
    fun _ _ _ hfill hstep => hstep.todo_lt hfill

end S3Archive.SebstoTs
