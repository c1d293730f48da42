import S3Archive.SebstoTs.PipelineTermination
import S3Archive.SebstoSwift.Pipeline

/-!
# sebsto Swift: every run of the pipeline ends

`Pipeline.todo` prices what is left to do, a byte less in the chunk than before it,
a chunk less than its bytes, and a part less with every hand it passes through.
Every step lowers it (`PipelineStep.todo_lt`).
-/

namespace S3Archive.SebstoSwift

open SebstoTs (buffersTodo fileTodo)

/-! ## Lengths of what is appended -/

theorem length_flatten_le (buffers : List Bytes) :
    6 * buffers.flatten.length ≤ buffersTodo buffers := by
  induction buffers with
  | nil => simp
  | cons b buffers ih =>
    rw [List.flatten_cons, List.length_append, SebstoTs.buffersTodo_cons]
    omega

section

variable {z z' : ZipLocals} {file : DownloadedFile} {bytes : Bytes}

theorem todo_zipFile (h : zipFile (z, []) file = some (z', bytes)) :
    6 * bytes.length + z'.toTs.todo <
      fileTodo (utf8 file.name).length file.buffer.length + z.toTs.todo := by
  obtain ⟨buffers, hbuffers, hz, rfl⟩ := zipFile_toTs h
  have hlen := length_flatten_le buffers
  rw [SebstoTs.buffersTodo_fileBuffers hbuffers] at hlen
  rw [hz, SebstoTs.ZipLocals.todo_add, List.nil_append]
  simp only [DownloadedFile.toTs, fileTodo] at hlen ⊢
  omega

theorem todo_endBytes (h : endBytes z = some bytes) : 6 * bytes.length ≤ z.toTs.todo := by
  obtain ⟨ends, hends, rfl⟩ := endBytes_toTs h
  rw [← SebstoTs.buffersTodo_endBuffers hends]
  exact length_flatten_le ends

end

/-! ## What is left to do -/

def FileInfo.todo (file : FileInfo) : Nat := fileTodo (utf8 file.name).length file.size

def DownloadPhase.todo : DownloadPhase → Nat
  | looping files => (files.map fun f => f.todo + 4).sum + 3
  | waiting file files => file.todo + 3 + (files.map fun f => f.todo + 4).sum + 3
  | joining => 2
  | returned => 0
  | threw => 0

def DownloadStage.todo (d : DownloadStage) : Nat :=
  d.phase.todo + (d.inflight.map fun f => f.todo + 2).sum

def channelTodo (c : AsyncStream DownloadedFile) : Nat :=
  (c.buffered.map fun f => fileTodo (utf8 f.name).length f.buffer.length + 1).sum

def ZipTask.todo : ZipTask → Nat
  | entry _ z => z.toTs.todo + 7
  | ends => 5

def ZipStageState.todo (z : ZipStageState) : Nat :=
  match z.phase with
  | .receiving => z.locals.toTs.todo + 6
  | .appending bytes task => 6 * bytes.length + task.todo
  | .emitting bytes task => 6 * bytes.length + task.todo
  | .finishing => 4
  | .closing => 3
  | .returned => 0

def ChunkProducer.todo (p : ChunkProducer) : Nat :=
  5 * p.buffer.length + 4 * p.stream.buffered.length + (!p.stream.terminated).toNat

def UploadPhase.todo : UploadPhase → Nat
  | receiving => 4
  | reaping _ => 7
  | draining => 3
  | throwing => 2
  | returned => 0
  | threw => 0

def UploadStage.todo (u : UploadStage) : Nat :=
  u.phase.todo + 2 * u.inflight.length + u.done.length

def SupervisorPhase.todo : SupervisorPhase → Nat
  | awaitingDownload => 4
  | awaitingZip => 3
  | awaitingUpload => 2
  | unwinding => 1
  | returned _ => 0
  | threw => 0
  | trapped => 0

def Pipeline.todo (s : Pipeline) : Nat :=
  s.download.todo + channelTodo s.fileChannel + s.zip.todo + s.producer.todo + s.upload.todo +
    s.supervisor.todo

theorem ChunkProducer.todo_close (p : ChunkProducer) : p.close.todo ≤ p.todo := by
  simp only [todo, close, AsyncStream.finish]
  simp

/-- A chunk that is emitted, or dropped, costs less than its bytes. -/
theorem ChunkProducer.todo_emit {p : ChunkProducer} (hbuffer : p.buffer ≠ []) :
    p.emitFullChunk.todo < p.todo := by
  have hpos := List.length_pos_of_ne_nil hbuffer
  unfold todo emitFullChunk AsyncStream.yield
  by_cases hterm : p.stream.terminated = true
  · simp [hterm]
    omega
  · simp [hterm]
    omega

theorem ChunkProducer.fill_eq {p p' : ChunkProducer} {src rest : Bytes}
    (h : p.fill src = (p', rest)) :
    p' = { p with buffer := p'.buffer } ∧
      fillChunk p.chunkSize p.buffer src = (p'.buffer, rest) := by
  simp only [fill, Prod.mk.injEq] at h
  obtain ⟨rfl, rfl⟩ := h
  exact ⟨rfl, rfl⟩

/-! ## The chunk that is being filled -/

/-- Between two steps the chunk is full only while it waits to be emitted. -/
def ZipPhase.Filling (phase : ZipPhase) (p : ChunkProducer) : Prop :=
  0 < p.chunkSize ∧
    match phase with
    | emitting _ _ => p.buffer.length = p.chunkSize
    | closing => True
    | returned => True
    | _ => p.buffer.length < p.chunkSize

section

variable {crc32 : Bytes → UInt32} {s s' : Pipeline} {ev : PipelineEvent}

theorem DownloadStep.frame (h : DownloadStep crc32 s ev s') :
    s'.zip = s.zip ∧ s'.producer = s.producer ∧ s'.upload = s.upload ∧
      s'.supervisor = s.supervisor := by
  cases h <;> exact ⟨rfl, rfl, rfl, rfl⟩

theorem UploadStep.frame (h : UploadStep s ev s') :
    s'.byteBudget = s.byteBudget ∧ s'.fileChannel = s.fileChannel ∧ s'.download = s.download ∧
      s'.zip = s.zip ∧ s'.supervisor = s.supervisor ∧ s'.producer.buffer = s.producer.buffer ∧
      s'.producer.chunkSize = s.producer.chunkSize := by
  cases h <;> exact ⟨rfl, rfl, rfl, rfl, rfl, rfl, rfl⟩

theorem SupervisorStep.frame (h : SupervisorStep s s') :
    ∃ supervisor, s' = { s with supervisor } ∧ supervisor.todo < s.supervisor.todo := by
  cases h with
  | downloadReturned hphase hdownload => exact ⟨_, rfl, by simp [hphase, SupervisorPhase.todo]⟩
  | downloadThrew hphase hdownload => exact ⟨_, rfl, by simp [hphase, SupervisorPhase.todo]⟩
  | zipReturned hphase hzip => exact ⟨_, rfl, by simp [hphase, SupervisorPhase.todo]⟩
  | uploadReturned hphase hupload => exact ⟨_, rfl, by simp [hphase, SupervisorPhase.todo]⟩
  | uploadThrew hphase hupload => exact ⟨_, rfl, by simp [hphase, SupervisorPhase.todo]⟩
  | unwound hphase hzip hupload => exact ⟨_, rfl, by simp [hphase, SupervisorPhase.todo]⟩

theorem ZipStep.filling (h : ZipStep s ev s') (hfill : s.zip.phase.Filling s.producer) :
    s'.zip.phase.Filling s'.producer := by
  obtain ⟨hpos, hfill⟩ := hfill
  cases h with
  | recv hphase hbuffered hzip =>
    rw [hphase] at hfill
    exact ⟨hpos, hfill⟩
  | recvEnd hphase hbuffered hended hzip =>
    rw [hphase] at hfill
    exact ⟨hpos, hfill⟩
  | @fill bytes rest task p hphase hbytes hfilled =>
    rw [hphase] at hfill
    obtain ⟨hp, hchunk⟩ := ChunkProducer.fill_eq hfilled
    obtain ⟨-, hle, -⟩ := fillChunk_spec hchunk hfill
    have hsize : p.chunkSize = s.producer.chunkSize := by rw [hp]
    refine ⟨hsize ▸ hpos, ?_⟩
    unfold ZipPhase.appended
    by_cases hfull : p.buffer.length = p.chunkSize
    · rw [if_pos hfull]
      exact hfull
    · rw [if_neg hfull]
      dsimp only
      omega
  | emit hphase hslot => exact ⟨hpos, hpos⟩
  | entryEnd hphase =>
    rw [hphase] at hfill
    exact ⟨hpos, hfill⟩
  | endsEnd hphase =>
    rw [hphase] at hfill
    exact ⟨hpos, hfill⟩
  | finishEmit hphase hbuffer hslot => exact ⟨hpos, trivial⟩
  | finishEmpty hphase hbuffer => exact ⟨hpos, trivial⟩
  | finishClose hphase => exact ⟨hpos, trivial⟩

theorem PipelineStep.filling (h : PipelineStep crc32 s ev s')
    (hfill : s.zip.phase.Filling s.producer) : s'.zip.phase.Filling s'.producer := by
  cases h with
  | download halive h =>
    obtain ⟨hzip, hproducer, -, -⟩ := h.frame
    rw [hzip, hproducer]
    exact hfill
  | zip halive h => exact h.filling hfill
  | upload halive h =>
    obtain ⟨-, -, -, hzip, -, hbuffer, hsize⟩ := h.frame
    unfold ZipPhase.Filling
    rw [hzip, hbuffer, hsize]
    exact hfill
  | supervisor h =>
    obtain ⟨supervisor, rfl, -⟩ := h.frame
    exact hfill
  | trap hopen htraps => exact hfill

/-! ## Every step lowers it -/

theorem DownloadStep.todo_lt (h : DownloadStep crc32 s ev s') :
    s'.download.todo + channelTodo s'.fileChannel < s.download.todo + channelTodo s.fileChannel := by
  cases h with
  | acquire hphase hroom =>
    simp [DownloadStage.todo, DownloadStage.download, DownloadPhase.todo, hphase]
    omega
  | acquireWait hphase hfull =>
    simp [DownloadStage.todo, DownloadPhase.todo, hphase]
  | acquired hphase hwoken =>
    simp [DownloadStage.todo, DownloadStage.download, DownloadPhase.todo, hphase]
    omega
  | loopEnd hphase => simp [DownloadStage.todo, DownloadPhase.todo, hphase]
  | downloaded hinflight hsize =>
    unfold AsyncStream.yield
    split
    · simp [DownloadStage.todo, channelTodo, hinflight]
    · simp [DownloadStage.todo, channelTodo, FileInfo.todo, hinflight, hsize]
      omega
  | downloadFailed hinflight =>
    simp [DownloadStage.todo, hinflight]
  | joined hphase hinflight hfailed =>
    simp [DownloadStage.todo, DownloadPhase.todo, channelTodo, AsyncStream.finish, hphase]
  | joinThrew hphase hinflight hfailed => simp [DownloadStage.todo, DownloadPhase.todo, hphase]

theorem ZipStep.todo_lt (h : ZipStep s ev s') (hfill : s.zip.phase.Filling s.producer) :
    channelTodo s'.fileChannel + s'.zip.todo + s'.producer.todo <
      channelTodo s.fileChannel + s.zip.todo + s.producer.todo := by
  obtain ⟨hpos, hfill⟩ := hfill
  cases h with
  | recv hphase hbuffered hzip =>
    have hlen := todo_zipFile hzip
    simp only [channelTodo, ZipStageState.todo, ZipTask.todo, hphase, hbuffered, List.map_cons,
      List.sum_cons]
    omega
  | recvEnd hphase hbuffered hended hzip =>
    have hlen := todo_endBytes hzip
    simp only [ZipStageState.todo, ZipTask.todo, hphase]
    omega
  | @fill bytes rest task p hphase hbytes hfilled =>
    rw [hphase] at hfill
    obtain ⟨hp, hchunk⟩ := ChunkProducer.fill_eq hfilled
    obtain ⟨heq, hle, hrest⟩ := fillChunk_spec hchunk hfill
    have hlen := congrArg List.length heq
    simp only [List.length_append] at hlen
    have hsize : p.chunkSize = s.producer.chunkSize := by rw [hp]
    have hstream : p.stream = s.producer.stream := by rw [hp]
    have hsome := List.length_pos_of_ne_nil hbytes
    unfold ZipPhase.appended
    by_cases hfull : p.buffer.length = p.chunkSize
    · simp only [if_pos hfull, ZipStageState.todo, hphase, ChunkProducer.todo, hstream]
      omega
    · rw [hrest (by omega), List.length_nil] at hlen
      simp only [if_neg hfull, ZipStageState.todo, hphase, ChunkProducer.todo, hstream,
        List.length_nil]
      omega
  | emit hphase hslot =>
    rw [hphase] at hfill
    have hemit : s.producer.emitFullChunk.todo < s.producer.todo := by
      apply ChunkProducer.todo_emit
      rintro hnil
      simp [hnil] at hfill
      omega
    simp only [ZipStageState.todo, hphase]
    omega
  | entryEnd hphase =>
    simp only [ZipStageState.todo, ZipTask.todo, hphase, List.length_nil]
    omega
  | endsEnd hphase => simp [ZipStageState.todo, ZipTask.todo, hphase]
  | finishEmit hphase hbuffer hslot =>
    have := ChunkProducer.todo_emit hbuffer
    simp only [ZipStageState.todo, hphase]
    omega
  | finishEmpty hphase hbuffer => simp [ZipStageState.todo, hphase]
  | finishClose hphase =>
    have := s.producer.todo_close
    simp only [ZipStageState.todo, hphase]
    omega

theorem UploadStep.todo_lt (h : UploadStep s ev s') :
    s'.producer.todo + s'.upload.todo < s.producer.todo + s.upload.todo := by
  cases h with
  | recv hphase hbuffered hroom =>
    simp [ChunkProducer.todo, UploadStage.todo, UploadStage.addTask, UploadPhase.todo, hphase,
      hbuffered]
    omega
  | recvFull hphase hbuffered hfull =>
    simp [ChunkProducer.todo, UploadStage.todo, UploadPhase.todo, hphase, hbuffered]
    omega
  | recvEnd hphase hbuffered hended => simp [UploadStage.todo, UploadPhase.todo, hphase]
  | cancelled hphase hcancel hopen =>
    simp [ChunkProducer.todo, ChunkProducer.close, AsyncStream.finish, hopen]
  | reaped hphase hdone =>
    simp [UploadStage.todo, UploadStage.addTask, UploadPhase.todo, hphase, hdone]
    omega
  | reapThrew hphase hdone =>
    simp [UploadStage.todo, UploadPhase.todo, hphase, hdone]
    omega
  | drained hphase hdone => simp [UploadStage.todo, hdone]
  | drainThrew hphase hdone =>
    simp [UploadStage.todo, UploadPhase.todo, hphase, hdone]
    omega
  | drainEnd hphase hinflight hdone => simp [UploadStage.todo, UploadPhase.todo, hphase]
  | threw hphase hinflight => simp [UploadStage.todo, UploadPhase.todo, hphase]
  | uploaded hinflight =>
    simp [ChunkProducer.todo, ChunkProducer.releaseSlot, UploadStage.todo, hinflight]
    omega
  | uploadFailed hinflight =>
    simp [UploadStage.todo, hinflight]
    omega

theorem PipelineStep.todo_lt (h : PipelineStep crc32 s ev s')
    (hfill : s.zip.phase.Filling s.producer) : s'.todo < s.todo := by
  unfold Pipeline.todo
  cases h with
  | download halive h =>
    obtain ⟨hzip, hproducer, hupload, hsupervisor⟩ := h.frame
    have := h.todo_lt
    rw [hzip, hproducer, hupload, hsupervisor]
    omega
  | zip halive h =>
    have := h.todo_lt hfill
    obtain ⟨hdownload, hupload, hsupervisor⟩ : s'.download = s.download ∧ s'.upload = s.upload ∧
        s'.supervisor = s.supervisor := by
      cases h <;> exact ⟨rfl, rfl, rfl⟩
    rw [hdownload, hupload, hsupervisor]
    omega
  | upload halive h =>
    obtain ⟨-, hchannel, hdownload, hzip, hsupervisor, -, -⟩ := h.frame
    have := h.todo_lt
    rw [hchannel, hdownload, hzip, hsupervisor]
    omega
  | supervisor h =>
    obtain ⟨supervisor, rfl, hlt⟩ := h.frame
    exact Nat.add_lt_add_left hlt _
  | trap hopen htraps =>
    apply Nat.add_lt_add_left
    cases hphase : s.supervisor with
    | awaitingDownload => simp [SupervisorPhase.todo]
    | awaitingZip => simp [SupervisorPhase.todo]
    | awaitingUpload => simp [SupervisorPhase.todo]
    | unwinding => simp [SupervisorPhase.todo]
    | _ => simp [hphase, SupervisorPhase.final] at hopen

theorem PipelineRun.length_le {files : List FileInfo} {evs : List PipelineEvent}
    (h : PipelineRun crc32 (.start files) evs s) :
    evs.length + s.todo ≤ (Pipeline.start files).todo := by
  have hsize : 0 < chunkSize := by decide
  have hstart : (Pipeline.start files).zip.phase.Filling (Pipeline.start files).producer :=
    ⟨hsize, hsize⟩
  exact Run.length_le h hstart (fun a ev b hfill hstep => hstep.filling hfill)
    fun a ev b hfill hstep => hstep.todo_lt hfill

end

end S3Archive.SebstoSwift
