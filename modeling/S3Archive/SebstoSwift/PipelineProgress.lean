import S3Archive.SebstoSwift.PipelineTermination

/-!
# sebsto Swift: when the pipeline ends

A failed download keeps its bytes of the budget, a failed upload keeps its slot, and
so does a full chunk that is emitted into a stream that has ended with its reader
(`PipelineEvent.leaks`, while somebody may still wait for them). In a run without a
leak the bytes (`BudgetInv`) and the slots (`SlotInv`) are all accounted for, so that
`runPipeline_ends`: no task is stuck, and a failure is rethrown.
`runPipeline_stuck` is a run in which the bytes of a failed download are missed.
-/

namespace S3Archive.SebstoSwift

/-- Bytes or a slot are lost while somebody may wait for them, or the process ends. -/
def PipelineEvent.leaks : PipelineEvent → Bool
  | downloadFailed inLoop => inLoop
  | emit dropped => dropped
  | trap => true
  | uploadFailed zipping => zipping
  | _ => false

/-- A download or an upload has failed. -/
def PipelineEvent.failure : PipelineEvent → Bool
  | downloadFailed _ => true
  | uploadFailed _ => true
  | _ => false

section

variable {crc32 : Bytes → UInt32} {s s' : Pipeline} {ev : PipelineEvent}

/-! ## The byte budget -/

def ZipTask.files : ZipTask → List DownloadedFile
  | entry file _ => [file]
  | ends => []

/-- The file whose bytes are being appended. -/
def ZipPhase.files : ZipPhase → List DownloadedFile
  | appending _ task => task.files
  | emitting _ task => task.files
  | _ => []

theorem ZipPhase.files_appended (p : ChunkProducer) (rest : Bytes) (task : ZipTask) :
    (appended p rest task).files = task.files := by
  unfold appended
  split <;> rfl

/-- The sizes that hold bytes of the budget. -/
def Pipeline.live (s : Pipeline) : List Nat :=
  s.download.inflight.map FileInfo.size ++
    (s.fileChannel.buffered ++ s.zip.phase.files).map DownloadedFile.releaseBytes

def Pipeline.liveBytes (s : Pipeline) : Nat :=
  (s.live.map fun amount => min amount s.byteBudget.capacity).sum

/-- The size that the stage waits for. -/
def DownloadPhase.request : DownloadPhase → Option Nat
  | waiting file _ => some file.size
  | _ => none

/-- While downloads are started, the files of the pipeline hold what is missing from the budget. -/
structure BudgetInv (s : Pipeline) : Prop where
  budget : s.download.phase.inLoop = true →
    s.byteBudget.available + s.liveBytes = s.byteBudget.capacity
  serves : s.download.phase.inLoop = true → s.byteBudget.Serves s.download.phase.request

theorem BudgetInv.download (hinv : BudgetInv s)
    (hopen : s.fileChannel.terminated = true → s.download.phase = .returned)
    (h : DownloadStep crc32 s ev s') (hkeep : ev.leaks = false) : BudgetInv s' := by
  obtain ⟨hbudget, hserves⟩ := hinv
  cases h with
  | acquire hphase hroom =>
    rw [hphase] at hbudget hserves
    have hsum := hbudget rfl
    refine ⟨fun _ => ?_, fun _ => hserves rfl⟩
    simp [Pipeline.liveBytes, Pipeline.live, DownloadStage.download, ByteSemaphore.take,
      ByteSemaphore.needed] at hsum ⊢
    omega
  | acquireWait hphase hfull =>
    rw [hphase] at hbudget hserves
    exact ⟨fun _ => hbudget rfl, fun _ => (hserves rfl).wait hfull⟩
  | acquired hphase hwoken =>
    rw [hphase] at hbudget hserves
    have hsum := hbudget rfl
    rcases hserves rfl with ⟨-, hnone, -⟩ | ⟨hwaiters, hone⟩
    · rw [hnone] at hwoken
      cases hwoken
    · rw [hone] at hwoken
      cases hwoken
      refine ⟨fun _ => ?_, fun _ => ⟨hwaiters, rfl⟩⟩
      simp [Pipeline.liveBytes, Pipeline.live, DownloadStage.download, ByteSemaphore.take,
        ByteSemaphore.needed] at hsum ⊢
      omega
  | loopEnd hphase => exact ⟨by simp [DownloadPhase.inLoop], by simp [DownloadPhase.inLoop]⟩
  | downloaded hinflight hsize =>
    refine ⟨fun hloop => ?_, hserves⟩
    have hsum := hbudget hloop
    have hlive : s.fileChannel.terminated = false := by
      refine Bool.eq_false_iff.2 fun hterm => ?_
      rw [hopen hterm] at hloop
      cases hloop
    simp [Pipeline.liveBytes, Pipeline.live, AsyncStream.yield, hinflight, hlive] at hsum ⊢
    omega
  | downloadFailed hinflight =>
    have hloop : s.download.phase.inLoop = false := hkeep
    exact ⟨by simp [hloop], by simp [hloop]⟩
  | joined hphase hinflight hfailed =>
    exact ⟨by simp [DownloadPhase.inLoop], by simp [DownloadPhase.inLoop]⟩
  | joinThrew hphase hinflight hfailed =>
    exact ⟨by simp [DownloadPhase.inLoop], by simp [DownloadPhase.inLoop]⟩

theorem BudgetInv.zip (hinv : BudgetInv s) (h : ZipStep s ev s') : BudgetInv s' := by
  obtain ⟨hbudget, hserves⟩ := hinv
  cases h with
  | recv hphase hbuffered hzip =>
    refine ⟨fun hloop => ?_, hserves⟩
    have hsum := hbudget hloop
    simp [Pipeline.liveBytes, Pipeline.live, hbuffered, hphase, ZipPhase.files,
      ZipTask.files] at hsum ⊢
    omega
  | recvEnd hphase hbuffered hended hzip =>
    refine ⟨fun hloop => ?_, hserves⟩
    have hsum := hbudget hloop
    simpa [Pipeline.liveBytes, Pipeline.live, hphase, ZipPhase.files, ZipTask.files] using hsum
  | fill hphase hbytes hfill =>
    refine ⟨fun hloop => ?_, hserves⟩
    have hsum := hbudget hloop
    simp only [Pipeline.liveBytes, Pipeline.live, hphase, ZipPhase.files_appended] at hsum ⊢
    exact hsum
  | emit hphase hslot =>
    refine ⟨fun hloop => ?_, hserves⟩
    have hsum := hbudget hloop
    simp only [Pipeline.liveBytes, Pipeline.live, hphase] at hsum ⊢
    exact hsum
  | entryEnd hphase =>
    refine ⟨fun hloop => ?_, fun hloop => (hserves hloop).release _⟩
    have hsum := hbudget hloop
    simp [Pipeline.liveBytes, Pipeline.live, hphase, ZipPhase.files, ZipTask.files,
      ByteSemaphore.release, ByteSemaphore.needed] at hsum ⊢
    omega
  | endsEnd hphase =>
    refine ⟨fun hloop => ?_, hserves⟩
    have hsum := hbudget hloop
    simpa [Pipeline.liveBytes, Pipeline.live, hphase, ZipPhase.files, ZipTask.files] using hsum
  | finishEmit hphase hbuffer hslot =>
    refine ⟨fun hloop => ?_, hserves⟩
    have hsum := hbudget hloop
    simpa [Pipeline.liveBytes, Pipeline.live, hphase, ZipPhase.files] using hsum
  | finishEmpty hphase hbuffer =>
    refine ⟨fun hloop => ?_, hserves⟩
    have hsum := hbudget hloop
    simpa [Pipeline.liveBytes, Pipeline.live, hphase, ZipPhase.files] using hsum
  | finishClose hphase =>
    refine ⟨fun hloop => ?_, hserves⟩
    have hsum := hbudget hloop
    simpa [Pipeline.liveBytes, Pipeline.live, hphase, ZipPhase.files] using hsum

theorem BudgetInv.upload (hinv : BudgetInv s) (h : UploadStep s ev s') : BudgetInv s' := by
  obtain ⟨hbudget, hchannel, hdownload, hzip, -, -, -⟩ := h.frame
  refine ⟨?_, ?_⟩
  · unfold Pipeline.liveBytes Pipeline.live
    rw [hbudget, hchannel, hdownload, hzip]
    exact hinv.budget
  · rw [hbudget, hdownload]
    exact hinv.serves

/-! ## The slots -/

/-- The archive stage may still wait for a slot. -/
def ZipPhase.needsSlots : ZipPhase → Bool
  | closing => false
  | returned => false
  | _ => true

def UploadPhase.held : UploadPhase → List UploadChunk
  | reaping chunk => [chunk]
  | _ => []

/-- The group's body has thrown. -/
def UploadPhase.failed : UploadPhase → Bool
  | throwing => true
  | threw => true
  | _ => false

/-- The stage still iterates over the stream. -/
def UploadPhase.inLoop : UploadPhase → Bool
  | receiving => true
  | reaping _ => true
  | _ => false

/-- While the archive stage needs slots, each one is held by a chunk on its way. -/
structure SlotInv (s : Pipeline) : Prop where
  limit : 0 < s.producer.maxInFlight
  slots : s.zip.phase.needsSlots = true → s.producer.inFlight =
    s.producer.stream.buffered.length + s.upload.inflight.length + s.upload.phase.held.length
  clean : s.zip.phase.needsSlots = true →
    none ∉ s.upload.done ∧ s.upload.phase.failed = false
  count : s.upload.phase.inLoop = true →
    s.upload.inFlightCount = s.upload.inflight.length + s.upload.done.length
  reaping : ∀ chunk, s.upload.phase = .reaping chunk →
    maxConcurrentUploads ≤ s.upload.inFlightCount
  drained : s.upload.phase = .draining ∨ s.upload.phase = .returned →
    s.producer.stream.terminated = true ∧ s.producer.stream.buffered = []
  ended : s.upload.phase.final = true → s.upload.inflight = []
  returned : s.upload.phase = .returned → s.upload.done = []
  closed : s.zip.phase = .returned → s.producer.stream.terminated = true

theorem SlotInv.zip (hinv : SlotInv s) (h : ZipStep s ev s') (hkeep : ev.leaks = false) :
    SlotInv s' := by
  have hslots := hinv.slots
  have hclean := hinv.clean
  cases h with
  | recv hphase hbuffered hzip =>
    rw [hphase] at hslots hclean
    exact { hinv with slots := hslots, clean := hclean, closed := by simp }
  | recvEnd hphase hbuffered hended hzip =>
    rw [hphase] at hslots hclean
    exact { hinv with slots := hslots, clean := hclean, closed := by simp }
  | @fill bytes rest task p hphase hbytes hfill =>
    obtain ⟨hp, -⟩ := ChunkProducer.fill_eq hfill
    rw [hphase] at hslots hclean
    rw [hp]
    refine { hinv with slots := fun _ => hslots rfl, clean := fun _ => hclean rfl, closed := ?_ }
    unfold ZipPhase.appended
    split <;> simp
  | emit hphase hslot =>
    rw [hphase] at hslots hclean
    have hopen : s.producer.stream.terminated = false := hkeep
    refine { hinv with slots := fun _ => ?_, clean := hclean, drained := ?_, closed := by simp }
    · have := hslots rfl
      simp [ChunkProducer.emitFullChunk, AsyncStream.yield, hopen]
      omega
    · intro hdrained
      rw [(hinv.drained hdrained).1] at hopen
      cases hopen
  | entryEnd hphase =>
    rw [hphase] at hslots hclean
    exact { hinv with slots := hslots, clean := hclean, closed := by simp }
  | endsEnd hphase =>
    rw [hphase] at hslots hclean
    exact { hinv with slots := hslots, clean := hclean, closed := by simp }
  | finishEmit hphase hbuffer hslot =>
    refine { hinv with slots := by simp [ZipPhase.needsSlots],
                       clean := by simp [ZipPhase.needsSlots], drained := ?_, closed := by simp }
    intro hdrained
    have hold := hinv.drained hdrained
    simpa [ChunkProducer.emitFullChunk, AsyncStream.yield, hold.1] using hold
  | finishEmpty hphase hbuffer =>
    exact { hinv with slots := by simp [ZipPhase.needsSlots],
                      clean := by simp [ZipPhase.needsSlots], closed := by simp }
  | finishClose hphase =>
    exact { hinv with slots := by simp [ZipPhase.needsSlots],
                      clean := by simp [ZipPhase.needsSlots],
                      drained := fun h => ⟨rfl, (hinv.drained h).2⟩, closed := fun _ => rfl }

section

variable {chunk : UploadChunk} {chunks cs₁ cs₂ : List UploadChunk}
  {done : List (Option CompletedPart)}

/-- A chunk goes from the stream to its upload. -/
theorem SlotInv.recvChunk (hinv : SlotInv s) (hphase : s.upload.phase = .receiving)
    (hbuffered : s.producer.stream.buffered = chunk :: chunks) :
    SlotInv { s with
      producer := { s.producer with stream := { s.producer.stream with buffered := chunks } }
      upload := s.upload.addTask chunk } := by
  have hslots := hinv.slots
  have hclean := hinv.clean
  have hcount := hinv.count
  rw [hphase] at hslots hclean hcount
  refine { hinv with slots := fun hneeds => ?_, clean := hclean, count := fun _ => ?_,
                     reaping := ?_, drained := ?_, ended := ?_, returned := ?_ }
  · have := hslots hneeds
    rw [hbuffered] at this
    simp [UploadStage.addTask, UploadPhase.held] at this ⊢
    omega
  · have := hcount rfl
    simp [UploadStage.addTask]
    omega
  · simp [UploadStage.addTask]
  · simp [UploadStage.addTask]
  · simp [UploadStage.addTask, UploadPhase.final]
  · simp [UploadStage.addTask]

/-- A chunk is held until another upload is reaped. -/
theorem SlotInv.hold (hinv : SlotInv s) (hphase : s.upload.phase = .receiving)
    (hbuffered : s.producer.stream.buffered = chunk :: chunks)
    (hfull : maxConcurrentUploads ≤ s.upload.inFlightCount) :
    SlotInv { s with
      producer := { s.producer with stream := { s.producer.stream with buffered := chunks } }
      upload := { s.upload with phase := .reaping chunk } } := by
  have hslots := hinv.slots
  have hclean := hinv.clean
  have hcount := hinv.count
  rw [hphase] at hslots hclean hcount
  refine { hinv with slots := fun hneeds => ?_, clean := hclean, count := hcount,
                     reaping := fun _ _ => hfull, drained := by simp,
                     ended := by simp [UploadPhase.final], returned := by simp }
  have := hslots hneeds
  rw [hbuffered] at this
  simp [UploadPhase.held] at this ⊢
  omega

/-- The stream has ended. -/
theorem SlotInv.drain (hinv : SlotInv s) (hphase : s.upload.phase = .receiving)
    (hbuffered : s.producer.stream.buffered = []) (hended : s.producer.stream.terminated = true) :
    SlotInv { s with upload := { s.upload with phase := .draining } } := by
  have hslots := hinv.slots
  have hclean := hinv.clean
  rw [hphase] at hslots hclean
  exact { hinv with slots := hslots, clean := hclean, count := by simp [UploadPhase.inLoop],
                    reaping := by simp, drained := fun _ => ⟨hended, hbuffered⟩,
                    ended := by simp [UploadPhase.final], returned := by simp }

/-- An upload is reaped, and the chunk that is held takes its turn. -/
theorem SlotInv.reap {part : CompletedPart} (hinv : SlotInv s)
    (hphase : s.upload.phase = .reaping chunk) (hdone : s.upload.done = some part :: done) :
    SlotInv { s with
      upload :=
        { s.upload with
          inFlightCount := s.upload.inFlightCount - 1
          done
          completed := s.upload.completed ++ [part] }.addTask chunk } := by
  have hslots := hinv.slots
  have hclean := hinv.clean
  have hcount := hinv.count
  rw [hphase] at hslots hclean hcount
  rw [hdone] at hclean hcount
  refine { hinv with slots := fun hneeds => ?_, clean := fun hneeds => ?_, count := fun _ => ?_,
                     reaping := ?_, drained := ?_, ended := ?_, returned := ?_ }
  · have := hslots hneeds
    simp [UploadStage.addTask, UploadPhase.held] at this ⊢
    omega
  · have := hclean hneeds
    simp [UploadStage.addTask, UploadPhase.failed] at this ⊢
    exact this
  · have := hcount rfl
    simp [UploadStage.addTask] at this ⊢
    omega
  · simp [UploadStage.addTask]
  · simp [UploadStage.addTask]
  · simp [UploadStage.addTask, UploadPhase.final]
  · simp [UploadStage.addTask]

/-- After a failed upload the archive stage needs no slots any more. -/
theorem SlotInv.throwing (hinv : SlotInv s) (hdone : s.upload.done = none :: done) :
    SlotInv { s with upload := { s.upload with phase := .throwing, done } } := by
  have hidle : ¬ s.zip.phase.needsSlots = true := fun h => by
    have hnone := (hinv.clean h).1
    rw [hdone] at hnone
    exact hnone List.mem_cons_self
  exact { hinv with slots := fun h => absurd h hidle, clean := fun h => absurd h hidle,
                    count := by simp [UploadPhase.inLoop], reaping := by simp,
                    drained := by simp, ended := by simp [UploadPhase.final],
                    returned := by simp }

theorem SlotInv.threw (hinv : SlotInv s) (hphase : s.upload.phase = .throwing)
    (hinflight : s.upload.inflight = []) :
    SlotInv { s with upload := { s.upload with phase := .threw } } := by
  have hidle : ¬ s.zip.phase.needsSlots = true := fun h => by
    have hfailed := (hinv.clean h).2
    rw [hphase] at hfailed
    cases hfailed
  exact { hinv with slots := fun h => absurd h hidle, clean := fun h => absurd h hidle,
                    count := by simp [UploadPhase.inLoop], reaping := by simp,
                    drained := by simp, ended := fun _ => hinflight, returned := by simp }

/-- While an upload is outstanding, the stage has not ended. -/
theorem SlotInv.running (hinv : SlotInv s) (hinflight : s.upload.inflight = cs₁ ++ chunk :: cs₂) :
    ¬ s.upload.phase.final = true ∧ s.upload.phase ≠ .returned := by
  have hopen : ¬ s.upload.phase.final = true := fun h => by simp [hinv.ended h] at hinflight
  exact ⟨hopen, fun h => hopen (by rw [h]; rfl)⟩

theorem SlotInv.uploaded {eTag : String} (hinv : SlotInv s)
    (hinflight : s.upload.inflight = cs₁ ++ chunk :: cs₂) :
    SlotInv { s with
      producer := s.producer.releaseSlot
      upload :=
        { s.upload with
          inflight := cs₁ ++ cs₂
          done := s.upload.done ++ [some ⟨eTag, chunk.partNumber⟩] } } := by
  obtain ⟨hopen, hreturned⟩ := hinv.running hinflight
  have hslots := hinv.slots
  have hclean := hinv.clean
  have hcount := hinv.count
  rw [hinflight] at hslots hcount
  refine { hinv with slots := fun hneeds => ?_, clean := fun hneeds => ?_, count := fun h => ?_,
                     ended := fun h => absurd h hopen, returned := fun h => absurd h hreturned }
  · have := hslots hneeds
    simp [ChunkProducer.releaseSlot] at this ⊢
    omega
  · have := hclean hneeds
    simp at this ⊢
    exact this
  · have := hcount h
    simp at this ⊢
    omega

/-- An upload fails after the archive stage has ended. -/
theorem SlotInv.uploadFailed (hinv : SlotInv s) (hzip : s.zip.phase = .returned)
    (hinflight : s.upload.inflight = cs₁ ++ chunk :: cs₂) :
    SlotInv { s with
      upload := { s.upload with inflight := cs₁ ++ cs₂, done := s.upload.done ++ [none] } } := by
  have hidle : ¬ s.zip.phase.needsSlots = true := by simp [hzip, ZipPhase.needsSlots]
  obtain ⟨hopen, hreturned⟩ := hinv.running hinflight
  have hcount := hinv.count
  rw [hinflight] at hcount
  refine { hinv with slots := fun h => absurd h hidle, clean := fun h => absurd h hidle,
                     count := fun h => ?_, ended := fun h => absurd h hopen,
                     returned := fun h => absurd h hreturned }
  have := hcount h
  simp at this ⊢
  omega

theorem SlotInv.upload (hinv : SlotInv s) (h : UploadStep s ev s') (hkeep : ev.leaks = false) :
    SlotInv s' := by
  cases h with
  | recv hphase hbuffered hroom => exact hinv.recvChunk hphase hbuffered
  | recvFull hphase hbuffered hfull => exact hinv.hold hphase hbuffered hfull
  | recvEnd hphase hbuffered hended => exact hinv.drain hphase hbuffered hended
  | cancelled hphase hcancel hopen =>
    exact { hinv with drained := fun h => ⟨rfl, (hinv.drained h).2⟩, closed := fun _ => rfl }
  | reaped hphase hdone => exact hinv.reap hphase hdone
  | reapThrew hphase hdone => exact hinv.throwing hdone
  | drained hphase hdone =>
    have hclean := hinv.clean
    rw [hdone] at hclean
    refine { hinv with clean := fun h => ?_, count := ?_, returned := ?_ }
    · have := hclean h
      simp at this ⊢
      exact this
    · simp [hphase, UploadPhase.inLoop]
    · simp [hphase]
  | drainThrew hphase hdone => exact hinv.throwing hdone
  | drainEnd hphase hinflight hdone =>
    have hslots := hinv.slots
    have hclean := hinv.clean
    rw [hphase] at hslots hclean
    exact { hinv with slots := hslots, clean := hclean, count := by simp [UploadPhase.inLoop],
                      reaping := by simp, drained := fun _ => hinv.drained (.inl hphase),
                      ended := fun _ => hinflight, returned := fun _ => hdone }
  | threw hphase hinflight => exact hinv.threw hphase hinflight
  | uploaded hinflight => exact hinv.uploaded hinflight
  | uploadFailed hinflight =>
    have hfinal : s.zip.phase = .returned := by
      cases hphase : s.zip.phase <;> simp [PipelineEvent.leaks, hphase, ZipPhase.final] at hkeep
      rfl
    exact hinv.uploadFailed hfinal hinflight

end

/-! ## The order of the ends -/

/-- The archive stage has received all files. -/
def ZipPhase.ended : ZipPhase → Bool
  | receiving => false
  | appending _ (.entry _ _) => false
  | emitting _ (.entry _ _) => false
  | _ => true

/-- What `runPipeline` has seen of its children. -/
def Pipeline.Awaited (s : Pipeline) : Prop :=
  match s.supervisor with
  | .awaitingDownload => True
  | .awaitingZip => s.download.phase = .returned
  | .awaitingUpload => s.download.phase = .returned ∧ s.zip.phase = .returned
  | .unwinding => s.download.phase = .threw
  | .returned _ => s.download.phase = .returned ∧ s.zip.phase = .returned ∧
      s.upload.phase = .returned
  | .threw => s.download.phase.final = true ∧ s.zip.phase = .returned ∧
      s.upload.phase.final = true
  | .trapped => False

structure FlowInv (s : Pipeline) : Prop where
  finished : s.fileChannel.terminated = true ↔ s.download.phase = .returned
  ended : s.zip.phase.ended = true → s.download.phase.final = true
  failed : s.download.failed = true →
    s.download.phase.inLoop = false ∧ s.download.phase ≠ .returned
  final : s.download.phase.final = true → s.download.inflight = []
  awaited : s.Awaited

theorem DownloadStep.open (h : DownloadStep crc32 s ev s')
    (hfinal : s.download.phase.final = true → s.download.inflight = []) :
    s.download.phase.final = false := by
  cases h with
  | acquire hphase hroom => simp [hphase, DownloadPhase.final]
  | acquireWait hphase hfull => simp [hphase, DownloadPhase.final]
  | acquired hphase hwoken => simp [hphase, DownloadPhase.final]
  | loopEnd hphase => simp [hphase, DownloadPhase.final]
  | downloaded hinflight hsize =>
    exact Bool.eq_false_iff.2 fun h => by simp [hfinal h] at hinflight
  | downloadFailed hinflight =>
    exact Bool.eq_false_iff.2 fun h => by simp [hfinal h] at hinflight
  | joined hphase hinflight hfailed => simp [hphase, DownloadPhase.final]
  | joinThrew hphase hinflight hfailed => simp [hphase, DownloadPhase.final]

/-- While the download stage runs, `runPipeline` awaits it. -/
theorem FlowInv.awaiting (hinv : FlowInv s) (hopen : s.download.phase.final = false) :
    s.supervisor = .awaitingDownload := by
  have hawaited := hinv.awaited
  unfold Pipeline.Awaited at hawaited
  cases hs : s.supervisor with
  | awaitingDownload => rfl
  | awaitingZip => simp_all [DownloadPhase.final]
  | awaitingUpload => simp_all [DownloadPhase.final]
  | unwinding => simp_all [DownloadPhase.final]
  | returned parts => simp_all [DownloadPhase.final]
  | threw => simp_all
  | trapped => simp_all

theorem FlowInv.download (hinv : FlowInv s) (h : DownloadStep crc32 s ev s')
    (hkeep : ev.leaks = false) : FlowInv s' := by
  have hopen := h.open hinv.final
  have hawaiting := hinv.awaiting hopen
  have hended : ¬ s.zip.phase.ended = true := fun h => by simp [hinv.ended h] at hopen
  have hlive : s.fileChannel.terminated = false :=
    Bool.eq_false_iff.2 fun h => by simp [hinv.finished.1 h, DownloadPhase.final] at hopen
  have hawaited : s'.Awaited := by
    unfold Pipeline.Awaited
    rw [h.frame.2.2.2, hawaiting]
    trivial
  have hended' : s'.zip.phase.ended = true → s'.download.phase.final = true := by
    rw [h.frame.1]
    exact fun h => absurd h hended
  have hfailed := hinv.failed
  cases h with
  | acquire hphase hroom =>
    rw [hphase] at hfailed
    have hnone : ¬ s.download.failed = true := fun h => by cases (hfailed h).1
    exact ⟨by simp [hlive, DownloadStage.download], hended', fun h => absurd h hnone,
      by simp [DownloadStage.download, DownloadPhase.final], hawaited⟩
  | acquireWait hphase hfull =>
    rw [hphase] at hfailed
    have hnone : ¬ s.download.failed = true := fun h => by cases (hfailed h).1
    exact ⟨by simp [hlive], hended', fun h => absurd h hnone,
      by simp [DownloadPhase.final], hawaited⟩
  | acquired hphase hwoken =>
    rw [hphase] at hfailed
    have hnone : ¬ s.download.failed = true := fun h => by cases (hfailed h).1
    exact ⟨by simp [hlive, DownloadStage.download], hended', fun h => absurd h hnone,
      by simp [DownloadStage.download, DownloadPhase.final], hawaited⟩
  | loopEnd hphase =>
    exact ⟨by simp [hlive], hended', fun _ => ⟨rfl, by simp⟩, by simp [DownloadPhase.final],
      hawaited⟩
  | downloaded hinflight hsize =>
    refine ⟨?_, hended', hfailed, fun h => absurd h (by simp [hopen]), hawaited⟩
    simpa [AsyncStream.yield, hlive] using hinv.finished
  | downloadFailed hinflight =>
    refine ⟨hinv.finished, hended', fun _ => ⟨hkeep, fun hphase => ?_⟩,
      fun h => absurd h (by simp [hopen]), hawaited⟩
    have hphase : s.download.phase = .returned := hphase
    simp [hphase, DownloadPhase.final] at hopen
  | joined hphase hinflight hfailed' =>
    exact ⟨by simp [AsyncStream.finish], hended', fun h => absurd h (by simp [hfailed']),
      fun _ => hinflight, hawaited⟩
  | joinThrew hphase hinflight hfailed' =>
    exact ⟨by simp [hlive], hended', fun _ => ⟨rfl, by simp⟩, fun _ => hinflight, hawaited⟩

theorem ZipStep.frame (h : ZipStep s ev s') :
    s'.download = s.download ∧ s'.upload = s.upload ∧ s'.supervisor = s.supervisor ∧
      s'.fileChannel.terminated = s.fileChannel.terminated := by
  cases h <;> exact ⟨rfl, rfl, rfl, rfl⟩

theorem ZipStep.open (h : ZipStep s ev s') : s.zip.phase ≠ .returned := by
  cases h <;> simp_all

/-- The archive stage ends after the download stage. -/
theorem ZipStep.ended (h : ZipStep s ev s') (hinv : FlowInv s)
    (hended : s'.zip.phase.ended = true) : s.download.phase.final = true := by
  have hold := hinv.ended
  cases h with
  | recv hphase hbuffered hzip => cases hended
  | recvEnd hphase hbuffered hover hzip =>
    rcases hover with hterm | hcancel
    · rw [hinv.finished.1 hterm]
      rfl
    · have hawaited := hinv.awaited
      rw [Pipeline.Awaited, hcancel] at hawaited
      rw [hawaited]
      rfl
  | @fill bytes rest task p hphase hbytes hfill =>
    rw [hphase] at hold
    unfold ZipPhase.appended at hended
    cases task with
    | ends => exact hold rfl
    | entry file z =>
      dsimp only at hended
      split at hended <;> cases hended
  | @emit bytes task hphase hslot =>
    rw [hphase] at hold
    cases task with
    | ends => exact hold rfl
    | entry file z => cases hended
  | entryEnd hphase => cases hended
  | endsEnd hphase => exact hold (by rw [hphase]; rfl)
  | finishEmit hphase hbuffer hslot => exact hold (by rw [hphase]; rfl)
  | finishEmpty hphase hbuffer => exact hold (by rw [hphase]; rfl)
  | finishClose hphase => exact hold (by rw [hphase]; rfl)

theorem FlowInv.zip (hinv : FlowInv s) (h : ZipStep s ev s') : FlowInv s' := by
  have hopen := h.open
  have hended := h.ended hinv
  obtain ⟨hdownload, hupload, hsupervisor, hchannel⟩ := h.frame
  refine ⟨?_, ?_, ?_, ?_, ?_⟩
  · rw [hchannel, hdownload]
    exact hinv.finished
  · rw [hdownload]
    exact hended
  · rw [hdownload]
    exact hinv.failed
  · rw [hdownload]
    exact hinv.final
  · have hawaited := hinv.awaited
    unfold Pipeline.Awaited at hawaited ⊢
    rw [hsupervisor, hdownload, hupload]
    cases hs : s.supervisor <;> simp_all

theorem UploadStep.open (h : UploadStep s ev s')
    (hended : s.upload.phase.final = true → s.upload.inflight = []) :
    s.upload.phase.final = false := by
  cases h with
  | uploaded hinflight => exact Bool.eq_false_iff.2 fun h => by simp [hended h] at hinflight
  | uploadFailed hinflight => exact Bool.eq_false_iff.2 fun h => by simp [hended h] at hinflight
  | _ => simp_all [UploadPhase.final]

theorem FlowInv.upload (hinv : FlowInv s) (hslots : SlotInv s) (h : UploadStep s ev s') :
    FlowInv s' := by
  have hopen := h.open hslots.ended
  obtain ⟨-, hchannel, hdownload, hzip, hsupervisor, -, -⟩ := h.frame
  refine ⟨?_, ?_, ?_, ?_, ?_⟩
  · rw [hchannel, hdownload]
    exact hinv.finished
  · rw [hzip, hdownload]
    exact hinv.ended
  · rw [hdownload]
    exact hinv.failed
  · rw [hdownload]
    exact hinv.final
  · have hawaited := hinv.awaited
    unfold Pipeline.Awaited at hawaited ⊢
    rw [hsupervisor, hdownload, hzip]
    cases hs : s.supervisor <;> simp_all [UploadPhase.final]

theorem FlowInv.supervisor (hinv : FlowInv s) (h : SupervisorStep s s') : FlowInv s' := by
  have hawaited := hinv.awaited
  cases h with
  | downloadReturned hphase hdownload => exact { hinv with awaited := hdownload }
  | downloadThrew hphase hdownload => exact { hinv with awaited := hdownload }
  | zipReturned hphase hzip =>
    rw [Pipeline.Awaited, hphase] at hawaited
    exact { hinv with awaited := ⟨hawaited, hzip⟩ }
  | uploadReturned hphase hupload =>
    rw [Pipeline.Awaited, hphase] at hawaited
    exact { hinv with awaited := ⟨hawaited.1, hawaited.2, hupload⟩ }
  | uploadThrew hphase hupload =>
    rw [Pipeline.Awaited, hphase] at hawaited
    exact { hinv with awaited := ⟨by rw [hawaited.1]; rfl, hawaited.2, by rw [hupload]; rfl⟩ }
  | unwound hphase hzip hupload =>
    rw [Pipeline.Awaited, hphase] at hawaited
    exact { hinv with awaited := ⟨by rw [hawaited]; rfl, hzip, hupload⟩ }

/-! ## Progress -/

structure StagesInv (s : Pipeline) : Prop where
  budget : BudgetInv s
  slots : SlotInv s
  flow : FlowInv s

theorem StagesInv.step (hinv : StagesInv s) (h : PipelineStep crc32 s ev s')
    (hkeep : ev.leaks = false) : StagesInv s' := by
  obtain ⟨hbudget, hslots, hflow⟩ := hinv
  cases h with
  | download halive h =>
    refine ⟨hbudget.download hflow.finished.1 h hkeep, ?_, hflow.download h hkeep⟩
    obtain ⟨hzip, hproducer, hupload, -⟩ := h.frame
    obtain ⟨hlimit, hheld, hclean, hcount, hreaping, hdrained, hended, hreturned, hclosed⟩ := hslots
    refine ⟨?_, ?_, ?_, ?_, ?_, ?_, ?_, ?_, ?_⟩
    all_goals
      simp only [hzip, hproducer, hupload]
      assumption
  | zip halive h => exact ⟨hbudget.zip h, hslots.zip h hkeep, hflow.zip h⟩
  | upload halive h => exact ⟨hbudget.upload h, hslots.upload h hkeep, hflow.upload hslots h⟩
  | supervisor h =>
    refine ⟨?_, ?_, hflow.supervisor h⟩
    · obtain ⟨supervisor, rfl, -⟩ := h.frame
      exact { hbudget with }
    · obtain ⟨supervisor, rfl, -⟩ := h.frame
      exact { hslots with }
  | trap hopen htraps => cases hkeep

theorem FlowInv.alive (hinv : FlowInv s) : s.supervisor ≠ .trapped := by
  intro htrapped
  have hawaited := hinv.awaited
  rw [Pipeline.Awaited, htrapped] at hawaited
  exact hawaited

/-- Some step is possible that is no failure. -/
def Pipeline.Enabled (crc32 : Bytes → UInt32) (s : Pipeline) : Prop :=
  ∃ ev s', PipelineStep crc32 s ev s' ∧ ev.failure = false

/-- An upload that is outstanding can end. -/
theorem enabled_of_inflight (halive : s.supervisor ≠ .trapped) (h : s.upload.inflight ≠ []) :
    s.Enabled crc32 := by
  obtain ⟨chunk, rest, hcons⟩ := List.exists_cons_of_ne_nil h
  exact ⟨_, _, .upload halive (@UploadStep.uploaded _ _ [] rest "etag" hcons), rfl⟩

/-- A group with children can go on. -/
theorem SlotInv.enabled_of_reaping (hinv : SlotInv s) (halive : s.supervisor ≠ .trapped)
    {chunk : UploadChunk} (hphase : s.upload.phase = .reaping chunk) : s.Enabled crc32 := by
  by_cases hinflight : s.upload.inflight = []
  · have hcount := hinv.count (by rw [hphase]; rfl)
    have hmany := hinv.reaping chunk hphase
    rw [hinflight, List.length_nil, maxConcurrentUploads] at *
    cases hdone : s.upload.done with
    | nil =>
      rw [hdone, List.length_nil] at hcount
      omega
    | cons result done =>
      cases result with
      | some part => exact ⟨_, _, .upload halive (.reaped hphase hdone), rfl⟩
      | none => exact ⟨_, _, .upload halive (.reapThrew hphase hdone), rfl⟩
  · exact enabled_of_inflight halive hinflight

/-- The upload stage can go on unless it has ended or waits for a chunk. -/
theorem SlotInv.enabled_of_upload (hinv : SlotInv s) (halive : s.supervisor ≠ .trapped)
    (hopen : s.upload.phase.final = false)
    (hready : s.upload.phase = .receiving →
      s.producer.stream.buffered ≠ [] ∨ s.producer.stream.terminated = true) :
    s.Enabled crc32 := by
  cases hphase : s.upload.phase with
  | receiving =>
    cases hbuffered : s.producer.stream.buffered with
    | nil =>
      have hended : s.producer.stream.terminated = true := by simpa [hbuffered] using hready hphase
      exact ⟨_, _, .upload halive (.recvEnd hphase hbuffered hended), rfl⟩
    | cons chunk buffered =>
      by_cases hroom : s.upload.inFlightCount < maxConcurrentUploads
      · exact ⟨_, _, .upload halive (.recv hphase hbuffered hroom), rfl⟩
      · exact ⟨_, _, .upload halive (.recvFull hphase hbuffered (by omega)), rfl⟩
  | reaping chunk => exact hinv.enabled_of_reaping halive hphase
  | draining =>
    cases hdone : s.upload.done with
    | cons result done =>
      cases result with
      | some part => exact ⟨_, _, .upload halive (.drained hphase hdone), rfl⟩
      | none => exact ⟨_, _, .upload halive (.drainThrew hphase hdone), rfl⟩
    | nil =>
      by_cases hinflight : s.upload.inflight = []
      · exact ⟨_, _, .upload halive (.drainEnd hphase hinflight hdone), rfl⟩
      · exact enabled_of_inflight halive hinflight
  | throwing =>
    by_cases hinflight : s.upload.inflight = []
    · exact ⟨_, _, .upload halive (.threw hphase hinflight), rfl⟩
    · exact enabled_of_inflight halive hinflight
  | returned => simp [hphase, UploadPhase.final] at hopen
  | threw => simp [hphase, UploadPhase.final] at hopen

/-- When no slot is free, the upload stage can go on. -/
theorem SlotInv.enabled_of_full (hinv : SlotInv s) (halive : s.supervisor ≠ .trapped)
    (hneeds : s.zip.phase.needsSlots = true) (hslot : s.producer.hasSlot = false) :
    s.Enabled crc32 := by
  have hslots := hinv.slots hneeds
  have hfull : s.producer.maxInFlight ≤ s.producer.inFlight := by
    simpa [ChunkProducer.hasSlot] using hslot
  have hlimit := hinv.limit
  by_cases hinflight : s.upload.inflight = []
  · apply hinv.enabled_of_upload halive
    · refine Bool.eq_false_iff.2 fun hfinal => ?_
      cases hphase : s.upload.phase with
      | returned =>
        rw [(hinv.drained (.inr hphase)).2, hinflight, hphase] at hslots
        simp [UploadPhase.held] at hslots
        omega
      | threw =>
        have := (hinv.clean hneeds).2
        simp [hphase, UploadPhase.failed] at this
      | _ => simp [hphase, UploadPhase.final] at hfinal
    · intro hphase
      left
      intro hbuffered
      rw [hbuffered, hinflight, hphase] at hslots
      simp [UploadPhase.held] at hslots
      omega
  · exact enabled_of_inflight halive hinflight

/-- The archive stage is not waiting for a file. -/
def Pipeline.ZipReady (s : Pipeline) : Prop :=
  s.zip.phase ≠ .returned ∧ (s.zip.phase = .receiving →
    s.fileChannel.buffered ≠ [] ∨ s.fileChannel.terminated = true ∨ s.supervisor = .unwinding)

theorem StagesInv.enabled_of_zip (hinv : StagesInv s) (hopen : s.supervisor.final = false)
    (hready : s.ZipReady) : s.Enabled crc32 := by
  have halive := hinv.flow.alive
  cases hphase : s.zip.phase with
  | receiving =>
    cases hbuffered : s.fileChannel.buffered with
    | cons file buffered =>
      cases hzip : zipFile (s.zip.locals, []) file with
      | some result => exact ⟨_, _, .zip halive (.recv hphase hbuffered hzip), rfl⟩
      | none => exact ⟨_, _, .trap hopen ⟨hphase, by rw [hbuffered]; exact hzip⟩, rfl⟩
    | nil =>
      have hended : s.fileChannel.terminated = true ∨ s.supervisor = .unwinding := by
        simpa [hbuffered] using hready.2 hphase
      cases hzip : endBytes s.zip.locals with
      | some bytes => exact ⟨_, _, .zip halive (.recvEnd hphase hbuffered hended hzip), rfl⟩
      | none => exact ⟨_, _, .trap hopen ⟨hphase, by rw [hbuffered]; exact ⟨hended, hzip⟩⟩, rfl⟩
  | appending bytes task =>
    by_cases hbytes : bytes = []
    · rw [hbytes] at hphase
      cases task with
      | entry file z => exact ⟨_, _, .zip halive (.entryEnd hphase), rfl⟩
      | ends => exact ⟨_, _, .zip halive (.endsEnd hphase), rfl⟩
    · exact ⟨_, _, .zip halive (.fill hphase hbytes rfl), rfl⟩
  | emitting bytes task =>
    cases hslot : s.producer.hasSlot with
    | true => exact ⟨_, _, .zip halive (.emit hphase hslot), rfl⟩
    | false => exact hinv.slots.enabled_of_full halive (by rw [hphase]; rfl) hslot
  | finishing =>
    by_cases hbuffer : s.producer.buffer = []
    · exact ⟨_, _, .zip halive (.finishEmpty hphase hbuffer), rfl⟩
    · cases hslot : s.producer.hasSlot with
      | true => exact ⟨_, _, .zip halive (.finishEmit hphase hbuffer hslot), rfl⟩
      | false => exact hinv.slots.enabled_of_full halive (by rw [hphase]; rfl) hslot
  | closing => exact ⟨_, _, .zip halive (.finishClose hphase), rfl⟩
  | returned => exact absurd hphase hready.1

/-- A download that is outstanding can end. -/
theorem enabled_of_downloads (halive : s.supervisor ≠ .trapped) (h : s.download.inflight ≠ []) :
    s.Enabled crc32 := by
  obtain ⟨file, rest, hcons⟩ := List.exists_cons_of_ne_nil h
  exact ⟨_, _, .download halive
    (@DownloadStep.downloaded _ _ file [] rest (List.replicate file.size 0) hcons (by simp)), rfl⟩

theorem StagesInv.enabled_of_download (hinv : StagesInv s)
    (hopen : s.download.phase.final = false) : s.Enabled crc32 := by
  have halive := hinv.flow.alive
  have hawaiting := hinv.flow.awaiting hopen
  cases hphase : s.download.phase with
  | looping files =>
    cases files with
    | nil => exact ⟨_, _, .download halive (.loopEnd hphase), rfl⟩
    | cons file files =>
      by_cases hroom : (s.byteBudget.needed file.size : Int) ≤ s.byteBudget.available
      · exact ⟨_, _, .download halive (.acquire hphase hroom), rfl⟩
      · exact ⟨_, _, .download halive (.acquireWait hphase (by omega)), rfl⟩
  | waiting file files =>
    have hserves := hinv.budget.serves (by rw [hphase]; rfl)
    rw [hphase] at hserves
    rcases hserves with ⟨-, -, hfull⟩ | ⟨-, hwoken⟩
    · -- bytes are missing from the budget, so a file holds them
      have hsum := hinv.budget.budget (by rw [hphase]; rfl)
      have hneeded : s.byteBudget.needed file.size ≤ s.byteBudget.capacity := Nat.min_le_right _ _
      have hlive : s.live ≠ [] := by
        intro hnil
        simp only [Pipeline.liveBytes, hnil, List.map_nil, List.sum_nil] at hsum
        omega
      by_cases hdownloads : s.download.inflight = []
      · apply hinv.enabled_of_zip (by rw [hawaiting]; rfl)
        refine ⟨fun hzip => ?_, fun hzip => .inl fun hbuffered => hlive ?_⟩
        · rw [hinv.flow.ended (by rw [hzip]; rfl)] at hopen
          cases hopen
        · simp [Pipeline.live, hdownloads, hzip, hbuffered, ZipPhase.files]
      · exact enabled_of_downloads halive hdownloads
    · exact ⟨_, _, .download halive (.acquired hphase hwoken), rfl⟩
  | joining =>
    by_cases hdownloads : s.download.inflight = []
    · cases hfailed : s.download.failed with
      | false => exact ⟨_, _, .download halive (.joined hphase hdownloads hfailed), rfl⟩
      | true => exact ⟨_, _, .download halive (.joinThrew hphase hdownloads hfailed), rfl⟩
    · exact enabled_of_downloads halive hdownloads
  | returned => simp [hphase, DownloadPhase.final] at hopen
  | threw => simp [hphase, DownloadPhase.final] at hopen

/-- Until `runPipeline` has ended, a step is possible. -/
theorem StagesInv.progress (hinv : StagesInv s) (hopen : s.supervisor.final = false) :
    s.Enabled crc32 := by
  have halive := hinv.flow.alive
  have hawaited := hinv.flow.awaited
  unfold Pipeline.Awaited at hawaited
  cases hs : s.supervisor with
  | awaitingDownload =>
    cases hphase : s.download.phase with
    | returned => exact ⟨_, _, .supervisor (.downloadReturned hs hphase), rfl⟩
    | threw => exact ⟨_, _, .supervisor (.downloadThrew hs hphase), rfl⟩
    | _ => exact hinv.enabled_of_download (by rw [hphase]; rfl)
  | awaitingZip =>
    rw [hs] at hawaited
    by_cases hzip : s.zip.phase = .returned
    · exact ⟨_, _, .supervisor (.zipReturned hs hzip), rfl⟩
    · exact hinv.enabled_of_zip hopen
        ⟨hzip, fun _ => .inr (.inl (hinv.flow.finished.2 hawaited))⟩
  | awaitingUpload =>
    rw [hs] at hawaited
    cases hphase : s.upload.phase with
    | returned => exact ⟨_, _, .supervisor (.uploadReturned hs hphase), rfl⟩
    | threw => exact ⟨_, _, .supervisor (.uploadThrew hs hphase), rfl⟩
    | _ =>
      exact hinv.slots.enabled_of_upload halive (by rw [hphase]; rfl) fun _ =>
        .inr (hinv.slots.closed hawaited.2)
  | unwinding =>
    by_cases hzip : s.zip.phase = .returned
    · cases hupload : s.upload.phase.final with
      | true => exact ⟨_, _, .supervisor (.unwound hs hzip hupload), rfl⟩
      | false =>
        exact hinv.slots.enabled_of_upload halive hupload fun _ => .inr (hinv.slots.closed hzip)
    · exact hinv.enabled_of_zip hopen ⟨hzip, fun _ => .inr (.inr hs)⟩
  | _ => simp [hs, SupervisorPhase.final] at hopen

/-! ## Every run -/

/-- Some stage will throw. -/
def Pipeline.Failing (s : Pipeline) : Prop :=
  s.download.failed = true ∨ none ∈ s.upload.done ∨ s.upload.phase.failed = true

theorem DownloadStep.failing (h : DownloadStep crc32 s ev s')
    (hfailing : s.Failing ∨ ev.failure = true) : s'.Failing := by
  unfold Pipeline.Failing at hfailing ⊢
  rw [h.frame.2.2.1]
  cases h with
  | downloadFailed hinflight => exact .inl rfl
  | _ => simpa [PipelineEvent.failure, DownloadStage.download] using hfailing

theorem ZipStep.failing (h : ZipStep s ev s') (hfailing : s.Failing ∨ ev.failure = true) :
    s'.Failing := by
  unfold Pipeline.Failing at hfailing ⊢
  rw [h.frame.1, h.frame.2.1]
  cases h <;> simpa [PipelineEvent.failure] using hfailing

theorem UploadStep.failing (h : UploadStep s ev s') (hfailing : s.Failing ∨ ev.failure = true) :
    s'.Failing := by
  unfold Pipeline.Failing at hfailing ⊢
  rw [h.frame.2.2.1]
  cases h with
  | reapThrew hphase hdone => exact .inr (.inr rfl)
  | drainThrew hphase hdone => exact .inr (.inr rfl)
  | uploadFailed hinflight => simp
  | recv hphase hbuffered hroom =>
    simpa [PipelineEvent.failure, UploadStage.addTask, hphase, UploadPhase.failed] using hfailing
  | reaped hphase hdone =>
    simpa [PipelineEvent.failure, UploadStage.addTask, hphase, hdone, UploadPhase.failed]
      using hfailing
  | uploaded hinflight => simpa [PipelineEvent.failure] using hfailing
  | drained hphase hdone =>
    simpa [PipelineEvent.failure, hphase, hdone, UploadPhase.failed] using hfailing
  | cancelled hphase hcancel hopen => simpa [PipelineEvent.failure] using hfailing
  | _ => simp_all [PipelineEvent.failure, UploadPhase.failed]

structure PipelineInv (evs : List PipelineEvent) (s : Pipeline) : Prop where
  stages : StagesInv s
  failing : (∃ ev ∈ evs, ev.failure = true) → s.Failing

variable {files : List FileInfo} {evs : List PipelineEvent}

theorem PipelineInv.start (files : List FileInfo) : PipelineInv [] (.start files) := by
  have hlimit : 0 < bufferChunksCount := by decide
  refine ⟨⟨⟨fun _ => ?_, fun _ => ⟨rfl, rfl⟩⟩, ?_, ?_⟩, by simp⟩
  · simp [Pipeline.start, Pipeline.liveBytes, Pipeline.live, ZipPhase.files, ByteSemaphore.new]
  · refine ⟨hlimit, ?_, ?_, ?_, ?_, ?_, ?_, ?_, ?_⟩ <;>
      simp [Pipeline.start, ChunkProducer.new, UploadPhase.held, UploadPhase.failed,
        UploadPhase.final]
  · refine ⟨?_, ?_, ?_, ?_, trivial⟩ <;>
      simp [Pipeline.start, ZipPhase.ended, DownloadPhase.final]

theorem PipelineInv.step (hinv : PipelineInv evs s) (h : PipelineStep crc32 s ev s')
    (hkeep : ev.leaks = false) : PipelineInv (evs ++ [ev]) s' := by
  refine ⟨hinv.stages.step h hkeep, fun ⟨e, he, hfailure⟩ => ?_⟩
  have hfailing : s.Failing ∨ ev.failure = true := by
    rcases List.mem_append.1 he with he | he
    · exact .inl (hinv.failing ⟨e, he, hfailure⟩)
    · rw [List.mem_singleton.1 he] at hfailure
      exact .inr hfailure
  cases h with
  | download halive h => exact h.failing hfailing
  | zip halive h => exact h.failing hfailing
  | upload halive h => exact h.failing hfailing
  | supervisor h =>
    obtain ⟨supervisor, rfl, -⟩ := h.frame
    exact hfailing.resolve_right (by simp [PipelineEvent.failure])
  | trap hopen htraps => cases hkeep

theorem PipelineRun.inv (h : PipelineRun crc32 (.start files) evs s)
    (hkeep : ∀ ev ∈ evs, ev.leaks = false) : PipelineInv evs s := by
  generalize hstart : Pipeline.start files = start at h
  induction h with
  | refl =>
    subst hstart
    exact .start files
  | step _ hlast ih =>
    refine (ih fun ev hev => hkeep ev (List.mem_append_left _ hev)).step hlast ?_
    exact hkeep _ (List.mem_append_right _ List.mem_cons_self)

/-- All tasks have ended. -/
def Pipeline.final (s : Pipeline) : Bool :=
  s.download.phase.final && s.zip.phase.final && s.upload.phase.final && s.supervisor.final

/-- In every state of a run without a leak: the run is bounded, a step is possible while a task has
not ended, and after a failure `runPipeline` can only end by throwing. -/
theorem runPipeline_ends (h : PipelineRun crc32 (.start files) evs s)
    (hkeep : ∀ ev ∈ evs, ev.leaks = false) :
    evs.length ≤ (Pipeline.start files).todo ∧
    (s.final = false → ∃ ev s', PipelineStep crc32 s ev s') ∧
    ((∃ ev ∈ evs, ev.failure = true) → s.supervisor.final = true → s.supervisor = .threw) := by
  have hinv := h.inv hkeep
  have hawaited := hinv.stages.flow.awaited
  unfold Pipeline.Awaited at hawaited
  refine ⟨?_, fun hopen => ?_, fun hfailure hfinal => ?_⟩
  · have := h.length_le
    omega
  · have hrunning : s.supervisor.final = false := by
      refine Bool.eq_false_iff.2 fun hfinal => ?_
      unfold Pipeline.final at hopen
      cases hs : s.supervisor <;> simp_all [SupervisorPhase.final, DownloadPhase.final,
        ZipPhase.final, UploadPhase.final]
    obtain ⟨ev, s', hstep, _⟩ := hinv.stages.progress hrunning
    exact ⟨ev, s', hstep⟩
  · cases hs : s.supervisor with
    | threw => rfl
    | returned parts =>
      rw [hs] at hawaited
      obtain ⟨hdownload, -, hupload⟩ := hawaited
      rcases hinv.failing hfailure with hfailed | hdone | hphase
      · exact absurd hdownload (hinv.stages.flow.failed hfailed).2
      · simp [hinv.stages.slots.returned hupload] at hdone
      · simp [hupload, UploadPhase.failed] at hphase
    | trapped => exact absurd hs hinv.stages.flow.alive
    | _ => simp [hs, SupervisorPhase.final] at hfinal

/-! ## A leak -/

/-- Nobody returns the bytes of a download that has failed. -/
theorem stuck_of_waiting {file : FileInfo}
    (hdownload : s.download.phase = .waiting file files) (hdownloads : s.download.inflight = [])
    (hwoken : s.byteBudget.woken = []) (hzip : s.zip.phase = .receiving)
    (hfiles : s.fileChannel.buffered = []) (hchannel : s.fileChannel.terminated = false)
    (hupload : s.upload.phase = .receiving) (huploads : s.upload.inflight = [])
    (hchunks : s.producer.stream.buffered = []) (hstream : s.producer.stream.terminated = false)
    (hsupervisor : s.supervisor = .awaitingDownload) : ¬ PipelineStep crc32 s ev s' := by
  intro h
  cases h with
  | download halive h => cases h <;> simp_all
  | zip halive h => cases h <;> simp_all
  | upload halive h => cases h <;> simp_all
  | supervisor h => cases h <;> simp_all
  | trap hopen htraps => simp_all [Pipeline.traps]

end

/-- The first download, which holds the whole budget, fails while the second waits for it. -/
theorem runPipeline_stuck :
    ∃ evs s, PipelineRun (fun _ => 0) (.start [⟨"a", 20971520⟩, ⟨"b", 1⟩]) evs s ∧
      s.download.inflight = [] ∧ s.upload.inflight = [] ∧ s.final = false ∧
      ∀ ev s', ¬ PipelineStep (fun _ => 0) s ev s' := by
  have h₁ := (@Run.refl _ _ (PipelineStep fun _ => 0)
    (.start [⟨"a", 20971520⟩, ⟨"b", 1⟩])).step
    (.download (by simp [Pipeline.start]) (.acquire rfl (by decide)))
  have h₂ := h₁.step (.download (by simp [Pipeline.start]) (.acquireWait rfl (by decide)))
  have h₃ := h₂.step (.download (by simp [Pipeline.start])
    (@DownloadStep.downloadFailed _ _ _ [] [] rfl))
  exact ⟨_, _, h₃, rfl, rfl, rfl, fun ev s' =>
    stuck_of_waiting rfl rfl rfl rfl rfl rfl rfl rfl rfl rfl rfl⟩

set_option maxRecDepth 4096 in
/-- The download of `b` fails after both are started; then `a` is archived, and all tasks end. -/
theorem secondFails : ∃ evs evs' s s',
    PipelineRun (fun _ => 0x55BC801D) (.start [⟨"a", 3⟩, ⟨"b", 2⟩]) evs s ∧
      PipelineRun (fun _ => 0x55BC801D) s evs' s' ∧ (∀ ev ∈ evs ++ evs', ev.leaks = false) ∧
      (∃ ev ∈ evs, ev.failure = true) ∧ s.final = false ∧ s'.supervisor.final = true := by
  refine ⟨_, _, _, _,
    .cons (.download nofun (.acquire rfl (by decide))) <|
    .cons (.download nofun (.acquire rfl (by decide))) <|
    .cons (.download nofun (.loopEnd rfl)) <|
    .cons (.download nofun (@DownloadStep.downloaded _ _ _ [] [_] [1, 2, 3] rfl rfl)) <|
    .cons (.download nofun (@DownloadStep.downloadFailed _ _ _ [] [] rfl)) (.refl _),
    .cons (.download nofun (.joinThrew rfl rfl rfl)) <|
    .cons (.supervisor (.downloadThrew rfl rfl)) <|
    .cons (.zip nofun (.recv rfl rfl rfl)) <|
    .cons (.zip nofun (.fill rfl nofun rfl)) <|
    .cons (.zip nofun (.entryEnd rfl)) <|
    .cons (.zip nofun (.recvEnd rfl rfl (.inr rfl) rfl)) <|
    .cons (.zip nofun (.fill rfl nofun rfl)) <|
    .cons (.zip nofun (.endsEnd rfl)) <|
    .cons (.zip nofun (.finishEmit rfl nofun rfl)) <|
    .cons (.zip nofun (.finishClose rfl)) <|
    .cons (.upload nofun (.recv rfl rfl (by decide))) <|
    .cons (.upload nofun (@UploadStep.uploaded _ _ [] [] "etag" rfl)) <|
    .cons (.upload nofun (.recvEnd rfl rfl rfl)) <|
    .cons (.upload nofun (.drained rfl rfl)) <|
    .cons (.upload nofun (.drainEnd rfl rfl rfl)) <|
    .cons (.supervisor (.unwound rfl rfl rfl)) (.refl _),
    by decide, ⟨.downloadFailed false, by decide, rfl⟩, rfl, rfl⟩

/-- After a download that fails the pipeline goes on, and it ends by throwing. -/
theorem runPipeline_ends_failed : ∃ evs evs' s s',
    PipelineRun (fun _ => 0x55BC801D) (.start [⟨"a", 3⟩, ⟨"b", 2⟩]) evs s ∧
      PipelineRun (fun _ => 0x55BC801D) s evs' s' ∧ (∃ ev ∈ evs, ev.failure = true) ∧
      (∃ ev t, PipelineStep (fun _ => 0x55BC801D) s ev t) ∧ s'.supervisor = .threw := by
  obtain ⟨evs, evs', s, s', hrun, hrest, hkeep, ⟨ev, hev, hfailure⟩, hopen, hfinal⟩ := secondFails
  obtain ⟨-, hnext, -⟩ :=
    runPipeline_ends hrun fun ev hev => hkeep ev (List.mem_append_left _ hev)
  obtain ⟨-, -, hthrew⟩ := runPipeline_ends (hrun.append hrest) hkeep
  exact ⟨evs, evs', s, s', hrun, hrest, ⟨ev, hev, hfailure⟩, hnext hopen,
    hthrew ⟨ev, List.mem_append_left _ hev, hfailure⟩ hfinal⟩

end S3Archive.SebstoSwift
