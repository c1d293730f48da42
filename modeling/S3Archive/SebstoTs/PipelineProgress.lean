import S3Archive.SebstoTs.PipelineTermination

/-!
# sebsto TypeScript: when the job settles

A failure is missed when nobody waits for it: a download that fails while the
download stage still starts others, a ZIP write that throws, an upload that fails
while the upload stage waits for a chunk (`JobEvent.missed`). In a run without a
missed failure the bytes of the budget (`BudgetInv`) and the slots (`SlotInv`) are
all accounted for, so that `runArchiveJob_settles`: the job is never stuck, and after
any failure it aborts the upload. `runArchiveJob_stuck` is what a missed one does.
-/

namespace S3Archive.SebstoTs

/-- A failure that no stage is waiting for. -/
def StageEvent.missed : StageEvent → Bool
  | download => false
  | downloadFailed inLoop => inLoop
  | zip => false
  | zipFailed => true
  | upload (.failed _ waiting) => !waiting
  | upload _ => false

def JobEvent.missed : JobEvent → Bool
  | stage ev => ev.missed
  | _ => false

/-- A failure of a download, a ZIP write or an upload. -/
def StageEvent.failure : StageEvent → Bool
  | downloadFailed _ => true
  | zipFailed => true
  | upload (.failed _ _) => true
  | _ => false

theorem StageEvent.failure_of_missed {ev : StageEvent} (h : ev.missed = true) :
    ev.failure = true := by
  cases ev with
  | downloadFailed inLoop => rfl
  | zipFailed => rfl
  | download | zip => cases h
  | upload ev =>
    cases ev with
    | failed n waiting => rfl
    | _ => cases h

section

variable {crc32 : Bytes → UInt32} {s s' : Stages} {ev : StageEvent}

/-! ## The byte budget -/

def ZipTask.files : ZipTask → List DownloadedFile
  | entry file _ => [file]
  | ends => []

/-- The file whose buffers are being appended. -/
def ZipPhase.files : ZipPhase → List DownloadedFile
  | appending _ task => task.files
  | emitting _ task => task.files
  | _ => []

theorem ZipPhase.files_appended (p : ChunkProducer) (rest : Bytes) (buffers : List Bytes)
    (task : ZipTask) : (appended p rest buffers task).files = task.files := by
  unfold appended
  split <;> rfl

/-- The sizes that hold bytes of the budget. -/
def Stages.live (s : Stages) : List Nat :=
  s.download.inflight.map FileInfo.size ++
    (s.fileChannel.queue ++ s.zip.phase.files).map DownloadedFile.releaseBytes

def Stages.liveBytes (s : Stages) : Nat :=
  (s.live.map fun amount => min amount s.byteBudget.capacity).sum

/-- The size that the stage waits for. -/
def DownloadPhase.request : DownloadPhase → Option Nat
  | waiting file _ => some file.size
  | _ => none

structure BudgetInv (s : Stages) : Prop where
  budget : s.download.phase.inLoop = true →
    s.byteBudget.available + s.liveBytes = s.byteBudget.capacity
  serves : s.download.phase.inLoop = true → s.byteBudget.Serves s.download.phase.request

@[simp] theorem DownloadPhase.inLoop_settle (phase : DownloadPhase) (ok : Bool)
    (rest : List FileInfo) : (phase.settle ok rest).inLoop = phase.inLoop := by
  unfold settle
  split
  · split <;> rfl
  · rfl

@[simp] theorem DownloadPhase.request_settle (phase : DownloadPhase) (ok : Bool)
    (rest : List FileInfo) : (phase.settle ok rest).request = phase.request := by
  unfold settle
  split
  · split <;> rfl
  · rfl

theorem BudgetInv.step (hinv : BudgetInv s) (h : StageStep crc32 s ev s')
    (hseen : ev.missed = false) : BudgetInv s' := by
  obtain ⟨hbudget, hserves⟩ := hinv
  cases h with
  | acquire hphase hroom =>
    rw [hphase] at hbudget hserves
    have hsum := hbudget rfl
    refine ⟨fun _ => ?_, fun _ => hserves rfl⟩
    simp [Stages.liveBytes, Stages.live, DownloadStage.download, ByteSemaphore.take,
      ByteSemaphore.needed] at hsum ⊢
    omega
  | acquireWait hphase hfull =>
    rw [hphase] at hbudget hserves
    exact ⟨fun _ => hbudget rfl, fun _ => (hserves rfl).wait hfull⟩
  | acquired hphase hwoken =>
    rw [hphase] at hbudget hserves
    have hsum := hbudget rfl
    rcases hserves rfl with ⟨-, hnone, -⟩ | ⟨hwaiters, hone⟩
    · rw [hnone] at hwoken
      cases hwoken
    · rw [hone] at hwoken
      cases hwoken
      refine ⟨fun _ => ?_, fun _ => ⟨hwaiters, rfl⟩⟩
      simp [Stages.liveBytes, Stages.live, DownloadStage.download, ByteSemaphore.take,
        ByteSemaphore.needed] at hsum ⊢
      omega
  | loopEnd hphase =>
    exact ⟨by simp [DownloadStage.join, DownloadPhase.inLoop],
      by simp [DownloadStage.join, DownloadPhase.inLoop]⟩
  | downloaded hinflight hsize =>
    refine ⟨fun hloop => ?_, by simpa using hserves⟩
    rw [DownloadPhase.inLoop_settle] at hloop
    have hsum := hbudget hloop
    simp [Stages.liveBytes, Stages.live, FileChannel.send, hinflight] at hsum ⊢
    omega
  | downloadFailed hinflight =>
    refine ⟨fun hloop => ?_, by simpa using hserves⟩
    rw [DownloadPhase.inLoop_settle] at hloop
    rw [StageEvent.missed, hloop] at hseen
    cases hseen
  | @downloadEnd ok hphase =>
    cases ok <;> exact ⟨by simp [DownloadPhase.inLoop], by simp [DownloadPhase.inLoop]⟩
  | recv hphase hqueue hbuffers =>
    refine ⟨fun hloop => ?_, hserves⟩
    have hsum := hbudget hloop
    simp [Stages.liveBytes, Stages.live, hqueue, hphase, ZipPhase.files, ZipTask.files] at hsum ⊢
    omega
  | recvEnd hphase hqueue hclosed hbuffers =>
    refine ⟨fun hloop => ?_, hserves⟩
    have hsum := hbudget hloop
    simpa [Stages.liveBytes, Stages.live, hphase, ZipPhase.files, ZipTask.files] using hsum
  | fill hphase hfill =>
    refine ⟨fun hloop => ?_, hserves⟩
    have hsum := hbudget hloop
    simp only [Stages.liveBytes, Stages.live, hphase, ZipPhase.files_appended] at hsum ⊢
    exact hsum
  | emit hphase hslot =>
    refine ⟨fun hloop => ?_, hserves⟩
    have hsum := hbudget hloop
    simp only [Stages.liveBytes, Stages.live, hphase] at hsum ⊢
    exact hsum
  | entryEnd hphase =>
    refine ⟨fun hloop => ?_, fun hloop => (hserves hloop).release _⟩
    have hsum := hbudget hloop
    simp [Stages.liveBytes, Stages.live, hphase, ZipPhase.files, ZipTask.files,
      ByteSemaphore.release, ByteSemaphore.needed] at hsum ⊢
    omega
  | endsEnd hphase =>
    refine ⟨fun hloop => ?_, hserves⟩
    have hsum := hbudget hloop
    simpa [Stages.liveBytes, Stages.live, hphase, ZipPhase.files, ZipTask.files] using hsum
  | finishEmit hphase hbuffer hslot => exact ⟨hbudget, hserves⟩
  | finishClose hphase hbuffer =>
    refine ⟨fun hloop => ?_, hserves⟩
    have hsum := hbudget hloop
    simpa [Stages.liveBytes, Stages.live, hphase, ZipPhase.files] using hsum
  | zipFailed hrunning => cases hseen
  | upload h => exact ⟨hbudget, hserves⟩

/-! ## The slots -/

/-- Every slot is held by a queued chunk or by an upload, so that a race never takes place. -/
structure SlotInv (p : ChunkProducer) (u : UploadStage) : Prop where
  slots : p.inFlight = p.chunkQueue.length + u.inflight.length
  room : p.inFlight ≤ p.maxInFlight
  limit : 0 < p.maxInFlight ∧ p.maxInFlight < maxConcurrentUploads
  racing : ∀ chunk verdict, u.phase ≠ .racing chunk verdict
  ended : u.phase ≠ .receiving → p.closed = true ∧ p.chunkQueue = []
  joining : u.phase = .joining none → u.inflight ≠ []
  joined : u.phase = .joining (some true) → u.inflight = []
  resolved : ∀ parts, u.phase = .resolved parts → u.inflight = []

section

variable {p p' : ChunkProducer} {u u' : UploadStage} {evUp : UploadEvent}

theorem SlotInv.emit (hinv : SlotInv p u) (hslot : p.hasSlot = true) (hopen : p.closed = false) :
    SlotInv p.emitFullChunk u := by
  obtain ⟨hslots, hroom, hlimit, hracing, hended, hjoining, hjoined, hresolved⟩ := hinv
  have hlt : p.inFlight < p.maxInFlight := by simpa [ChunkProducer.hasSlot] using hslot
  refine ⟨?_, hlt, hlimit, hracing, fun hphase => ?_, hjoining, hjoined, hresolved⟩
  · simp only [ChunkProducer.emitFullChunk, List.length_append, List.length_singleton]
    omega
  · rw [(hended hphase).1] at hopen
    cases hopen

theorem SlotInv.close (hinv : SlotInv p u) : SlotInv p.close u :=
  { hinv with ended := fun hphase => ⟨rfl, (hinv.ended hphase).2⟩ }

theorem SlotInv.fill (hinv : SlotInv p u) {buffer : Bytes} : SlotInv { p with buffer } u :=
  { hinv with }

/-- A promise of `inflight` has settled. -/
theorem SlotInv.settle (hinv : SlotInv p u) {ok : Bool} {chunk : UploadChunk}
    {cs₁ cs₂ : List UploadChunk} {completed : List CompletedPart}
    (hinflight : u.inflight = cs₁ ++ chunk :: cs₂) :
    SlotInv p.releaseSlot ⟨u.phase.settle ok (cs₁ ++ cs₂), cs₁ ++ cs₂, completed⟩ := by
  obtain ⟨hslots, hroom, hlimit, hracing, hended, hjoining, hjoined, hresolved⟩ := hinv
  have hlen : u.inflight.length = (cs₁ ++ cs₂).length + 1 := by
    rw [hinflight]
    simp
    omega
  refine ⟨?_, ?_, hlimit, fun c v hphase => ?_, fun hphase => hended fun hrecv => ?_,
    UploadPhase.joining_of_settle, fun hphase => ?_, fun parts hphase => ?_⟩
  · simp only [ChunkProducer.releaseSlot]
    omega
  · simp only [ChunkProducer.releaseSlot]
    omega
  · unfold UploadPhase.settle at hphase
    split at hphase
    · rename_i hphase'
      exact hracing _ _ hphase'
    · split at hphase <;> cases hphase
    · exact hracing _ _ hphase
  · rw [hrecv] at hphase
    exact hphase rfl
  · rcases UploadPhase.joined_of_settle hphase with hrest | hphase
    · exact hrest
    · simp [hjoined hphase] at hinflight
  · simp [hresolved parts (UploadPhase.settle_eq_resolved.1 hphase)] at hinflight

theorem SlotInv.upload (hinv : SlotInv p u) (h : UploadStep p u evUp p' u') : SlotInv p' u' := by
  obtain ⟨hslots, hroom, hlimit, hracing, hended, hjoining, hjoined, hresolved⟩ := hinv
  cases h with
  | recv hphase hqueue hfree =>
    rw [hqueue, List.length_cons] at hslots
    refine ⟨?_, hroom, hlimit, by simp [UploadStage.upload], by simp [UploadStage.upload],
      by simp [UploadStage.upload], by simp [UploadStage.upload], by simp [UploadStage.upload]⟩
    simp only [UploadStage.upload, List.length_append, List.length_singleton]
    omega
  | recvFull hphase hqueue hfull => omega
  | recvEnd hphase hqueue hclosed =>
    refine ⟨hslots, hroom, hlimit, by simp, fun _ => ⟨hclosed, hqueue⟩, ?_, ?_, by simp⟩
    · cases hempty : u.inflight <;> simp
    · cases hempty : u.inflight <;> simp
  | raced hphase => exact absurd hphase (hracing _ _)
  | raceRejected hphase => exact absurd hphase (hracing _ _)
  | joined hphase =>
    exact ⟨hslots, hroom, hlimit, by simp, fun _ => hended (by simp [hphase]), by simp, by simp,
      fun _ _ => hjoined hphase⟩
  | joinRejected hphase =>
    exact ⟨hslots, hroom, hlimit, by simp, fun _ => hended (by simp [hphase]), by simp, by simp,
      by simp⟩
  | uploaded hinflight hetag =>
    exact SlotInv.settle ⟨hslots, hroom, hlimit, hracing, hended, hjoining, hjoined, hresolved⟩
      hinflight
  | failed hinflight =>
    exact SlotInv.settle ⟨hslots, hroom, hlimit, hracing, hended, hjoining, hjoined, hresolved⟩
      hinflight

end

/-! ## Closing and joining -/

namespace DownloadPhase

/-- The stage has seen a failure. -/
def refused : DownloadPhase → Bool
  | joining verdict => verdict == some false
  | rejected => true
  | _ => false

variable {phase : DownloadPhase} {ok : Bool} {rest : List FileInfo}

@[simp] theorem final_settle : (phase.settle ok rest).final = phase.final := by
  unfold settle
  split
  · split <;> rfl
  · rfl

theorem settle_eq_resolved : phase.settle ok rest = .resolved ↔ phase = .resolved := by
  unfold settle
  split
  · split <;> simp
  · rfl

theorem joining_of_settle (h : phase.settle ok rest = .joining none) : rest ≠ [] := by
  unfold settle at h
  split at h
  · split at h
    · rename_i hrest
      simp only [Bool.and_eq_true, Bool.not_eq_true', List.isEmpty_eq_false_iff] at hrest
      exact hrest.2
    · cases h
  · rename_i hjoin
    exact absurd h hjoin

theorem joined_of_settle (h : phase.settle ok rest = .joining (some true)) :
    rest = [] ∨ phase = .joining (some true) := by
  unfold settle at h
  split at h
  · split at h
    · cases h
    · rename_i hrest
      cases h
      exact .inl (by simpa using hrest)
  · exact .inr h

theorem refused_settle (h : phase.refused = true) : (phase.settle ok rest).refused = true := by
  unfold settle
  split
  · cases h
  · exact h

/-- Once all downloads are started, a failure is seen unless all have succeeded. -/
theorem refused_settle_false (hloop : phase.inLoop = false) (hjoined : phase ≠ .joining (some true))
    (hresolved : phase ≠ .resolved) : (phase.settle false rest).refused = true := by
  cases phase with
  | looping files => cases hloop
  | waiting file files => cases hloop
  | joining verdict =>
    cases verdict with
    | none => rfl
    | some ok =>
      cases ok with
      | false => rfl
      | true => exact absurd rfl hjoined
  | resolved => exact absurd rfl hresolved
  | rejected => rfl

theorem of_final (h : phase.final = true) : phase = .resolved ∨ phase = .rejected := by
  cases phase with
  | resolved => exact .inl rfl
  | rejected => exact .inr rfl
  | _ => cases h

end DownloadPhase

theorem UploadPhase.of_final {phase : UploadPhase} (h : phase.final = true) :
    (∃ parts, phase = .resolved parts) ∨ phase = .rejected := by
  cases phase with
  | resolved parts => exact .inl ⟨parts, rfl⟩
  | rejected => exact .inr rfl
  | _ => cases h

/-- The archive writer has received all files. -/
def ZipPhase.ended : ZipPhase → Bool
  | appending _ task => task == .ends
  | emitting _ task => task == .ends
  | finishing => true
  | resolved => true
  | _ => false

theorem ZipPhase.ended_appended (p : ChunkProducer) (rest : Bytes) (buffers : List Bytes)
    (task : ZipTask) : (appended p rest buffers task).ended = (task == .ends) := by
  unfold appended
  split <;> rfl

/-- The stages close their channels when they settle, and an archive writer that has not thrown
has not given up. -/
structure FlowInv (s : Stages) : Prop where
  closed : s.producer.closed = true ↔ s.zip.phase = .resolved
  zip : s.zip.phase ≠ .rejected
  ended : s.zip.phase.ended = true → s.fileChannel.closed = true
  finished : s.fileChannel.closed = true ↔ s.download.phase.final = true
  joining : s.download.phase = .joining none → s.download.inflight ≠ []
  joined : s.download.phase = .joining (some true) → s.download.inflight = []
  resolved : s.download.phase = .resolved → s.download.inflight = []
  failed : s.download.failed = true → s.download.phase.refused = true

/-- A step of the download stage. -/
theorem FlowInv.of_download (hinv : FlowInv s) {d : DownloadStage} {b : ByteSemaphore}
    (hopen : s.download.phase.final = false) (hfinal : d.phase.final = false)
    (hjoining : d.phase = .joining none → d.inflight ≠ [])
    (hjoined : d.phase = .joining (some true) → d.inflight = [])
    (hfailed : d.failed = true → d.phase.refused = true) :
    FlowInv { s with byteBudget := b, download := d } := by
  refine { hinv with finished := ?_, joining := hjoining, joined := hjoined, resolved := ?_,
                     failed := hfailed }
  · rw [hfinal, ← hopen]
    exact hinv.finished
  · intro hphase
    rw [hphase] at hfinal
    cases hfinal

/-- A step of the archive writer. -/
theorem FlowInv.of_zip (hinv : FlowInv s) {b : ByteSemaphore} {c : FileChannel} {p : ChunkProducer}
    {z : ZipStageState} (hclosed : p.closed = true ↔ z.phase = .resolved)
    (hzip : z.phase ≠ .rejected) (hended : z.phase.ended = true → s.fileChannel.closed = true)
    (hchannel : c.closed = s.fileChannel.closed) :
    FlowInv { s with byteBudget := b, fileChannel := c, producer := p, zip := z } :=
  { hinv with closed := hclosed, zip := hzip, ended := hchannel ▸ hended,
              finished := hchannel ▸ hinv.finished }

theorem ZipPhase.appended_ne (p : ChunkProducer) (rest : Bytes) (buffers : List Bytes)
    (task : ZipTask) : appended p rest buffers task ≠ .resolved ∧
      appended p rest buffers task ≠ .rejected := by
  unfold appended
  split <;> simp

theorem UploadStep.closed {p p' : ChunkProducer} {u u' : UploadStage} {evUp : UploadEvent}
    (h : UploadStep p u evUp p' u') : p'.closed = p.closed := by
  cases h <;> rfl

theorem FlowInv.step (hinv : FlowInv s) (h : StageStep crc32 s ev s') (hseen : ev.missed = false) :
    FlowInv s' := by
  have hopen : s.zip.phase ≠ .resolved → s.producer.closed = false := fun hphase =>
    Bool.eq_false_iff.2 fun hclosed => hphase (hinv.closed.1 hclosed)
  have hfailed := hinv.failed
  have hended := hinv.ended
  cases h with
  | acquire hphase hroom =>
    rw [hphase] at hfailed
    exact hinv.of_download (by rw [hphase]; rfl) rfl (by simp [DownloadStage.download])
      (by simp [DownloadStage.download]) hfailed
  | acquireWait hphase hfull =>
    rw [hphase] at hfailed
    exact hinv.of_download (by rw [hphase]; rfl) rfl (by simp) (by simp) hfailed
  | acquired hphase hwoken =>
    rw [hphase] at hfailed
    exact hinv.of_download (by rw [hphase]; rfl) rfl (by simp [DownloadStage.download])
      (by simp [DownloadStage.download]) hfailed
  | loopEnd hphase =>
    rw [hphase] at hfailed
    have hnone : s.download.failed = false := Bool.eq_false_iff.2 fun h => by cases hfailed h
    apply hinv.of_download (by rw [hphase]; rfl) rfl
    · cases hempty : s.download.inflight <;> simp [DownloadStage.join, hnone, hempty]
    · cases hempty : s.download.inflight <;> simp [DownloadStage.join, hnone, hempty]
    · simp [DownloadStage.join, hnone]
  | downloaded hinflight hsize =>
    refine { hinv with finished := ?_, joining := DownloadPhase.joining_of_settle, joined := ?_,
                       resolved := ?_, failed := fun h => DownloadPhase.refused_settle (hfailed h) }
    · rw [DownloadPhase.final_settle]
      exact hinv.finished
    · intro hphase
      rcases DownloadPhase.joined_of_settle hphase with hrest | hphase
      · exact hrest
      · simp [hinv.joined hphase] at hinflight
    · intro hphase
      simp [hinv.resolved (DownloadPhase.settle_eq_resolved.1 hphase)] at hinflight
  | @downloadFailed file fs₁ fs₂ hinflight =>
    have hjoined : s.download.phase ≠ .joining (some true) := fun hphase => by
      simp [hinv.joined hphase] at hinflight
    have hresolved : s.download.phase ≠ .resolved := fun hphase => by
      simp [hinv.resolved hphase] at hinflight
    have hrefused : (s.download.phase.settle false (fs₁ ++ fs₂)).refused = true :=
      DownloadPhase.refused_settle_false hseen hjoined hresolved
    refine { hinv with finished := ?_, joining := DownloadPhase.joining_of_settle, joined := ?_,
                       resolved := ?_, failed := fun _ => hrefused }
    · rw [DownloadPhase.final_settle]
      exact hinv.finished
    · intro (hphase : s.download.phase.settle false (fs₁ ++ fs₂) = _)
      rw [hphase] at hrefused
      cases hrefused
    · intro (hphase : s.download.phase.settle false (fs₁ ++ fs₂) = _)
      rw [hphase] at hrefused
      cases hrefused
  | @downloadEnd ok hphase =>
    rw [hphase] at hfailed
    cases ok with
    | false =>
      exact { hinv with ended := fun _ => rfl,
                        finished := by simp [FileChannel.finish, DownloadPhase.final],
                        joining := by simp, joined := by simp, resolved := by simp,
                        failed := fun _ => rfl }
    | true =>
      exact { hinv with ended := fun _ => rfl,
                        finished := by simp [FileChannel.finish, DownloadPhase.final],
                        joining := by simp, joined := by simp,
                        resolved := fun _ => hinv.joined hphase,
                        failed := fun h => by cases hfailed h }
  | recv hphase hqueue hbuffers =>
    exact hinv.of_zip (by simp [hopen, hphase]) (by simp) (by simp [ZipPhase.ended]) rfl
  | recvEnd hphase hqueue hclosed hbuffers =>
    exact hinv.of_zip (by simp [hopen, hphase]) (by simp) (fun _ => hclosed) rfl
  | @fill buffer rest buffers task p hphase hfill =>
    have hsame : p.closed = s.producer.closed := by
      rw [(ChunkProducer.fill_eq hfill).1]
    obtain ⟨hne, hne'⟩ := ZipPhase.appended_ne p rest buffers task
    rw [hphase] at hended
    refine hinv.of_zip (by simp [hsame, hopen, hphase, hne]) hne' ?_ rfl
    rw [ZipPhase.ended_appended]
    exact hended
  | emit hphase hslot =>
    rw [hphase] at hended
    exact hinv.of_zip (by simp [ChunkProducer.emitFullChunk, hopen, hphase]) (by simp) hended rfl
  | entryEnd hphase =>
    exact hinv.of_zip (by simp [hopen, hphase]) (by simp) (by simp [ZipPhase.ended]) rfl
  | endsEnd hphase =>
    rw [hphase] at hended
    exact hinv.of_zip (by simp [hopen, hphase]) (by simp) (fun _ => hended rfl) rfl
  | finishEmit hphase hbuffer hslot =>
    exact hinv.of_zip (by simp [ChunkProducer.emitFullChunk, hopen, hphase]) (by simp [hphase])
      hended rfl
  | finishClose hphase hbuffer =>
    rw [hphase] at hended
    exact hinv.of_zip (by simp [ChunkProducer.close]) (by simp) (fun _ => hended rfl) rfl
  | zipFailed hrunning => cases hseen
  | upload h => exact { hinv with closed := h.closed ▸ hinv.closed }

/-! ## Progress -/

structure StagesInv (s : Stages) : Prop where
  budget : BudgetInv s
  slots : SlotInv s.producer s.upload
  flow : FlowInv s

theorem StagesInv.step (hinv : StagesInv s) (h : StageStep crc32 s ev s')
    (hseen : ev.missed = false) : StagesInv s' := by
  refine ⟨hinv.budget.step h hseen, ?_, hinv.flow.step h hseen⟩
  have hopen : s.zip.phase ≠ .resolved → s.producer.closed = false := fun hphase =>
    Bool.eq_false_iff.2 fun hclosed => hphase (hinv.flow.closed.1 hclosed)
  cases h with
  | fill hphase hfill =>
    obtain ⟨hp, -⟩ := ChunkProducer.fill_eq hfill
    rw [hp]
    exact hinv.slots.fill
  | emit hphase hslot => exact hinv.slots.emit hslot (hopen (by simp [hphase]))
  | finishEmit hphase hbuffer hslot => exact hinv.slots.emit hslot (hopen (by simp [hphase]))
  | finishClose hphase hbuffer => exact hinv.slots.close
  | upload h => exact hinv.slots.upload h
  | _ => exact hinv.slots

/-- The record that the archive writer builds next does not fit its fields. -/
def Stages.Throws (s : Stages) : Prop :=
  s.zip.phase = .receiving ∧
    match s.fileChannel.queue with
    | file :: _ => fileBuffers file = none
    | [] => s.fileChannel.closed = true ∧ endBuffers s.zip.locals = none

/-- A step is possible, and it is no failure unless the archive writer can only throw. -/
def Stages.Enabled (crc32 : Bytes → UInt32) (s : Stages) : Prop :=
  ∃ ev s', StageStep crc32 s ev s' ∧ (ev.failure = true → s.Throws)

theorem StageStep.enabled {ev : StageEvent} (h : StageStep crc32 s ev s')
    (hev : ev.failure = false) : s.Enabled crc32 :=
  ⟨ev, s', h, fun hfailure => by rw [hev] at hfailure; cases hfailure⟩

/-- The archive writer has something to do, if need be once a slot is free. -/
def ZipPhase.busy (phase : ZipPhase) (c : FileChannel) : Bool :=
  match phase with
  | receiving => !c.queue.isEmpty || c.closed
  | resolved => false
  | rejected => false
  | _ => true

/-- An upload that is outstanding can settle. -/
theorem enabled_of_inflight (h : s.upload.inflight ≠ []) : s.Enabled crc32 := by
  obtain ⟨chunk, rest, hcons⟩ := List.exists_cons_of_ne_nil h
  exact StageStep.enabled (.upload (@UploadStep.uploaded _ _ _ "etag" [] rest hcons (by decide))) rfl

/-- A stage that has received all chunks comes to its end. -/
theorem SlotInv.enabled_of_ended (hinv : SlotInv s.producer s.upload)
    (hphase : s.upload.phase ≠ .receiving) (hopen : s.upload.phase.final = false) :
    s.Enabled crc32 := by
  cases h : s.upload.phase with
  | receiving => exact absurd h hphase
  | racing chunk verdict => exact absurd h (hinv.racing chunk verdict)
  | joining verdict =>
    cases verdict with
    | none => exact enabled_of_inflight (hinv.joining h)
    | some ok =>
      cases ok with
      | false => exact StageStep.enabled (.upload (.joinRejected h)) rfl
      | true => exact StageStep.enabled (.upload (.joined h)) rfl
  | resolved parts => simp [h, UploadPhase.final] at hopen
  | rejected => simp [h, UploadPhase.final] at hopen

/-- A queued chunk can be received. -/
theorem SlotInv.enabled_of_queue (hinv : SlotInv s.producer s.upload)
    (hqueue : s.producer.chunkQueue ≠ []) : s.Enabled crc32 := by
  obtain ⟨chunk, rest, hcons⟩ := List.exists_cons_of_ne_nil hqueue
  have hphase : s.upload.phase = .receiving := by
    by_contra hne
    exact hqueue (hinv.ended hne).2
  have hroom : s.upload.inflight.length < maxConcurrentUploads := by
    have := hinv.slots
    have := hinv.room
    have := hinv.limit.2
    omega
  exact StageStep.enabled (.upload (.recv hphase hcons hroom)) rfl

/-- When no slot is free, the uploader can go on. -/
theorem SlotInv.enabled_of_full (hinv : SlotInv s.producer s.upload)
    (hslot : s.producer.hasSlot = false) : s.Enabled crc32 := by
  by_cases hqueue : s.producer.chunkQueue = []
  · apply enabled_of_inflight
    intro hinflight
    have hslots := hinv.slots
    rw [hqueue, hinflight] at hslots
    have hfull : s.producer.maxInFlight ≤ s.producer.inFlight := by
      simpa [ChunkProducer.hasSlot] using hslot
    have := hinv.limit.1
    simp at hslots
    omega
  · exact hinv.enabled_of_queue hqueue

/-- An archive writer that is not waiting for a file can go on. -/
theorem StagesInv.enabled_of_zip (hinv : StagesInv s)
    (hbusy : s.zip.phase.busy s.fileChannel = true) : s.Enabled crc32 := by
  have hthrow (hphase : s.zip.phase = .receiving) (hthrows : s.Throws) : s.Enabled crc32 := by
    refine ⟨_, _, .zipFailed ?_, fun _ => hthrows⟩
    rw [hphase] at hbusy ⊢
    exact hbusy
  cases hphase : s.zip.phase with
  | receiving =>
    cases hqueue : s.fileChannel.queue with
    | cons file queue =>
      cases hbuffers : fileBuffers file with
      | none => exact hthrow hphase ⟨hphase, by rw [hqueue]; exact hbuffers⟩
      | some buffers => exact StageStep.enabled (.recv hphase hqueue hbuffers) rfl
    | nil =>
      have hclosed : s.fileChannel.closed = true := by
        simpa [ZipPhase.busy, hphase, hqueue] using hbusy
      cases hbuffers : endBuffers s.zip.locals with
      | none => exact hthrow hphase ⟨hphase, by rw [hqueue]; exact ⟨hclosed, hbuffers⟩⟩
      | some buffers => exact StageStep.enabled (.recvEnd hphase hqueue hclosed hbuffers) rfl
  | appending buffers task =>
    cases buffers with
    | cons buffer buffers => exact StageStep.enabled (.fill hphase rfl) rfl
    | nil =>
      cases task with
      | entry file buffers => exact StageStep.enabled (.entryEnd hphase) rfl
      | ends => exact StageStep.enabled (.endsEnd hphase) rfl
  | emitting buffers task =>
    cases hslot : s.producer.hasSlot with
    | true => exact StageStep.enabled (.emit hphase hslot) rfl
    | false => exact hinv.slots.enabled_of_full hslot
  | finishing =>
    by_cases hbuffer : s.producer.buffer = []
    · exact StageStep.enabled (.finishClose hphase hbuffer) rfl
    · cases hslot : s.producer.hasSlot with
      | true => exact StageStep.enabled (.finishEmit hphase hbuffer hslot) rfl
      | false => exact hinv.slots.enabled_of_full hslot
  | resolved => simp [ZipPhase.busy, hphase] at hbusy
  | rejected => simp [ZipPhase.busy, hphase] at hbusy

/-- A download that is outstanding can settle. -/
theorem enabled_of_downloads (h : s.download.inflight ≠ []) : s.Enabled crc32 := by
  obtain ⟨file, rest, hcons⟩ := List.exists_cons_of_ne_nil h
  exact StageStep.enabled
    (@StageStep.downloaded _ _ file [] rest (List.replicate file.size 0) hcons (by simp)) rfl

theorem StagesInv.enabled_of_download (hinv : StagesInv s)
    (hopen : s.download.phase.final = false) : s.Enabled crc32 := by
  cases hphase : s.download.phase with
  | looping files =>
    cases files with
    | nil => exact StageStep.enabled (.loopEnd hphase) rfl
    | cons file files =>
      by_cases hroom : (s.byteBudget.needed file.size : Int) ≤ s.byteBudget.available
      · exact StageStep.enabled (.acquire hphase hroom) rfl
      · exact StageStep.enabled (.acquireWait hphase (by omega)) rfl
  | waiting file files =>
    have hserves := hinv.budget.serves (by rw [hphase]; rfl)
    rw [hphase] at hserves
    rcases hserves with ⟨-, -, hfull⟩ | ⟨-, hwoken⟩
    · -- bytes are missing from the budget, so a file holds them
      have hsum := hinv.budget.budget (by rw [hphase]; rfl)
      have hneeded : s.byteBudget.needed file.size ≤ s.byteBudget.capacity := Nat.min_le_right _ _
      have hlive : s.live ≠ [] := by
        intro hnil
        simp only [Stages.liveBytes, hnil, List.map_nil, List.sum_nil] at hsum
        omega
      by_cases hdownloads : s.download.inflight = []
      · apply hinv.enabled_of_zip
        unfold ZipPhase.busy
        cases hzip : s.zip.phase with
        | receiving =>
          by_contra hqueue
          apply hlive
          simp only [Bool.or_eq_true, Bool.not_eq_true', not_or, Bool.not_eq_false,
            List.isEmpty_iff] at hqueue
          simp [Stages.live, hdownloads, hzip, hqueue.1, ZipPhase.files]
        | resolved =>
          have hclosed := hinv.flow.ended (by rw [hzip]; rfl)
          have hfinal := hinv.flow.finished.1 hclosed
          rw [hopen] at hfinal
          cases hfinal
        | rejected => exact absurd hzip hinv.flow.zip
        | _ => rfl
      · exact enabled_of_downloads hdownloads
    · exact StageStep.enabled (.acquired hphase hwoken) rfl
  | joining verdict =>
    cases verdict with
    | none => exact enabled_of_downloads (hinv.flow.joining hphase)
    | some ok => exact StageStep.enabled (.downloadEnd hphase) rfl
  | resolved => simp [hphase, DownloadPhase.final] at hopen
  | rejected => simp [hphase, DownloadPhase.final] at hopen

/-- Until all three stages have settled, a step is possible. -/
theorem StagesInv.progress (hinv : StagesInv s) (hopen : s.settled = false) : s.Enabled crc32 := by
  by_cases hdownload : s.download.phase.final = true
  · by_cases hbusy : s.zip.phase.busy s.fileChannel = true
    · exact hinv.enabled_of_zip hbusy
    · -- the channel is closed, so the writer has resolved and closed the producer
      have hzip : s.zip.phase = .resolved := by
        cases hphase : s.zip.phase with
        | resolved => rfl
        | rejected => exact absurd hphase hinv.flow.zip
        | _ => simp [ZipPhase.busy, hphase, hinv.flow.finished.2 hdownload] at hbusy
      have hupload : s.upload.phase.final = false := by
        simpa [Stages.settled, hdownload, hzip, ZipPhase.final] using hopen
      by_cases hphase : s.upload.phase = .receiving
      · by_cases hqueue : s.producer.chunkQueue = []
        · exact StageStep.enabled (.upload (.recvEnd hphase hqueue (hinv.flow.closed.2 hzip))) rfl
        · exact hinv.slots.enabled_of_queue hqueue
      · exact hinv.slots.enabled_of_ended hphase hupload
  · exact hinv.enabled_of_download (by simpa using hdownload)

end

/-! ## The job -/

/-- A failure of a download, a ZIP write, an upload or the completion. -/
def JobEvent.failure : JobEvent → Bool
  | stage ev => ev.failure
  | completeFailed => true
  | _ => false

def JobPhase.final : JobPhase → Bool
  | completed => true
  | aborted => true
  | crashed => true
  | _ => false

/-- A stage has seen a failure and will reject. -/
def Stages.refused (s : Stages) : Bool :=
  s.download.phase.refused || s.upload.phase.refused

structure JobInv (evs : List JobEvent) (j : Job) : Prop where
  stages : StagesInv j.stages
  alive : j.phase ≠ .crashed
  succeeded : j.phase = .completing ∨ j.phase = .completed →
    j.stages.download.phase = .resolved ∧ ∃ parts, j.stages.upload.phase = .resolved parts
  failed : (∃ ev ∈ evs, ev.failure = true) →
    j.stages.refused = true ∨ j.phase = .aborting ∨ j.phase = .aborted

section

variable {crc32 : Bytes → UInt32} {files : List FileInfo} {evs : List JobEvent} {ev : JobEvent}
  {s s' : Stages} {j j' : Job}

theorem JobInv.start (files : List FileInfo) : JobInv [] (.start files) := by
  have hlimit : 0 < bufferChunksCount ∧ bufferChunksCount < maxConcurrentUploads := by decide
  refine ⟨⟨⟨fun _ => ?_, fun _ => ⟨rfl, rfl⟩⟩, ?_, ?_⟩, ?_, ?_, ?_⟩
  · simp [Job.start, Stages.liveBytes, Stages.live, ZipPhase.files, ByteSemaphore.new]
  · refine ⟨rfl, Nat.zero_le _, hlimit, ?_, ?_, ?_, ?_, ?_⟩ <;> simp [Job.start]
  · refine ⟨?_, ?_, ?_, ?_, ?_, ?_, ?_, ?_⟩ <;>
      simp [Job.start, ChunkProducer.new, ZipPhase.ended, DownloadPhase.final]
  · simp [Job.start]
  · simp [Job.start]
  · simp

theorem StageStep.download_refused {ev : StageEvent} (h : StageStep crc32 s ev s')
    (hrefused : s.download.phase.refused = true) : s'.download.phase.refused = true := by
  cases h with
  | downloaded hinflight hsize => exact DownloadPhase.refused_settle hrefused
  | downloadFailed hinflight => exact DownloadPhase.refused_settle hrefused
  | @downloadEnd ok hphase =>
    rw [hphase] at hrefused
    cases ok with
    | false => rfl
    | true => cases hrefused
  | acquire hphase hroom =>
    rw [hphase] at hrefused
    cases hrefused
  | acquireWait hphase hfull =>
    rw [hphase] at hrefused
    cases hrefused
  | acquired hphase hwoken =>
    rw [hphase] at hrefused
    cases hrefused
  | loopEnd hphase =>
    rw [hphase] at hrefused
    cases hrefused
  | _ => exact hrefused

theorem StageStep.upload_refused {ev : StageEvent} (h : StageStep crc32 s ev s')
    (hrefused : s.upload.phase.refused = true) : s'.upload.phase.refused = true := by
  cases h with
  | upload h => exact h.seen.2 (.inl hrefused)
  | _ => exact hrefused

/-- A failure that is not missed is seen, and stays so. -/
theorem StageStep.refused {ev : StageEvent} (hinv : FlowInv s) (h : StageStep crc32 s ev s')
    (hseen : ev.missed = false)
    (hfailed : s.refused = true ∨ (JobEvent.stage ev).failure = true) : s'.refused = true := by
  unfold Stages.refused at hfailed ⊢
  rw [Bool.or_eq_true] at hfailed ⊢
  rcases hfailed with (hdownload | hupload) | hfailure
  · exact .inl (h.download_refused hdownload)
  · exact .inr (h.upload_refused hupload)
  · cases h with
    | downloadFailed hinflight =>
      left
      refine DownloadPhase.refused_settle_false hseen (fun hphase => ?_) fun hphase => ?_
      · simp [hinv.joined hphase] at hinflight
      · simp [hinv.resolved hphase] at hinflight
    | zipFailed hrunning => cases hseen
    | @upload evUp p u h =>
      right
      cases evUp with
      | failed n waiting =>
        refine h.seen.2 (.inr ⟨n, ?_⟩)
        simpa [StageEvent.missed] using hseen
      | _ => cases hfailure
    | _ => cases hfailure

/-- A settled job has refused a stage or resolved both. -/
theorem Stages.refused_or_resolved (hsettled : s.settled = true) :
    s.refused = true ∧ (s.download.phase = .rejected ∨ s.upload.phase = .rejected) ∨
      s.refused = false ∧ s.download.phase = .resolved ∧
        ∃ parts, s.upload.phase = .resolved parts := by
  unfold Stages.settled at hsettled
  simp only [Bool.and_eq_true] at hsettled
  obtain ⟨⟨hdownload, -⟩, hupload⟩ := hsettled
  unfold Stages.refused
  rcases DownloadPhase.of_final hdownload with hd | hd
  · rcases UploadPhase.of_final hupload with ⟨parts, hu⟩ | hu
    · rw [hd, hu]
      exact .inr ⟨rfl, rfl, parts, rfl⟩
    · rw [hd, hu]
      exact .inl ⟨rfl, .inr rfl⟩
  · rw [hd]
    exact .inl ⟨rfl, .inl rfl⟩

theorem Stages.refused_of_rejected (hsettled : s.settled = true) (hzip : s.zip.phase ≠ .rejected) :
    s.rejected = s.refused := by
  unfold Stages.rejected
  rcases refused_or_resolved hsettled with ⟨hrefused, hd | hu⟩ | ⟨hrefused, hd, parts, hu⟩
  · rw [hrefused, hd]
    rfl
  · rw [hrefused, hu]
    simp
  · rw [hrefused, hd, hu]
    simpa using hzip

theorem StageStep.download_resolved {ev : StageEvent} (hinv : FlowInv s)
    (h : StageStep crc32 s ev s') (hresolved : s.download.phase = .resolved) :
    s'.download.phase = .resolved := by
  cases h with
  | downloaded hinflight hsize => simp [hinv.resolved hresolved] at hinflight
  | downloadFailed hinflight => simp [hinv.resolved hresolved] at hinflight
  | acquire hphase hroom => simp [hresolved] at hphase
  | acquireWait hphase hfull => simp [hresolved] at hphase
  | acquired hphase hwoken => simp [hresolved] at hphase
  | loopEnd hphase => simp [hresolved] at hphase
  | downloadEnd hphase => simp [hresolved] at hphase
  | _ => exact hresolved

theorem StageStep.upload_resolved {ev : StageEvent} {parts : List CompletedPart}
    (hinv : SlotInv s.producer s.upload) (h : StageStep crc32 s ev s')
    (hresolved : s.upload.phase = .resolved parts) : s'.upload.phase = .resolved parts := by
  cases h with
  | upload h =>
    cases h with
    | uploaded hinflight hetag => simp [hinv.resolved parts hresolved] at hinflight
    | failed hinflight => simp [hinv.resolved parts hresolved] at hinflight
    | recv hphase hqueue hroom => simp [hresolved] at hphase
    | recvFull hphase hqueue hfull => simp [hresolved] at hphase
    | recvEnd hphase hqueue hclosed => simp [hresolved] at hphase
    | raced hphase => simp [hresolved] at hphase
    | raceRejected hphase => simp [hresolved] at hphase
    | joined hphase => simp [hresolved] at hphase
    | joinRejected hphase => simp [hresolved] at hphase
  | _ => exact hresolved

theorem JobInv.step (hinv : JobInv evs j) (h : JobStep crc32 j ev j') (hseen : ev.missed = false) :
    JobInv (evs ++ [ev]) j' := by
  obtain ⟨hstages, halive, hsucceeded, hfailed⟩ := hinv
  have hsnoc : (∃ e ∈ evs ++ [ev], e.failure = true) →
      (∃ e ∈ evs, e.failure = true) ∨ ev.failure = true := by
    simp only [List.mem_append, List.mem_singleton]
    rintro ⟨e, he | rfl, hfailure⟩
    · exact .inl ⟨e, he, hfailure⟩
    · exact .inr hfailure
  cases h with
  | @stage ev s _ h =>
    refine ⟨hstages.step h hseen, halive, fun hphase => ?_, fun hfailure => ?_⟩
    · obtain ⟨hdownload, parts, hupload⟩ := hsucceeded hphase
      exact ⟨h.download_resolved hstages.flow hdownload, parts,
        h.upload_resolved hstages.slots hupload⟩
    · rcases hsnoc hfailure with hold | hnew
      · exact (hfailed hold).imp_left fun hr => h.refused hstages.flow hseen (.inl hr)
      · exact .inl (h.refused hstages.flow hseen (.inr hnew))
  | settled hphase hsettled =>
    have hrejected := Stages.refused_of_rejected hsettled hstages.flow.zip
    cases hrefused : j.stages.refused with
    | true =>
      rw [hrejected, hrefused]
      exact ⟨hstages, by simp, by simp, fun _ => .inr (.inl rfl)⟩
    | false =>
      rw [hrejected, hrefused]
      refine ⟨hstages, by simp, fun _ => ?_, fun hfailure => ?_⟩
      · rcases Stages.refused_or_resolved hsettled with ⟨h, -⟩ | ⟨-, hresolved⟩
        · rw [h] at hrefused
          cases hrefused
        · exact hresolved
      · rcases hsnoc hfailure with hold | hnew
        · exact .inl (by simpa [hphase] using hfailed hold)
        · cases hnew
  | completed hphase =>
    rw [hphase] at hsucceeded hfailed
    refine ⟨hstages, by simp, fun _ => hsucceeded (.inl rfl), fun hfailure => ?_⟩
    rcases hsnoc hfailure with hold | hnew
    · exact .inl (by simpa using hfailed hold)
    · cases hnew
  | completeFailed hphase => exact ⟨hstages, by simp, by simp, fun _ => .inr (.inl rfl)⟩
  | aborted hphase => exact ⟨hstages, by simp, by simp, fun _ => .inr (.inr rfl)⟩
  | crashed hphase hfailed' hloop =>
    have hrefused := hstages.flow.failed hfailed'
    cases hd : j.stages.download.phase <;> rw [hd] at hloop hrefused
    · cases hrefused
    · cases hrefused
    · cases hloop
    · cases hloop
    · cases hloop

theorem JobRun.inv (h : JobRun crc32 (.start files) evs j)
    (hseen : ∀ ev ∈ evs, ev.missed = false) : JobInv evs j := by
  generalize hstart : Job.start files = start at h
  induction h with
  | refl =>
    subst hstart
    exact .start files
  | step _ hlast ih =>
    refine (ih fun ev hev => hseen ev (List.mem_append_left _ hev)).step hlast ?_
    exact hseen _ (List.mem_append_right _ List.mem_cons_self)

/-- In every state of a run without a missed failure: every step brings the end nearer; while a
stage or the job has not settled a step is possible that is no missed failure, unless the archive
writer can only throw; and a failure leads to the aborted upload. -/
theorem runArchiveJob_settles (h : JobRun crc32 (.start files) evs j)
    (hseen : ∀ ev ∈ evs, ev.missed = false) :
    evs.length + j.todo ≤ (Job.start files).todo ∧
    (∀ ev j', JobStep crc32 j ev j' → j'.todo < j.todo) ∧
    (j.stages.settled = false ∨ j.phase.final = false →
      ∃ ev j', JobStep crc32 j ev j' ∧ (ev.missed = true → j.stages.Throws)) ∧
    ((∃ ev ∈ evs, ev.failure = true) → j.phase.final = true → j.phase = .aborted) := by
  have hinv := h.inv hseen
  refine ⟨h.length_le, fun ev j' hstep => hstep.todo_lt h.filling, fun hopen => ?_,
    fun hfailure hfinal => ?_⟩
  · cases hsettled : j.stages.settled with
    | false =>
      obtain ⟨ev, s, hstep, hthrows⟩ := hinv.stages.progress hsettled
      exact ⟨_, _, .stage hinv.alive hstep, fun hmissed =>
        hthrows (StageEvent.failure_of_missed hmissed)⟩
    | true =>
      have hphase : j.phase.final = false := by simpa [hsettled] using hopen
      cases hp : j.phase with
      | running => exact ⟨_, _, .settled hp hsettled, fun hmissed => (by cases hmissed)⟩
      | completing => exact ⟨_, _, .completed hp, fun hmissed => (by cases hmissed)⟩
      | aborting => exact ⟨_, _, .aborted hp, fun hmissed => (by cases hmissed)⟩
      | _ => simp [hp, JobPhase.final] at hphase
  · have hfailed := hinv.failed hfailure
    cases hp : j.phase with
    | aborted => rfl
    | completed =>
      obtain ⟨hdownload, parts, hupload⟩ := hinv.succeeded (.inr hp)
      simp [hp, Stages.refused, hdownload, hupload, DownloadPhase.refused,
        UploadPhase.refused] at hfailed
    | crashed => exact absurd hp hinv.alive
    | _ => simp [hp, JobPhase.final] at hfinal

/-! ## What a missed failure does -/

/-- With no upload to settle, no chunk to come and none queued, the uploader waits. -/
theorem UploadStep.not_of_waiting {p p' : ChunkProducer} {u u' : UploadStage} {evUp : UploadEvent}
    (hphase : u.phase = .receiving) (hinflight : u.inflight = []) (hqueue : p.chunkQueue = [])
    (hopen : p.closed = false) : ¬ UploadStep p u evUp p' u' := by
  intro h
  cases h with
  | recv h hq hroom => simp [hqueue] at hq
  | recvFull h hq hfull => simp [hqueue] at hq
  | recvEnd h hq hclosed => simp [hopen] at hclosed
  | raced h => simp [hphase] at h
  | raceRejected h => simp [hphase] at h
  | joined h => simp [hphase] at h
  | joinRejected h => simp [hphase] at h
  | uploaded h hetag => simp [hinflight] at h
  | failed h => simp [hinflight] at h

/-- Nothing closes the producer of an archive writer that has thrown. -/
theorem stuck_of_rejected (hdownload : j.stages.download.phase = .resolved)
    (hdownloads : j.stages.download.inflight = []) (hzip : j.stages.zip.phase = .rejected)
    (hupload : j.stages.upload.phase = .receiving) (huploads : j.stages.upload.inflight = [])
    (hqueue : j.stages.producer.chunkQueue = []) (hopen : j.stages.producer.closed = false)
    (hphase : j.phase = .running) : ¬ JobStep crc32 j ev j' := by
  intro h
  cases h with
  | stage halive h =>
    cases h with
    | upload h => exact UploadStep.not_of_waiting hupload huploads hqueue hopen h
    | _ => simp_all [ZipPhase.running]
  | settled h hsettled => simp [Stages.settled, hupload, UploadPhase.final] at hsettled
  | completed h => simp [hphase] at h
  | completeFailed h => simp [hphase] at h
  | aborted h => simp [hphase] at h
  | crashed h hfailed hloop => simp [hdownload, DownloadPhase.inLoop] at hloop

/-- Nobody returns the bytes of a download that has failed. -/
theorem crash_of_waiting {file : FileInfo}
    (hdownload : j.stages.download.phase = .waiting file files)
    (hdownloads : j.stages.download.inflight = []) (hwoken : j.stages.byteBudget.woken = [])
    (hzip : j.stages.zip.phase = .receiving) (hfiles : j.stages.fileChannel.queue = [])
    (hchannel : j.stages.fileChannel.closed = false)
    (hupload : j.stages.upload.phase = .receiving) (huploads : j.stages.upload.inflight = [])
    (hqueue : j.stages.producer.chunkQueue = []) (hopen : j.stages.producer.closed = false)
    (hphase : j.phase = .running) (h : JobStep crc32 j ev j') : j'.phase = .crashed := by
  cases h with
  | stage halive h =>
    cases h with
    | upload h => exact absurd h (UploadStep.not_of_waiting hupload huploads hqueue hopen)
    | _ => simp_all [ZipPhase.running]
  | settled h hsettled => simp [Stages.settled, hupload, UploadPhase.final] at hsettled
  | completed h => simp [hphase] at h
  | completeFailed h => simp [hphase] at h
  | aborted h => simp [hphase] at h
  | crashed h hfailed hloop => rfl

end

/-- A ZIP write that throws leaves the upload stage waiting for ever; a download that fails while
the next one waits for the budget leaves only the crash. -/
theorem runArchiveJob_stuck :
    (∃ evs j, JobRun (fun _ => 0) (.start [⟨"a", 1⟩]) evs j ∧ j.stages.settled = false ∧
      ∀ ev j', ¬ JobStep (fun _ => 0) j ev j') ∧
    (∃ evs j, JobRun (fun _ => 0) (.start [⟨"a", 41943040⟩, ⟨"b", 41943040⟩]) evs j ∧
      ∀ ev j', JobStep (fun _ => 0) j ev j' → j'.phase = .crashed) := by
  constructor
  · have h₁ := (@Run.refl _ _ (JobStep fun _ => 0) (.start [⟨"a", 1⟩])).step
      (.stage (by simp [Job.start]) (.acquire rfl (by decide)))
    have h₂ := h₁.step (.stage (by simp [Job.start]) (.loopEnd rfl))
    have h₃ := h₂.step (.stage (by simp [Job.start])
      (@StageStep.downloaded _ _ _ [] [] [7] rfl rfl))
    have h₄ := h₃.step (.stage (by simp [Job.start]) (.downloadEnd rfl))
    have h₅ := h₄.step (.stage (by simp [Job.start]) (.zipFailed rfl))
    exact ⟨_, _, h₅, rfl, fun ev j' => stuck_of_rejected rfl rfl rfl rfl rfl rfl rfl rfl⟩
  · have h₁ := (@Run.refl _ _ (JobStep fun _ => 0)
      (.start [⟨"a", 41943040⟩, ⟨"b", 41943040⟩])).step
      (.stage (by simp [Job.start]) (.acquire rfl (by decide)))
    have h₂ := h₁.step (.stage (by simp [Job.start]) (.acquireWait rfl (by decide)))
    have h₃ := h₂.step (.stage (by simp [Job.start])
      (@StageStep.downloadFailed _ _ _ [] [] rfl))
    exact ⟨_, _, h₃, fun ev j' h =>
      crash_of_waiting rfl rfl rfl rfl rfl rfl rfl rfl rfl rfl rfl h⟩

set_option maxRecDepth 4096 in
/-- The download of `b` fails after both are started; then `a` is archived, and the job ends. -/
theorem secondFails : ∃ evs evs' j j',
    JobRun (fun _ => 0x55BC801D) (.start [⟨"a", 3⟩, ⟨"b", 2⟩]) evs j ∧
      JobRun (fun _ => 0x55BC801D) j evs' j' ∧ (∀ ev ∈ evs ++ evs', ev.missed = false) ∧
      (∃ ev ∈ evs, ev.failure = true) ∧ j.stages.settled = false ∧
      (∃ file queue buffers, j.stages.fileChannel.queue = file :: queue ∧
        fileBuffers file = some buffers) ∧ j'.phase.final = true := by
  refine ⟨_, _, _, _,
    .cons (.stage nofun (.acquire rfl (by decide))) <|
    .cons (.stage nofun (.acquire rfl (by decide))) <|
    .cons (.stage nofun (.loopEnd rfl)) <|
    .cons (.stage nofun (@StageStep.downloaded _ _ _ [] [_] [1, 2, 3] rfl rfl)) <|
    .cons (.stage nofun (@StageStep.downloadFailed _ _ _ [] [] rfl)) (.refl _),
    .cons (.stage nofun (.downloadEnd rfl)) <|
    .cons (.stage nofun (.recv rfl rfl rfl)) <|
    .cons (.stage nofun (.fill rfl rfl)) <|
    .cons (.stage nofun (.fill rfl rfl)) <|
    .cons (.stage nofun (.fill rfl rfl)) <|
    .cons (.stage nofun (.entryEnd rfl)) <|
    .cons (.stage nofun (.recvEnd rfl rfl rfl rfl)) <|
    .cons (.stage nofun (.fill rfl rfl)) <|
    .cons (.stage nofun (.fill rfl rfl)) <|
    .cons (.stage nofun (.fill rfl rfl)) <|
    .cons (.stage nofun (.fill rfl rfl)) <|
    .cons (.stage nofun (.endsEnd rfl)) <|
    .cons (.stage nofun (.finishEmit rfl nofun rfl)) <|
    .cons (.stage nofun (.finishClose rfl rfl)) <|
    .cons (.stage nofun (.upload (.recv rfl rfl (by decide)))) <|
    .cons (.stage nofun (.upload (@UploadStep.uploaded _ _ _ "etag" [] [] rfl (by decide)))) <|
    .cons (.stage nofun (.upload (.recvEnd rfl rfl rfl))) <|
    .cons (.stage nofun (.upload (.joined rfl))) <|
    .cons (.settled rfl rfl) <|
    .cons (.aborted rfl) (.refl _), by decide, ⟨.stage (.downloadFailed false), by decide, rfl⟩,
    rfl, ⟨_, _, _, rfl, rfl⟩, rfl⟩

/-- After a download that fails the job goes on, and it ends with the aborted upload. -/
theorem runArchiveJob_settles_failed : ∃ evs evs' j j',
    JobRun (fun _ => 0x55BC801D) (.start [⟨"a", 3⟩, ⟨"b", 2⟩]) evs j ∧
      JobRun (fun _ => 0x55BC801D) j evs' j' ∧ (∃ ev ∈ evs, ev.failure = true) ∧
      (∃ ev s, JobStep (fun _ => 0x55BC801D) j ev s ∧ ev.missed = false) ∧
      j'.phase = .aborted := by
  obtain ⟨evs, evs', j, j', hrun, hrest, hseen, ⟨ev, hev, hfailure⟩, hopen,
    ⟨file, queue, buffers, hqueue, hbuffers⟩, hfinal⟩ := secondFails
  obtain ⟨-, -, hnext, -⟩ :=
    runArchiveJob_settles hrun fun ev hev => hseen ev (List.mem_append_left _ hev)
  obtain ⟨ev₁, s, hstep, hthrows⟩ := hnext (.inl hopen)
  have hseen₁ : ev₁.missed = false := by
    refine Bool.eq_false_iff.2 fun hmissed => ?_
    obtain ⟨-, hnone⟩ := hthrows hmissed
    rw [hqueue] at hnone
    cases hbuffers.symm.trans hnone
  obtain ⟨-, -, -, habort⟩ := runArchiveJob_settles (hrun.append hrest) hseen
  exact ⟨evs, evs', j, j', hrun, hrest, ⟨ev, hev, hfailure⟩, ⟨ev₁, s, hstep, hseen₁⟩,
    habort ⟨ev, List.mem_append_left _ hev, hfailure⟩ hfinal⟩

end S3Archive.SebstoTs
