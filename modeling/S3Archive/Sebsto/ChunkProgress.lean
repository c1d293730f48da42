import S3Archive.Sebsto.ChunkInvariant

/-!
# sebsto Typescript and Swift: a chunk producer comes to an end

Every step of the producer and of its consumer lowers `work`, so all runs are bounded, and
there is a step until the consumer has received the end (`ProducerInv.progress`).
-/

namespace S3Archive.Sebsto

variable {κ : Type}

/-! ## The work that is left -/

/-- How far the producer is from the end of its call, a chunk to be sent aside. -/
def ProducerPhase.distance : ProducerPhase → Nat
  | closed => 0
  | closing => 1
  | granted .finish => 2
  | waiting .finish => 3
  | emitting .finish => 4
  | idle => 5
  | appending _ => 6
  | granted (.append _) => 7
  | waiting (.append _) => 8
  | emitting (.append _) => 9

namespace ProducerState

/-- A byte to be appended weighs more than one in the buffer, and this one pays for its chunk. -/
def work (stream : StreamSemantics κ UploadChunk) (s : ProducerState κ) : Nat :=
  7 * s.rest.length + 3 * s.buffer.length + 2 * s.calls.length + s.phase.distance +
    3 * (stream.contents s.channel).length + s.held.length + stream.effort s.channel +
    if s.ended then 0 else 2

theorem length_rest (s : ProducerState κ) :
    s.rest.length = s.phase.rest.length + (s.calls.flatMap Append.bytes).length :=
  List.length_append

end ProducerState

variable {chunkSize maxInFlight : Nat} {stream : StreamSemantics κ UploadChunk} {total : Bytes}
  {s s' : ProducerState κ}

theorem ProducerState.work_create (calls : List Append) :
    (ProducerState.create stream calls).work stream ≤
      7 * (calls.flatMap Append.bytes).length + 2 * calls.length + 8 := by
  have heffort := stream.effort_le stream.empty
  unfold work create
  simp only [stream.contents_empty, length_rest, ProducerPhase.rest, ProducerPhase.distance,
    List.length_nil]
  simp only [Bool.false_eq_true, if_false]
  omega

/-! ## The steps -/

theorem afterCopy_distance_le (buffer rest : Bytes) :
    (afterCopy chunkSize buffer rest).distance ≤ 9 := by
  unfold afterCopy
  split <;> simp [ProducerPhase.distance]

/-- The producer moves without sending. -/
theorem ProducerState.work_move (hchannel : s'.channel = s.channel) (hheld : s'.held = s.held)
    (hended : s'.ended = s.ended)
    (hlower : 7 * s'.rest.length + 3 * s'.buffer.length + 2 * s'.calls.length +
        s'.phase.distance <
      7 * s.rest.length + 3 * s.buffer.length + 2 * s.calls.length + s.phase.distance) :
    s'.work stream < s.work stream := by
  unfold work
  rw [hchannel, hheld, hended]
  omega

theorem ProducerState.work_begin {call : Append} {calls : List Append}
    (hphase : s.phase = .idle) (hcalls : s.calls = call :: calls) :
    ProducerState.work stream { s.begin chunkSize call with calls } < s.work stream := by
  have hrest : s.rest.length = call.bytes.length + (calls.flatMap Append.bytes).length := by
    rw [length_rest, hphase, hcalls, List.flatMap_cons, List.length_append]
    exact Nat.zero_add _
  have hdistance : s.phase.distance = 5 := by rw [hphase]; rfl
  have hlength : s.calls.length = calls.length + 1 := by rw [hcalls]; rfl
  have hloop (src : Bytes) (hsrc : call.bytes = src) :
      ProducerState.work stream { s with phase := .appending src, calls } < s.work stream := by
    refine ProducerState.work_move rfl rfl rfl ?_
    rw [hrest, hdistance, hlength, hsrc, ProducerState.length_rest]
    simp only [ProducerPhase.rest, ProducerPhase.distance]
    omega
  cases call with
  | data src => exact hloop src rfl
  | byteBuffer src =>
    unfold ProducerState.begin
    dsimp only
    split
    · refine ProducerState.work_move rfl rfl rfl ?_
      rw [hrest, hdistance, hlength, ProducerState.length_rest]
      simp only [hphase, ProducerPhase.rest, List.length_nil]
      omega
    · rename_i hsome
      split
      · have hpos : 0 < src.length := List.length_pos_iff.2 hsome
        have hafter := @afterCopy_distance_le chunkSize (s.buffer ++ src) []
        refine ProducerState.work_move rfl rfl rfl ?_
        rw [hrest, hdistance, hlength, ProducerState.length_rest]
        simp only [afterCopy_rest, List.length_append, List.length_nil, Append.bytes]
        omega
      · exact hloop src rfl

theorem ProducerInv.work_copy (hinv : ProducerInv chunkSize maxInFlight stream total s)
    {src : Bytes} (hphase : s.phase = .appending src) (hsrc : src ≠ []) :
    (s.copy chunkSize src).work stream < s.work stream := by
  obtain ⟨hroom, -, -⟩ := hinv.appendable (.inr ⟨src, hphase⟩)
  have hpos : 0 < src.length := List.length_pos_iff.2 hsrc
  have hafter := @afterCopy_distance_le chunkSize (fillChunk chunkSize s.buffer src).1
    (fillChunk chunkSize s.buffer src).2
  refine ProducerState.work_move rfl rfl rfl ?_
  rw [ProducerState.length_rest, ProducerState.length_rest, hphase]
  unfold ProducerState.copy
  dsimp only
  rw [afterCopy_rest]
  simp only [fillChunk, ProducerPhase.rest, ProducerPhase.distance, List.length_append,
    List.length_take, List.length_drop] at hafter ⊢
  omega

theorem ProducerInv.work_emit (hinv : ProducerInv chunkSize maxInFlight stream total s)
    (hchunk : 1 ≤ chunkSize) {after : AfterEmit} (hphase : s.phase = .granted after) :
    ProducerState.work stream { s.emitFullChunk stream with phase := after.phase } <
      s.work stream := by
  have hbuffer := hinv.buffer
  unfold ProducerState.BufferOk at hbuffer
  rw [hphase] at hbuffer
  have hopen : ¬ stream.finished s.channel := by
    rw [hinv.finished, hphase]
    simp
  have heffort := stream.effort_yield s.channel ⟨s.nextPartNumber, s.buffer⟩
  unfold ProducerState.work
  rw [ProducerState.length_rest, ProducerState.length_rest, hphase]
  unfold ProducerState.emitFullChunk
  dsimp only
  rw [stream.contents_yield _ _ hinv.ok hopen, List.length_append]
  cases after with
  | append rest =>
    have hfull : s.buffer.length = chunkSize := hbuffer
    simp only [AfterEmit.phase, AfterEmit.rest, ProducerPhase.rest, ProducerPhase.distance,
      List.length_singleton, List.length_nil]
    omega
  | finish =>
    have hpos : 0 < s.buffer.length := hbuffer.1
    simp only [AfterEmit.phase, AfterEmit.rest, ProducerPhase.rest, ProducerPhase.distance,
      List.length_singleton, List.length_nil]
    omega

theorem ProducerState.work_finish (hphase : s.phase = .idle) :
    ProducerState.work stream
      { s with phase := if 0 < s.buffer.length then .emitting .finish else .closing } <
      s.work stream := by
  refine ProducerState.work_move rfl rfl rfl ?_
  rw [length_rest, length_rest, hphase]
  dsimp only
  split
  · simp only [ProducerPhase.rest, AfterEmit.rest, ProducerPhase.distance]
    omega
  · simp only [ProducerPhase.rest, ProducerPhase.distance]
    omega

theorem ProducerInv.work_close (hinv : ProducerInv chunkSize maxInFlight stream total s)
    (hphase : s.phase = .closing) :
    ProducerState.work stream { s with channel := stream.finish s.channel, phase := .closed } <
      s.work stream := by
  have heffort := stream.effort_finish s.channel
  unfold ProducerState.work
  rw [ProducerState.length_rest, ProducerState.length_rest, hphase]
  dsimp only
  rw [stream.contents_finish _ hinv.ok]
  simp only [ProducerPhase.rest, ProducerPhase.distance]
  omega

theorem AfterEmit.distance_granted_le (after : AfterEmit) :
    (ProducerPhase.granted after).distance ≤ (ProducerPhase.waiting after).distance := by
  cases after <;> simp [ProducerPhase.distance]

theorem ProducerState.work_release {chunk : UploadChunk} {held₁ held₂ : List UploadChunk}
    (hheld : s.held = held₁ ++ chunk :: held₂) :
    ProducerState.work stream { s.releaseSlot with held := held₁ ++ held₂ } <
      s.work stream := by
  have hresume : s.phase.resume.rest = s.phase.rest ∧
      s.phase.resume.distance ≤ s.phase.distance := by
    cases hphase : s.phase with
    | waiting after => exact ⟨rfl, after.distance_granted_le⟩
    | _ => exact ⟨rfl, Nat.le_refl _⟩
  unfold work
  rw [length_rest, length_rest, hheld]
  unfold releaseSlot
  dsimp only
  split
  · dsimp only
    rw [hresume.1]
    simp only [List.length_append, List.length_cons]
    omega
  · simp only [List.length_append, List.length_cons]
    omega

/-- The consumer moves. -/
theorem ProducerState.work_consume {channel : κ} {received held : List UploadChunk} {ended : Bool}
    (hlower : 3 * (stream.contents channel).length + held.length + stream.effort channel +
        (if ended then 0 else 2) <
      3 * (stream.contents s.channel).length + s.held.length + stream.effort s.channel +
        if s.ended then 0 else 2) :
    ProducerState.work stream { s with channel, received, held, ended } < s.work stream := by
  unfold work
  rw [length_rest, length_rest]
  dsimp only
  omega

theorem ProducerInv.work_step (hinv : ProducerInv chunkSize maxInFlight stream total s)
    (hchunk : 1 ≤ chunkSize) {ev : ChunkEvent}
    (hstep : ChunkStep chunkSize maxInFlight stream s ev s') :
    s'.work stream < s.work stream := by
  cases hstep with
  | append hphase hcalls => exact ProducerState.work_begin hphase hcalls
  | copy hphase hsrc => exact hinv.work_copy hphase hsrc
  | appended hphase =>
    refine ProducerState.work_move rfl rfl rfl ?_
    rw [ProducerState.length_rest, ProducerState.length_rest, hphase]
    exact Nat.lt_succ_self _
  | finish hphase hcalls => exact ProducerState.work_finish hphase
  | @pass after hphase hslot =>
    refine ProducerState.work_move rfl rfl rfl ?_
    rw [ProducerState.length_rest, ProducerState.length_rest, hphase]
    cases after <;> simp [ProducerPhase.rest, ProducerPhase.distance]
  | @wait after hphase hslot =>
    refine ProducerState.work_move rfl rfl rfl ?_
    rw [ProducerState.length_rest, ProducerState.length_rest, hphase]
    cases after <;> simp [ProducerPhase.rest, ProducerPhase.distance]
  | emit hphase => exact hinv.work_emit hchunk hphase
  | close hphase => exact hinv.work_close hphase
  | pending hopen hnext =>
    have heffort := stream.effort_pending _ _ hnext
    refine ProducerState.work_consume ?_
    rw [stream.next_pending _ _ hinv.ok hnext]
    omega
  | @receive chunk channel hopen hnext =>
    have heffort := stream.effort_le channel
    refine ProducerState.work_consume ?_
    rw [stream.next_element _ _ _ hinv.ok hnext]
    simp only [List.length_append, List.length_cons, List.length_nil]
    omega
  | @done channel hopen hnext =>
    have heffort := stream.effort_le channel
    obtain ⟨hempty, hempty', -⟩ := stream.next_done _ _ hinv.ok hnext
    refine ProducerState.work_consume ?_
    rw [hempty, hempty', hopen]
    simp only [if_true, Bool.false_eq_true, if_false]
    omega
  | release hheld => exact ProducerState.work_release hheld

theorem ProducerInv.length_le (hinv : ProducerInv chunkSize maxInFlight stream total s)
    (hchunk : 1 ≤ chunkSize) {evs : List ChunkEvent}
    (h : ChunkRun chunkSize maxInFlight stream s evs s') :
    evs.length + s'.work stream ≤ s.work stream :=
  h.length_le hinv (fun _ _ _ hinv hstep => hinv.step hchunk hstep)
    fun _ _ _ hinv hstep => hinv.work_step hchunk hstep

/-! ## The next step -/

/-- Nobody waits for ever: until the end is received there is a step, and where only the
consumer can take it, it has a chunk to receive or a slot to release. -/
theorem ProducerInv.progress (hinv : ProducerInv chunkSize maxInFlight stream total s)
    (hslots : 1 ≤ maxInFlight) (hopen : s.ended = false) :
    ∃ ev s', ChunkStep chunkSize maxInFlight stream s ev s' := by
  have hnext (h : stream.contents s.channel ≠ [] ∨ stream.finished s.channel) :
      ∃ ev s', ChunkStep chunkSize maxInFlight stream s ev s' := by
    obtain ⟨d, channel, hnext⟩ := stream.progress _ hinv.ok h
    cases d with
    | element chunk => exact ⟨_, _, .receive hopen hnext⟩
    | done => exact ⟨_, _, .done hopen hnext⟩
    | pending => exact ⟨_, _, .pending hopen hnext⟩
  cases hphase : s.phase with
  | idle =>
    cases hcalls : s.calls with
    | nil => exact ⟨_, _, .finish hphase hcalls⟩
    | cons call calls => exact ⟨_, _, .append hphase hcalls⟩
  | appending rest =>
    by_cases hrest : rest = []
    · exact ⟨_, _, .appended (hrest ▸ hphase)⟩
    · exact ⟨_, _, .copy hphase hrest⟩
  | emitting after =>
    by_cases hfree : s.inFlight < maxInFlight
    · exact ⟨_, _, .pass hphase hfree⟩
    · exact ⟨_, _, .wait hphase hfree⟩
  | waiting after =>
    have hslot := hinv.slot
    unfold ProducerState.SlotOk at hslot
    rw [hphase] at hslot
    have hcount := hinv.slots
    cases hheld : s.held with
    | cons chunk held => exact ⟨_, _, @ChunkStep.release _ _ _ _ _ chunk [] held hheld⟩
    | nil =>
      refine hnext (.inl fun hempty => ?_)
      rw [hheld, hempty, List.length_nil] at hcount
      omega
  | granted after => exact ⟨_, _, .emit hphase⟩
  | closing => exact ⟨_, _, .close hphase⟩
  | closed => exact hnext (.inr (hinv.finished.2 hphase))

end S3Archive.Sebsto
