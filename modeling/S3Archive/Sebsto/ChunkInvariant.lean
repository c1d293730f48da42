import S3Archive.Base.Chunks
import S3Archive.Base.Upload
import S3Archive.Sebsto.ChunkProducer

/-!
# sebsto Typescript and Swift: what a chunk producer keeps

`ProducerInv` says what is in the chunks that have been sent (`sent`), in the buffer and still
to be appended, and how many slots are taken. Every step keeps it.
-/

namespace S3Archive.Sebsto

variable {κ : Type}

/-- What `append` has still to write. -/
def AfterEmit.rest : AfterEmit → Bytes
  | append rest => rest
  | finish => []

def ProducerPhase.rest : ProducerPhase → Bytes
  | idle => []
  | appending rest => rest
  | emitting after => after.rest
  | waiting after => after.rest
  | granted after => after.rest
  | closing => []
  | closed => []

/-- `finish` has sent the last chunk. -/
def ProducerPhase.AllSent : ProducerPhase → Prop
  | closing => True
  | closed => True
  | _ => False

namespace ProducerState

/-- What is not in the buffer yet. -/
def rest (s : ProducerState κ) : Bytes := s.phase.rest ++ s.calls.flatMap Append.bytes

def sent (stream : StreamSemantics κ UploadChunk) (s : ProducerState κ) : List UploadChunk :=
  s.received ++ stream.contents s.channel

variable (chunkSize maxInFlight : Nat)

/-- In front of `emitFullChunk` the chunk is full, or it is the last one. -/
def EmitOk (s : ProducerState κ) : AfterEmit → Prop
  | .append _ => s.buffer.length = chunkSize
  | .finish => 0 < s.buffer.length ∧ s.buffer.length ≤ chunkSize ∧ s.calls = []

def BufferOk (s : ProducerState κ) : Prop :=
  match s.phase with
  | .idle => s.buffer.length < chunkSize
  | .appending _ => s.buffer.length < chunkSize
  | .emitting after => s.EmitOk chunkSize after
  | .waiting after => s.EmitOk chunkSize after
  | .granted after => s.EmitOk chunkSize after
  | .closing => s.buffer = [] ∧ s.calls = []
  | .closed => s.calls = []

/-- A producer that waits finds all slots taken, and one that goes on finds one free. -/
def SlotOk (s : ProducerState κ) : Prop :=
  match s.phase with
  | .waiting _ => s.slotWaiters = 1 ∧ maxInFlight ≤ s.inFlight
  | .granted _ => s.slotWaiters = 0 ∧ s.inFlight < maxInFlight
  | _ => s.slotWaiters = 0

end ProducerState

structure ProducerInv (chunkSize maxInFlight : Nat) (stream : StreamSemantics κ UploadChunk)
    (total : Bytes) (s : ProducerState κ) : Prop where
  ok : stream.Ok s.channel
  numbered : NumberedFrom UploadChunk.partNumber 1 (s.sent stream)
  number : s.nextPartNumber = 1 + (s.sent stream).length
  nonempty : ∀ c ∈ s.sent stream, c.data ≠ []
  chunked : ¬ s.phase.AllSent →
    Chunked chunkSize ((s.sent stream).map UploadChunk.data) (s.buffer ++ s.rest) total
  chunking : s.phase.AllSent → IsChunking chunkSize ((s.sent stream).map UploadChunk.data) total
  buffer : s.BufferOk chunkSize
  slots : s.inFlight = (stream.contents s.channel).length + s.held.length
  bound : s.inFlight ≤ maxInFlight
  slot : s.SlotOk maxInFlight
  finished : stream.finished s.channel ↔ s.phase = .closed
  ended : s.ended = true → stream.finished s.channel ∧ stream.contents s.channel = []

variable {chunkSize maxInFlight : Nat} {stream : StreamSemantics κ UploadChunk} {total : Bytes}
  {s s' : ProducerState κ}

/-! ## The producer -/

/-- A step that neither sends nor takes or releases a slot. -/
theorem ProducerInv.move (hinv : ProducerInv chunkSize maxInFlight stream total s)
    (hopen : ¬ s.phase.AllSent) (hopen' : ¬ s'.phase.AllSent)
    (hchannel : s'.channel = s.channel) (hreceived : s'.received = s.received)
    (hnumber : s'.nextPartNumber = s.nextPartNumber) (hflight : s'.inFlight = s.inFlight)
    (hheld : s'.held = s.held) (hended : s'.ended = s.ended)
    (hbytes : s'.buffer ++ s'.rest = s.buffer ++ s.rest) (hbuffer : s'.BufferOk chunkSize)
    (hslot : s'.SlotOk maxInFlight) : ProducerInv chunkSize maxInFlight stream total s' := by
  have hsent : s'.sent stream = s.sent stream := by
    unfold ProducerState.sent
    rw [hchannel, hreceived]
  have hclosed {phase : ProducerPhase} (h : ¬ phase.AllSent) : phase ≠ .closed := by
    rintro rfl
    exact h trivial
  refine ⟨?_, ?_, ?_, ?_, fun _ => ?_, fun h => absurd h hopen', hbuffer, ?_, ?_, hslot, ?_, ?_⟩
  · rw [hchannel]
    exact hinv.ok
  · rw [hsent]
    exact hinv.numbered
  · rw [hsent, hnumber]
    exact hinv.number
  · rw [hsent]
    exact hinv.nonempty
  · rw [hsent, hbytes]
    exact hinv.chunked hopen
  · rw [hflight, hchannel, hheld]
    exact hinv.slots
  · rw [hflight]
    exact hinv.bound
  · rw [hchannel, hinv.finished]
    exact iff_of_false (hclosed hopen) (hclosed hopen')
  · rw [hchannel, hended]
    exact hinv.ended

theorem afterCopy_rest (buffer rest : Bytes) : (afterCopy chunkSize buffer rest).rest = rest := by
  unfold afterCopy
  split <;> rfl

theorem not_allSent_afterCopy (buffer rest : Bytes) :
    ¬ (afterCopy chunkSize buffer rest).AllSent := by
  unfold afterCopy
  split <;> exact id

/-- After a copy the chunk is full, or there is room. -/
theorem bufferOk_afterCopy {buffer rest : Bytes} (hle : buffer.length ≤ chunkSize)
    (hphase : s.phase = afterCopy chunkSize buffer rest) (hbuffer : s.buffer = buffer) :
    s.BufferOk chunkSize := by
  subst hbuffer
  unfold ProducerState.BufferOk
  rw [hphase]
  by_cases hfull : s.buffer.length = chunkSize
  · rw [afterCopy, if_pos hfull]
    exact hfull
  · rw [afterCopy, if_neg hfull]
    exact Nat.lt_of_le_of_ne hle hfull

theorem slotOk_afterCopy {buffer rest : Bytes}
    (hphase : s.phase = afterCopy chunkSize buffer rest) (hwaiters : s.slotWaiters = 0) :
    s.SlotOk maxInFlight := by
  unfold ProducerState.SlotOk
  by_cases hfull : buffer.length = chunkSize
  · rw [hphase, afterCopy, if_pos hfull]
    exact hwaiters
  · rw [hphase, afterCopy, if_neg hfull]
    exact hwaiters

/-- Where bytes are appended the chunk has room, nobody waits for a slot, and more can be sent. -/
theorem ProducerInv.appendable (hinv : ProducerInv chunkSize maxInFlight stream total s)
    (hphase : s.phase = .idle ∨ ∃ src, s.phase = .appending src) :
    s.buffer.length < chunkSize ∧ s.slotWaiters = 0 ∧ ¬ s.phase.AllSent := by
  have hroom := hinv.buffer
  have hwaiters := hinv.slot
  unfold ProducerState.BufferOk at hroom
  unfold ProducerState.SlotOk at hwaiters
  rcases hphase with hphase | ⟨src, hphase⟩
  · rw [hphase] at hroom hwaiters ⊢
    exact ⟨hroom, hwaiters, id⟩
  · rw [hphase] at hroom hwaiters ⊢
    exact ⟨hroom, hwaiters, id⟩

theorem ProducerInv.begin (hinv : ProducerInv chunkSize maxInFlight stream total s)
    {call : Append} {calls : List Append} (hphase : s.phase = .idle)
    (hcalls : s.calls = call :: calls) :
    ProducerInv chunkSize maxInFlight stream total { s.begin chunkSize call with calls } := by
  obtain ⟨hroom, hwaiters, hopen⟩ := hinv.appendable (.inl hphase)
  have hrest : s.rest = call.bytes ++ calls.flatMap Append.bytes := by
    unfold ProducerState.rest
    rw [hphase, hcalls]
    rfl
  have hloop (src : Bytes) (hsrc : call.bytes = src) : ProducerInv chunkSize maxInFlight stream
      total { s with phase := .appending src, calls } := by
    refine hinv.move hopen id rfl rfl rfl rfl rfl rfl ?_ hroom hwaiters
    rw [hrest, hsrc]
    rfl
  cases call with
  | data src => exact hloop src rfl
  | byteBuffer src =>
    unfold ProducerState.begin
    dsimp only
    split
    · rename_i hnil
      refine hinv.move hopen hopen rfl rfl rfl rfl rfl rfl ?_ ?_ ?_
      · rw [hrest, hnil]
        unfold ProducerState.rest
        rw [hphase]
        rfl
      · unfold ProducerState.BufferOk
        dsimp only
        rw [hphase]
        exact hroom
      · unfold ProducerState.SlotOk
        dsimp only
        rw [hphase]
        exact hwaiters
    · split
      · rename_i hfits
        refine hinv.move hopen (not_allSent_afterCopy _ _) rfl rfl rfl rfl rfl rfl ?_
          (bufferOk_afterCopy ?_ rfl rfl) (slotOk_afterCopy rfl hwaiters)
        · rw [hrest]
          unfold ProducerState.rest
          dsimp only
          rw [afterCopy_rest, List.append_assoc]
          rfl
        · rw [List.length_append]
          omega
      · exact hloop src rfl

theorem ProducerInv.copy (hinv : ProducerInv chunkSize maxInFlight stream total s) {src : Bytes}
    (hphase : s.phase = .appending src) :
    ProducerInv chunkSize maxInFlight stream total (s.copy chunkSize src) := by
  obtain ⟨hroom, hwaiters, hopen⟩ := hinv.appendable (.inr ⟨src, hphase⟩)
  unfold ProducerState.copy
  cases hfill : fillChunk chunkSize s.buffer src with
  | mk buffer rest =>
    obtain ⟨hbytes, hle, -⟩ := fillChunk_spec hfill hroom
    refine hinv.move hopen (not_allSent_afterCopy _ _) rfl rfl rfl rfl rfl rfl ?_
      (bufferOk_afterCopy hle rfl rfl) (slotOk_afterCopy rfl hwaiters)
    unfold ProducerState.rest
    dsimp only
    rw [afterCopy_rest, hphase, ← List.append_assoc, hbytes, List.append_assoc]
    rfl

theorem ProducerInv.finish (hinv : ProducerInv chunkSize maxInFlight stream total s)
    (hphase : s.phase = .idle) (hcalls : s.calls = []) :
    ProducerInv chunkSize maxInFlight stream total
      { s with phase := if 0 < s.buffer.length then .emitting .finish else .closing } := by
  obtain ⟨hroom, hwaiters, hopen⟩ := hinv.appendable (.inl hphase)
  have hrest : s.rest = [] := by
    unfold ProducerState.rest
    rw [hphase, hcalls]
    rfl
  split
  · rename_i hsome
    refine hinv.move hopen id rfl rfl rfl rfl rfl rfl ?_ ⟨hsome, Nat.le_of_lt hroom, hcalls⟩
      hwaiters
    rw [hrest]
    unfold ProducerState.rest
    rw [hcalls]
    rfl
  · rename_i hnone
    have hbuffer : s.buffer = [] := List.eq_nil_of_length_eq_zero (by omega)
    have hchunked := hinv.chunked hopen
    rw [hrest, hbuffer] at hchunked
    refine ⟨hinv.ok, hinv.numbered, hinv.number, hinv.nonempty, fun h => absurd trivial h,
      fun _ => hchunked.done, ⟨hbuffer, hcalls⟩, hinv.slots, hinv.bound, hwaiters, ?_, hinv.ended⟩
    rw [hinv.finished, hphase]
    exact iff_of_false (by simp) (by simp)

/-- What is sent with a chunk that is sent. -/
theorem sent_emitFullChunk (hok : stream.Ok s.channel) (hopen : ¬ stream.finished s.channel) :
    (s.emitFullChunk stream).sent stream = s.sent stream ++ [⟨s.nextPartNumber, s.buffer⟩] := by
  unfold ProducerState.sent ProducerState.emitFullChunk
  dsimp only
  rw [stream.contents_yield _ _ hok hopen, List.append_assoc]

theorem ProducerInv.emit (hinv : ProducerInv chunkSize maxInFlight stream total s)
    (hchunk : 1 ≤ chunkSize) {after : AfterEmit} (hphase : s.phase = .granted after) :
    ProducerInv chunkSize maxInFlight stream total
      { s.emitFullChunk stream with phase := after.phase } := by
  have hbuffer := hinv.buffer
  have hslot := hinv.slot
  unfold ProducerState.BufferOk at hbuffer
  unfold ProducerState.SlotOk at hslot
  rw [hphase] at hbuffer hslot
  have hclosed : ¬ s.phase = .closed := by simp [hphase]
  have hopen : ¬ stream.finished s.channel := fun h => hclosed (hinv.finished.1 h)
  have hchunked := hinv.chunked (by rw [hphase]; exact id)
  have hsent := sent_emitFullChunk hinv.ok hopen
  have hsent' : ProducerState.sent stream { s.emitFullChunk stream with phase := after.phase } =
      s.sent stream ++ [⟨s.nextPartNumber, s.buffer⟩] := hsent
  have hdata : (s.sent stream ++ [UploadChunk.mk s.nextPartNumber s.buffer]).map UploadChunk.data =
      (s.sent stream).map UploadChunk.data ++ [s.buffer] := List.map_append
  have hrest : s.rest = after.rest ++ s.calls.flatMap Append.bytes := by
    unfold ProducerState.rest
    rw [hphase]
    rfl
  have hpos : s.buffer ≠ [] := by
    rw [← List.length_pos_iff]
    cases after with
    | append rest =>
      have hfull : s.buffer.length = chunkSize := hbuffer
      omega
    | finish => exact hbuffer.1
  refine ⟨stream.ok_yield _ _ hinv.ok hopen, ?_, ?_, ?_, fun hall => ?_, fun hall => ?_, ?_, ?_, ?_,
    ?_, ?_, fun hended => absurd (hinv.ended hended).1 hopen⟩
  · rw [hsent']
    exact hinv.numbered.append (.cons hinv.number (.nil _ _))
  · rw [hsent', List.length_append, List.length_singleton]
    show s.nextPartNumber + 1 = _
    rw [hinv.number, Nat.add_assoc]
  · rw [hsent']
    exact List.forall_mem_append.2 ⟨hinv.nonempty, List.forall_mem_singleton.2 hpos⟩
  · cases after with
    | finish => exact absurd trivial hall
    | append rest =>
      have hfull : s.buffer.length = chunkSize := hbuffer
      have hcut := hchunked.cut (by rw [List.length_append]; omega)
      rw [List.take_left' hfull, List.drop_left' hfull, hrest] at hcut
      rw [hsent', hdata]
      exact hcut
  · cases after with
    | append rest => exact absurd hall id
    | finish =>
      obtain ⟨-, hle, hcalls⟩ := hbuffer
      rw [hrest, hcalls] at hchunked
      rw [hsent', hdata]
      exact Chunked.last (by simpa [AfterEmit.rest] using hchunked) hle
  · cases after with
    | append rest => exact hchunk
    | finish => exact ⟨rfl, hbuffer.2.2⟩
  · show s.inFlight + 1 = (stream.contents (stream.yield s.channel _)).length + s.held.length
    rw [stream.contents_yield _ _ hinv.ok hopen, List.length_append, List.length_singleton]
    have := hinv.slots
    omega
  · exact hslot.2
  · cases after with
    | append rest => exact hslot.1
    | finish => exact hslot.1
  · show stream.finished (stream.yield s.channel _) ↔ after.phase = .closed
    rw [stream.finished_yield]
    exact iff_of_false hopen (by cases after <;> simp [AfterEmit.phase])

theorem ProducerInv.close (hinv : ProducerInv chunkSize maxInFlight stream total s)
    (hphase : s.phase = .closing) :
    ProducerInv chunkSize maxInFlight stream total
      { s with channel := stream.finish s.channel, phase := .closed } := by
  have hbuffer := hinv.buffer
  have hslot := hinv.slot
  unfold ProducerState.BufferOk at hbuffer
  unfold ProducerState.SlotOk at hslot
  rw [hphase] at hbuffer hslot
  have hopen : ¬ stream.finished s.channel := fun h => by
    have := hinv.finished.1 h
    rw [hphase] at this
    cases this
  have hcontents := stream.contents_finish _ hinv.ok
  have hsent : ProducerState.sent stream
      { s with channel := stream.finish s.channel, phase := .closed } = s.sent stream :=
    congrArg (s.received ++ ·) hcontents
  refine ⟨stream.ok_finish _ hinv.ok hopen, ?_, ?_, ?_, fun h => absurd trivial h, fun _ => ?_,
    hbuffer.2, ?_, hinv.bound, hslot, iff_of_true (stream.finished_finish _) rfl,
    fun hended => absurd (hinv.ended hended).1 hopen⟩
  · rw [hsent]
    exact hinv.numbered
  · rw [hsent]
    exact hinv.number
  · rw [hsent]
    exact hinv.nonempty
  · rw [hsent]
    exact hinv.chunking (by rw [hphase]; trivial)
  · show s.inFlight = (stream.contents (stream.finish s.channel)).length + s.held.length
    rw [hcontents]
    exact hinv.slots

/-! ## The consumer -/

theorem ProducerInv.consume (hinv : ProducerInv chunkSize maxInFlight stream total s)
    {channel : κ} {received held : List UploadChunk} {ended : Bool} (hok : stream.Ok channel)
    (hsent : received ++ stream.contents channel = s.sent stream)
    (hslots : (stream.contents channel).length + held.length =
      (stream.contents s.channel).length + s.held.length)
    (hfinished : stream.finished channel ↔ stream.finished s.channel)
    (hended : ended = true → stream.finished channel ∧ stream.contents channel = []) :
    ProducerInv chunkSize maxInFlight stream total { s with channel, received, held, ended } := by
  have hsent' : ProducerState.sent stream { s with channel, received, held, ended } =
      s.sent stream := hsent
  refine ⟨hok, ?_, ?_, ?_, ?_, ?_, hinv.buffer, hinv.slots.trans hslots.symm, hinv.bound, hinv.slot,
    hfinished.trans hinv.finished, hended⟩
  · rw [hsent']
    exact hinv.numbered
  · rw [hsent']
    exact hinv.number
  · rw [hsent']
    exact hinv.nonempty
  · rw [hsent']
    exact hinv.chunked
  · rw [hsent']
    exact hinv.chunking

/-- A slot that is released wakes the producer, which then finds it free. -/
theorem ProducerInv.release (hinv : ProducerInv chunkSize maxInFlight stream total s)
    {chunk : UploadChunk} {held₁ held₂ : List UploadChunk}
    (hheld : s.held = held₁ ++ chunk :: held₂) :
    ProducerInv chunkSize maxInFlight stream total
      { s.releaseSlot with held := held₁ ++ held₂ } := by
  have hcount : s.inFlight =
      (stream.contents s.channel).length + (held₁.length + held₂.length) + 1 := by
    have := hinv.slots
    rw [hheld, List.length_append, List.length_cons] at this
    omega
  have hbound := hinv.bound
  have hslot := hinv.slot
  have hbuffer := hinv.buffer
  have hslots : s.inFlight - 1 =
      (stream.contents s.channel).length + (held₁ ++ held₂).length := by
    rw [List.length_append]
    omega
  have hother (hwaiters : s.slotWaiters = 0)
      (hslot' : ProducerState.SlotOk maxInFlight { s with inFlight := s.inFlight - 1 }) :
      ProducerInv chunkSize maxInFlight stream total
        { s.releaseSlot with held := held₁ ++ held₂ } := by
    unfold ProducerState.releaseSlot
    rw [if_neg (by dsimp only; omega)]
    exact ⟨hinv.ok, hinv.numbered, hinv.number, hinv.nonempty, hinv.chunked, hinv.chunking,
      hbuffer, hslots, by dsimp only; omega, hslot', hinv.finished, hinv.ended⟩
  unfold ProducerState.SlotOk at hslot hother
  dsimp only at hother
  cases hphase : s.phase with
  | waiting after =>
    unfold ProducerState.BufferOk at hbuffer
    rw [hphase] at hslot hbuffer
    have hchunked := hinv.chunked (by rw [hphase]; exact id)
    unfold ProducerState.rest at hchunked
    rw [hphase] at hchunked
    unfold ProducerState.releaseSlot
    rw [if_pos (by dsimp only; omega)]
    dsimp only
    rw [hphase]
    refine ⟨hinv.ok, hinv.numbered, hinv.number, hinv.nonempty, fun _ => hchunked,
      fun h => absurd h id, hbuffer, hslots, ?_, ⟨?_, ?_⟩, ?_, hinv.ended⟩
    · dsimp only
      omega
    · dsimp only
      omega
    · dsimp only
      omega
    · rw [hinv.finished, hphase]
      exact iff_of_false (by simp) (by simp [ProducerPhase.resume])
  | granted after =>
    rw [hphase] at hslot hother
    exact hother hslot.1 ⟨hslot.1, by omega⟩
  | _ =>
    rw [hphase] at hslot hother
    exact hother hslot hslot

theorem ProducerInv.step (hinv : ProducerInv chunkSize maxInFlight stream total s)
    (hchunk : 1 ≤ chunkSize) {ev : ChunkEvent}
    (hstep : ChunkStep chunkSize maxInFlight stream s ev s') :
    ProducerInv chunkSize maxInFlight stream total s' := by
  have hbuffer := hinv.buffer
  have hslot := hinv.slot
  unfold ProducerState.BufferOk at hbuffer
  unfold ProducerState.SlotOk at hslot
  cases hstep with
  | append hphase hcalls => exact hinv.begin hphase hcalls
  | copy hphase hsrc => exact hinv.copy hphase
  | appended hphase =>
    rw [hphase] at hbuffer hslot
    refine hinv.move (by rw [hphase]; exact id) id rfl rfl rfl rfl rfl rfl ?_ hbuffer hslot
    unfold ProducerState.rest
    rw [hphase]
    rfl
  | finish hphase hcalls => exact hinv.finish hphase hcalls
  | pass hphase hfree =>
    rw [hphase] at hbuffer hslot
    refine hinv.move (by rw [hphase]; exact id) id rfl rfl rfl rfl rfl rfl ?_ hbuffer ⟨hslot, hfree⟩
    unfold ProducerState.rest
    rw [hphase]
    rfl
  | wait hphase hfull =>
    rw [hphase] at hbuffer hslot
    refine hinv.move (by rw [hphase]; exact id) id rfl rfl rfl rfl rfl rfl ?_ hbuffer
      ⟨congrArg (· + 1) hslot, Nat.not_lt.1 hfull⟩
    unfold ProducerState.rest
    rw [hphase]
    rfl
  | emit hphase => exact hinv.emit hchunk hphase
  | close hphase => exact hinv.close hphase
  | @pending channel hopen hnext =>
    have hcontents := stream.next_pending _ _ hinv.ok hnext
    refine hinv.consume (stream.ok_next _ _ _ hinv.ok hnext) ?_ ?_
      (stream.finished_next _ _ _ hnext) fun hended => ?_
    · rw [hcontents]
      rfl
    · rw [hcontents]
    · rw [hopen] at hended
      cases hended
  | @receive chunk channel hopen hnext =>
    have hcontents := stream.next_element _ _ _ hinv.ok hnext
    refine hinv.consume (stream.ok_next _ _ _ hinv.ok hnext) ?_ ?_
      (stream.finished_next _ _ _ hnext) fun hended => ?_
    · unfold ProducerState.sent
      rw [hcontents, List.append_assoc]
      rfl
    · simp only [hcontents, List.length_append, List.length_cons, List.length_nil]
      omega
    · rw [hopen] at hended
      cases hended
  | @done channel hopen hnext =>
    obtain ⟨hempty, hempty', hfinished⟩ := stream.next_done _ _ hinv.ok hnext
    have hiff := stream.finished_next _ _ _ hnext
    refine hinv.consume (stream.ok_next _ _ _ hinv.ok hnext) ?_ ?_ hiff
      fun _ => ⟨hiff.2 hfinished, hempty'⟩
    · unfold ProducerState.sent
      rw [hempty, hempty']
    · rw [hempty, hempty']
  | release hheld => exact hinv.release hheld

/-! ## Runs -/

theorem producerInv_create (hchunk : 1 ≤ chunkSize) (calls : List Append) :
    ProducerInv chunkSize maxInFlight stream (calls.flatMap Append.bytes)
      (.create stream calls) := by
  have hsent : (ProducerState.create stream calls).sent stream = [] := stream.contents_empty
  refine ⟨stream.ok_empty, ?_, ?_, ?_, fun _ => ?_, fun h => absurd h id, hchunk, ?_,
    Nat.zero_le _, rfl, iff_of_false stream.not_finished_empty (by simp [ProducerState.create]),
    fun h => (by cases h)⟩
  · rw [hsent]
    exact .nil _ _
  · rw [hsent]
    rfl
  · rw [hsent]
    exact fun c hc => absurd hc List.not_mem_nil
  · rw [hsent]
    exact ⟨rfl, fun p hp => absurd hp List.not_mem_nil⟩
  · show 0 = (stream.contents stream.empty).length + 0
    rw [stream.contents_empty]
    rfl

theorem producerInv_run {calls : List Append} {evs : List ChunkEvent} (hchunk : 1 ≤ chunkSize)
    (h : ChunkRun chunkSize maxInFlight stream (.create stream calls) evs s) :
    ProducerInv chunkSize maxInFlight stream (calls.flatMap Append.bytes) s :=
  h.invariant (producerInv_create hchunk calls) fun _ _ _ hinv hstep => hinv.step hchunk hstep

end S3Archive.Sebsto
