import S3Archive.Base.Bytes
import S3Archive.Base.ChunkBuffer
import S3Archive.Base.Run
import S3Archive.Base.Stream
import S3Archive.SebstoSwift.Pipeline

/-!
# sebsto Typescript and Swift: a chunk producer and its consumer

Both programs have the same `ChunkProducer`; they differ in the stream behind it
(`chunkChannel`, `asyncStream`) and in `append`, of which Swift has one more. `ChunkStep` is the
producer, which can be suspended in `emitFullChunk`, beside a consumer that receives chunks and
releases their slots.
-/

namespace S3Archive.Sebsto

structure UploadChunk where
  partNumber : Nat
  data : Bytes
  deriving DecidableEq

/-! ## The streams -/

/-- The consumer of the Typescript channel. -/
inductive Receiver where
  | idle
  /-- `chunkWaiter` is set. -/
  | waiting
  /-- Its promise is resolved, and it has not gone on. -/
  | resolved (value : Option UploadChunk)
  deriving DecidableEq

structure ChunkChannel where
  chunkQueue : List UploadChunk := []
  receiver : Receiver := .idle
  closed : Bool := false
  deriving DecidableEq

namespace ChunkChannel

/-- The end of `emitFullChunk`. -/
def send (k : ChunkChannel) (chunk : UploadChunk) : ChunkChannel :=
  match k.receiver with
  | .waiting => { k with receiver := .resolved (some chunk) }
  | _ => { k with chunkQueue := k.chunkQueue ++ [chunk] }

/-- The end of `finish`. -/
def finish (k : ChunkChannel) : ChunkChannel :=
  match k.receiver with
  | .waiting => { k with closed := true, receiver := .resolved none }
  | _ => { k with closed := true }

def recv (k : ChunkChannel) : ChunkChannel :=
  match k.chunkQueue with
  | chunk :: rest => { k with chunkQueue := rest, receiver := .resolved (some chunk) }
  | [] =>
    if k.closed then { k with receiver := .resolved none }
    else { k with receiver := .waiting }

inductive Next : ChunkChannel → Delivery UploadChunk → ChunkChannel → Prop where
  | recv {k : ChunkChannel} (hidle : k.receiver = .idle) : Next k .pending k.recv
  | resume {k : ChunkChannel} {chunk : UploadChunk} (h : k.receiver = .resolved (some chunk)) :
    Next k (.element chunk) { k with receiver := .idle }
  | resumeNull {k : ChunkChannel} (h : k.receiver = .resolved none) :
    Next k .done { k with receiver := .idle }

def contents (k : ChunkChannel) : List UploadChunk :=
  match k.receiver with
  | .resolved (some chunk) => chunk :: k.chunkQueue
  | _ => k.chunkQueue

/-- The consumer waits, or is told of the end, only when there is no chunk. -/
def Ok (k : ChunkChannel) : Prop :=
  match k.receiver with
  | .waiting => k.chunkQueue = [] ∧ k.closed = false
  | .resolved none => k.chunkQueue = [] ∧ k.closed = true
  | _ => True

/-- Before `recv` is called. -/
def effort (k : ChunkChannel) : Nat :=
  match k.receiver with
  | .idle => 1
  | _ => 0

end ChunkChannel

/-- The channel of the Typescript producer is a stream. -/
def chunkChannel : StreamSemantics ChunkChannel UploadChunk where
  empty := {}
  yield := ChunkChannel.send
  finish := ChunkChannel.finish
  Next := ChunkChannel.Next
  contents := ChunkChannel.contents
  finished k := k.closed = true
  Ok := ChunkChannel.Ok
  ok_empty := trivial
  ok_yield k chunk hok hopen := by
    obtain ⟨queue, receiver, closed⟩ := k
    cases receiver with
    | idle => trivial
    | waiting => trivial
    | resolved value =>
      cases value with
      | none => exact absurd hok.2 hopen
      | some c => trivial
  ok_finish k hok hopen := by
    obtain ⟨queue, receiver, closed⟩ := k
    cases receiver with
    | idle => trivial
    | waiting => exact ⟨hok.1, rfl⟩
    | resolved value =>
      cases value with
      | none => exact absurd hok.2 hopen
      | some c => trivial
  ok_next k d k' hok hnext := by
    cases hnext with
    | recv hidle =>
      obtain ⟨queue, receiver, closed⟩ := k
      cases queue with
      | cons c rest => trivial
      | nil =>
        cases closed with
        | false => exact ⟨rfl, rfl⟩
        | true => exact ⟨rfl, rfl⟩
    | resume => trivial
    | resumeNull => trivial
  contents_empty := rfl
  not_finished_empty := by simp
  contents_yield k chunk hok hopen := by
    obtain ⟨queue, receiver, closed⟩ := k
    cases receiver with
    | idle => rfl
    | waiting =>
      obtain ⟨rfl, -⟩ := hok
      rfl
    | resolved value =>
      cases value with
      | none => exact absurd hok.2 hopen
      | some c => rfl
  finished_yield k chunk := by
    obtain ⟨queue, receiver, closed⟩ := k
    cases receiver <;> rfl
  contents_finish k hok := by
    obtain ⟨queue, receiver, closed⟩ := k
    cases receiver with
    | idle => rfl
    | waiting => rfl
    | resolved value => cases value <;> rfl
  finished_finish k := by
    obtain ⟨queue, receiver, closed⟩ := k
    cases receiver <;> rfl
  next_element k chunk k' hok hnext := by
    obtain ⟨queue, receiver, closed⟩ := k
    cases hnext with
    | resume h =>
      cases h
      rfl
  next_done k k' hok hnext := by
    obtain ⟨queue, receiver, closed⟩ := k
    cases hnext with
    | resumeNull h =>
      cases h
      exact ⟨hok.1, hok.1, hok.2⟩
  next_pending k k' hok hnext := by
    obtain ⟨queue, receiver, closed⟩ := k
    cases hnext with
    | recv hidle =>
      cases hidle
      cases queue with
      | cons c rest => rfl
      | nil => cases closed <;> rfl
  finished_next k d k' hnext := by
    obtain ⟨queue, receiver, closed⟩ := k
    cases hnext with
    | recv hidle =>
      cases queue with
      | cons c rest => rfl
      | nil => cases closed <;> rfl
    | resume => rfl
    | resumeNull => rfl
  progress k hok hsome := by
    obtain ⟨queue, receiver, closed⟩ := k
    cases receiver with
    | idle => exact ⟨_, _, .recv rfl⟩
    | waiting =>
      obtain ⟨rfl, rfl⟩ := hok
      rcases hsome with h | h
      · exact absurd rfl h
      · cases h
    | resolved value =>
      cases value with
      | none => exact ⟨_, _, .resumeNull rfl⟩
      | some c => exact ⟨_, _, .resume rfl⟩
  effort := ChunkChannel.effort
  effort_le k := by
    unfold ChunkChannel.effort
    split <;> omega
  effort_yield k chunk := by
    obtain ⟨queue, receiver, closed⟩ := k
    cases receiver <;> exact Nat.le_refl _
  effort_finish k := by
    obtain ⟨queue, receiver, closed⟩ := k
    cases receiver <;> exact Nat.le_refl _
  effort_pending k k' hnext := by
    obtain ⟨queue, receiver, closed⟩ := k
    cases hnext with
    | recv hidle =>
      cases hidle
      cases queue with
      | cons c rest => exact Nat.zero_lt_one
      | nil => cases closed <;> exact Nat.zero_lt_one

/-- A loop `for await` over a stream that is unbounded and loses nothing. -/
inductive AsyncNext {α : Type} : SebstoSwift.AsyncStream α → Delivery α →
    SebstoSwift.AsyncStream α → Prop where
  | next {k : SebstoSwift.AsyncStream α} {a : α} {rest : List α} (h : k.buffered = a :: rest) :
    AsyncNext k (.element a) { k with buffered := rest }
  | finished {k : SebstoSwift.AsyncStream α} (h : k.buffered = []) (hend : k.terminated = true) :
    AsyncNext k .done k

def asyncStream (α : Type) : StreamSemantics (SebstoSwift.AsyncStream α) α where
  empty := {}
  yield := SebstoSwift.AsyncStream.yield
  finish := SebstoSwift.AsyncStream.finish
  Next := AsyncNext
  contents := SebstoSwift.AsyncStream.buffered
  finished k := k.terminated = true
  Ok _ := True
  ok_empty := trivial
  ok_yield _ _ _ _ := trivial
  ok_finish _ _ _ := trivial
  ok_next _ _ _ _ _ := trivial
  contents_empty := rfl
  not_finished_empty := by simp
  contents_yield k a _ hopen := by
    unfold SebstoSwift.AsyncStream.yield
    rw [if_neg hopen]
  finished_yield k a := by
    unfold SebstoSwift.AsyncStream.yield
    split <;> rfl
  contents_finish _ _ := rfl
  finished_finish _ := rfl
  next_element k a k' _ hnext := by
    cases hnext with
    | next h => exact h
  next_done k k' _ hnext := by
    cases hnext with
    | finished h hend => exact ⟨h, h, hend⟩
  next_pending k k' _ hnext := by cases hnext
  finished_next k d k' hnext := by cases hnext <;> rfl
  progress k _ hsome := by
    cases hbuf : k.buffered with
    | cons a rest => exact ⟨_, _, .next hbuf⟩
    | nil => exact ⟨_, _, .finished hbuf (hsome.resolve_left fun h => h hbuf)⟩
  effort _ := 0
  effort_le _ := Nat.zero_le 1
  effort_yield _ _ := Nat.le_refl 0
  effort_finish _ := Nat.le_refl 0
  effort_pending k k' hnext := by cases hnext

/-! ## The producer -/

/-- A call of `append`. -/
inductive Append where
  /-- The loop, in Typescript and with `Data` in Swift. -/
  | data (src : Bytes)
  /-- With a `ByteBuffer` in Swift. -/
  | byteBuffer (src : Bytes)
  deriving DecidableEq

def Append.bytes : Append → Bytes
  | data src => src
  | byteBuffer src => src

/-- What follows `emitFullChunk`. -/
inductive AfterEmit where
  /-- The rest of an `append`. -/
  | append (rest : Bytes)
  | finish
  deriving DecidableEq

inductive ProducerPhase where
  /-- Between two calls. -/
  | idle
  /-- At the head of the loop of `append`. -/
  | appending (rest : Bytes)
  /-- In front of `waitForSlot`. -/
  | emitting (after : AfterEmit)
  /-- Suspended, with its continuation in `slotWaiters`. -/
  | waiting (after : AfterEmit)
  /-- `waitForSlot` has returned, or will as soon as the producer goes on. -/
  | granted (after : AfterEmit)
  | closing
  | closed
  deriving DecidableEq

def AfterEmit.phase : AfterEmit → ProducerPhase
  | append rest => .appending rest
  | finish => .closing

/-- A resumed continuation. -/
def ProducerPhase.resume : ProducerPhase → ProducerPhase
  | waiting after => granted after
  | phase => phase

structure ProducerState (κ : Type) where
  buffer : Bytes := []
  nextPartNumber : Nat := 1
  inFlight : Nat := 0
  /-- How many there are; they are the producer's own. -/
  slotWaiters : Nat := 0
  channel : κ
  phase : ProducerPhase := .idle
  /-- The calls that are still to come, before `finish`. -/
  calls : List Append
  /-- What the consumer has received. -/
  received : List UploadChunk := []
  /-- What it has received and not released. -/
  held : List UploadChunk := []
  /-- It has received the end. -/
  ended : Bool := false

section

variable (chunkSize maxInFlight : Nat)

/-- After a copy into the buffer, with `rest` still to be appended. -/
def afterCopy (buffer rest : Bytes) : ProducerPhase :=
  if buffer.length = chunkSize then .emitting (.append rest) else .appending rest

namespace ProducerState

variable {κ : Type} (s : ProducerState κ)

/-- The beginning of `append`: `ByteBuffer` has a path of its own for what fits. -/
def begin : Append → ProducerState κ
  | .data src => { s with phase := .appending src }
  | .byteBuffer src =>
    if src = [] then s
    else if src.length ≤ chunkSize - s.buffer.length then
      { s with buffer := s.buffer ++ src, phase := afterCopy chunkSize (s.buffer ++ src) [] }
    else { s with phase := .appending src }

/-- One turn of the loop of `append`. -/
def copy (src : Bytes) : ProducerState κ :=
  let (buffer, rest) := fillChunk chunkSize s.buffer src
  { s with buffer, phase := afterCopy chunkSize buffer rest }

/-- `emitFullChunk` behind `waitForSlot`. -/
def emitFullChunk (stream : StreamSemantics κ UploadChunk) : ProducerState κ :=
  { s with
    buffer := []
    nextPartNumber := s.nextPartNumber + 1
    inFlight := s.inFlight + 1
    channel := stream.yield s.channel ⟨s.nextPartNumber, s.buffer⟩ }

def releaseSlot : ProducerState κ :=
  let s := { s with inFlight := s.inFlight - 1 }
  if 0 < s.slotWaiters then
    { s with slotWaiters := s.slotWaiters - 1, phase := s.phase.resume }
  else s

end ProducerState

variable {κ : Type} (stream : StreamSemantics κ UploadChunk)

def ProducerState.create (calls : List Append) : ProducerState κ :=
  { channel := stream.empty, calls }

inductive ChunkEvent where
  | producer
  | consumer
  | released
  deriving DecidableEq

inductive ChunkStep : ProducerState κ → ChunkEvent → ProducerState κ → Prop where
  | append {s : ProducerState κ} {call : Append} {calls : List Append} (hphase : s.phase = .idle)
      (hcalls : s.calls = call :: calls) :
    ChunkStep s .producer { s.begin chunkSize call with calls }
  | copy {s : ProducerState κ} {src : Bytes} (hphase : s.phase = .appending src)
      (hsrc : src ≠ []) :
    ChunkStep s .producer (s.copy chunkSize src)
  | appended {s : ProducerState κ} (hphase : s.phase = .appending []) :
    ChunkStep s .producer { s with phase := .idle }
  | finish {s : ProducerState κ} (hphase : s.phase = .idle) (hcalls : s.calls = []) :
    ChunkStep s .producer
      { s with phase := if 0 < s.buffer.length then .emitting .finish else .closing }
  | pass {s : ProducerState κ} {after : AfterEmit} (hphase : s.phase = .emitting after)
      (hslot : s.inFlight < maxInFlight) :
    ChunkStep s .producer { s with phase := .granted after }
  | wait {s : ProducerState κ} {after : AfterEmit} (hphase : s.phase = .emitting after)
      (hslot : ¬ s.inFlight < maxInFlight) :
    ChunkStep s .producer
      { s with slotWaiters := s.slotWaiters + 1, phase := .waiting after }
  | emit {s : ProducerState κ} {after : AfterEmit} (hphase : s.phase = .granted after) :
    ChunkStep s .producer { s.emitFullChunk stream with phase := after.phase }
  | close {s : ProducerState κ} (hphase : s.phase = .closing) :
    ChunkStep s .producer { s with channel := stream.finish s.channel, phase := .closed }
  | pending {s : ProducerState κ} {channel : κ} (hopen : s.ended = false)
      (hnext : stream.Next s.channel .pending channel) :
    ChunkStep s .consumer { s with channel }
  | receive {s : ProducerState κ} {chunk : UploadChunk} {channel : κ} (hopen : s.ended = false)
      (hnext : stream.Next s.channel (.element chunk) channel) :
    ChunkStep s .consumer
      { s with channel, received := s.received ++ [chunk], held := s.held ++ [chunk] }
  | done {s : ProducerState κ} {channel : κ} (hopen : s.ended = false)
      (hnext : stream.Next s.channel .done channel) :
    ChunkStep s .consumer { s with channel, ended := true }
  | release {s : ProducerState κ} {chunk : UploadChunk} {held₁ held₂ : List UploadChunk}
      (hheld : s.held = held₁ ++ chunk :: held₂) :
    ChunkStep s .released { s.releaseSlot with held := held₁ ++ held₂ }

abbrev ChunkRun : ProducerState κ → List ChunkEvent → ProducerState κ → Prop :=
  Run (ChunkStep chunkSize maxInFlight stream)

end

end S3Archive.Sebsto
