import S3Archive.Base.Bytes
import S3Archive.Base.Memory
import S3Archive.Base.Run

/-!
# jrodon: the slab ring

The ring between the ZIP writer and the uploader. `WriterStep` is one atomic
action of `write` or `flush`: a copy into the current slab, the load or the swap
of a slab's state, a send. `RingStep` interleaves it with a reader that receives
leases and drops them in any order. `WriterPc` is where the writer is.
-/

namespace S3Archive.Jrodon

/-- Lifecycle of a slab. -/
inductive SlabState where
  | free
  | filling
  | ready
  deriving DecidableEq, Repr

/-- A sealed slab that has been handed to the consumer. -/
structure SlabLease where
  slabIdx : Nat
  start : Nat
  len : Nat
  deriving DecidableEq, Repr

/-- The sealed bytes. -/
def SlabLease.asSlice (buf : Bytes) (l : SlabLease) : Bytes := readAt buf l.start l.len

/-- A call on the writer. -/
inductive Call where
  | write (buf : Bytes)
  | flush
  deriving DecidableEq, Repr

/-- The bytes that a call hands over. -/
def Call.bytes : Call → Bytes
  | .write buf => buf
  | .flush => []

/-- Where the writer is; `rest` is what `write` has still to copy, `none` in `flush`. -/
inductive WriterPc where
  | idle
  /-- The loop of `write`. -/
  | copying (rest : Bytes)
  /-- Before the swap to `ready`. -/
  | sealing (rest : Option Bytes)
  /-- Before the send of the lease. -/
  | sending (rest : Option Bytes)
  /-- In the search loop. -/
  | scanning (rest : Bytes) (nextIdx : Nat)
  | sleeping (rest : Bytes)
  /-- Before the swap to `filling`. -/
  | claiming (rest : Bytes) (nextIdx : Nat)
  deriving DecidableEq, Repr

/-- What `write` has still to copy. -/
def WriterPc.rest : WriterPc → Bytes
  | .idle => []
  | .copying rest => rest
  | .sealing rest => rest.getD []
  | .sending rest => rest.getD []
  | .scanning rest _ => rest
  | .sleeping rest => rest
  | .claiming rest _ => rest

structure RingState where
  /-- The single allocation behind the slabs. -/
  buf : Bytes
  slabs : List SlabState
  slabIdx : Nat
  /-- Bytes written in the current slab. -/
  offset : Nat
  pc : WriterPc
  /-- Calls that the writer's user has still to make. -/
  calls : List Call
  /-- Leases that are sent and not received. -/
  channel : List SlabLease
  /-- Leases that the reader holds. -/
  held : List SlabLease
  /-- What the reader has received, in order. -/
  received : List Bytes
  /-- An `unreachable!` has been reached. -/
  panicked : Bool

/-- The ring with its first slab being filled. -/
def RingState.create (slabSize slabCount : Nat) (calls : List Call) : RingState where
  buf := List.replicate (slabSize * slabCount) 0
  slabs := (List.replicate slabCount SlabState.free).set 0 .filling
  slabIdx := 0
  offset := 0
  pc := .idle
  calls := calls
  channel := []
  held := []
  received := []
  panicked := false

section

variable (slabSize : Nat)

def slabStart (idx : Nat) : Nat := idx * slabSize

/-- After `seal`: `flush` returns, `write` begins to search at the current slab. -/
def afterSeal (slabIdx : Nat) : Option Bytes → WriterPc
  | none => .idle
  | some rest => .scanning rest slabIdx

/-- The lease of the current slab. -/
def RingState.lease (s : RingState) : SlabLease := ⟨s.slabIdx, slabStart slabSize s.slabIdx, s.offset⟩

/-- The candidate after `nextIdx`. -/
def RingState.candidate (s : RingState) (nextIdx : Nat) : Nat := (nextIdx + 1) % s.slabs.length

inductive WriterStep : RingState → RingState → Prop where
  | write {s : RingState} {buf : Bytes} {calls : List Call} (hpc : s.pc = .idle)
      (hcalls : s.calls = .write buf :: calls) :
    WriterStep s { s with pc := .copying buf, calls }
  | flushNothing {s : RingState} {calls : List Call} (hpc : s.pc = .idle)
      (hcalls : s.calls = .flush :: calls) (hoff : s.offset = 0) :
    WriterStep s { s with calls }
  | flush {s : RingState} {calls : List Call} (hpc : s.pc = .idle)
      (hcalls : s.calls = .flush :: calls) (hoff : s.offset ≠ 0) :
    WriterStep s { s with pc := .sealing none, calls }
  | written {s : RingState} (hpc : s.pc = .copying []) : WriterStep s { s with pc := .idle }
  /-- No room: the slab is sealed first. -/
  | full {s : RingState} {rest : Bytes} (hpc : s.pc = .copying rest) (hrest : rest ≠ [])
      (hroom : slabSize - s.offset = 0) :
    WriterStep s { s with pc := .sealing (some rest) }
  | copy {s : RingState} {rest : Bytes} (hpc : s.pc = .copying rest) (hrest : rest ≠ [])
      (hroom : slabSize - s.offset ≠ 0) :
    WriterStep s
      { s with
        buf := writeAt s.buf (slabStart slabSize s.slabIdx + s.offset)
          (rest.take (min rest.length (slabSize - s.offset)))
        offset := s.offset + min rest.length (slabSize - s.offset)
        pc := .copying (rest.drop (min rest.length (slabSize - s.offset))) }
  | markReady {s : RingState} {rest : Option Bytes} (hpc : s.pc = .sealing rest)
      (hprev : s.slabs[s.slabIdx]? = some .filling) :
    WriterStep s { s with slabs := s.slabs.set s.slabIdx .ready, pc := .sending rest }
  | alreadySealed {s : RingState} {rest : Option Bytes} (hpc : s.pc = .sealing rest)
      (hprev : s.slabs[s.slabIdx]? ≠ some .filling) :
    WriterStep s
      { s with slabs := s.slabs.set s.slabIdx .ready, pc := afterSeal s.slabIdx rest }
  | send {s : RingState} {rest : Option Bytes} (hpc : s.pc = .sending rest) :
    WriterStep s
      { s with channel := s.channel ++ [s.lease slabSize], pc := afterSeal s.slabIdx rest }
  /-- The search has come round to the current slab. -/
  | looped {s : RingState} {rest : Bytes} {nextIdx : Nat} (hpc : s.pc = .scanning rest nextIdx)
      (hloop : s.candidate nextIdx = s.slabIdx) :
    WriterStep s { s with pc := .sleeping rest }
  | found {s : RingState} {rest : Bytes} {nextIdx : Nat} (hpc : s.pc = .scanning rest nextIdx)
      (hloop : s.candidate nextIdx ≠ s.slabIdx)
      (hfree : s.slabs[s.candidate nextIdx]? = some .free) :
    WriterStep s { s with pc := .claiming rest (s.candidate nextIdx) }
  | taken {s : RingState} {rest : Bytes} {nextIdx : Nat} (hpc : s.pc = .scanning rest nextIdx)
      (hloop : s.candidate nextIdx ≠ s.slabIdx)
      (htaken : s.slabs[s.candidate nextIdx]? ≠ some .free) :
    WriterStep s { s with pc := .scanning rest (s.candidate nextIdx) }
  | wake {s : RingState} {rest : Bytes} (hpc : s.pc = .sleeping rest) :
    WriterStep s { s with pc := .scanning rest s.slabIdx }
  /-- The new slab is empty, and the loop of `write` goes on. -/
  | claim {s : RingState} {rest : Bytes} {nextIdx : Nat} (hpc : s.pc = .claiming rest nextIdx)
      (hprev : s.slabs[nextIdx]? = some .free) :
    WriterStep s
      { s with
        slabs := s.slabs.set nextIdx .filling
        slabIdx := nextIdx
        offset := 0
        pc := .copying rest }
  | raced {s : RingState} {rest : Bytes} {nextIdx : Nat} (hpc : s.pc = .claiming rest nextIdx)
      (hprev : s.slabs[nextIdx]? ≠ some .free) :
    WriterStep s { s with slabs := s.slabs.set nextIdx .filling, panicked := true }

inductive RingEvent where
  | writer
  | recv
  | drop
  deriving DecidableEq, Repr

inductive RingStep : RingState → RingEvent → RingState → Prop where
  | writer {s s' : RingState} (hok : s.panicked = false) (h : WriterStep slabSize s s') :
    RingStep s .writer s'
  | recv {s : RingState} {l : SlabLease} {channel : List SlabLease} (hok : s.panicked = false)
      (hchannel : s.channel = l :: channel) :
    RingStep s .recv
      { s with
        channel
        held := s.held ++ [l]
        received := s.received ++ [l.asSlice s.buf] }
  | drop {s : RingState} {l : SlabLease} {held₁ held₂ : List SlabLease} (hok : s.panicked = false)
      (hheld : s.held = held₁ ++ l :: held₂) (hprev : s.slabs[l.slabIdx]? = some .ready) :
    RingStep s .drop { s with slabs := s.slabs.set l.slabIdx .free, held := held₁ ++ held₂ }
  | dropRaced {s : RingState} {l : SlabLease} {held₁ held₂ : List SlabLease}
      (hok : s.panicked = false) (hheld : s.held = held₁ ++ l :: held₂)
      (hprev : s.slabs[l.slabIdx]? ≠ some .ready) :
    RingStep s .drop
      { s with
        slabs := s.slabs.set l.slabIdx .free
        held := held₁ ++ held₂
        panicked := true }

abbrev RingRun : RingState → List RingEvent → RingState → Prop := Run (RingStep slabSize)

end

/-- The leases that have not been dropped. -/
def RingState.alive (s : RingState) : List SlabLease := s.held ++ s.channel

end S3Archive.Jrodon
