import Mathlib.Data.Finset.Max
import Mathlib.Data.Prod.Lex
import S3Archive.Base.Bytes
import S3Archive.Base.Run

/-!
# control-lambda: the windowed reader

`S3ObjectReader` serves reads from one window of the object in memory. Windows
are requested from a task that fetches them (`askWindow`) and arrive on a channel
(`receive`); `incomingWindows` holds the ranges that are under way. `ReaderStep`
interleaves the loop of `current_window` with the fetching task. Additions of
`usize` wrap, as in a release build.
-/

namespace S3Archive.ControlLambda

def usizeMax : Nat := 2 ^ 64 - 1

/-- `a + b` on `usize`. -/
def usizeAdd (a b : Nat) : Nat := (a + b) % 2 ^ 64

def minWindowSize : Nat := 16 * 1024 * 1024
def maxWindowSize : Nat := 256 * 1024 * 1024

/-! ## Ranges -/

structure WindowRange where
  start : Nat
  /-- Exclusive. -/
  stop : Nat
deriving DecidableEq

namespace WindowRange

def new (startPosition : Nat) (length : Nat) : WindowRange :=
  ⟨startPosition, usizeAdd startPosition length⟩

def len (r : WindowRange) : Nat := r.stop - r.start

def contains (r : WindowRange) (position : Nat) : Bool :=
  r.start ≤ position && position < r.stop

def covers (r other : WindowRange) : Bool := r.start ≤ other.start && r.stop ≥ other.stop

/-- By `start`, then by `stop`. -/
instance : LinearOrder WindowRange :=
  LinearOrder.lift' (fun r => toLex (r.start, r.stop)) fun r r' h => by
    cases r
    cases r'
    cases toLex.injective h
    rfl

end WindowRange

/-! ## Sets of ranges -/

abbrev WindowRangeSet := Finset WindowRange

namespace WindowRangeSet

/-- `range(..r).next_back()` -/
def nextBack (s : WindowRangeSet) (r : WindowRange) : Option WindowRange :=
  if h : (s.filter (· < r)).Nonempty then some ((s.filter (· < r)).max' h) else none

/-- `range(r..).next()` -/
def next (s : WindowRangeSet) (r : WindowRange) : Option WindowRange :=
  if h : (s.filter (r ≤ ·)).Nonempty then some ((s.filter (r ≤ ·)).min' h) else none

/-- The probe of both lookups: only the two neighbours of `r` are candidates. -/
def neighbour (s : WindowRangeSet) (r : WindowRange) (covers : WindowRange → Bool) :
    Option WindowRange :=
  ((nextBack s r).filter covers).or ((next s r).filter covers)

def getPositionCover (s : WindowRangeSet) (position : Nat) : Option WindowRange :=
  neighbour s ⟨position, usizeAdd position 1⟩ (·.contains position)

def getRangeCover (s : WindowRangeSet) (range : WindowRange) : Option WindowRange :=
  neighbour s range (·.covers range)

end WindowRangeSet

/-! ## The reader -/

structure S3ObjectReaderWindow where
  range : WindowRange
  buf : Bytes

namespace S3ObjectReaderWindow

def containsPosition (w : S3ObjectReaderWindow) (position : Nat) : Bool :=
  w.range.contains position

/-- The slice from `position` on; `none` is the panic of a slice that starts past the end. -/
def bufFrom (w : S3ObjectReaderWindow) (position : Nat) : Option Bytes :=
  if position - w.range.start ≤ w.buf.length then some (w.buf.drop (position - w.range.start))
  else none

end S3ObjectReaderWindow

structure S3ObjectReader where
  currentWindow : Option S3ObjectReaderWindow
  position : Nat
  objectSize : Nat
  /-- The requests sent and not yet answered, oldest first. -/
  windowsRequest : List WindowRange
  /-- The answers not yet received, oldest first. -/
  windows : List S3ObjectReaderWindow
  incomingWindows : WindowRangeSet

inductive SeekFrom where
  | start (newPosition : UInt64)
  | end_ (offset : Int64)
  | current (offset : Int64)

/-- The position after a seek. -/
def SeekFrom.target (objectSize : Nat) (position : Nat) : SeekFrom → Nat
  | .start newPosition => newPosition.toNat
  | .end_ offset => if offset.toInt ≥ 0 then objectSize else objectSize - offset.toInt.natAbs
  | .current offset => min (position + offset.toInt).toNat usizeMax

/-- The range that `askWindow` requests. -/
def clampWindow (objectSize : Nat) (offset : Nat) (size : Nat) : WindowRange :=
  if usizeAdd offset size > objectSize then
    if objectSize - offset ≥ minWindowSize then .new offset (objectSize - offset)
    else .new (objectSize - minWindowSize) minWindowSize
  else .new offset size

namespace S3ObjectReader

def create (object : Bytes) : S3ObjectReader where
  currentWindow := none
  position := 0
  objectSize := object.length
  windowsRequest := []
  windows := []
  incomingWindows := ∅

def askWindow (r : S3ObjectReader) (offset : Nat) (size : Nat) : S3ObjectReader :=
  let range := clampWindow r.objectSize offset size
  if r.currentWindow.any (·.range.covers range) ||
      (r.incomingWindows.getRangeCover range).isSome then r
  else { r with
    incomingWindows := insert range r.incomingWindows
    windowsRequest := r.windowsRequest ++ [range] }

def askPositionWindow (r : S3ObjectReader) : S3ObjectReader := r.askWindow r.position minWindowSize

def askNextWindow (r : S3ObjectReader) : S3ObjectReader :=
  match r.currentWindow with
  | some cw => r.askWindow cw.range.stop (min maxWindowSize (cw.range.len * 2))
  | none => r.askPositionWindow

/-- Both arms that receive a window. -/
def receive (r : S3ObjectReader) (newWindow : S3ObjectReaderWindow)
    (rest : List S3ObjectReaderWindow) : S3ObjectReader :=
  { r with
    windows := rest
    incomingWindows := r.incomingWindows.erase newWindow.range
    currentWindow := if newWindow.containsPosition r.position then some newWindow else none }

/-- What precedes the blocking receive. -/
def awaitPosition (r : S3ObjectReader) : S3ObjectReader :=
  if (r.incomingWindows.getPositionCover r.position).isNone then r.askPositionWindow else r

def seek (r : S3ObjectReader) (pos : SeekFrom) : S3ObjectReader :=
  { r with position := pos.target r.objectSize r.position }

end S3ObjectReader

/-! ## Reads, seeks and the fetching task -/

/-- What the fetching task downloads: the range, clamped at the end of the object. -/
def fetchRange (object : Bytes) (range : WindowRange) : Bytes :=
  (object.take range.stop).drop range.start

inductive Phase where
  | idle
  /-- At the head of the loop of `current_window`, in a read into `len` bytes. -/
  | looping (len : Nat)
  /-- In the blocking receive. -/
  | receiving (len : Nat)
  | panicked

structure ReaderState where
  reader : S3ObjectReader
  phase : Phase

def ReaderState.create (object : Bytes) : ReaderState := ⟨.create object, .idle⟩

inductive ReaderEvent where
  | seek (pos : SeekFrom) (position : Nat)
  /-- A read into `len` bytes begins. -/
  | call (len : Nat)
  /-- A window is received. -/
  | received
  /-- No window is there to be received. -/
  | missed
  /-- The read returns. -/
  | read (len : Nat) (bytes : Bytes)
  | panic
  /-- The fetching task answers its oldest request. -/
  | fetched

/-- The current window holds the position. -/
def S3ObjectReader.Found (r : S3ObjectReader) (cw : S3ObjectReaderWindow) : Prop :=
  r.currentWindow = some cw ∧ cw.containsPosition r.position = true

inductive ReaderStep (object : Bytes) : ReaderState → ReaderEvent → ReaderState → Prop
  | seek {r : S3ObjectReader} {pos : SeekFrom} :
    ReaderStep object ⟨r, .idle⟩ (.seek pos (r.seek pos).position) ⟨r.seek pos, .idle⟩
  | call {r : S3ObjectReader} {len : Nat} : ReaderStep object ⟨r, .idle⟩ (.call len) ⟨r, .looping len⟩
  | read {r : S3ObjectReader} {len : Nat} {cw : S3ObjectReaderWindow} {readBuf : Bytes}
      (hfound : r.Found cw) (hbuf : cw.bufFrom r.position = some readBuf) :
    ReaderStep object ⟨r, .looping len⟩ (.read len (readBuf.take len))
      ⟨{ r.askNextWindow with position := r.position + (readBuf.take len).length }, .idle⟩
  | panic {r : S3ObjectReader} {len : Nat} {cw : S3ObjectReaderWindow} (hfound : r.Found cw)
      (hbuf : cw.bufFrom r.position = none) :
    ReaderStep object ⟨r, .looping len⟩ .panic ⟨r.askNextWindow, .panicked⟩
  | tryRecv {r : S3ObjectReader} {len : Nat} {w : S3ObjectReaderWindow}
      {rest : List S3ObjectReaderWindow} (hmiss : ∀ cw, ¬ r.Found cw) (hrecv : r.windows = w :: rest) :
    ReaderStep object ⟨r, .looping len⟩ .received ⟨r.receive w rest, .looping len⟩
  | empty {r : S3ObjectReader} {len : Nat} (hmiss : ∀ cw, ¬ r.Found cw) (hrecv : r.windows = []) :
    ReaderStep object ⟨r, .looping len⟩ .missed ⟨r.awaitPosition, .receiving len⟩
  | recv {r : S3ObjectReader} {len : Nat} {w : S3ObjectReaderWindow}
      {rest : List S3ObjectReaderWindow} (hrecv : r.windows = w :: rest) :
    ReaderStep object ⟨r, .receiving len⟩ .received ⟨r.receive w rest, .looping len⟩
  | fetch {r : S3ObjectReader} {phase : Phase} {range : WindowRange} {rest : List WindowRange}
      (hreq : r.windowsRequest = range :: rest) :
    ReaderStep object ⟨r, phase⟩ .fetched
      ⟨{ r with windowsRequest := rest
                windows := r.windows ++ [⟨range, fetchRange object range⟩] }, phase⟩

abbrev ReaderRun (object : Bytes) : ReaderState → List ReaderEvent → ReaderState → Prop :=
  Run (ReaderStep object)

/-! ## The object as a cursor -/

/-- What the reader is for: a cursor on the object. A read may be short but is not empty before
the end. -/
inductive CursorStep (object : Bytes) : Nat → ReaderEvent → Nat → Prop
  | seek {position : Nat} {pos : SeekFrom} :
    CursorStep object position (.seek pos (pos.target object.length position))
      (pos.target object.length position)
  | read {position : Nat} {len : Nat} {bytes : Bytes} (hlen : bytes.length ≤ len)
      (hbytes : bytes = (object.drop position).take bytes.length)
      (hpos : position < object.length → 0 < len → bytes ≠ []) :
    CursorStep object position (.read len bytes) (position + bytes.length)

/-- The events that the caller sees. -/
def ReaderEvent.seen : ReaderEvent → Bool
  | .seek _ _ => true
  | .read _ _ => true
  | _ => false

abbrev CursorRun (object : Bytes) : Nat → List ReaderEvent → Nat → Prop :=
  Run (CursorStep object)

end S3Archive.ControlLambda
