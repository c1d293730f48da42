import S3Archive.Base.Run
import S3Archive.FigmentEngine.Assemble
import S3Archive.FigmentEngineChain.PlanChain

/-!
# figment-engine-chain: the executor

`buildOneLink` makes the object of one link: the parts of its upload
(`linkParts`), completed. `ChainStep` is the whole run: the HEAD replies fill the
checksum store, each segment waits for its checksums, walks its links and is
then copied into the archive's own upload, which the central directory closes.
-/

namespace S3Archive.FigmentEngineChain

open FigmentEngine

inductive ChainError where
  /-- The store refused a request. -/
  | s3
  | badCrc (name : Bytes)
  /-- The `expect` that a forward link has a previous object. -/
  | noPreviousObject
  deriving DecidableEq, Repr

def ChainError.ofAssemble : AssembleError → ChainError
  | .s3 => .s3
  | .badCrc name => .badCrc name

abbrev CrcStore := Std.HashMap FileId UInt32

/-- The key of an intermediate object: the segment's own, or that of one of its links. -/
structure TempKey where
  index : Nat
  link : Option Nat
  deriving DecidableEq, Repr, Hashable

abbrev Temps := Std.HashMap TempKey Bytes

def segmentKey (index : Nat) : TempKey := ⟨index, none⟩

/-! ## The checksums a segment waits for -/

def pieceId : Piece → FileId
  | .header id => id
  | .body id => id

def linkCrcIds : Link → List FileId
  | .bootstrap anchor _ => [anchor]
  | .anchorOnly anchor => [anchor]
  | .anchorThenAppend anchor piece => [anchor, pieceId piece]
  | .forwardThenAppend piece => [pieceId piece]

/-- Sorted, without neighbours that are equal. -/
def segmentCrcIds (seg : Segment) : List FileId :=
  ((seg.links.flatMap linkCrcIds).mergeSort fun a b => decide (a.val ≤ b.val)).destutter (· ≠ ·)

/-! ## Links -/

section

variable (src : Source) (plan : ChainPlan) (crcs : CrcStore)

def metaOf (e : Entry) : Except ChainError EntryMeta :=
  match crcs[e.id]? with
  | none => .error (.badCrc e.name)
  | some crc => .ok {
      name := e.name, size := e.size, crc, localHeaderOffset := e.localHeaderOffset }

/-- The last part of a link: a made header or a copied body. -/
def buildPiecePart : Piece → Except ChainError Bytes
  | .header id => do return localHeader (← metaOf crcs plan.entries[id]!)
  | .body id => .ok (src.body plan.entries[id]!.name)

/-- The copy of the object of the previous link. -/
def copyPrevious (temps : Temps) : Option TempKey → Except ChainError Bytes
  | none => .error .noPreviousObject
  | some key =>
    match temps[key]? with
    | none => .error .s3
    | some object => .ok object

/-- The numbered parts of a link's upload. -/
def linkParts (temps : Temps) (prevObject : Option TempKey) :
    Link → Except ChainError (List (Nat × Bytes))
  | .bootstrap anchor stealLen => do
    let entry := plan.entries[anchor]!
    let header := localHeader (← metaOf crcs entry)
    let body := src.body entry.name
    let pre ← (getObjectRangeBytes body 0 stealLen).mapError .ofAssemble
    let rest ← (copyRange body stealLen (entry.size - 1)).mapError .ofAssemble
    return [(1, header ++ pre), (2, rest)]
  | .anchorOnly anchor => .ok [(1, src.body plan.entries[anchor]!.name)]
  | .anchorThenAppend anchor piece => do
    return [(1, src.body plan.entries[anchor]!.name), (2, ← buildPiecePart src plan crcs piece)]
  | .forwardThenAppend piece => do
    let prev ← copyPrevious temps prevObject
    return [(1, prev), (2, ← buildPiecePart src plan crcs piece)]

/-- The object that a link makes. -/
def buildOneLink (temps : Temps) (prevObject : Option TempKey) (link : Link) :
    Except ChainError Bytes := do
  return completeUpload (← linkParts src plan crcs temps prevObject link)

/-- The central directory and the end records. -/
def buildCentralDirectory : Except ChainError Bytes := do
  let recs ← plan.order.mapM fun id => do
    return centralDirEntry (← metaOf crcs plan.entries[id]!)
  let cdSize := (recs.map List.length).sum
  return recs.flatten ++ endRecords plan.order.length plan.cdOffset cdSize

end

/-! ## The run -/

/-- HEAD requests in flight. -/
def crcConcurrency : Nat := 32

/-- Segments in flight. -/
def segmentConcurrency : Nat := 256

inductive SegmentState where
  /-- Not all checksums have arrived. -/
  | waiting
  /-- The next link, and the object of the one before. -/
  | building (li : Nat) (prevObject : Option TempKey)
  /-- The object is complete. -/
  | built
  /-- The object is a part of the archive's upload. -/
  | stitched
  | failed (e : ChainError)
  deriving DecidableEq, Repr

structure SegmentTask where
  segment : Segment
  state : SegmentState

namespace SegmentTask

def isStitched (t : SegmentTask) : Bool := t.state == .stitched

def isFailed (t : SegmentTask) : Bool :=
  match t.state with
  | .failed _ => true
  | _ => false

def finished (t : SegmentTask) : Bool := t.isStitched || t.isFailed

end SegmentTask

/-- The last link makes the segment's object, the others one of their own. -/
def outKey (seg : Segment) (li : Nat) : TempKey :=
  if li = seg.links.length - 1 then segmentKey seg.index else ⟨seg.index, some li⟩

/-- The state after link `li`. -/
def afterLink (seg : Segment) (li : Nat) : SegmentState :=
  if li = seg.links.length - 1 then .built else .building (li + 1) (some (outKey seg li))

/-- What the run has stored: the intermediate objects and the parts of the archive's upload. -/
structure Stored where
  temps : Temps
  parts : List (Nat × Bytes)

structure ChainState where
  /-- Ids whose HEAD has not been answered, in plan order. -/
  heads : List FileId
  /-- Some HEAD has failed for good. -/
  headFailed : Bool
  crcs : CrcStore
  tasks : List SegmentTask
  stored : Stored
  /-- What `run` returns; the archive is the completed object. -/
  outcome : Option (Except ChainError Bytes)

def ChainState.start (plan : ChainPlan) : ChainState where
  heads := plan.order
  headFailed := false
  crcs := ∅
  tasks := plan.segments.map fun seg => ⟨seg, .waiting⟩
  stored := ⟨∅, []⟩
  outcome := none

inductive ChainEvent where
  | head
  | start
  | link
  | stitch
  | finish
  /-- A request fails for good. -/
  | refuse
  deriving DecidableEq, Repr

/-- A step of one segment. -/
inductive SegmentStep (src : Source) (plan : ChainPlan) (crcs : CrcStore) :
    Stored → SegmentTask → ChainEvent → Stored → SegmentTask → Prop where
  | start {st : Stored} {seg : Segment} (hall : ∀ id ∈ segmentCrcIds seg, id ∈ crcs) :
    SegmentStep src plan crcs st ⟨seg, .waiting⟩ .start st ⟨seg, .building 0 none⟩
  | link {st : Stored} {seg : Segment} {li : Nat} {prev : Option TempKey} {link : Link}
      {object : Bytes} (hlink : seg.links[li]? = some link)
      (hbuild : buildOneLink src plan crcs st.temps prev link = .ok object) :
    SegmentStep src plan crcs st ⟨seg, .building li prev⟩ .link
      { st with temps := st.temps.insert (outKey seg li) object } ⟨seg, afterLink seg li⟩
  | linkFails {st : Stored} {seg : Segment} {li : Nat} {prev : Option TempKey} {link : Link}
      {e : ChainError} (hlink : seg.links[li]? = some link)
      (hbuild : buildOneLink src plan crcs st.temps prev link = .error e) :
    SegmentStep src plan crcs st ⟨seg, .building li prev⟩ .link st ⟨seg, .failed e⟩
  | stitch {st : Stored} {seg : Segment} {object : Bytes}
      (hobject : st.temps[segmentKey seg.index]? = some object) :
    SegmentStep src plan crcs st ⟨seg, .built⟩ .stitch
      { st with parts := st.parts ++ [(seg.index + 1, object)] } ⟨seg, .stitched⟩
  | stitchFails {st : Stored} {seg : Segment} (hobject : st.temps[segmentKey seg.index]? = none) :
    SegmentStep src plan crcs st ⟨seg, .built⟩ .stitch st ⟨seg, .failed .s3⟩
  | refuse {st : Stored} {seg : Segment} {state : SegmentState}
      (hstate : state = .built ∨ ∃ li prev, state = .building li prev) :
    SegmentStep src plan crcs st ⟨seg, state⟩ .refuse st ⟨seg, .failed .s3⟩

inductive ChainStep (src : Source) (plan : ChainPlan) :
    ChainState → ChainEvent → ChainState → Prop where
  | head {s : ChainState} {hs₁ hs₂ : List FileId} {id : FileId} (hrun : s.outcome = none)
      (hheads : s.heads = hs₁ ++ id :: hs₂) (hslot : hs₁.length < crcConcurrency) :
    ChainStep src plan s .head
      { s with
        heads := hs₁ ++ hs₂
        crcs := s.crcs.insert id (src.crc32 plan.entries[id]!.name) }
  | headRefused {s : ChainState} {hs₁ hs₂ : List FileId} {id : FileId} (hrun : s.outcome = none)
      (hheads : s.heads = hs₁ ++ id :: hs₂) (hslot : hs₁.length < crcConcurrency) :
    ChainStep src plan s .refuse { s with heads := hs₁ ++ hs₂, headFailed := true }
  /-- The failed HEADs are looked at when all have been answered. -/
  | headsFail {s : ChainState} (hrun : s.outcome = none) (hheads : s.heads = [])
      (hfailed : s.headFailed) :
    ChainStep src plan s .finish { s with outcome := some (.error .s3) }
  | segment {s : ChainState} {ts₁ ts₂ : List SegmentTask} {t t' : SegmentTask} {ev : ChainEvent}
      {st : Stored} (hrun : s.outcome = none) (htasks : s.tasks = ts₁ ++ t :: ts₂)
      (hslot : (ts₁.filter fun u => !u.finished).length < segmentConcurrency)
      (hstep : SegmentStep src plan s.crcs s.stored t ev st t') :
    ChainStep src plan s ev { s with tasks := ts₁ ++ t' :: ts₂, stored := st }
  | finish {s : ChainState} {cd : Bytes} (hrun : s.outcome = none) (hheads : s.heads = [])
      (hok : s.headFailed = false) (hall : ∀ t ∈ s.tasks, t.isStitched)
      (hcd : buildCentralDirectory plan s.crcs = .ok cd) :
    ChainStep src plan s .finish
      { s with
        outcome := some (.ok (completeUpload ((s.tasks.length + 1, cd) :: s.stored.parts))) }
  | finishFails {s : ChainState} {e : ChainError} (hrun : s.outcome = none) (hheads : s.heads = [])
      (hok : s.headFailed = false) (hall : ∀ t ∈ s.tasks, t.finished)
      (herror : buildCentralDirectory plan s.crcs = .error e ∨
        ∃ t ∈ s.tasks, t.state = .failed e) :
    ChainStep src plan s .finish { s with outcome := some (.error e) }
  /-- A request for the archive's own upload fails. -/
  | refused {s : ChainState} (hrun : s.outcome = none) :
    ChainStep src plan s .refuse { s with outcome := some (.error .s3) }

abbrev ChainRun (src : Source) (plan : ChainPlan) :
    ChainState → List ChainEvent → ChainState → Prop := Run (ChainStep src plan)

end S3Archive.FigmentEngineChain
