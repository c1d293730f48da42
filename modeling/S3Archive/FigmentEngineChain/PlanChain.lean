import S3Archive.FigmentEngine.Archive

/-!
# figment-engine-chain: the segment-chain planner

`planSegmentChain` gives each big its bucket of smalls (`dealSmalls`) and turns
each bucket into a `Segment`: a chain of uploads (`Link`) that grow one object.
`planBucket` is the body of the loop over the buckets. The mutable variables of
the loop are the fields of `ChainPlanner`.
-/

namespace S3Archive.FigmentEngineChain

open FigmentEngine

structure Entry where
  id : FileId
  name : Bytes
  size : Nat
  localHeaderOffset : Nat
  deriving DecidableEq, Repr, Inhabited

/-- What a link appends to the object. -/
inductive Piece where
  | header (id : FileId)
  | body (id : FileId)
  deriving DecidableEq, Repr

/-- One upload of a segment's chain. -/
inductive Link where
  /-- The first big's header and body, of which `stealLen` bytes are read. -/
  | bootstrap (anchor : FileId) (stealLen : Nat)
  | anchorOnly (anchor : FileId)
  | anchorThenAppend (anchor : FileId) (piece : Piece)
  /-- Copy the object of the previous link and append to it. -/
  | forwardThenAppend (piece : Piece)
  deriving DecidableEq, Repr

structure Segment where
  anchor : FileId
  index : Nat
  links : List Link
  /-- Length of the segment's object. -/
  objectLen : Nat
  deriving DecidableEq, Repr

structure ChainStats where
  entries : Nat
  segments : Nat
  bigs : Nat
  smalls : Nat
  links : Nat
  maxChainDepth : Nat
  deriving DecidableEq, Repr

structure ChainPlan where
  order : List FileId
  entries : Std.HashMap FileId Entry
  segments : List Segment
  cdOffset : Nat
  cdSize : Nat
  stats : ChainStats

inductive PlanError where
  | noBigs (smalls : Nat)
  /-- The `expect` that every ordered id is in `size_of`. -/
  | notInSizeOf (id : FileId)
  deriving DecidableEq, Repr

/-! ## Buckets -/

/-- Ordered by id. -/
def idLe (a b : SourceFile) : Bool := decide (a.id.val ≤ b.id.val)

/-- One bucket for each big; the smalls go round. -/
def dealSmalls (bigs smalls : List SourceFile) : List (List FileId) :=
  smalls.zipIdx.foldl
    (fun buckets (s, i) => buckets.modify (i % bigs.length) fun bucket => bucket ++ [s.id])
    (bigs.map fun b => [b.id])

/-! ## Segments -/

section

variable (sizeOf : SizeOf)

def hdr (id : FileId) : Nat := localHeaderLen sizeOf[id]!.1

def body (id : FileId) : Nat := sizeOf[id]!.2

def plen : Piece → Nat
  | .header id => hdr sizeOf id
  | .body id => body sizeOf id

/-- What follows the anchor's body: the smalls, and the next anchor's header. -/
def pieces (segSmalls : List FileId) (nextBig : Option FileId) : List Piece :=
  segSmalls.flatMap (fun s => [.header s, .body s]) ++ (nextBig.map Piece.header).toList

/-- The chain of segment `k`. -/
def segmentLinks (k : Nat) (anchor : FileId) (pieces : List Piece) : List Link :=
  if k = 0 then
    .bootstrap anchor (partFloor - hdr sizeOf anchor) :: pieces.map .forwardThenAppend
  else
    match pieces with
    | [] => [.anchorOnly anchor]
    | first :: rest => .anchorThenAppend anchor first :: rest.map .forwardThenAppend

/-- The length of the object of segment `k`; a later anchor's header is in the object before. -/
def objectLen (k : Nat) (anchor : FileId) (pieces : List Piece) : Nat :=
  (if k = 0 then hdr sizeOf anchor + body sizeOf anchor else body sizeOf anchor) +
    (pieces.map (plen sizeOf)).sum

/-- The segment of bucket `k`. -/
def bucketSegment (k : Nat) (bucket : List FileId) (nextBig : Option FileId) : Segment :=
  let anchor := bucket[0]!
  let pieces := pieces (bucket.drop 1) nextBig
  { anchor
    index := k
    links := segmentLinks sizeOf k anchor pieces
    objectLen := objectLen sizeOf k anchor pieces }

structure ChainPlanner where
  order : List FileId
  segments : List Segment
  offset : Nat
  totalLinks : Nat
  maxDepth : Nat

/-- The body of the loop over the buckets. -/
def planBucket (buckets : List (List FileId)) (st : ChainPlanner) (p : List FileId × Nat) :
    ChainPlanner :=
  let (bucket, k) := p
  let anchor := bucket[0]!
  let segSmalls := bucket.drop 1
  let nextBig := if k + 1 < buckets.length then some (buckets[k + 1]!)[0]! else none
  let segment := bucketSegment sizeOf k bucket nextBig
  { order := st.order ++ anchor :: segSmalls
    segments := st.segments ++ [segment]
    offset := st.offset + (hdr sizeOf anchor + body sizeOf anchor) +
      (segSmalls.map fun s => hdr sizeOf s + body sizeOf s).sum
    totalLinks := st.totalLinks + segment.links.length
    maxDepth := max st.maxDepth segment.links.length }

end

/-! ## The plan -/

/-- The recorded entries, and the length of the central directory. -/
structure Recorded where
  sizeOf : SizeOf
  entries : Std.HashMap FileId Entry
  cdSize : Nat

/-- Move one ordered id from the sizes to the entries. -/
def recordEntry (st : Recorded) (p : FileId × Nat) : Except PlanError Recorded :=
  let (id, offset) := p
  match st.sizeOf[id]? with
  | none => .error (.notInSizeOf id)
  | some (name, size) => .ok {
      sizeOf := st.sizeOf.erase id
      entries := st.entries.insert id { id, name, size, localHeaderOffset := offset }
      cdSize := st.cdSize + centralDirEntryLen name offset }

/-- The state after the loop over the buckets. -/
def planBuckets (sizeOf : SizeOf) (buckets : List (List FileId)) : ChainPlanner :=
  buckets.zipIdx.foldl (planBucket sizeOf buckets) ⟨[], [], 0, 0, 0⟩

/-- The plan for sorted bigs and smalls. -/
def planSorted (bigs smalls : List SourceFile) : Except PlanError ChainPlan := do
  let sizeOf := sizeMap (bigs ++ smalls)
  let buckets := dealSmalls bigs smalls
  let st := planBuckets sizeOf buckets
  let offsets := computeOffsets st.order sizeOf
  let recorded ← (st.order.zip offsets).foldlM recordEntry ⟨sizeOf, ∅, 0⟩
  return {
    order := st.order
    entries := recorded.entries
    segments := st.segments
    cdOffset := st.offset
    cdSize := recorded.cdSize
    stats := {
      entries := st.order.length
      segments := buckets.length
      bigs := bigs.length
      smalls := smalls.length
      links := st.totalLinks
      maxChainDepth := st.maxDepth } }

def planSegmentChain (files : List SourceFile) : Except PlanError ChainPlan :=
  let (bigs, smalls) := files.partition SourceFile.isBig
  if bigs.isEmpty then .error (.noBigs smalls.length)
  else planSorted (bigs.mergeSort bigsLe) (smalls.mergeSort idLe)

end S3Archive.FigmentEngineChain
