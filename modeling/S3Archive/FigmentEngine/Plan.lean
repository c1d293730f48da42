import S3Archive.Base.Offsets
import S3Archive.Base.Table
import S3Archive.FigmentEngine.ZipFormat

/-!
# figment-engine: the single-upload planner

`planSingleMpu` turns the listed files into one multipart upload whose parts are
server-side copies of big bodies and streamed batches. Its mutable variables are
the fields of `Planner`; `pullSmalls` is the inner loop, `planBig` the body of
the loop over the bigs. A hash map is indexed with `!`, as indexing a missing key
panics.
-/

namespace S3Archive.FigmentEngine

/-- Minimum size of a part of a multipart upload that is not the last. -/
def partFloor : Nat := 5 * 1024 * 1024

def viabilityMinTotal : Nat := 4 * partFloor

structure FileId where
  val : UInt32
  deriving DecidableEq, Hashable, Repr, Inhabited

/-- A source object from the listing; `name` is its entry name. -/
structure SourceFile where
  id : FileId
  name : Bytes
  size : Nat
  deriving DecidableEq, Repr

/-- The bytes of a file in the archive: its local header and its body. -/
def SourceFile.entrySize (f : SourceFile) : Nat := entryTotalLen f.name f.size

structure Entry where
  id : FileId
  name : Bytes
  size : Nat
  localHeaderOffset : Nat
  crc : Option UInt32
  streamed : Bool
  deriving DecidableEq, Repr, Inhabited

/-- A piece of a Stream part. -/
inductive Segment where
  | streamedFile (id : FileId)
  | copiedFileHeader (id : FileId)
  /-- The first `len` bytes of a body whose remainder is copied. -/
  | streamedBigPrefix (id : FileId) (len : Nat)
  | centralDirectory
  deriving DecidableEq, Repr

inductive PartSpec where
  /-- The body from `copyFrom` to its end, moved by the store. -/
  | copy (partNumber : Nat) (id : FileId) (copyFrom : Nat)
  | stream (partNumber : Nat) (segments : List Segment)
  deriving DecidableEq, Repr

namespace PartSpec

def partNumber : PartSpec → Nat
  | copy partNumber _ _ => partNumber
  | stream partNumber _ => partNumber

def isCopy : PartSpec → Bool
  | copy .. => true
  | stream .. => false

end PartSpec

structure PlanStats where
  entries : Nat
  parts : Nat
  copyParts : Nat
  streamParts : Nat
  foldedBigs : Nat
  stolenBigs : Nat
  bigs : Nat
  smalls : Nat
  deriving DecidableEq, Repr

structure SinglePlan where
  order : List FileId
  entries : Std.HashMap FileId Entry
  parts : List PartSpec
  /-- The bigs that are copied. -/
  copyable : List FileId
  stats : PlanStats

inductive SingleRouting where
  | singleMpu (plan : SinglePlan)
  | fallback

/-! ## Sorting and sizes -/

/-- Largest first, ties by id. -/
def bigsLe (a b : SourceFile) : Bool :=
  decide (b.size < a.size) || decide (b.size = a.size) && decide (a.id.val ≤ b.id.val)

/-- Smallest first, ties by id. -/
def smallsLe (a b : SourceFile) : Bool :=
  decide (a.size < b.size) || decide (a.size = b.size) && decide (a.id.val ≤ b.id.val)

abbrev SizeOf := Std.HashMap FileId (Bytes × Nat)

/-- Name and size of each file, by id. -/
def sizeMap (files : List SourceFile) : SizeOf :=
  insertEach SourceFile.id (fun f => (f.name, f.size)) ∅ files

/-- The offsets of the local headers when the entries are laid out in order. -/
def computeOffsets (order : List FileId) (sizeOf : SizeOf) : List Nat :=
  (offsetsFrom (fun id => entryTotalLen sizeOf[id]!.1 sizeOf[id]!.2) 0 order).map Prod.fst

/-! ## The loop over the bigs -/

structure Planner where
  order : List FileId
  parts : List PartSpec
  partNumber : Nat
  /-- The smalls that the iterator has not yielded. -/
  smallIter : List SourceFile
  curSegs : List Segment
  curBytes : Nat
  /-- The bigs that are streamed whole. -/
  streamedBigs : Std.HashSet FileId
  stolenCount : Nat

namespace Planner

def init (smalls : List SourceFile) : Planner where
  order := []
  parts := []
  partNumber := 1
  smallIter := smalls
  curSegs := []
  curBytes := 0
  streamedBigs := ∅
  stolenCount := 0

/-- Take the next small into the batch. -/
def pull (sizeOf : SizeOf) (st : Planner) (s : SourceFile) (rest : List SourceFile) : Planner :=
  let (name, size) := sizeOf[s.id]!
  { st with
    smallIter := rest
    curSegs := st.curSegs ++ [.streamedFile s.id]
    order := st.order ++ [s.id]
    curBytes := st.curBytes + (localHeaderLen name + size) }

/-- The inner loop, over the iterator: pull smalls until the gap to the floor can be bridged by a
steal from the big, the header clears the floor, or the smalls run out. -/
def pullSmalls (sizeOf : SizeOf) (headerBig maxSteal : Nat) :
    List SourceFile → Bool → Planner → Planner × Bool
  | smallIter, pulledSmall, st =>
    let withHeader := st.curBytes + headerBig
    if withHeader ≥ partFloor then (st, pulledSmall)
    else
      let gap := partFloor - withHeader
      let smallsLeft := !smallIter.isEmpty
      if gap ≤ maxSteal ∧ (pulledSmall || !smallsLeft) then (st, pulledSmall)
      else
        match smallIter with
        | s :: rest => pullSmalls sizeOf headerBig maxSteal rest true (st.pull sizeOf s rest)
        | [] => (st, pulledSmall)

/-- The big's header rides on the tail of the batch, and its body from `k` on is copied. -/
def pushCopied (st : Planner) (big : SourceFile) (k : Nat) : Planner :=
  let segs := st.curSegs ++ [.copiedFileHeader big.id]
  let segs := if k > 0 then segs ++ [.streamedBigPrefix big.id k] else segs
  { st with
    stolenCount := if k > 0 then st.stolenCount + 1 else st.stolenCount
    order := st.order ++ [big.id]
    parts := st.parts ++ [.stream st.partNumber segs, .copy (st.partNumber + 1) big.id k]
    partNumber := st.partNumber + 2
    curSegs := []
    curBytes := 0 }

/-- The big is streamed whole. -/
def pushFolded (st : Planner) (big : SourceFile) : Planner :=
  { st with
    order := st.order ++ [big.id]
    streamedBigs := st.streamedBigs.insert big.id
    parts := st.parts ++ [.stream st.partNumber (st.curSegs ++ [.streamedFile big.id])]
    partNumber := st.partNumber + 1
    curSegs := []
    curBytes := 0 }

/-- The body of the loop over the bigs. -/
def planBig (sizeOf : SizeOf) (st : Planner) (big : SourceFile) : Planner :=
  let headerBig := localHeaderLen sizeOf[big.id]!.1
  let maxSteal := big.size - partFloor
  let (st, pulledSmall) := st.pullSmalls sizeOf headerBig maxSteal st.smallIter false
  let withHeader := st.curBytes + headerBig
  let smallsLeft := !st.smallIter.isEmpty
  let k := if pulledSmall || !smallsLeft then min (partFloor - withHeader) maxSteal else 0
  if withHeader + k ≥ partFloor then st.pushCopied big k else st.pushFolded big

/-- The leftover smalls and the central directory, in the last part. -/
def pushFinal (st : Planner) : Planner :=
  { st with
    smallIter := []
    curSegs := []
    order := st.order ++ st.smallIter.map SourceFile.id
    parts := st.parts ++ [.stream st.partNumber
      (st.curSegs ++ st.smallIter.map (fun s => .streamedFile s.id) ++ [.centralDirectory])] }

end Planner

/-! ## The plan -/

/-- The entries of the plan, one insertion for each id of `order`. -/
def planEntries (order : List FileId) (sizeOf : SizeOf) (copied : FileId → Bool) :
    Std.HashMap FileId Entry :=
  insertEach Prod.fst (fun (id, offset) =>
    let (name, size) := sizeOf[id]!
    { id, name, size, localHeaderOffset := offset, crc := none, streamed := !copied id }) ∅
    (order.zip (computeOffsets order sizeOf))

/-- The state after all parts have been planned. -/
def planParts (sizeOf : SizeOf) (bigs smalls : List SourceFile) : Planner :=
  (bigs.foldl (Planner.planBig sizeOf) (.init smalls)).pushFinal

/-- Copied iff it is a big that was not folded into a stream part. -/
def isCopied (bigs : List SourceFile) (streamedBigs : Std.HashSet FileId) (id : FileId) : Bool :=
  let bigIds := Std.HashSet.ofList (bigs.map SourceFile.id)
  bigIds.contains id && !streamedBigs.contains id

/-- The plan for sorted bigs and smalls. -/
def planSorted (bigs smalls : List SourceFile) : SinglePlan :=
  let sizeOf := sizeMap (bigs ++ smalls)
  let st := planParts sizeOf bigs smalls
  let copyParts := (st.parts.filter PartSpec.isCopy).length
  { order := st.order
    entries := planEntries st.order sizeOf (isCopied bigs st.streamedBigs)
    parts := st.parts
    copyable := (bigs.map SourceFile.id).filter (fun id => !st.streamedBigs.contains id)
    stats := {
      entries := st.order.length
      parts := st.parts.length
      copyParts
      streamParts := st.parts.length - copyParts
      foldedBigs := st.streamedBigs.size
      stolenBigs := st.stolenCount
      bigs := bigs.length
      smalls := smalls.length } }

def SourceFile.isBig (f : SourceFile) : Bool := decide (f.size ≥ partFloor)

def planSingleMpu (files : List SourceFile) : SingleRouting :=
  let (bigs, smalls) := files.partition SourceFile.isBig
  let total := ((bigs ++ smalls).map SourceFile.size).sum
  if bigs.isEmpty ∨ total < viabilityMinTotal then .fallback
  else .singleMpu (planSorted (bigs.mergeSort bigsLe) (smalls.mergeSort smallsLe))

/-- Sorting the bigs and the smalls loses no file. -/
theorem perm_sorted (files : List SourceFile) (le le' : SourceFile → SourceFile → Bool) :
    ((files.partition SourceFile.isBig).1.mergeSort le ++
      (files.partition SourceFile.isBig).2.mergeSort le').Perm files := by
  rw [List.partition_eq_filter_filter]
  refine .trans ?_ (List.filter_append_perm SourceFile.isBig files)
  exact (List.mergeSort_perm _ _).append (List.mergeSort_perm _ _)

theorem floor_le_of_mem_bigs {files : List SourceFile} {le : SourceFile → SourceFile → Bool}
    {f : SourceFile} (h : f ∈ (files.partition SourceFile.isBig).1.mergeSort le) :
    partFloor ≤ f.size := by
  rw [List.mem_mergeSort, List.partition_eq_filter_filter, List.mem_filter] at h
  simpa [SourceFile.isBig] using h.2

theorem lt_floor_of_mem_smalls {files : List SourceFile} {le : SourceFile → SourceFile → Bool}
    {f : SourceFile} (h : f ∈ (files.partition SourceFile.isBig).2.mergeSort le) :
    f.size < partFloor := by
  rw [List.mem_mergeSort, List.partition_eq_filter_filter, List.mem_filter] at h
  simpa [SourceFile.isBig] using h.2

end S3Archive.FigmentEngine
