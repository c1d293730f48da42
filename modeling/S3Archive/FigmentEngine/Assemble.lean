import S3Archive.Base.Upload
import S3Archive.FigmentEngine.Archive

/-!
# figment-engine: the assembler

What is uploaded for each planned part. `fillCrcs` writes the stored checksums
into the entries and `partBytes` makes one part from the source objects. The
lemmas say what each kind of segment and part is made of once the entries are
`Filled`.
-/

namespace S3Archive.FigmentEngine

open SourceFile (entrySize)

inductive AssembleError where
  /-- The store refused a request. -/
  | s3
  | badCrc (name : Bytes)
  deriving DecidableEq, Repr

/-- A ranged GET of the bytes `first` to `last`; a range that ends late is cut off. -/
def getRange (body : Bytes) (first last : Nat) : Except AssembleError Bytes :=
  if first ≤ last ∧ first < body.length then .ok ((body.take (last + 1)).drop first)
  else .error .s3

/-- A ranged copy of the bytes `first` to `last`, which must all exist. -/
def copyRange (body : Bytes) (first last : Nat) : Except AssembleError Bytes :=
  if first ≤ last ∧ last < body.length then .ok ((body.take (last + 1)).drop first)
  else .error .s3

/-- The first `len` bytes from `start`. -/
def getObjectRangeBytes (body : Bytes) (start len : Nat) : Except AssembleError Bytes :=
  getRange body start (start + len - 1)

/-! ## Checksums -/

/-- The checksums that the HEAD requests find, in plan order. -/
def headCrcs (src : Source) (plan : SinglePlan) : List (FileId × UInt32) :=
  plan.order.map fun id => (id, src.crc32 plan.entries[id]!.name)

/-- Store the received checksums in their entries. -/
def fillCrcs (plan : SinglePlan) (results : List (FileId × UInt32)) : SinglePlan :=
  { plan with
    entries := modifyEach (fun r e => { e with crc := some r.2 }) Prod.fst plan.entries results }

def Entry.requireCrc (e : Entry) : Except AssembleError UInt32 :=
  match e.crc with
  | some crc => .ok crc
  | none => .error (.badCrc e.name)

def entryMeta (e : Entry) (crc : UInt32) : EntryMeta :=
  { name := e.name, size := e.size, crc, localHeaderOffset := e.localHeaderOffset }

/-! ## Parts -/

/-- Where the central directory begins. -/
def SinglePlan.cdOffset (plan : SinglePlan) : Nat :=
  (plan.order.map fun id => entryTotalLen plan.entries[id]!.name plan.entries[id]!.size).sum

/-- The directory's record of one entry. -/
def directoryRecord (plan : SinglePlan) (id : FileId) : Except AssembleError Bytes := do
  let e := plan.entries[id]!
  let crc ← e.requireCrc
  return centralDirEntry (entryMeta e crc)

/-- The central directory and the end records. -/
def buildCentralDirectory (plan : SinglePlan) : Except AssembleError Bytes := do
  let recs ← plan.order.mapM (directoryRecord plan)
  let out := recs.flatten
  let cdSize := (recs.map List.length).sum
  return out ++ endRecords plan.order.length plan.cdOffset cdSize

/-- What one segment adds to its part. -/
def segmentBytes (src : Source) (plan : SinglePlan) : Segment → Except AssembleError Bytes
  | .streamedFile id => do
    let entry := plan.entries[id]!
    let body := src.body entry.name
    let crc ← entry.requireCrc
    return localHeader (entryMeta entry crc) ++ body
  | .copiedFileHeader id => do
    let entry := plan.entries[id]!
    let crc ← entry.requireCrc
    return localHeader (entryMeta entry crc)
  | .streamedBigPrefix id len =>
    let entry := plan.entries[id]!
    getObjectRangeBytes (src.body entry.name) 0 len
  | .centralDirectory => buildCentralDirectory plan

def buildStreamPartBytes (src : Source) (plan : SinglePlan) (segments : List Segment) :
    Except AssembleError Bytes := do
  return (← segments.mapM (segmentBytes src plan)).flatten

/-- The whole body, or the remainder after a streamed prefix. -/
def copyPartBytes (src : Source) (plan : SinglePlan) (id : FileId) (copyFrom : Nat) :
    Except AssembleError Bytes :=
  let entry := plan.entries[id]!
  if copyFrom > 0 then copyRange (src.body entry.name) copyFrom (entry.size - 1)
  else .ok (src.body entry.name)

/-- A part's number and its bytes. -/
def partBytes (src : Source) (plan : SinglePlan) (part : PartSpec) :
    Except AssembleError (Nat × Bytes) := do
  match part with
  | .copy partNumber id copyFrom => return (partNumber, ← copyPartBytes src plan id copyFrom)
  | .stream partNumber segments => return (partNumber, ← buildStreamPartBytes src plan segments)

/-! ## Ranges -/

theorem getObjectRangeBytes_prefix {body : Bytes} {len : Nat} (hpos : 0 < len)
    (hlen : len ≤ body.length) : getObjectRangeBytes body 0 len = .ok (body.take len) := by
  have hrange : 0 ≤ 0 + len - 1 ∧ 0 < body.length := by omega
  have hlast : 0 + len - 1 + 1 = len := by omega
  unfold getObjectRangeBytes getRange
  rw [if_pos hrange, hlast, List.drop_zero]

theorem copyRange_suffix {body : Bytes} {first : Nat} (h : first < body.length) :
    copyRange body first (body.length - 1) = .ok (body.drop first) := by
  have hrange : first ≤ body.length - 1 ∧ body.length - 1 < body.length := by omega
  have hlast : body.length - 1 + 1 = body.length := by omega
  unfold copyRange
  rw [if_pos hrange, hlast, List.take_length]

/-! ## Filled entries -/

/-- The entries of the files in archive order are recorded with their checksums. -/
structure Filled (src : Source) (order : List SourceFile) (plan : SinglePlan) : Prop where
  order_eq : plan.order = order.map SourceFile.id
  entry : ∀ p ∈ placed order, plan.entries[p.2.id]!.crc = some (src.crc32 p.2.name) ∧
    entryMeta plan.entries[p.2.id]! (src.crc32 p.2.name) = metaAt src p

/-- The checksums may arrive in any order. -/
theorem filled_fillCrcs {src : Source} {order : List SourceFile} {plan : SinglePlan}
    {results : List (FileId × UInt32)} (hids : (order.map SourceFile.id).Nodup)
    (horder : plan.order = order.map SourceFile.id)
    (hentry : ∀ p ∈ placed order, ∃ streamed,
      plan.entries[p.2.id]? = some ⟨p.2.id, p.2.name, p.2.size, p.1, none, streamed⟩)
    (hresults : results.Perm (headCrcs src plan)) : Filled src order (fillCrcs plan results) := by
  refine ⟨horder, fun p hp => ?_⟩
  obtain ⟨streamed, hget⟩ := hentry p hp
  have hname : plan.entries[p.2.id]!.name = p.2.name := by
    rw [Std.HashMap.getElem!_eq_get!_getElem?, hget]
    rfl
  have hmem : (p.2.id, src.crc32 p.2.name) ∈ results := by
    rw [hresults.mem_iff, ← hname]
    apply List.mem_map_of_mem
    rw [horder]
    exact List.mem_map_of_mem (mem_of_mem_placed hp)
  have hkeys : (results.map Prod.fst).Nodup := by
    rw [(hresults.map Prod.fst).nodup_iff]
    unfold headCrcs
    rw [List.map_map, horder, List.map_map]
    exact hids
  have hfilled : (fillCrcs plan results).entries[p.2.id]? =
      some ⟨p.2.id, p.2.name, p.2.size, p.1, some (src.crc32 p.2.name), streamed⟩ := by
    have hchanged : (fillCrcs plan results).entries[p.2.id]? =
        plan.entries[p.2.id]?.map fun e => { e with crc := some (src.crc32 p.2.name) } :=
      getElem?_modifyEach hkeys hmem
    rw [hchanged, hget]
    rfl
  rw [Std.HashMap.getElem!_eq_get!_getElem?, hfilled]
  exact ⟨rfl, rfl⟩

section

variable {src : Source} {order : List SourceFile} {plan : SinglePlan}
  (hfilled : Filled src order plan) (hsizes : SizesListed src order)

include hfilled

theorem Filled.requireCrc {p : Nat × SourceFile} (hp : p ∈ placed order) :
    plan.entries[p.2.id]!.requireCrc = .ok (src.crc32 p.2.name) := by
  unfold Entry.requireCrc
  rw [(hfilled.entry p hp).1]

theorem Filled.name {p : Nat × SourceFile} (hp : p ∈ placed order) :
    plan.entries[p.2.id]!.name = p.2.name := congrArg EntryMeta.name (hfilled.entry p hp).2

theorem Filled.size {p : Nat × SourceFile} (hp : p ∈ placed order) :
    plan.entries[p.2.id]!.size = p.2.size := congrArg EntryMeta.size (hfilled.entry p hp).2

/-- A copied file's header on the tail of a part. -/
theorem Filled.copiedFileHeader {f : SourceFile} (hf : f ∈ order) :
    segmentBytes src plan (.copiedFileHeader f.id) = .ok (localHeader (metaAt src (0, f))) := by
  obtain ⟨off, hp⟩ := exists_placed hf
  have hmeta : entryMeta plan.entries[f.id]! (src.crc32 f.name) = metaAt src (off, f) :=
    (hfilled.entry _ hp).2
  unfold segmentBytes
  dsimp only
  rw [hfilled.requireCrc hp]
  show Except.ok (localHeader (entryMeta plan.entries[f.id]! (src.crc32 f.name))) = _
  rw [hmeta]
  rfl

/-- A streamed file: its header and its whole body. -/
theorem Filled.streamedFile {f : SourceFile} (hf : f ∈ order) :
    segmentBytes src plan (.streamedFile f.id) = .ok (fileBytes src (0, f)) := by
  obtain ⟨off, hp⟩ := exists_placed hf
  have hmeta : entryMeta plan.entries[f.id]! (src.crc32 f.name) = metaAt src (off, f) :=
    (hfilled.entry _ hp).2
  unfold segmentBytes
  dsimp only
  rw [hfilled.requireCrc hp, hfilled.name hp]
  show Except.ok (localHeader (entryMeta plan.entries[f.id]! (src.crc32 f.name)) ++
    src.body f.name) = _
  rw [hmeta]
  rfl

theorem Filled.streamedFiles {fs : List SourceFile} (hfs : ∀ f ∈ fs, f ∈ order) :
    (fs.map fun f => Segment.streamedFile f.id).mapM (segmentBytes src plan) =
      .ok (fs.map fun f => fileBytes src (0, f)) := by
  rw [List.mapM_map]
  exact mapM_eq_ok fun f hf => hfilled.streamedFile (hfs f hf)

include hsizes in
theorem Filled.streamedBigPrefix {f : SourceFile} {len : Nat} (hf : f ∈ order) (hpos : 0 < len)
    (hlen : len ≤ f.size) :
    segmentBytes src plan (.streamedBigPrefix f.id len) = .ok ((src.body f.name).take len) := by
  obtain ⟨off, hp⟩ := exists_placed hf
  unfold segmentBytes
  dsimp only
  rw [hfilled.name hp]
  apply getObjectRangeBytes_prefix hpos
  rwa [hsizes f hf]

include hsizes in
/-- A copy goes from where it starts to the end of the body. -/
theorem Filled.copyPartBytes {f : SourceFile} {k : Nat} (hf : f ∈ order) (hk : k < f.size) :
    copyPartBytes src plan f.id k = .ok ((src.body f.name).drop k) := by
  obtain ⟨off, hp⟩ := exists_placed hf
  unfold FigmentEngine.copyPartBytes
  dsimp only
  rw [hfilled.name hp, hfilled.size hp]
  by_cases hpos : k > 0
  · have hlast : f.size - 1 = (src.body f.name).length - 1 := by rw [hsizes f hf]
    rw [if_pos hpos, hlast]
    apply copyRange_suffix
    rwa [hsizes f hf]
  · obtain rfl : k = 0 := by omega
    rw [if_neg hpos, List.drop_zero]

/-- The directory begins where the body region ends. -/
theorem Filled.cdOffset : plan.cdOffset = bodySize order := by
  unfold SinglePlan.cdOffset bodySize
  rw [hfilled.order_eq, List.map_map]
  congr 1
  refine List.map_congr_left fun f hf => ?_
  obtain ⟨off, hp⟩ := exists_placed hf
  show entryTotalLen plan.entries[f.id]!.name plan.entries[f.id]!.size = f.entrySize
  rw [hfilled.name hp, hfilled.size hp]
  rfl

theorem Filled.directoryRecord {p : Nat × SourceFile} (hp : p ∈ placed order) :
    directoryRecord plan p.2.id = .ok (centralDirEntry (metaAt src p)) := by
  unfold FigmentEngine.directoryRecord
  dsimp only
  rw [hfilled.requireCrc hp]
  show Except.ok (centralDirEntry (entryMeta plan.entries[p.2.id]! (src.crc32 p.2.name))) = _
  rw [(hfilled.entry p hp).2]

theorem Filled.centralDirectory : buildCentralDirectory plan =
    .ok (directory src order ++
      endRecords order.length (bodySize order) (directorySize order)) := by
  have hids : plan.order = (placed order).map fun p => p.2.id := by
    rw [hfilled.order_eq]
    conv_lhs => rw [← map_snd_offsetsFrom entrySize 0 order, List.map_map]
    rfl
  have hrecs : plan.order.mapM (FigmentEngine.directoryRecord plan) =
      .ok ((placed order).map fun p => centralDirEntry (metaAt src p)) := by
    rw [hids, List.mapM_map]
    exact mapM_eq_ok fun p hp => hfilled.directoryRecord hp
  have hlen : (((placed order).map fun p => centralDirEntry (metaAt src p)).map
      List.length).sum = directorySize order := by
    rw [← length_directory src, directory, List.length_flatMap, List.map_map]
    rfl
  unfold buildCentralDirectory
  rw [hrecs]
  show Except.ok (((placed order).map fun p => centralDirEntry (metaAt src p)).flatten ++
    endRecords plan.order.length plan.cdOffset (((placed order).map fun p =>
      centralDirEntry (metaAt src p)).map List.length).sum) = _
  rw [hlen, hfilled.cdOffset, hfilled.order_eq, List.length_map, ← List.flatMap_def]
  rfl

end

end S3Archive.FigmentEngine
