import S3Archive.FigmentEngine.Plan

/-!
# figment-engine: what an archive is

`IsArchive` says what a planned archive must be: each file once, its local
header followed by its body, then the directory and the end records, with the
recorded offsets being the actual positions. It is shared by the single-upload
engine and the segment chain.
-/

namespace S3Archive.FigmentEngine

open SourceFile (entrySize)

/-- The source objects by entry name, with their stored checksums. -/
structure Source where
  body : Bytes → Bytes
  crc32 : Bytes → UInt32

/-- The objects have the listed sizes. -/
def SizesListed (src : Source) (files : List SourceFile) : Prop :=
  ∀ f ∈ files, (src.body f.name).length = f.size

/-- The files with the offsets of their local headers. -/
def placed (order : List SourceFile) : List (Nat × SourceFile) := offsetsFrom entrySize 0 order

/-- The data of a file's records. -/
def metaAt (src : Source) (p : Nat × SourceFile) : EntryMeta :=
  ⟨p.2.name, p.2.size, src.crc32 p.2.name, p.1⟩

/-- A file's local header and its whole body. -/
def fileBytes (src : Source) (p : Nat × SourceFile) : Bytes :=
  localHeader (metaAt src p) ++ src.body p.2.name

def directory (src : Source) (order : List SourceFile) : Bytes :=
  (placed order).flatMap fun p => centralDirEntry (metaAt src p)

/-- The length of the body region. -/
def bodySize (order : List SourceFile) : Nat := (order.map entrySize).sum

def directorySize (order : List SourceFile) : Nat :=
  ((placed order).map fun p => centralDirEntryLen p.2.name p.1).sum

/-- `archive` holds the files in the order `order`, each as its local header and its whole body,
then the directory and the end records. -/
structure IsArchive (src : Source) (files order : List SourceFile) (offsetOf : FileId → Option Nat)
    (cdOffset cdSize : Nat) (archive : Bytes) : Prop where
  each_once : order.Perm files
  layout : archive = (placed order).flatMap (fileBytes src) ++ directory src order ++
    endRecords order.length cdOffset cdSize
  /-- The recorded offset of a file is where its local header is. -/
  offset_actual : ∀ p ∈ placed order,
    offsetOf p.2.id = some p.1 ∧ At archive p.1 (fileBytes src p)
  directory_actual : At archive cdOffset (directory src order)
  directory_size : cdSize = (directory src order).length

/-! ## Lengths -/

theorem length_fileBytes {src : Source} {p : Nat × SourceFile}
    (h : (src.body p.2.name).length = p.2.size) : (fileBytes src p).length = p.2.entrySize := by
  unfold fileBytes
  rw [List.length_append, length_localHeader, h]
  rfl

theorem length_directory (src : Source) (order : List SourceFile) :
    (directory src order).length = directorySize order := by
  unfold directory directorySize
  rw [List.length_flatMap]
  congr 1
  refine List.map_congr_left fun p _ => ?_
  exact length_centralDirEntry _

theorem mem_of_mem_placed {order : List SourceFile} {p : Nat × SourceFile}
    (h : p ∈ placed order) : p.2 ∈ order := snd_mem_of_mem_offsetsFrom _ h

theorem exists_placed {order : List SourceFile} {f : SourceFile} (h : f ∈ order) :
    ∃ off, (off, f) ∈ placed order := by
  rw [← map_snd_offsetsFrom entrySize 0 order] at h
  obtain ⟨p, hp, rfl⟩ := List.mem_map.1 h
  exact ⟨p.1, hp⟩

theorem length_content {src : Source} {order : List SourceFile} (h : SizesListed src order) :
    ((placed order).flatMap (fileBytes src)).length = bodySize order := by
  have hmap : (placed order).map (fun p => (fileBytes src p).length) =
      ((placed order).map Prod.snd).map entrySize := by
    rw [List.map_map]
    refine List.map_congr_left fun p hp => ?_
    exact length_fileBytes (h _ (mem_of_mem_placed hp))
  rw [List.length_flatMap, hmap]
  unfold placed bodySize
  rw [map_snd_offsetsFrom]

/-- The body region, file by file. -/
theorem content_eq (src : Source) (order : List SourceFile) :
    (placed order).flatMap (fileBytes src) = order.flatMap fun f => fileBytes src (0, f) := by
  have hsnd : order = (placed order).map Prod.snd := (map_snd_offsetsFrom entrySize 0 order).symm
  conv_rhs => rw [hsnd, List.flatMap_map]
  -- the local header does not depend on the offset
  rfl

/-! ## Building an archive -/

theorem isArchive {src : Source} {files order : List SourceFile} {offsetOf : FileId → Option Nat}
    (hperm : order.Perm files) (hsizes : SizesListed src files)
    (hoff : ∀ p ∈ placed order, offsetOf p.2.id = some p.1) :
    IsArchive src files order offsetOf (bodySize order) (directorySize order)
      ((order.flatMap fun f => fileBytes src (0, f)) ++ (directory src order ++
        endRecords order.length (bodySize order) (directorySize order))) := by
  have horder : SizesListed src order := fun f hf => hsizes f (hperm.subset hf)
  rw [← content_eq]
  refine ⟨hperm, by rw [List.append_assoc], fun p hp => ⟨hoff p hp, ?_⟩, ?_,
    (length_directory src order).symm⟩
  · have hw : ∀ q ∈ placed order, (fileBytes src q).length = q.2.entrySize :=
      fun q hq => length_fileBytes (horder _ (mem_of_mem_placed hq))
    have hat : At ([] ++ (placed order).flatMap (fileBytes src)) p.1 (fileBytes src p) :=
      at_flatMap hw rfl hp
    exact hat.append_right
  · exact ⟨_, _, (List.append_assoc _ _ _).symm, length_content horder⟩

/-! ## Recorded entries -/

/-- The offsets computed from looked-up sizes are those of the files in order. -/
theorem zip_computeOffsets {sizeOf : SizeOf} {order : List SourceFile}
    (h : ∀ f ∈ order, sizeOf[f.id]! = (f.name, f.size)) :
    (order.map SourceFile.id).zip (computeOffsets (order.map SourceFile.id) sizeOf) =
      (placed order).map fun p => (p.2.id, p.1) := by
  have hw (f : SourceFile) (hf : f ∈ order) :
      entryTotalLen sizeOf[f.id]!.1 sizeOf[f.id]!.2 = f.entrySize := by
    rw [h f hf]
    rfl
  have hoff : computeOffsets (order.map SourceFile.id) sizeOf = (placed order).map Prod.fst := by
    unfold computeOffsets placed
    rw [offsetsFrom_map, offsetsFrom_congr _ hw, List.map_map]
    rfl
  have hids : order.map SourceFile.id = (placed order).map fun p => p.2.id := by
    conv_lhs => rw [← map_snd_offsetsFrom entrySize 0 order, List.map_map]
    rfl
  rw [hoff, hids, List.zip_map']

theorem nodup_placed_ids {order : List SourceFile} (h : (order.map SourceFile.id).Nodup) :
    (((placed order).map fun p => (p.2.id, p.1)).map Prod.fst).Nodup := by
  have hids : ((placed order).map fun p => (p.2.id, p.1)).map Prod.fst =
      order.map SourceFile.id := by
    conv_rhs => rw [← map_snd_offsetsFrom entrySize 0 order]
    rw [List.map_map, List.map_map]
    rfl
  rwa [hids]

/-! ## Five files -/

/-- Two large files and three small ones, one of them empty. -/
def fiveFiles : List SourceFile :=
  [⟨⟨0⟩, [0x61], 20971520⟩, ⟨⟨1⟩, [0x62], 5242879⟩, ⟨⟨2⟩, [0x63], 4⟩, ⟨⟨3⟩, [0x64], 6291456⟩,
    ⟨⟨4⟩, [0x65], 0⟩]

/-- Their bodies are zeros. -/
def fiveSource : Source where
  body name :=
    List.replicate (((fiveFiles.find? fun f => f.name = name).map SourceFile.size).getD 0) 0
  crc32 name :=
    if name = [0x61] then 0x38773417
    else if name = [0x62] then 0x38F98355
    else if name = [0x63] then 0x2144DF1C
    else if name = [0x64] then 0x383F104C
    else 0

theorem nodup_fiveFiles : (fiveFiles.map SourceFile.id).Nodup := by decide

theorem sizesListed_fiveFiles : SizesListed fiveSource fiveFiles := by
  have hsizes : ∀ f ∈ fiveFiles,
      ((fiveFiles.find? fun g => g.name = f.name).map SourceFile.size).getD 0 = f.size := by decide
  intro f hf
  unfold fiveSource
  rw [List.length_replicate]
  exact hsizes f hf

theorem exists_plan_fiveFiles : ∃ plan, planSingleMpu fiveFiles = .singleMpu plan := by
  simp [fiveFiles, planSingleMpu, SourceFile.isBig, partFloor, viabilityMinTotal]

end S3Archive.FigmentEngine
