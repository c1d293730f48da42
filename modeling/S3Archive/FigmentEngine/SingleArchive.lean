import S3Archive.FigmentEngine.Assemble
import S3Archive.FigmentEngine.Rounds

/-!
# figment-engine: the archive of a single upload

The parts of a plan, made by the assembler and completed in any order, are the
archive of the files (`planSingleMpu_archive`). Round by round, the stream part
and the copied remainder are the smalls and the big, one after the other.
-/

namespace S3Archive.FigmentEngine

/-- The bytes of a round's parts. -/
def Round.pieces (src : Source) (r : Round) : List Bytes :=
  let smalls := r.smalls.flatMap fun f => fileBytes src (0, f)
  match r.copyFrom with
  | none => [smalls ++ fileBytes src (0, r.big)]
  | some k =>
    [smalls ++ (localHeader (metaAt src (0, r.big)) ++ (src.body r.big.name).take k),
      (src.body r.big.name).drop k]

/-- Joined, the parts of a round are its smalls and its big. -/
theorem Round.flatten_pieces (src : Source) (r : Round) :
    (r.pieces src).flatten = r.files.flatMap fun f => fileBytes src (0, f) := by
  have hsplit : (r.files.flatMap fun f => fileBytes src (0, f)) =
      (r.smalls.flatMap fun f => fileBytes src (0, f)) ++ fileBytes src (0, r.big) := by
    rw [Round.files, List.flatMap_append, List.flatMap_singleton]
  rw [hsplit]
  unfold Round.pieces
  cases r.copyFrom with
  | none => exact List.flatten_singleton
  | some k =>
    dsimp only
    rw [List.flatten_cons, List.flatten_singleton, List.append_assoc, List.append_assoc,
      List.take_append_drop]
    rfl

theorem flatten_flatMap_pieces (src : Source) (rounds : List Round) :
    (rounds.flatMap (Round.pieces src)).flatten =
      (rounds.flatMap Round.files).flatMap fun f => fileBytes src (0, f) := by
  induction rounds with
  | nil => rfl
  | cons r rounds ih =>
    rw [List.flatMap_cons, List.flatMap_cons, List.flatten_append, List.flatMap_append,
      r.flatten_pieces, ih]

/-- The parts are made, with the given bytes. -/
def Realises (src : Source) (plan : SinglePlan) (parts : List PartSpec) (pieces : List Bytes) :
    Prop :=
  ∃ made, parts.mapM (partBytes src plan) = .ok made ∧ made.map Prod.snd = pieces

section

variable {src : Source} {plan : SinglePlan}

theorem Realises.nil : Realises src plan [] [] := ⟨[], rfl, rfl⟩

theorem Realises.append {ps qs : List PartSpec} {bs cs : List Bytes}
    (hp : Realises src plan ps bs) (hq : Realises src plan qs cs) :
    Realises src plan (ps ++ qs) (bs ++ cs) := by
  obtain ⟨made, hmade, rfl⟩ := hp
  obtain ⟨made', hmade', rfl⟩ := hq
  exact ⟨made ++ made', mapM_append_ok hmade hmade', List.map_append⟩

theorem Realises.stream {n : Nat} {segments : List Segment} {pieces : List Bytes}
    (h : segments.mapM (segmentBytes src plan) = .ok pieces) :
    Realises src plan [.stream n segments] [pieces.flatten] := by
  have hpart : partBytes src plan (.stream n segments) = .ok (n, pieces.flatten) := by
    unfold partBytes buildStreamPartBytes
    dsimp only
    rw [h]
    rfl
  refine ⟨[(n, pieces.flatten)], ?_, rfl⟩
  rw [List.mapM_cons, hpart]
  rfl

theorem Realises.copy {n : Nat} {id : FileId} {k : Nat} {bs : Bytes}
    (h : copyPartBytes src plan id k = .ok bs) : Realises src plan [.copy n id k] [bs] := by
  have hpart : partBytes src plan (.copy n id k) = .ok (n, bs) := by
    unfold partBytes
    dsimp only
    rw [h]
    rfl
  refine ⟨[(n, bs)], ?_, rfl⟩
  rw [List.mapM_cons, hpart]
  rfl

/-- The made parts keep their numbers. -/
theorem fst_partBytes (p : PartSpec) (b : Nat × Bytes) (h : partBytes src plan p = .ok b) :
    b.1 = p.partNumber := by
  unfold partBytes at h
  cases p with
  | copy n id k =>
    dsimp only at h
    cases hc : copyPartBytes src plan id k with
    | error e =>
      rw [hc] at h
      cases h
    | ok bs =>
      rw [hc] at h
      cases h
      rfl
  | stream n segments =>
    dsimp only at h
    cases hc : buildStreamPartBytes src plan segments with
    | error e =>
      rw [hc] at h
      cases h
    | ok bs =>
      rw [hc] at h
      cases h
      rfl

variable {order : List SourceFile} (hfilled : Filled src order plan)
  (hsizes : SizesListed src order)

include hfilled hsizes

theorem Round.realises {r : Round} {later : List SourceFile} (hgood : r.Good later)
    (hfiles : ∀ f ∈ r.files, f ∈ order) (n : Nat) :
    Realises src plan (r.parts n) (r.pieces src) := by
  have hbig : r.big ∈ order := hfiles _ (List.mem_append_right _ List.mem_cons_self)
  have hsmalls : (r.smalls.map fun f => Segment.streamedFile f.id).mapM
      (segmentBytes src plan) = .ok (r.smalls.map fun f => fileBytes src (0, f)) :=
    hfilled.streamedFiles fun f hf => hfiles f (List.mem_append_left _ hf)
  unfold Round.parts Round.segments Round.tail Round.pieces
  cases hcopy : r.copyFrom with
  | none =>
    have htail : [Segment.streamedFile r.big.id].mapM (segmentBytes src plan) =
        .ok [fileBytes src (0, r.big)] := by
      rw [List.mapM_cons, hfilled.streamedFile hbig]
      rfl
    have hall := Realises.stream (n := n) (mapM_append_ok hsmalls htail)
    rw [List.flatten_append, ← List.flatMap_def, List.flatten_singleton] at hall
    exact hall
  | some k =>
    have hfloor : 0 < partFloor := by decide
    have hk : k < r.big.size := by
      have hle := (hgood.copied k hcopy).2
      have hsize := hgood.big_size
      unfold Round.maxSteal at hle
      omega
    have hcopied := Realises.copy (n := n + 1) (hfilled.copyPartBytes hsizes hbig hk)
    -- the header and the prefix before the copied remainder
    have htail : ([Segment.copiedFileHeader r.big.id] ++
        if k > 0 then [Segment.streamedBigPrefix r.big.id k] else []).mapM
          (segmentBytes src plan) =
        .ok ([localHeader (metaAt src (0, r.big))] ++
          if k > 0 then [(src.body r.big.name).take k] else []) := by
      apply mapM_append_ok
      · rw [List.mapM_cons, hfilled.copiedFileHeader hbig]
        rfl
      · by_cases hpos : k > 0
        · rw [if_pos hpos, if_pos hpos, List.mapM_cons,
            hfilled.streamedBigPrefix hsizes hbig hpos (Nat.le_of_lt hk)]
          rfl
        · rw [if_neg hpos, if_neg hpos]
          rfl
    have hprefix : ([localHeader (metaAt src (0, r.big))] ++
        if k > 0 then [(src.body r.big.name).take k] else []).flatten =
        localHeader (metaAt src (0, r.big)) ++ (src.body r.big.name).take k := by
      by_cases hpos : k > 0
      · simp [hpos]
      · obtain rfl : k = 0 := by omega
        simp
    have hall := (Realises.stream (n := n) (mapM_append_ok hsmalls htail)).append hcopied
    rw [List.flatten_append, ← List.flatMap_def, hprefix] at hall
    exact hall

theorem realises_roundParts {rounds : List Round} {left : List SourceFile}
    (hgood : RoundsGood rounds left) (hfiles : ∀ f ∈ rounds.flatMap Round.files, f ∈ order)
    (n : Nat) : Realises src plan (roundParts n rounds) (rounds.flatMap (Round.pieces src)) := by
  induction rounds generalizing n with
  | nil => exact .nil
  | cons r rounds ih =>
    obtain ⟨hr, hrest⟩ := hgood
    rw [List.flatMap_cons] at hfiles
    rw [roundParts_cons, List.flatMap_cons]
    have hfirst := r.realises hfilled hsizes hr
      (fun f hf => hfiles f (List.mem_append_left _ hf)) n
    exact hfirst.append (ih hrest (fun f hf => hfiles f (List.mem_append_right _ hf)) _)

end

/-- The bytes of the last part: the leftover smalls, the directory and the end records. -/
def finalPiece (src : Source) (left order : List SourceFile) : Bytes :=
  (left.flatMap fun f => fileBytes src (0, f)) ++ (directory src order ++
    endRecords order.length (bodySize order) (directorySize order))

theorem realises_final {src : Source} {plan : SinglePlan} {left order : List SourceFile}
    (hfilled : Filled src order plan) (hleft : ∀ f ∈ left, f ∈ order) (n : Nat) :
    Realises src plan [.stream n (finalSegments left)] [finalPiece src left order] := by
  have hdir : [Segment.centralDirectory].mapM (segmentBytes src plan) =
      .ok [directory src order ++
        endRecords order.length (bodySize order) (directorySize order)] := by
    rw [List.mapM_cons, segmentBytes, hfilled.centralDirectory]
    rfl
  have hall := Realises.stream (n := n) (mapM_append_ok (hfilled.streamedFiles hleft) hdir)
  rw [List.flatten_append, ← List.flatMap_def, List.flatten_singleton] at hall
  exact hall

/-! ## The parts of a plan -/

section

variable {src : Source} {files : List SourceFile} {plan : SinglePlan} (p : PlanRounds files plan)
  (hids : (files.map SourceFile.id).Nodup) {results : List (FileId × UInt32)}
  (hresults : results.Perm (headCrcs src plan))

include hids hresults

theorem PlanRounds.filled : Filled src p.files (fillCrcs plan results) :=
  filled_fillCrcs ((p.perm.map SourceFile.id).nodup_iff.2 hids) p.order_eq p.entry hresults

theorem PlanRounds.realises (hsizes : SizesListed src files) :
    Realises src (fillCrcs plan results) plan.parts
      (p.rounds.flatMap (Round.pieces src) ++ [finalPiece src p.left p.files]) := by
  have hfilled := p.filled hids hresults
  have hlisted : SizesListed src p.files := fun f hf => hsizes f (p.perm.subset hf)
  rw [p.parts_eq]
  apply Realises.append
  · exact realises_roundParts hfilled hlisted p.good (fun f hf => List.mem_append_left _ hf) 1
  · exact realises_final hfilled (fun f hf => List.mem_append_right _ hf) _

end

/-! ## The archive -/

/-- The recorded offset of each file. -/
def SinglePlan.offsetOf (plan : SinglePlan) (id : FileId) : Option Nat :=
  plan.entries[id]?.map Entry.localHeaderOffset

/-- The directory is the last segment of the last part, and is in no other place. -/
def DirectoryLast (parts : List PartSpec) : Prop :=
  ∃ before n segments, parts = before ++ [.stream n (segments ++ [.centralDirectory])] ∧
    .centralDirectory ∉ segments ∧
    ∀ m segments', .stream m segments' ∈ before → .centralDirectory ∉ segments'

theorem Round.centralDirectory_notMem (r : Round) : Segment.centralDirectory ∉ r.segments := by
  unfold Round.segments Round.tail
  cases r.copyFrom with
  | none => simp
  | some k => by_cases hk : k > 0 <;> simp [hk]

theorem segments_of_mem_roundParts {n m : Nat} {rounds : List Round} {segments : List Segment}
    (h : .stream m segments ∈ roundParts n rounds) : ∃ r ∈ rounds, segments = r.segments := by
  obtain ⟨p, hp, hmem⟩ := List.mem_flatMap.1 h
  refine ⟨p.2, snd_mem_of_mem_offsetsFrom _ hp, ?_⟩
  unfold Round.parts at hmem
  cases hcopy : p.2.copyFrom with
  | none =>
    rw [hcopy] at hmem
    simp only [List.mem_singleton, PartSpec.stream.injEq] at hmem
    exact hmem.2
  | some k =>
    rw [hcopy] at hmem
    simp only [List.mem_cons, PartSpec.stream.injEq, reduceCtorEq, List.not_mem_nil,
      or_false] at hmem
    exact hmem.2

theorem PlanRounds.directoryLast {files : List SourceFile} {plan : SinglePlan}
    (p : PlanRounds files plan) : DirectoryLast plan.parts := by
  refine ⟨_, _, _, p.parts_eq, by simp, fun m segments hmem => ?_⟩
  obtain ⟨r, _, rfl⟩ := segments_of_mem_roundParts hmem
  exact r.centralDirectory_notMem

/-- The planned parts, made and completed in any order, are the archive of the files. -/
theorem planSingleMpu_archive {src : Source} {files : List SourceFile} {plan : SinglePlan}
    (hids : (files.map SourceFile.id).Nodup) (hsizes : SizesListed src files)
    (hplan : planSingleMpu files = .singleMpu plan) :
    ∃ order, plan.order = order.map SourceFile.id ∧ DirectoryLast plan.parts ∧
      ∀ results, results.Perm (headCrcs src plan) →
        ∃ made, plan.parts.mapM (partBytes src (fillCrcs plan results)) = .ok made ∧
          ∀ completed, completed.Perm made → ∃ cdSize,
            IsArchive src files order plan.offsetOf (fillCrcs plan results).cdOffset cdSize
              (completeUpload completed) := by
  obtain ⟨p⟩ := planSingleMpu_rounds hids hplan
  refine ⟨p.files, p.order_eq, p.directoryLast, fun results hresults => ?_⟩
  obtain ⟨made, hmade, hpieces⟩ := p.realises hids hresults hsizes
  refine ⟨made, hmade, fun completed hcompleted => ⟨directorySize p.files, ?_⟩⟩
  have hnumbered : NumberedFrom Prod.fst 1 made := by
    have hnums := map_eq_of_mapM fst_partBytes hmade
    have hlen := congrArg List.length hnums
    rw [List.length_map, List.length_map] at hlen
    unfold NumberedFrom
    rw [hnums, p.numbered, hlen]
  have hoff : ∀ q ∈ placed p.files, plan.offsetOf q.2.id = some q.1 := by
    intro q hq
    obtain ⟨streamed, hentry⟩ := p.entry q hq
    unfold SinglePlan.offsetOf
    rw [hentry]
    rfl
  have harchive := isArchive p.perm hsizes hoff
  rw [completeUpload_of_perm hnumbered hcompleted, hpieces, List.flatten_append,
    flatten_flatMap_pieces, List.flatten_singleton, finalPiece, ← List.append_assoc,
    ← List.flatMap_append, (p.filled hids hresults).cdOffset]
  exact harchive

/-- Five files: the small ones pad the large ones, whose bodies are copied. -/
theorem planSingleMpu_archive_five :
    ∃ plan order, planSingleMpu fiveFiles = .singleMpu plan ∧
      plan.order = order.map SourceFile.id ∧ DirectoryLast plan.parts ∧
      ∀ results, results.Perm (headCrcs fiveSource plan) →
        ∃ made, plan.parts.mapM (partBytes fiveSource (fillCrcs plan results)) = .ok made ∧
          ∀ completed, completed.Perm made → ∃ cdSize,
            IsArchive fiveSource fiveFiles order plan.offsetOf (fillCrcs plan results).cdOffset
              cdSize (completeUpload completed) := by
  obtain ⟨plan, hplan⟩ := exists_plan_fiveFiles
  obtain ⟨order, h⟩ := planSingleMpu_archive nodup_fiveFiles sizesListed_fiveFiles hplan
  exact ⟨plan, order, hplan, h⟩

end S3Archive.FigmentEngine
