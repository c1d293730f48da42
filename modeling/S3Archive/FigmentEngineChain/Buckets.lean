import S3Archive.FigmentEngineChain.PlanChain

/-!
# figment-engine-chain: the plan as buckets

What the planner decides: which smalls follow which big (`Bucket`).
`planSegmentChain_buckets` says that planning succeeds as soon as there is a big,
and that the plan is the rendering of buckets that hold each file once.
-/

namespace S3Archive.FigmentEngineChain

open FigmentEngine
open FigmentEngine.SourceFile (entrySize)

/-- A big with the smalls that follow it. -/
structure Bucket where
  anchor : SourceFile
  smalls : List SourceFile

namespace Bucket

def files (b : Bucket) : List SourceFile := b.anchor :: b.smalls

def ids (b : Bucket) : List FileId := b.files.map SourceFile.id

def push (s : SourceFile) (b : Bucket) : Bucket := { b with smalls := b.smalls ++ [s] }

theorem ids_push (s : SourceFile) (b : Bucket) : (b.push s).ids = b.ids ++ [s.id] := by
  simp [ids, files, push]

/-- The pieces appended after the anchor's body, `next` being the next anchor. -/
def pieces (b : Bucket) (next : Option SourceFile) : List Piece :=
  b.smalls.flatMap (fun s => [.header s.id, .body s.id]) ++
    (next.map fun f => Piece.header f.id).toList

def links (k : Nat) (b : Bucket) (next : Option SourceFile) : List Link :=
  if k = 0 then
    .bootstrap b.anchor.id (partFloor - localHeaderLen b.anchor.name) ::
      (b.pieces next).map .forwardThenAppend
  else
    match b.pieces next with
    | [] => [.anchorOnly b.anchor.id]
    | first :: rest => .anchorThenAppend b.anchor.id first :: rest.map .forwardThenAppend

/-- The length of a header, if there is one. -/
def headerLen (next : Option SourceFile) : Nat :=
  (next.map fun f => localHeaderLen f.name).getD 0

def objectLen (k : Nat) (b : Bucket) (next : Option SourceFile) : Nat :=
  (if k = 0 then b.anchor.entrySize else b.anchor.size) + (b.smalls.map entrySize).sum +
    headerLen next

def segment (k : Nat) (b : Bucket) (next : Option SourceFile) : Segment where
  anchor := b.anchor.id
  index := k
  links := b.links k next
  objectLen := b.objectLen k next

end Bucket

/-- The segments of the buckets, the first with index `k`. -/
def segmentsFrom : Nat → List Bucket → List Segment
  | _, [] => []
  | k, b :: rest => b.segment k (rest.head?.map Bucket.anchor) :: segmentsFrom (k + 1) rest

/-! ## Dealing the smalls -/

theorem map_anchor_modify_push (bs : List Bucket) (j : Nat) (s : SourceFile) :
    (bs.modify j (Bucket.push s)).map Bucket.anchor = bs.map Bucket.anchor := by
  induction bs generalizing j with
  | nil => simp
  | cons b bs ih =>
    cases j with
    | zero => rfl
    | succ j => rw [List.modify_succ_cons, List.map_cons, List.map_cons, ih]

theorem map_ids_modify_push (bs : List Bucket) (j : Nat) (s : SourceFile) :
    (bs.modify j (Bucket.push s)).map Bucket.ids =
      (bs.map Bucket.ids).modify j fun bucket => bucket ++ [s.id] := by
  induction bs generalizing j with
  | nil => simp
  | cons b bs ih =>
    cases j with
    | zero =>
      rw [List.modify_zero_cons, List.map_cons, List.map_cons, List.modify_zero_cons,
        Bucket.ids_push]
    | succ j => rw [List.modify_succ_cons, List.map_cons, List.map_cons, List.modify_succ_cons, ih]

theorem perm_smalls_modify_push {bs : List Bucket} {j : Nat} (h : j < bs.length)
    (s : SourceFile) :
    ((bs.modify j (Bucket.push s)).flatMap Bucket.smalls).Perm
      (bs.flatMap Bucket.smalls ++ [s]) := by
  induction bs generalizing j with
  | nil => exact absurd h (Nat.not_lt_zero _)
  | cons b bs ih =>
    cases j with
    | zero =>
      rw [List.modify_zero_cons, List.flatMap_cons, List.flatMap_cons]
      show (b.smalls ++ [s] ++ bs.flatMap Bucket.smalls).Perm _
      rw [List.append_assoc, List.append_assoc]
      exact List.perm_append_comm.append_left _
    | succ j =>
      rw [List.modify_succ_cons, List.flatMap_cons, List.flatMap_cons, List.append_assoc]
      exact (ih (Nat.lt_of_succ_lt_succ h)).append_left _

/-- The dealt buckets hold the bigs and the smalls once. -/
theorem dealSmalls_buckets {bigs : List SourceFile} (hbigs : bigs ≠ [])
    (smalls : List SourceFile) :
    ∃ bs : List Bucket, bs.map Bucket.anchor = bigs ∧
      (bs.flatMap Bucket.smalls).Perm smalls ∧ dealSmalls bigs smalls = bs.map Bucket.ids := by
  have hpos := List.length_pos_iff.2 hbigs
  have hloop (l : List (SourceFile × Nat)) (bs : List Bucket)
      (hanchors : bs.map Bucket.anchor = bigs) :
      ∃ bs' : List Bucket, bs'.map Bucket.anchor = bigs ∧
        (bs'.flatMap Bucket.smalls).Perm (bs.flatMap Bucket.smalls ++ l.map Prod.fst) ∧
        l.foldl (fun buckets p =>
          buckets.modify (p.2 % bigs.length) fun bucket => bucket ++ [p.1.id]) (bs.map Bucket.ids) =
          bs'.map Bucket.ids := by
    induction l generalizing bs with
    | nil => exact ⟨bs, hanchors, by simp, rfl⟩
    | cons p l ih =>
      obtain ⟨s, i⟩ := p
      have hlen : i % bigs.length < bs.length := by
        rw [← List.length_map (f := Bucket.anchor), hanchors]
        exact Nat.mod_lt _ hpos
      obtain ⟨bs', hanchors', hperm, heq⟩ := ih (bs.modify (i % bigs.length) (Bucket.push s))
        ((map_anchor_modify_push bs _ s).trans hanchors)
      refine ⟨bs', hanchors', ?_, ?_⟩
      · refine hperm.trans (((perm_smalls_modify_push hlen s).append_right _).trans ?_)
        rw [List.append_assoc]
        exact .refl _
      · rw [List.foldl_cons, ← heq, map_ids_modify_push]
  have hinit : (bigs.map fun f => (⟨f, []⟩ : Bucket)).map Bucket.anchor = bigs := by
    rw [List.map_map]
    exact List.map_id _
  have hempty : (bigs.map fun f => (⟨f, []⟩ : Bucket)).flatMap Bucket.smalls = [] := by
    simp [List.flatMap_map]
  obtain ⟨bs, hanchors, hperm, heq⟩ := hloop smalls.zipIdx _ hinit
  refine ⟨bs, hanchors, ?_, ?_⟩
  · rwa [hempty, List.nil_append, List.zipIdx_map_fst] at hperm
  · rw [← heq, dealSmalls, List.map_map]
    rfl

/-! ## The loop over the buckets -/

section

variable {sizeOf : SizeOf}

/-- The sizes of the files are those listed. -/
def SizesOf (sizeOf : SizeOf) (files : List SourceFile) : Prop :=
  ∀ f ∈ files, sizeOf[f.id]? = some (f.name, f.size)

theorem SizesOf.get {files : List SourceFile} (h : SizesOf sizeOf files) {f : SourceFile}
    (hf : f ∈ files) : sizeOf[f.id]! = (f.name, f.size) := by
  rw [Std.HashMap.getElem!_eq_get!_getElem?, h f hf]
  rfl

theorem SizesOf.hdr {files : List SourceFile} (h : SizesOf sizeOf files) {f : SourceFile}
    (hf : f ∈ files) : hdr sizeOf f.id = localHeaderLen f.name := by
  unfold FigmentEngineChain.hdr
  rw [h.get hf]

theorem SizesOf.body {files : List SourceFile} (h : SizesOf sizeOf files) {f : SourceFile}
    (hf : f ∈ files) : body sizeOf f.id = f.size := by
  unfold FigmentEngineChain.body
  rw [h.get hf]

/-- The segment of a bucket, in terms of its files. -/
theorem bucketSegment_ids {files : List SourceFile} (h : SizesOf sizeOf files) {b : Bucket}
    (hb : b.files ⊆ files) {next : Option SourceFile} (hnext : ∀ f ∈ next, f ∈ files) (k : Nat) :
    bucketSegment sizeOf k b.ids (next.map SourceFile.id) = b.segment k next := by
  have hanchor : b.anchor ∈ files := hb List.mem_cons_self
  have hsmalls : ∀ s ∈ b.smalls, s ∈ files := fun s hs => hb (List.mem_cons_of_mem _ hs)
  have hpieces : pieces (b.ids.drop 1) (next.map SourceFile.id) = b.pieces next := by
    simp [pieces, Bucket.pieces, Bucket.ids, Bucket.files, List.flatMap_map, Function.comp_def]
  have hsum : ((b.pieces next).map (plen sizeOf)).sum =
      (b.smalls.map entrySize).sum + Bucket.headerLen next := by
    unfold Bucket.pieces
    rw [List.map_append, List.sum_append]
    congr 1
    · generalize b.smalls = smalls at hsmalls
      induction smalls with
      | nil => rfl
      | cons s smalls ih =>
        have hs := hsmalls s List.mem_cons_self
        rw [List.flatMap_cons, List.map_append, List.sum_append, List.map_cons, List.sum_cons,
          ih fun t ht => hsmalls t (List.mem_cons_of_mem _ ht)]
        simp only [List.map_cons, List.map_nil, List.sum_cons, List.sum_nil, plen, h.hdr hs,
          h.body hs, entrySize, entryTotalLen, Nat.add_zero]
    · cases next with
      | none => rfl
      | some f =>
        have hf := h.hdr (hnext f rfl)
        simp [plen, hf, Bucket.headerLen]
  unfold bucketSegment Bucket.segment
  dsimp only
  rw [hpieces]
  have hhead : b.ids[0]! = b.anchor.id := rfl
  rw [hhead]
  congr 1
  · unfold segmentLinks Bucket.links
    exact h.hdr hanchor ▸ rfl
  · unfold objectLen Bucket.objectLen
    rw [hsum, h.hdr hanchor, h.body hanchor, Nat.add_assoc]
    rfl

/-- The loop renders the remaining buckets. -/
theorem planBuckets_from {files : List SourceFile} (h : SizesOf sizeOf files)
    {all : List Bucket} (done rest : List Bucket) (hall : all = done ++ rest)
    (hfiles : rest.flatMap Bucket.files ⊆ files) (st : ChainPlanner) :
    let st' := ((rest.map Bucket.ids).zipIdx done.length).foldl
      (planBucket sizeOf (all.map Bucket.ids)) st
    st'.order = st.order ++ (rest.flatMap Bucket.files).map SourceFile.id ∧
      st'.segments = st.segments ++ segmentsFrom done.length rest ∧
      st'.offset = st.offset + bodySize (rest.flatMap Bucket.files) := by
  induction rest generalizing done st with
  | nil => simp [segmentsFrom, bodySize]
  | cons b rest ih =>
    have hb : b.files ⊆ files := fun f hf => hfiles (List.mem_append_left _ hf)
    have hrest : rest.flatMap Bucket.files ⊆ files := fun f hf =>
      hfiles (List.mem_append_right _ hf)
    have hnext : (if done.length + 1 < (all.map Bucket.ids).length then
        some ((all.map Bucket.ids)[done.length + 1]!)[0]! else none) =
        (rest.head?.map Bucket.anchor).map SourceFile.id := by
      rw [hall, List.length_map, List.length_append]
      cases rest with
      | nil => simp
      | cons b' rest =>
        have hlt : done.length + 1 < done.length + (b :: b' :: rest).length := by
          simp only [List.length_cons]
          omega
        rw [if_pos hlt]
        simp [Bucket.ids, Bucket.files]
    have hmem : ∀ f ∈ rest.head?.map Bucket.anchor, f ∈ files := by
      cases rest with
      | nil => simp
      | cons b' rest =>
        intro f hf
        cases hf
        exact hrest (List.mem_append_left _ List.mem_cons_self)
    have hsmalls : ∀ s ∈ b.smalls, s ∈ files := fun s hs => hb (List.mem_cons_of_mem _ hs)
    have hanchor : b.anchor ∈ files := hb List.mem_cons_self
    have hsum : (b.smalls.map fun s => hdr sizeOf s.id + body sizeOf s.id).sum =
        (b.smalls.map entrySize).sum := by
      congr 1
      refine List.map_congr_left fun s hs => ?_
      rw [h.hdr (hsmalls s hs), h.body (hsmalls s hs)]
      rfl
    have hstep : planBucket sizeOf (all.map Bucket.ids) st (b.ids, done.length) =
        { order := st.order ++ b.ids
          segments := st.segments ++ [b.segment done.length (rest.head?.map Bucket.anchor)]
          offset := st.offset + (b.files.map entrySize).sum
          totalLinks := st.totalLinks +
            (b.segment done.length (rest.head?.map Bucket.anchor)).links.length
          maxDepth := max st.maxDepth
            (b.segment done.length (rest.head?.map Bucket.anchor)).links.length } := by
      unfold planBucket
      dsimp only
      rw [hnext, bucketSegment_ids h hb hmem]
      have hhead : b.ids[0]! = b.anchor.id := rfl
      have htail : b.ids.drop 1 = b.smalls.map SourceFile.id := rfl
      rw [hhead, htail, h.hdr hanchor, h.body hanchor, List.map_map]
      simp only [Function.comp_def, hsum, Bucket.files, List.map_cons, List.sum_cons,
        Nat.add_assoc, Bucket.ids, entrySize, entryTotalLen]
    have := ih (done ++ [b]) (by rw [hall, List.append_assoc]; rfl) hrest
      (planBucket sizeOf (all.map Bucket.ids) st (b.ids, done.length))
    rw [List.length_append, List.length_singleton] at this
    obtain ⟨horder, hsegments, hoffset⟩ := this
    rw [List.map_cons, List.zipIdx_cons, List.foldl_cons]
    refine ⟨?_, ?_, ?_⟩
    · rw [horder, hstep, List.flatMap_cons, List.map_append, List.append_assoc]
      rfl
    · rw [hsegments, hstep, List.append_assoc]
      rfl
    · rw [hoffset, hstep, List.flatMap_cons]
      unfold bodySize
      rw [List.map_append, List.sum_append, Nat.add_assoc]

theorem planBuckets_ids {files : List SourceFile} (h : SizesOf sizeOf files) {bs : List Bucket}
    (hfiles : bs.flatMap Bucket.files ⊆ files) :
    (planBuckets sizeOf (bs.map Bucket.ids)).order =
        (bs.flatMap Bucket.files).map SourceFile.id ∧
      (planBuckets sizeOf (bs.map Bucket.ids)).segments = segmentsFrom 0 bs ∧
      (planBuckets sizeOf (bs.map Bucket.ids)).offset = bodySize (bs.flatMap Bucket.files) := by
  obtain ⟨horder, hsegments, hoffset⟩ := planBuckets_from h [] bs rfl hfiles ⟨[], [], 0, 0, 0⟩
  exact ⟨horder, hsegments, hoffset.trans (Nat.zero_add _)⟩

end

/-! ## Recorded entries -/

/-- Each ordered id is moved once. -/
theorem foldlM_recordEntry {ps : List (Nat × SourceFile)} {st : Recorded}
    (hids : (ps.map fun p => p.2.id).Nodup)
    (h : ∀ p ∈ ps, st.sizeOf[p.2.id]? = some (p.2.name, p.2.size)) :
    ∃ st', (ps.map fun p => (p.2.id, p.1)).foldlM recordEntry st = .ok st' ∧
      st'.entries = insertEach (fun p : Nat × SourceFile => p.2.id)
        (fun p => ⟨p.2.id, p.2.name, p.2.size, p.1⟩) st.entries ps ∧
      st'.cdSize = st.cdSize + (ps.map fun p => centralDirEntryLen p.2.name p.1).sum := by
  induction ps generalizing st with
  | nil => exact ⟨st, rfl, rfl, rfl⟩
  | cons p ps ih =>
    rw [List.map_cons, List.nodup_cons] at hids
    have hstep : recordEntry st (p.2.id, p.1) = .ok ⟨st.sizeOf.erase p.2.id,
        st.entries.insert p.2.id ⟨p.2.id, p.2.name, p.2.size, p.1⟩,
        st.cdSize + centralDirEntryLen p.2.name p.1⟩ := by
      unfold recordEntry
      dsimp only
      rw [h p List.mem_cons_self]
    have hrest : ∀ q ∈ ps, (st.sizeOf.erase p.2.id)[q.2.id]? = some (q.2.name, q.2.size) := by
      intro q hq
      have hne : (p.2.id == q.2.id) = false :=
        beq_false_of_ne fun heq => hids.1 (heq ▸ List.mem_map_of_mem hq)
      rw [Std.HashMap.getElem?_erase, hne]
      exact h q (List.mem_cons_of_mem _ hq)
    obtain ⟨st', hfold, hentries, hsize⟩ := @ih ⟨st.sizeOf.erase p.2.id,
        st.entries.insert p.2.id ⟨p.2.id, p.2.name, p.2.size, p.1⟩,
        st.cdSize + centralDirEntryLen p.2.name p.1⟩ hids.2 hrest
    refine ⟨st', ?_, hentries, ?_⟩
    · rw [List.map_cons, List.foldlM_cons, hstep]
      exact hfold
    · rw [hsize, List.map_cons, List.sum_cons, Nat.add_assoc]

/-! ## The plan -/

/-- The buckets that a plan of the files renders. -/
structure ChainBuckets (files : List SourceFile) (plan : ChainPlan) where
  buckets : List Bucket
  ne_nil : buckets ≠ []
  perm : (buckets.flatMap Bucket.files).Perm files
  anchor_big : ∀ b ∈ buckets, partFloor ≤ b.anchor.size
  order_eq : plan.order = (buckets.flatMap Bucket.files).map SourceFile.id
  segments_eq : plan.segments = segmentsFrom 0 buckets
  /-- Each file is recorded with its offset. -/
  entry : ∀ p ∈ placed (buckets.flatMap Bucket.files),
    plan.entries[p.2.id]? = some ⟨p.2.id, p.2.name, p.2.size, p.1⟩
  cdOffset_eq : plan.cdOffset = bodySize (buckets.flatMap Bucket.files)
  cdSize_eq : plan.cdSize = directorySize (buckets.flatMap Bucket.files)

/-- The files in archive order. -/
def ChainBuckets.files {files : List SourceFile} {plan : ChainPlan}
    (c : ChainBuckets files plan) : List SourceFile := c.buckets.flatMap Bucket.files

/-- Buckets place their anchors and smalls once. -/
theorem perm_bucketFiles (bs : List Bucket) :
    (bs.flatMap Bucket.files).Perm (bs.map Bucket.anchor ++ bs.flatMap Bucket.smalls) := by
  have hsplit := List.flatMap_append_perm bs (fun b => [b.anchor]) Bucket.smalls
  rw [← List.map_eq_flatMap] at hsplit
  exact hsplit.symm

theorem planSorted_buckets {bigs smalls : List SourceFile}
    (hids : ((bigs ++ smalls).map SourceFile.id).Nodup) (hne : bigs ≠ [])
    (hbigs : ∀ f ∈ bigs, partFloor ≤ f.size) :
    ∃ plan, planSorted bigs smalls = .ok plan ∧ Nonempty (ChainBuckets (bigs ++ smalls) plan) := by
  have hsizes : SizesOf (sizeMap (bigs ++ smalls)) (bigs ++ smalls) :=
    fun f hf => getElem?_insertEach hids hf
  obtain ⟨bs, hanchors, hsmalls, hdeal⟩ := dealSmalls_buckets hne smalls
  have hperm : (bs.flatMap Bucket.files).Perm (bigs ++ smalls) := by
    refine (perm_bucketFiles bs).trans ?_
    rw [hanchors]
    exact hsmalls.append_left bigs
  have hnodup := (hperm.map SourceFile.id).nodup_iff.2 hids
  have hlisted : ∀ f ∈ bs.flatMap Bucket.files, (sizeMap (bigs ++ smalls))[f.id]! =
      (f.name, f.size) := fun f hf => hsizes.get (hperm.subset hf)
  obtain ⟨horder, hsegments, hoffset⟩ := planBuckets_ids hsizes hperm.subset
  rw [← hdeal] at horder hsegments hoffset
  have hplaced : ((placed (bs.flatMap Bucket.files)).map fun p => p.2.id).Nodup := by
    have := nodup_placed_ids hnodup
    rw [List.map_map] at this
    exact this
  obtain ⟨recorded, hfold, hentries, hsize⟩ :=
    @foldlM_recordEntry _ ⟨sizeMap (bigs ++ smalls), ∅, 0⟩ hplaced
      fun p hp => hsizes _ (hperm.subset (mem_of_mem_placed hp))
  have hzip := zip_computeOffsets hlisted
  rw [← horder] at hzip
  have hplan : ∃ stats, planSorted bigs smalls = .ok
      { order := (planBuckets (sizeMap (bigs ++ smalls)) (dealSmalls bigs smalls)).order
        entries := recorded.entries
        segments := (planBuckets (sizeMap (bigs ++ smalls)) (dealSmalls bigs smalls)).segments
        cdOffset := (planBuckets (sizeMap (bigs ++ smalls)) (dealSmalls bigs smalls)).offset
        cdSize := recorded.cdSize
        stats } := by
    unfold planSorted
    dsimp only
    rw [hzip, hfold]
    exact ⟨_, rfl⟩
  obtain ⟨stats, hplan⟩ := hplan
  refine ⟨_, hplan, ⟨⟨bs, ?_, hperm, ?_, horder, hsegments, fun p hp => ?_, hoffset, ?_⟩⟩⟩
  · rintro rfl
    exact hne hanchors.symm
  · intro b hb
    exact hbigs _ (hanchors ▸ List.mem_map_of_mem hb)
  · show recorded.entries[p.2.id]? = _
    rw [hentries]
    exact getElem?_insertEach hplaced hp
  · exact hsize.trans (Nat.zero_add _)

/-- Planning succeeds as soon as there is a big. -/
theorem planSegmentChain_buckets {files : List SourceFile}
    (hids : (files.map SourceFile.id).Nodup) (hbig : ∃ f ∈ files, partFloor ≤ f.size) :
    ∃ plan, planSegmentChain files = .ok plan ∧ Nonempty (ChainBuckets files plan) := by
  have hperm := perm_sorted files bigsLe idLe
  have hne : (files.partition SourceFile.isBig).1 ≠ [] := by
    obtain ⟨f, hf, hsize⟩ := hbig
    rw [List.partition_eq_filter_filter]
    exact List.ne_nil_of_mem (List.mem_filter.2 ⟨hf, decide_eq_true hsize⟩)
  have hne' : (files.partition SourceFile.isBig).1.mergeSort bigsLe ≠ [] := by
    intro hnil
    have := (List.mergeSort_perm (files.partition SourceFile.isBig).1 bigsLe).length_eq
    rw [hnil] at this
    exact hne (List.length_eq_zero_iff.1 this.symm)
  obtain ⟨plan, hplan, ⟨c⟩⟩ := planSorted_buckets ((hperm.map SourceFile.id).nodup_iff.2 hids)
    hne' fun _ => floor_le_of_mem_bigs
  refine ⟨plan, ?_, ⟨{ c with perm := c.perm.trans hperm }⟩⟩
  unfold planSegmentChain
  dsimp only
  rw [if_neg (by simpa using hne)]
  exact hplan

end S3Archive.FigmentEngineChain
