import S3Archive.FigmentEngineChain.Buckets
import S3Archive.FigmentEngineChain.ChainInvariant

/-!
# figment-engine-chain: the archive of a run

A segment's object is its anchor's body, its smalls and the next anchor's header
(`bucketObject`), so the objects of all segments, in order, are the files of the
plan (`flatten_segmentObjects`). `planSegmentChain_archive` puts this together
with what a run keeps.
-/

namespace S3Archive.FigmentEngineChain

open FigmentEngine
open FigmentEngine.SourceFile (entrySize)

section

variable (src : Source)

def headerBytes (f : SourceFile) : Bytes := localHeader (metaAt src (0, f))

/-- A header, if there is one. -/
def headerBytes? (next : Option SourceFile) : Bytes := (next.map (headerBytes src)).getD []

/-- The object of segment `k`; a later anchor's header is in the object before. -/
def bucketObject (k : Nat) (b : Bucket) (next : Option SourceFile) : Bytes :=
  (if k = 0 then headerBytes src b.anchor else []) ++ src.body b.anchor.name ++
    b.smalls.flatMap (fun s => fileBytes src (0, s)) ++ headerBytes? src next

/-- The objects of the buckets, the first being that of segment `k`. -/
def bucketObjects : Nat → List Bucket → List Bytes
  | _, [] => []
  | k, b :: rest =>
    bucketObject src k b (rest.head?.map Bucket.anchor) :: bucketObjects (k + 1) rest

end

section

variable {src : Source}

/-- The objects join to the files; a later first header is in the object before. -/
theorem flatten_bucketObjects (k : Nat) (bs : List Bucket) :
    (if k = 0 then [] else headerBytes? src (bs.head?.map Bucket.anchor)) ++
      (bucketObjects src k bs).flatten =
        (bs.flatMap Bucket.files).flatMap fun f => fileBytes src (0, f) := by
  induction bs generalizing k with
  | nil => by_cases hk : k = 0 <;> simp [hk, bucketObjects, headerBytes?]
  | cons b rest ih =>
    have hrest := ih (k + 1)
    rw [if_neg (Nat.succ_ne_zero k)] at hrest
    have hfirst : (if k = 0 then [] else
        headerBytes? src ((b :: rest).head?.map Bucket.anchor)) ++
        ((if k = 0 then headerBytes src b.anchor else []) ++ src.body b.anchor.name) =
        fileBytes src (0, b.anchor) := by
      by_cases hk : k = 0
      · rw [if_pos hk, if_pos hk]
        rfl
      · rw [if_neg hk, if_neg hk]
        rfl
    rw [List.flatMap_cons, List.flatMap_append, ← hrest, Bucket.files, List.flatMap_cons, ← hfirst]
    simp only [bucketObjects, bucketObject, List.flatten_cons, List.append_assoc]

theorem length_headerBytes? (next : Option SourceFile) :
    (headerBytes? src next).length = Bucket.headerLen next := by
  cases next with
  | none => rfl
  | some f => exact length_localHeader _

theorem length_bucketObject {b : Bucket} (h : SizesListed src b.files) (k : Nat)
    (next : Option SourceFile) :
    (bucketObject src k b next).length = b.objectLen k next := by
  have hanchor : (src.body b.anchor.name).length = b.anchor.size := h _ List.mem_cons_self
  have hheader : (headerBytes src b.anchor).length = localHeaderLen b.anchor.name :=
    length_localHeader _
  have hsmalls : (b.smalls.flatMap fun s => fileBytes src (0, s)).length =
      (b.smalls.map entrySize).sum := by
    rw [List.length_flatMap]
    congr 1
    refine List.map_congr_left fun s hs => ?_
    exact length_fileBytes (h s (List.mem_cons_of_mem _ hs))
  unfold bucketObject Bucket.objectLen
  rw [List.length_append, List.length_append, List.length_append, hanchor, hsmalls,
    length_headerBytes?]
  by_cases hk : k = 0
  · rw [if_pos hk, if_pos hk, hheader]
    rfl
  · rw [if_neg hk, if_neg hk, List.length_nil, Nat.zero_add]

end

/-! ## The links of a bucket -/

section

variable {src : Source} {files : List SourceFile} {plan : ChainPlan} (c : ChainBuckets files plan)

include c

theorem ChainBuckets.get {f : SourceFile} (hf : f ∈ c.files) :
    ∃ off, (off, f) ∈ placed c.files ∧ plan.entries[f.id]! = ⟨f.id, f.name, f.size, off⟩ := by
  obtain ⟨off, hp⟩ := exists_placed hf
  refine ⟨off, hp, ?_⟩
  have := c.entry _ hp
  dsimp only at this
  rw [Std.HashMap.getElem!_eq_get!_getElem?, this]
  rfl

theorem ChainBuckets.header {f : SourceFile} (hf : f ∈ c.files) :
    localHeader (storedMeta src plan f.id) = headerBytes src f := by
  obtain ⟨off, _, hget⟩ := c.get hf
  unfold storedMeta
  rw [hget]
  -- the local header does not depend on the offset
  rfl

theorem ChainBuckets.name {f : SourceFile} (hf : f ∈ c.files) :
    plan.entries[f.id]!.name = f.name := by
  obtain ⟨off, _, hget⟩ := c.get hf
  rw [hget]

theorem ChainBuckets.pieces {b : Bucket} (hb : b.files ⊆ c.files) {next : Option SourceFile}
    (hnext : ∀ f ∈ next, f ∈ c.files) :
    (b.pieces next).flatMap (pieceContent src plan) =
      b.smalls.flatMap (fun s => fileBytes src (0, s)) ++ headerBytes? src next := by
  have hlast : (next.map fun f => Piece.header f.id).toList.flatMap (pieceContent src plan) =
      headerBytes? src next := by
    cases next with
    | none => rfl
    | some f =>
      have : localHeader (storedMeta src plan f.id) = headerBytes src f := c.header (hnext f rfl)
      simp [pieceContent, this, headerBytes?]
  unfold Bucket.pieces
  rw [List.flatMap_append, hlast, List.flatMap_assoc]
  congr 1
  refine List.flatMap_congr fun s hs => ?_
  have hmem : s ∈ c.files := hb (List.mem_cons_of_mem _ hs)
  have hheader : localHeader (storedMeta src plan s.id) = headerBytes src s := c.header hmem
  simp only [List.flatMap_cons, List.flatMap_nil, pieceContent, hheader, c.name hmem,
    List.append_nil]
  rfl

/-- The links of a bucket make its object. -/
theorem ChainBuckets.segmentObject_eq {b : Bucket} (hb : b.files ⊆ c.files)
    {next : Option SourceFile} (hnext : ∀ f ∈ next, f ∈ c.files) (k : Nat) :
    segmentObject src plan (b.segment k next) = bucketObject src k b next := by
  have hanchor : b.anchor ∈ c.files := hb List.mem_cons_self
  have hpieces : (b.pieces next).flatMap (pieceContent src plan) =
      b.smalls.flatMap (fun s => fileBytes src (0, s)) ++ headerBytes? src next :=
    c.pieces hb hnext
  unfold segmentObject grown bucketObject
  show (b.links k next).foldl (grow src plan) [] = _
  unfold Bucket.links
  rw [List.append_assoc, ← hpieces]
  by_cases hk : k = 0
  · rw [if_pos hk, if_pos hk, List.foldl_cons, grow_bootstrap, foldl_grow_forward,
      c.header hanchor, c.name hanchor]
  · rw [if_neg hk, if_neg hk, List.nil_append]
    cases b.pieces next with
    | nil => simp [grow_anchorOnly, c.name hanchor]
    | cons p ps =>
      show (Link.anchorThenAppend b.anchor.id p :: ps.map Link.forwardThenAppend).foldl _ _ = _
      rw [List.foldl_cons, grow_anchorThenAppend, foldl_grow_forward, c.name hanchor,
        List.flatMap_cons, List.append_assoc]

omit c in
theorem map_segmentObject_from {bs : List Bucket} (k : Nat)
    (h : ∀ b ∈ bs, ∀ next, (∀ f ∈ next, f ∈ bs.map Bucket.anchor) → ∀ j,
      segmentObject src plan (b.segment j next) = bucketObject src j b next) :
    (segmentsFrom k bs).map (segmentObject src plan) = bucketObjects src k bs := by
  induction bs generalizing k with
  | nil => rfl
  | cons b rest ih =>
    have hnext : ∀ f ∈ rest.head?.map Bucket.anchor, f ∈ (b :: rest).map Bucket.anchor := by
      intro f hf
      obtain ⟨b', hb', rfl⟩ := Option.map_eq_some_iff.1 hf
      exact List.mem_map_of_mem (List.mem_cons_of_mem _ (List.mem_of_mem_head? hb'))
    rw [segmentsFrom, List.map_cons, bucketObjects, h b List.mem_cons_self _ hnext]
    congr 1
    refine ih (k + 1) fun b' hb' next hnext' j => h b' (List.mem_cons_of_mem _ hb') next ?_ j
    exact fun f hf => List.mem_cons_of_mem _ (hnext' f hf)

theorem ChainBuckets.subset {b : Bucket} (hb : b ∈ c.buckets) : b.files ⊆ c.files :=
  fun _ hf => List.mem_flatMap.2 ⟨b, hb, hf⟩

theorem ChainBuckets.anchor_mem {f : SourceFile} (hf : f ∈ c.buckets.map Bucket.anchor) :
    f ∈ c.files := by
  obtain ⟨b, hb, rfl⟩ := List.mem_map.1 hf
  exact c.subset hb List.mem_cons_self

/-- The objects of the segments are the files of the plan. -/
theorem ChainBuckets.flatten_segmentObjects :
    (plan.segments.map (segmentObject src plan)).flatten =
      c.files.flatMap fun f => fileBytes src (0, f) := by
  have hmap : plan.segments.map (segmentObject src plan) = bucketObjects src 0 c.buckets := by
    rw [c.segments_eq]
    apply map_segmentObject_from
    intro b hb next hnext j
    exact c.segmentObject_eq (c.subset hb) (fun f hf => c.anchor_mem (hnext f hf)) j
  rw [hmap]
  exact flatten_bucketObjects 0 c.buckets

theorem ChainBuckets.directoryPart_eq : directoryPart src plan =
    directory src c.files ++
      endRecords c.files.length (bodySize c.files) (directorySize c.files) := by
  have hids : plan.order = (placed c.files).map fun p => p.2.id := by
    rw [c.order_eq]
    conv_lhs => rw [← map_snd_offsetsFrom entrySize 0 (c.buckets.flatMap Bucket.files),
      List.map_map]
    rfl
  have hrecs : (plan.order.map fun id => centralDirEntry (storedMeta src plan id)) =
      (placed c.files).map fun p => centralDirEntry (metaAt src p) := by
    rw [hids, List.map_map]
    refine List.map_congr_left fun p hp => ?_
    have hget := c.entry p hp
    have hmeta : storedMeta src plan p.2.id = metaAt src p := by
      unfold storedMeta
      rw [Std.HashMap.getElem!_eq_get!_getElem?, hget]
      rfl
    exact congrArg centralDirEntry hmeta
  have hlen : (((placed c.files).map fun p => centralDirEntry (metaAt src p)).map
      List.length).sum = directorySize c.files := by
    rw [← length_directory src, directory, List.length_flatMap, List.map_map]
    rfl
  unfold directoryPart
  dsimp only
  rw [hrecs, hlen, c.order_eq, List.length_map, c.cdOffset_eq, ← List.flatMap_def]
  rfl

end

/-! ## The plan can be executed -/

section

variable {src : Source} {files : List SourceFile} {plan : ChainPlan}

theorem index_segmentsFrom (k : Nat) (bs : List Bucket) :
    (segmentsFrom k bs).map Segment.index = List.range' k bs.length := by
  induction bs generalizing k with
  | nil => rfl
  | cons b rest ih =>
    rw [segmentsFrom, List.map_cons, ih, List.length_cons, List.range'_succ]
    rfl

/-- A segment of the plan is that of a bucket with the next anchor. -/
theorem mem_segmentsFrom {bs : List Bucket} {k : Nat} {seg : Segment}
    (h : seg ∈ segmentsFrom k bs) : ∃ b ∈ bs, ∃ next, (∀ f ∈ next, f ∈ bs.map Bucket.anchor) ∧
      ∃ j, seg = b.segment j next := by
  induction bs generalizing k with
  | nil => cases h
  | cons b rest ih =>
    rw [segmentsFrom] at h
    rcases List.mem_cons.1 h with rfl | h
    · refine ⟨b, List.mem_cons_self, _, ?_, k, rfl⟩
      intro f hf
      obtain ⟨b', hb', rfl⟩ := Option.map_eq_some_iff.1 hf
      exact List.mem_map_of_mem (List.mem_cons_of_mem _ (List.mem_of_mem_head? hb'))
    · obtain ⟨b', hb', next, hnext, j, rfl⟩ := ih h
      exact ⟨b', List.mem_cons_of_mem _ hb', next, fun f hf =>
        List.mem_cons_of_mem _ (hnext f hf), j, rfl⟩

/-- The ids of a bucket's links are those of its files and of the next anchor. -/
theorem linkCrcIds_links {b : Bucket} {k : Nat} {next : Option SourceFile} {link : Link}
    (hlink : link ∈ b.links k next) {id : FileId} (hid : id ∈ linkCrcIds link) :
    ∃ f, (f ∈ b.files ∨ f ∈ next) ∧ id = f.id := by
  have hpiece : ∀ p ∈ b.pieces next, ∃ f, (f ∈ b.files ∨ f ∈ next) ∧ pieceId p = f.id := by
    intro p hp
    rcases List.mem_append.1 hp with hp | hp
    · obtain ⟨s, hs, hp⟩ := List.mem_flatMap.1 hp
      refine ⟨s, .inl (List.mem_cons_of_mem _ hs), ?_⟩
      rcases List.mem_cons.1 hp with rfl | hp
      · rfl
      · rw [List.mem_singleton.1 hp]
        rfl
    · cases next with
      | none => cases hp
      | some f =>
        rw [List.mem_singleton.1 hp]
        exact ⟨f, .inr rfl, rfl⟩
  have hanchor : ∃ f, (f ∈ b.files ∨ f ∈ next) ∧ b.anchor.id = f.id :=
    ⟨b.anchor, .inl List.mem_cons_self, rfl⟩
  have hforward {ps : List Piece} (hps : ps ⊆ b.pieces next)
      (hlink : link ∈ ps.map Link.forwardThenAppend) :
      ∃ f, (f ∈ b.files ∨ f ∈ next) ∧ id = f.id := by
    obtain ⟨p, hp, rfl⟩ := List.mem_map.1 hlink
    rw [List.mem_singleton.1 hid]
    exact hpiece p (hps hp)
  unfold Bucket.links at hlink
  split at hlink
  · rcases List.mem_cons.1 hlink with rfl | hlink
    · rw [List.mem_singleton.1 hid]
      exact hanchor
    · exact hforward (fun _ h => h) hlink
  · cases hpieces : b.pieces next with
    | nil =>
      rw [hpieces] at hlink
      rw [List.mem_singleton.1 hlink] at hid
      rw [List.mem_singleton.1 hid]
      exact hanchor
    | cons p ps =>
      rw [hpieces] at hlink
      rcases List.mem_cons.1 hlink with rfl | hlink
      · rcases List.mem_cons.1 hid with rfl | hid
        · exact hanchor
        · rw [List.mem_singleton.1 hid]
          exact hpiece p (hpieces ▸ List.mem_cons_self)
      · exact hforward (fun q hq => hpieces ▸ List.mem_cons_of_mem _ hq) hlink

/-- Only the first link of the first segment is a bootstrap. -/
theorem bootstrap_mem_links {b : Bucket} {k : Nat} {next : Option SourceFile} {anchor : FileId}
    {stealLen : Nat} (h : Link.bootstrap anchor stealLen ∈ b.links k next) :
    k = 0 ∧ anchor = b.anchor.id ∧ stealLen = partFloor - localHeaderLen b.anchor.name := by
  have hforward (ps : List Piece) :
      Link.bootstrap anchor stealLen ∉ ps.map Link.forwardThenAppend := by simp
  unfold Bucket.links at h
  split at h
  · rename_i hk
    rcases List.mem_cons.1 h with heq | h
    · cases heq
      exact ⟨hk, rfl, rfl⟩
    · exact absurd h (hforward _)
  · split at h
    · cases List.mem_singleton.1 h
    · rcases List.mem_cons.1 h with heq | h
      · cases heq
      · exact absurd h (hforward _)

theorem ChainBuckets.entry_id (c : ChainBuckets files plan) {f : SourceFile} (hf : f ∈ c.files) :
    f.id ∈ plan.order ∧ plan.entries[f.id]!.id = f.id := by
  obtain ⟨off, _, hget⟩ := c.get hf
  rw [c.order_eq, hget]
  exact ⟨List.mem_map_of_mem hf, rfl⟩

theorem ChainBuckets.entry_of_order (c : ChainBuckets files plan) {id : FileId}
    (hid : id ∈ plan.order) : plan.entries[id]!.id = id := by
  rw [c.order_eq] at hid
  obtain ⟨f, hf, rfl⟩ := List.mem_map.1 hid
  exact (c.entry_id hf).2

/-- A segment waits only for files of the plan. -/
theorem ChainBuckets.entry_of_link (c : ChainBuckets files plan) {seg : Segment} {link : Link}
    {id : FileId} (hseg : seg ∈ plan.segments) (hlink : link ∈ seg.links)
    (hid : id ∈ linkCrcIds link) : id ∈ plan.order ∧ plan.entries[id]!.id = id := by
  rw [c.segments_eq] at hseg
  obtain ⟨b, hb, next, hnext, k, rfl⟩ := mem_segmentsFrom hseg
  obtain ⟨f, hf, rfl⟩ := linkCrcIds_links hlink hid
  rcases hf with hf | hf
  · exact c.entry_id (c.subset hb hf)
  · exact c.entry_id (c.anchor_mem (hnext f hf))

theorem ChainBuckets.planOk (c : ChainBuckets files plan)
    (hnames : ∀ f ∈ files, f.name.length ≤ 65535) (hsizes : SizesListed src files) :
    PlanOk src plan := by
  refine ⟨?_, ?_, ?_⟩
  · rw [c.segments_eq, index_segmentsFrom, List.range_eq_range', ← index_segmentsFrom 0 c.buckets,
      ← List.length_map (f := Segment.index), index_segmentsFrom, List.length_range']
  · intro seg hmem
    have hseg := hmem
    rw [c.segments_eq] at hseg
    obtain ⟨b, hb, next, hnext, k, rfl⟩ := mem_segmentsFrom hseg
    have hanchor : b.anchor ∈ c.files := c.subset hb List.mem_cons_self
    refine ⟨?_, ?_, fun link hlink => ⟨fun id hid => c.entry_of_link hmem hlink hid, ?_⟩⟩
    · show b.links k next ≠ []
      unfold Bucket.links
      split
      · simp
      · split <;> simp
    · intro piece
      show (b.links k next)[0]? ≠ _
      unfold Bucket.links
      split
      · simp
      · split <;> simp
    · rintro anchor stealLen rfl
      obtain ⟨_, rfl, rfl⟩ := bootstrap_mem_links hlink
      obtain ⟨off, _, hget⟩ := c.get hanchor
      rw [hget]
      have hbig := c.anchor_big b hb
      have hname := hnames _ (c.perm.subset hanchor)
      refine ⟨?_, ?_, hsizes _ (c.perm.subset hanchor)⟩
      · unfold localHeaderLen partFloor
        omega
      · show partFloor - localHeaderLen b.anchor.name < b.anchor.size
        unfold localHeaderLen
        unfold partFloor at *
        omega
  · exact fun id hid => c.entry_of_order hid

/-- The object of each segment has the planned length. -/
theorem ChainBuckets.length_segmentObject (c : ChainBuckets files plan)
    (hsizes : SizesListed src files) {seg : Segment} (hseg : seg ∈ plan.segments) :
    (segmentObject src plan seg).length = seg.objectLen := by
  rw [c.segments_eq] at hseg
  obtain ⟨b, hb, next, hnext, k, rfl⟩ := mem_segmentsFrom hseg
  have hsub := c.subset hb
  rw [c.segmentObject_eq hsub (fun f hf => c.anchor_mem (hnext f hf)) k]
  exact length_bucketObject (fun f hf => hsizes f (c.perm.subset (hsub hf))) k next

/-- The segments fill the archive up to the directory. -/
theorem ChainBuckets.sum_objectLen (c : ChainBuckets files plan)
    (hsizes : SizesListed src files) :
    (plan.segments.map Segment.objectLen).sum = plan.cdOffset := by
  have hlen : plan.segments.map Segment.objectLen =
      (plan.segments.map (segmentObject src plan)).map List.length := by
    rw [List.map_map]
    exact List.map_congr_left fun seg hseg => (c.length_segmentObject hsizes hseg).symm
  have horder : SizesListed src c.files := fun f hf => hsizes f (c.perm.subset hf)
  rw [hlen, ← List.length_flatten, c.flatten_segmentObjects, ← content_eq,
    length_content horder, c.cdOffset_eq]
  rfl

/-- The completed upload is the archive of the files. -/
theorem ChainBuckets.archive (c : ChainBuckets files plan) (hplan : PlanOk src plan)
    (hsizes : SizesListed src files) :
    IsArchive src files c.files (fun id => plan.entries[id]?.map Entry.localHeaderOffset)
      plan.cdOffset plan.cdSize (completeUpload (stitchUpload src plan)) := by
  have hoff : ∀ p ∈ placed c.files,
      plan.entries[p.2.id]?.map Entry.localHeaderOffset = some p.1 := by
    intro p hp
    have hget : plan.entries[p.2.id]? = some ⟨p.2.id, p.2.name, p.2.size, p.1⟩ := c.entry p hp
    rw [hget]
    rfl
  have hparts : ((stitchUpload src plan).map Prod.snd).flatten =
      (c.files.flatMap fun f => fileBytes src (0, f)) ++ (directory src c.files ++
        endRecords c.files.length (bodySize c.files) (directorySize c.files)) := by
    rw [← c.flatten_segmentObjects, ← c.directoryPart_eq]
    unfold stitchUpload
    rw [List.map_append, List.map_map, List.flatten_append, List.map_singleton,
      List.flatten_singleton]
    rfl
  rw [completeUpload_of_perm hplan.numbered (.refl _), hparts, c.cdOffset_eq, c.cdSize_eq]
  exact isArchive c.perm hsizes hoff

end

/-! ## Every run of a plan -/

/-- The segments of a plan fill the archive up to its directory. Every run makes objects of the
planned lengths and has a bounded length, and what it completes is the archive of the files; when
no request is refused it completes. -/
theorem planSegmentChain_archive {src : Source} {files : List SourceFile}
    (hids : (files.map SourceFile.id).Nodup) (hnames : ∀ f ∈ files, f.name.length ≤ 65535)
    (hbig : ∃ f ∈ files, partFloor ≤ f.size) (hsizes : SizesListed src files) :
    ∃ plan order, planSegmentChain files = .ok plan ∧ plan.order = order.map SourceFile.id ∧
      (plan.segments.map Segment.objectLen).sum = plan.cdOffset ∧
      ∀ evs s, ChainRun src plan (.start plan) evs s →
        evs.length ≤ (ChainState.start plan).rank ∧
        (∀ t ∈ s.tasks, t.state = .built ∨ t.state = .stitched → ∃ object,
          s.stored.temps[segmentKey t.segment.index]? = some object ∧
            object.length = t.segment.objectLen) ∧
        (∀ archive, s.outcome = some (.ok archive) →
          IsArchive src files order (fun id => plan.entries[id]?.map Entry.localHeaderOffset)
            plan.cdOffset plan.cdSize archive) ∧
        ((∀ ev ∈ evs, ev ≠ .refuse) →
          (∀ ev s', ChainStep src plan s ev s' → ev = .refuse) →
            ∃ archive, s.outcome = some (.ok archive)) := by
  obtain ⟨plan, hplan, ⟨c⟩⟩ := planSegmentChain_buckets hids hbig
  have hok : PlanOk src plan := c.planOk hnames hsizes
  refine ⟨plan, c.files, hplan, c.order_eq, c.sum_objectLen hsizes, fun evs s hrun => ?_⟩
  have hinv := hok.run hrun
  refine ⟨length_chainRun_le hrun, fun t ht hstate => ?_, fun archive harchive => ?_,
    fun hev hmax => ?_⟩
  · have hobject : s.stored.temps[segmentKey t.segment.index]? =
        some (segmentObject src plan t.segment) := by
      have htask := hinv.task t ht
      unfold TaskInv at htask
      rcases hstate with hstate | hstate <;> rwa [hstate] at htask
    refine ⟨_, hobject, c.length_segmentObject hsizes ?_⟩
    rw [← hinv.segments]
    exact List.mem_map_of_mem ht
  · rcases hinv.outcome _ harchive with heq | heq
    · rw [Except.ok.inj heq]
      exact c.archive hok hsizes
    · cases heq
  · have hunrefused := hok.run_unrefused hev hrun
    cases houtcome : s.outcome with
    | none =>
      obtain ⟨ev, s', hne, hstep⟩ := hok.progress hinv hunrefused houtcome
      exact absurd (hmax ev s' hstep) hne
    | some r =>
      rcases hinv.outcome r houtcome with rfl | rfl
      · exact ⟨_, rfl⟩
      · exact absurd rfl (hunrefused.outcome _ houtcome)

/-- Five files: two segments, with the small files in their links. -/
theorem planSegmentChain_archive_five :
    ∃ plan order, planSegmentChain fiveFiles = .ok plan ∧ plan.order = order.map SourceFile.id ∧
      (plan.segments.map Segment.objectLen).sum = plan.cdOffset ∧
      ∀ evs s, ChainRun fiveSource plan (.start plan) evs s →
        evs.length ≤ (ChainState.start plan).rank ∧
        (∀ t ∈ s.tasks, t.state = .built ∨ t.state = .stitched → ∃ object,
          s.stored.temps[segmentKey t.segment.index]? = some object ∧
            object.length = t.segment.objectLen) ∧
        (∀ archive, s.outcome = some (.ok archive) →
          IsArchive fiveSource fiveFiles order
            (fun id => plan.entries[id]?.map Entry.localHeaderOffset) plan.cdOffset plan.cdSize
            archive) ∧
        ((∀ ev ∈ evs, ev ≠ .refuse) →
          (∀ ev s', ChainStep fiveSource plan s ev s' → ev = .refuse) →
            ∃ archive, s.outcome = some (.ok archive)) :=
  planSegmentChain_archive nodup_fiveFiles (by decide) ⟨_, List.mem_cons_self, by decide⟩
    sizesListed_fiveFiles

end S3Archive.FigmentEngineChain
