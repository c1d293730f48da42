import S3Archive.FigmentEngineChain.ChainArchive

/-!
# figment-engine-chain: the uploads of a run are legal

`ChainLegal` says what the planned chains look like; `LinkLegal` what the store
asks of one link's upload. `planSegmentChain_legal`: every plan is legal, and in
every state of a run each link that is next to be executed uploads legal parts.
-/

namespace S3Archive.FigmentEngineChain

open FigmentEngine
open FigmentEngine.SourceFile (entrySize)

def Link.isBootstrap : Link → Bool
  | .bootstrap _ _ => true
  | _ => false

/-- What a link appends. -/
def linkPieces : Link → List Piece
  | .bootstrap _ _ => []
  | .anchorOnly _ => []
  | .anchorThenAppend _ piece => [piece]
  | .forwardThenAppend piece => [piece]

/-- The source object that a link copies. -/
def linkAnchor : Link → Option FileId
  | .bootstrap anchor _ => some anchor
  | .anchorOnly anchor => some anchor
  | .anchorThenAppend anchor _ => some anchor
  | .forwardThenAppend _ => none

structure ChainLegal (plan : ChainPlan) : Prop where
  /-- The first link of segment 0 is a bootstrap. -/
  bootstrap_first : ∃ seg rest anchor stealLen links, plan.segments = seg :: rest ∧
    seg.index = 0 ∧ seg.links = .bootstrap anchor stealLen :: links
  bootstrap_once : (plan.segments.flatMap Segment.links).countP Link.isBootstrap = 1
  steal : ∀ anchor stealLen, .bootstrap anchor stealLen ∈ plan.segments.flatMap Segment.links →
    0 < stealLen ∧ stealLen < plan.entries[anchor]!.size
  forward_not_first : ∀ seg ∈ plan.segments, ∀ piece,
    seg.links[0]? ≠ some (.forwardThenAppend piece)
  /-- The last segment appends whole smalls only. -/
  last_closed : ∀ seg ∈ plan.segments.getLast?, ∃ smalls : List FileId,
    seg.links.flatMap linkPieces = smalls.flatMap fun s => [.header s, .body s]

/-- The parts of a link's upload can be completed. -/
structure LinkLegal (link : Link) (parts : List (Nat × Bytes)) : Prop where
  numbered : NumberedFrom Prod.fst 1 parts
  floored : Floored (fun p => p.2.length) partFloor parts
  bootstrap : link.isBootstrap → ∃ first rest, parts = first :: rest ∧ first.2.length = partFloor

/-! ## The planned chains -/

theorem linkPieces_forward (ps : List Piece) :
    (ps.map Link.forwardThenAppend).flatMap linkPieces = ps := by
  induction ps with
  | nil => rfl
  | cons p ps ih => rw [List.map_cons, List.flatMap_cons, ih]; rfl

theorem linkPieces_links (b : Bucket) (k : Nat) (next : Option SourceFile) :
    (b.links k next).flatMap linkPieces = b.pieces next := by
  unfold Bucket.links
  by_cases hk : k = 0
  · rw [if_pos hk, List.flatMap_cons, linkPieces_forward]
    rfl
  · rw [if_neg hk]
    cases b.pieces next with
    | nil => rfl
    | cons p ps =>
      show (Link.anchorThenAppend b.anchor.id p :: ps.map Link.forwardThenAppend).flatMap _ = _
      rw [List.flatMap_cons, linkPieces_forward]
      rfl

theorem countP_forward (ps : List Piece) :
    (ps.map Link.forwardThenAppend).countP Link.isBootstrap = 0 := by
  rw [List.countP_eq_zero]
  intro link hlink
  obtain ⟨p, _, rfl⟩ := List.mem_map.1 hlink
  simp [Link.isBootstrap]

theorem countP_links (b : Bucket) (k : Nat) (next : Option SourceFile) :
    (b.links k next).countP Link.isBootstrap = if k = 0 then 1 else 0 := by
  unfold Bucket.links
  by_cases hk : k = 0
  · rw [if_pos hk, if_pos hk, List.countP_cons_of_pos rfl, countP_forward]
  · rw [if_neg hk, if_neg hk]
    cases b.pieces next with
    | nil => rfl
    | cons p ps =>
      show (Link.anchorThenAppend b.anchor.id p :: ps.map Link.forwardThenAppend).countP _ = 0
      rw [List.countP_cons_of_neg (by simp [Link.isBootstrap]), countP_forward]

theorem countP_segmentsFrom (k : Nat) (bs : List Bucket) :
    ((segmentsFrom k bs).flatMap Segment.links).countP Link.isBootstrap =
      if k = 0 ∧ bs ≠ [] then 1 else 0 := by
  induction bs generalizing k with
  | nil => simp [segmentsFrom]
  | cons b rest ih =>
    rw [segmentsFrom, List.flatMap_cons, List.countP_append, ih]
    show (b.links k _).countP Link.isBootstrap + _ = _
    rw [countP_links]
    simp

theorem getLast_segmentsFrom {k : Nat} {bs : List Bucket} {seg : Segment}
    (h : (segmentsFrom k bs).getLast? = some seg) : ∃ b ∈ bs, ∃ j, seg = b.segment j none := by
  induction bs generalizing k with
  | nil => cases h
  | cons b rest ih =>
    cases rest with
    | nil =>
      cases h
      exact ⟨b, List.mem_cons_self, k, rfl⟩
    | cons b' rest =>
      have hlast : (segmentsFrom (k + 1) (b' :: rest)).getLast? = some seg := by
        rw [← h]
        exact (List.getLast?_cons_cons ..).symm
      obtain ⟨b'', hb'', hseg⟩ := ih hlast
      exact ⟨b'', List.mem_cons_of_mem _ hb'', hseg⟩

section

variable {src : Source} {files : List SourceFile} {plan : ChainPlan}

theorem ChainBuckets.legal (c : ChainBuckets files plan) (hok : PlanOk src plan) :
    ChainLegal plan := by
  refine ⟨?_, ?_, ?_, fun seg hseg => (hok.segment seg hseg).first, ?_⟩
  · cases hbs : c.buckets with
    | nil => exact absurd hbs c.ne_nil
    | cons b rest =>
      have hsegs : plan.segments = b.segment 0 (rest.head?.map Bucket.anchor) ::
          segmentsFrom 1 rest := by
        rw [c.segments_eq, hbs, segmentsFrom]
      have hlinks : (b.segment 0 (rest.head?.map Bucket.anchor)).links =
          .bootstrap b.anchor.id (partFloor - localHeaderLen b.anchor.name) ::
            (b.pieces (rest.head?.map Bucket.anchor)).map .forwardThenAppend := by
        show b.links 0 _ = _
        exact if_pos rfl
      exact ⟨_, _, _, _, _, hsegs, rfl, hlinks⟩
  · rw [c.segments_eq, countP_segmentsFrom, if_pos ⟨rfl, c.ne_nil⟩]
  · intro anchor stealLen hmem
    obtain ⟨seg, hseg, hlink⟩ := List.mem_flatMap.1 hmem
    obtain ⟨hpos, hlt, _⟩ := ((hok.segment seg hseg).link _ hlink).steal anchor stealLen rfl
    exact ⟨hpos, hlt⟩
  · intro seg hseg
    rw [c.segments_eq] at hseg
    obtain ⟨b, _, j, rfl⟩ := getLast_segmentsFrom hseg
    refine ⟨b.smalls.map SourceFile.id, ?_⟩
    show (b.links j none).flatMap linkPieces = _
    rw [linkPieces_links, List.flatMap_map]
    exact List.append_nil _

/-! ## The parts of a link -/

/-- The bodies that the links of a segment copy reach the floor, and a bootstrap fills it. -/
structure SegmentFloor (src : Source) (plan : ChainPlan) (seg : Segment) : Prop where
  anchor : ∀ link ∈ seg.links, ∀ id ∈ linkAnchor link,
    partFloor ≤ (src.body plan.entries[id]!.name).length
  bootstrap : ∀ id stealLen, .bootstrap id stealLen ∈ seg.links →
    localHeaderLen plan.entries[id]!.name + stealLen = partFloor

theorem linkAnchor_links {b : Bucket} {k : Nat} {next : Option SourceFile} {link : Link}
    (hlink : link ∈ b.links k next) : ∀ id ∈ linkAnchor link, id = b.anchor.id := by
  have hforward (ps : List Piece) (h : link ∈ ps.map Link.forwardThenAppend) :
      linkAnchor link = none := by
    obtain ⟨p, _, rfl⟩ := List.mem_map.1 h
    rfl
  have hself : ∀ id ∈ some b.anchor.id, id = b.anchor.id := fun id hid => by cases hid; rfl
  unfold Bucket.links at hlink
  split at hlink
  · rcases List.mem_cons.1 hlink with rfl | hlink
    · exact hself
    · rw [hforward _ hlink]
      exact fun id hid => by cases hid
  · split at hlink
    · rw [List.mem_singleton.1 hlink]
      exact hself
    · rcases List.mem_cons.1 hlink with rfl | hlink
      · exact hself
      · rw [hforward _ hlink]
        exact fun id hid => by cases hid

theorem ChainBuckets.segmentFloor (c : ChainBuckets files plan)
    (hnames : ∀ f ∈ files, f.name.length ≤ 65535) (hsizes : SizesListed src files)
    {seg : Segment} (hseg : seg ∈ plan.segments) : SegmentFloor src plan seg := by
  rw [c.segments_eq] at hseg
  obtain ⟨b, hb, next, _, k, rfl⟩ := mem_segmentsFrom hseg
  have hanchor : b.anchor ∈ c.files := c.subset hb List.mem_cons_self
  refine ⟨fun link hlink id hid => ?_, fun id stealLen hlink => ?_⟩
  · rw [linkAnchor_links hlink id hid, c.name hanchor, hsizes _ (c.perm.subset hanchor)]
    exact c.anchor_big b hb
  · obtain ⟨_, rfl, rfl⟩ := bootstrap_mem_links hlink
    have hname := hnames _ (c.perm.subset hanchor)
    rw [c.name hanchor]
    unfold localHeaderLen partFloor
    omega

variable {seg : Segment}

/-- Every object of a chain reaches the floor. -/
theorem SegmentFloor.grown (hfloor : SegmentFloor src plan seg) (hok : SegmentOk src plan seg)
    {li : Nat} (hli : li < seg.links.length) :
    partFloor ≤ (grown src plan (seg.links.take (li + 1))).length := by
  have hanchor {link : Link} (hlink : link ∈ seg.links) (acc : Bytes) :
      (∀ piece, link = .forwardThenAppend piece → partFloor ≤ acc.length) →
        partFloor ≤ (grow src plan acc link).length := by
    intro hforward
    cases link with
    | bootstrap id stealLen =>
      have := hfloor.anchor _ hlink id rfl
      rw [grow_bootstrap, List.length_append]
      omega
    | anchorOnly id =>
      rw [grow_anchorOnly]
      exact hfloor.anchor _ hlink id rfl
    | anchorThenAppend id piece =>
      have := hfloor.anchor _ hlink id rfl
      rw [grow_anchorThenAppend, List.length_append]
      omega
    | forwardThenAppend piece =>
      have := hforward piece rfl
      rw [grow_forwardThenAppend, List.length_append]
      omega
  induction li with
  | zero =>
    have hget := List.getElem?_eq_getElem hli
    rw [grown_take_succ hget]
    apply hanchor (List.getElem_mem hli)
    intro piece heq
    rw [heq] at hget
    exact absurd hget (hok.first piece)
  | succ li ih =>
    have hget := List.getElem?_eq_getElem hli
    rw [grown_take_succ hget]
    apply hanchor (List.getElem_mem hli)
    intro _ _
    apply ih
    omega

theorem SegmentFloor.linkUpload (hfloor : SegmentFloor src plan seg)
    (hok : SegmentOk src plan seg) {link : Link} (hlink : link ∈ seg.links) {acc : Bytes}
    (hacc : ∀ piece, link = .forwardThenAppend piece → partFloor ≤ acc.length) :
    LinkLegal link (linkUpload src plan acc link) := by
  have htwo {first last : Nat × Bytes} (h : partFloor ≤ first.2.length) :
      Floored (fun p => p.2.length) partFloor [first, last] := by
    intro p hp
    rw [List.mem_singleton.1 hp]
    exact h
  refine ⟨numberedFrom_linkUpload acc link, ?_, fun hboot => ?_⟩
  · cases link with
    | bootstrap id stealLen =>
      obtain ⟨_, hlt, hlen⟩ := (hok.link _ hlink).steal id stealLen rfl
      have hfill := hfloor.bootstrap id stealLen hlink
      refine htwo ?_
      rw [List.length_append, length_localHeader, List.length_take]
      show partFloor ≤ localHeaderLen plan.entries[id]!.name + _
      omega
    | anchorOnly id =>
      intro p hp
      cases hp
    | anchorThenAppend id piece => exact htwo (hfloor.anchor _ hlink id rfl)
    | forwardThenAppend piece => exact htwo (hacc piece rfl)
  · cases link with
    | bootstrap id stealLen =>
      obtain ⟨_, hlt, hlen⟩ := (hok.link _ hlink).steal id stealLen rfl
      have hfill := hfloor.bootstrap id stealLen hlink
      refine ⟨_, _, rfl, ?_⟩
      rw [List.length_append, length_localHeader, List.length_take]
      show localHeaderLen plan.entries[id]!.name + _ = partFloor
      omega
    | anchorOnly id => cases hboot
    | anchorThenAppend id piece => cases hboot
    | forwardThenAppend piece => cases hboot

/-- The next link of a segment that is being built. -/
theorem TaskInv.linkParts {crcs : CrcStore} {temps : Temps} (hcrcs : CrcsOk src plan crcs)
    (hok : SegmentOk src plan seg) (hfloor : SegmentFloor src plan seg) {li : Nat}
    {prev : Option TempKey} (h : TaskInv src plan crcs temps ⟨seg, .building li prev⟩) {link : Link}
    (hlink : seg.links[li]? = some link) :
    ∃ parts, FigmentEngineChain.linkParts src plan crcs temps prev link = .ok parts ∧
      LinkLegal link parts := by
  obtain ⟨hlt, hids, hprev⟩ := h
  have hmem := List.mem_of_getElem? hlink
  have hpos : (∃ piece, link = .forwardThenAppend piece) → li ≠ 0 := by
    rintro ⟨piece, rfl⟩ rfl
    exact hok.first piece hlink
  have hparts : FigmentEngineChain.linkParts src plan crcs temps prev link =
      .ok (linkUpload src plan (grown src plan (seg.links.take li)) link) := by
    apply linkParts_eq hcrcs (hok.link link hmem)
    · exact fun id hid => hids id (mem_segmentCrcIds.2 ⟨link, hmem, hid⟩)
    · intro hforward
      obtain ⟨key, hkey, _, hget⟩ := hprev (hpos hforward)
      exact ⟨key, hkey, hget⟩
  refine ⟨_, hparts, hfloor.linkUpload hok hmem fun piece heq => ?_⟩
  obtain ⟨j, rfl⟩ := Nat.exists_eq_succ_of_ne_zero (hpos ⟨piece, heq⟩)
  apply hfloor.grown hok
  dsimp only at hlt
  omega

end

/-! ## Every run of a plan -/

/-- A plan is legal, and so is every upload of its runs: that of a segment's next link, and the
archive's own, whose last part is number `plan.segments.length + 1`. -/
theorem planSegmentChain_legal {src : Source} {files : List SourceFile}
    (hids : (files.map SourceFile.id).Nodup) (hnames : ∀ f ∈ files, f.name.length ≤ 1024)
    (hbig : ∃ f ∈ files, partFloor ≤ f.size) (hsizes : SizesListed src files) :
    ∃ plan, planSegmentChain files = .ok plan ∧ ChainLegal plan ∧
      ∀ evs s, ChainRun src plan (.start plan) evs s →
        (∀ seg li prev link, ⟨seg, .building li prev⟩ ∈ s.tasks → seg.links[li]? = some link →
          ∃ parts, linkParts src plan s.crcs s.stored.temps prev link = .ok parts ∧
            LinkLegal link parts) ∧
        ∀ p ∈ s.stored.parts, p.1 ≤ plan.segments.length ∧ partFloor ≤ p.2.length := by
  obtain ⟨plan, hplan, ⟨c⟩⟩ := planSegmentChain_buckets hids hbig
  have hshort : ∀ f ∈ files, f.name.length ≤ 65535 := fun f hf =>
    Nat.le_trans (hnames f hf) (by decide)
  have hok : PlanOk src plan := c.planOk hshort hsizes
  refine ⟨plan, hplan, c.legal hok, fun evs s hrun => ?_⟩
  have hinv := hok.run hrun
  have hmem : ∀ t ∈ s.tasks, t.segment ∈ plan.segments := by
    intro t ht
    rw [← hinv.segments]
    exact List.mem_map_of_mem ht
  refine ⟨fun seg li prev link ht hlink => ?_, fun p hp => ?_⟩
  · have hseg := hmem _ ht
    exact (hinv.task _ ht).linkParts hinv.crcs (hok.segment seg hseg)
      (c.segmentFloor hshort hsizes hseg) hlink
  · obtain ⟨t, ht, hpart⟩ := List.mem_filterMap.1 (hinv.parts.subset hp)
    have hseg := hmem t ht
    have hsegOk := hok.segment _ hseg
    have hfloor : SegmentFloor src plan t.segment := c.segmentFloor hshort hsizes hseg
    unfold stitchedPart at hpart
    split at hpart
    · cases hpart
      refine ⟨?_, ?_⟩
      · have hindex : t.segment.index ∈ plan.segments.map Segment.index := List.mem_map_of_mem hseg
        rw [hok.indices, List.mem_range] at hindex
        exact hindex
      · have hlen := List.length_pos_iff.2 hsegOk.ne_nil
        have hlast : t.segment.links.length - 1 < t.segment.links.length := by omega
        have hall := hfloor.grown hsegOk hlast
        rwa [Nat.sub_add_cancel hlen, List.take_length] at hall
    · cases hpart

/-- Five files: two segments, with the small files in their links. -/
theorem planSegmentChain_legal_five :
    ∃ plan, planSegmentChain fiveFiles = .ok plan ∧ ChainLegal plan ∧
      ∀ evs s, ChainRun fiveSource plan (.start plan) evs s →
        (∀ seg li prev link, ⟨seg, .building li prev⟩ ∈ s.tasks → seg.links[li]? = some link →
          ∃ parts, linkParts fiveSource plan s.crcs s.stored.temps prev link = .ok parts ∧
            LinkLegal link parts) ∧
        ∀ p ∈ s.stored.parts, p.1 ≤ plan.segments.length ∧ partFloor ≤ p.2.length :=
  planSegmentChain_legal nodup_fiveFiles (by decide) ⟨_, List.mem_cons_self, by decide⟩
    sizesListed_fiveFiles

end S3Archive.FigmentEngineChain
