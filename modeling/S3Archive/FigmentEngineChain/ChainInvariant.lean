import Mathlib.Data.List.Destutter
import S3Archive.FigmentEngineChain.AssembleChain

/-!
# figment-engine-chain: what a run keeps

`linkUpload` is what a link uploads when everything it reads is there, and
`grown` the object after some links. `TaskInv` says that a segment that has
walked `li` links has that object; `ChainInv` says it of the whole run. A plan
must be `PlanOk`: its links read recorded entries.
-/

namespace S3Archive.FigmentEngineChain

open FigmentEngine

section

variable (src : Source) (plan : ChainPlan)

/-! ## Objects -/

/-- The data of an entry with its stored checksum. -/
def storedMeta (id : FileId) : EntryMeta :=
  let e := plan.entries[id]!
  ⟨e.name, e.size, src.crc32 e.name, e.localHeaderOffset⟩

def pieceContent : Piece → Bytes
  | .header id => localHeader (storedMeta src plan id)
  | .body id => src.body plan.entries[id]!.name

/-- The parts that a link uploads, `acc` being the object of the link before. -/
def linkUpload (acc : Bytes) : Link → List (Nat × Bytes)
  | .bootstrap anchor stealLen =>
    let body := src.body plan.entries[anchor]!.name
    [(1, localHeader (storedMeta src plan anchor) ++ body.take stealLen), (2, body.drop stealLen)]
  | .anchorOnly anchor => [(1, src.body plan.entries[anchor]!.name)]
  | .anchorThenAppend anchor piece =>
    [(1, src.body plan.entries[anchor]!.name), (2, pieceContent src plan piece)]
  | .forwardThenAppend piece => [(1, acc), (2, pieceContent src plan piece)]

/-- The object of a link. -/
def grow (acc : Bytes) (link : Link) : Bytes :=
  ((linkUpload src plan acc link).map Prod.snd).flatten

def grown (links : List Link) : Bytes := links.foldl (grow src plan) []

/-! ## Plans whose links can be executed -/

structure LinkOk (link : Link) : Prop where
  entry : ∀ id ∈ linkCrcIds link, id ∈ plan.order ∧ plan.entries[id]!.id = id
  steal : ∀ anchor stealLen, link = .bootstrap anchor stealLen →
    0 < stealLen ∧ stealLen < plan.entries[anchor]!.size ∧
      (src.body plan.entries[anchor]!.name).length = plan.entries[anchor]!.size

structure SegmentOk (seg : Segment) : Prop where
  ne_nil : seg.links ≠ []
  first : ∀ piece, seg.links[0]? ≠ some (.forwardThenAppend piece)
  link : ∀ link ∈ seg.links, LinkOk src plan link

structure PlanOk : Prop where
  indices : plan.segments.map Segment.index = List.range plan.segments.length
  segment : ∀ seg ∈ plan.segments, SegmentOk src plan seg
  entry : ∀ id ∈ plan.order, plan.entries[id]!.id = id

end

section

variable {src : Source} {plan : ChainPlan}

theorem numberedFrom_linkUpload (acc : Bytes) (link : Link) :
    NumberedFrom Prod.fst 1 (linkUpload src plan acc link) := by
  cases link <;> rfl

theorem grow_bootstrap (acc : Bytes) (anchor : FileId) (stealLen : Nat) :
    grow src plan acc (.bootstrap anchor stealLen) =
      localHeader (storedMeta src plan anchor) ++ src.body plan.entries[anchor]!.name := by
  simp [grow, linkUpload, List.append_assoc]

theorem grow_anchorOnly (acc : Bytes) (anchor : FileId) :
    grow src plan acc (.anchorOnly anchor) = src.body plan.entries[anchor]!.name := by
  simp [grow, linkUpload]

theorem grow_anchorThenAppend (acc : Bytes) (anchor : FileId) (piece : Piece) :
    grow src plan acc (.anchorThenAppend anchor piece) =
      src.body plan.entries[anchor]!.name ++ pieceContent src plan piece := by
  simp [grow, linkUpload]

theorem grow_forwardThenAppend (acc : Bytes) (piece : Piece) :
    grow src plan acc (.forwardThenAppend piece) = acc ++ pieceContent src plan piece := by
  simp [grow, linkUpload]

theorem foldl_grow_forward (acc : Bytes) (ps : List Piece) :
    (ps.map Link.forwardThenAppend).foldl (grow src plan) acc =
      acc ++ ps.flatMap (pieceContent src plan) := by
  induction ps generalizing acc with
  | nil => simp
  | cons p ps ih =>
    rw [List.map_cons, List.foldl_cons, grow_forwardThenAppend, ih, List.flatMap_cons,
      List.append_assoc]

theorem grown_take_succ {links : List Link} {li : Nat} {link : Link}
    (h : links[li]? = some link) :
    grown src plan (links.take (li + 1)) = grow src plan (grown src plan (links.take li)) link := by
  unfold grown
  rw [List.take_add_one, h, Option.toList_some, List.foldl_append]
  rfl

/-! ## Links -/

/-- The store holds the checksums of the sources. -/
def CrcsOk (src : Source) (plan : ChainPlan) (crcs : CrcStore) : Prop :=
  ∀ (id : FileId) (crc : UInt32), crcs[id]? = some crc → crc = src.crc32 plan.entries[id]!.name

variable {crcs : CrcStore} {temps : Temps}

theorem metaOf_eq (hcrcs : CrcsOk src plan crcs) {id : FileId} (hid : plan.entries[id]!.id = id)
    (hmem : id ∈ crcs) : metaOf crcs plan.entries[id]! = .ok (storedMeta src plan id) := by
  have hget := Std.HashMap.getElem?_eq_some_getElem hmem
  have hcrc := hcrcs id _ hget
  unfold metaOf
  rw [hid, hget, hcrc]
  rfl

theorem buildPiecePart_eq (hcrcs : CrcsOk src plan crcs) {piece : Piece}
    (hid : plan.entries[pieceId piece]!.id = pieceId piece) (hmem : pieceId piece ∈ crcs) :
    buildPiecePart src plan crcs piece = .ok (pieceContent src plan piece) := by
  cases piece with
  | header id =>
    have hmeta : metaOf crcs plan.entries[id]! = .ok (storedMeta src plan id) :=
      metaOf_eq hcrcs hid hmem
    unfold buildPiecePart
    dsimp only
    rw [hmeta]
    rfl
  | body id => rfl

/-- A link whose checksums and previous object are there uploads its parts. -/
theorem linkParts_eq (hcrcs : CrcsOk src plan crcs) {link : Link} (hlink : LinkOk src plan link)
    (hids : ∀ id ∈ linkCrcIds link, id ∈ crcs) {prev : Option TempKey} {acc : Bytes}
    (hprev : (∃ piece, link = .forwardThenAppend piece) →
      ∃ key, prev = some key ∧ temps[key]? = some acc) :
    linkParts src plan crcs temps prev link = .ok (linkUpload src plan acc link) := by
  cases link with
  | bootstrap anchor stealLen =>
    obtain ⟨hpos, hlt, hlen⟩ := hlink.steal anchor stealLen rfl
    have hmeta := metaOf_eq hcrcs (hlink.entry anchor List.mem_cons_self).2
      (hids anchor List.mem_cons_self)
    rw [← hlen] at hlt
    have hpre := getObjectRangeBytes_prefix hpos (Nat.le_of_lt hlt)
    have hrest := copyRange_suffix hlt
    rw [hlen] at hrest
    unfold linkParts
    dsimp only
    rw [hmeta, hpre, hrest]
    rfl
  | anchorOnly anchor => rfl
  | anchorThenAppend anchor piece =>
    have hmem : pieceId piece ∈ linkCrcIds (.anchorThenAppend anchor piece) :=
      List.mem_cons_of_mem _ List.mem_cons_self
    unfold linkParts
    dsimp only
    rw [buildPiecePart_eq hcrcs (hlink.entry _ hmem).2 (hids _ hmem)]
    rfl
  | forwardThenAppend piece =>
    have hmem : pieceId piece ∈ linkCrcIds (.forwardThenAppend piece) := List.mem_cons_self
    obtain ⟨key, rfl, hget⟩ := hprev ⟨piece, rfl⟩
    have hcopy : copyPrevious temps (some key) = .ok acc := by
      unfold copyPrevious
      dsimp only
      rw [hget]
    unfold linkParts
    dsimp only
    rw [hcopy, buildPiecePart_eq hcrcs (hlink.entry _ hmem).2 (hids _ hmem)]
    rfl

theorem buildOneLink_eq (hcrcs : CrcsOk src plan crcs) {link : Link} (hlink : LinkOk src plan link)
    (hids : ∀ id ∈ linkCrcIds link, id ∈ crcs) {prev : Option TempKey} {acc : Bytes}
    (hprev : (∃ piece, link = .forwardThenAppend piece) →
      ∃ key, prev = some key ∧ temps[key]? = some acc) :
    buildOneLink src plan crcs temps prev link = .ok (grow src plan acc link) := by
  unfold buildOneLink
  rw [linkParts_eq hcrcs hlink hids hprev]
  show Except.ok (completeUpload _) = _
  rw [completeUpload_of_perm (numberedFrom_linkUpload acc link) (.refl _)]
  rfl

/-- Dropping repeated neighbours keeps the members. -/
theorem mem_destutter_ne {l : List FileId} {id : FileId} :
    id ∈ l.destutter (· ≠ ·) ↔ id ∈ l := by
  have hloop (l : List FileId) (a : FileId) :
      id ∈ l.destutter' (· ≠ ·) a ↔ id ∈ a :: l := by
    induction l generalizing a with
    | nil => rfl
    | cons b l ih =>
      by_cases hab : a = b
      · subst hab
        rw [List.destutter'_cons_neg _ (not_not_intro rfl), ih]
        simp
      · rw [List.destutter'_cons_pos _ hab, List.mem_cons, ih]
        simp
  cases l with
  | nil => rfl
  | cons a l => exact hloop l a

/-- The segment waits for every checksum its links read. -/
theorem mem_segmentCrcIds {seg : Segment} {id : FileId} :
    id ∈ segmentCrcIds seg ↔ ∃ link ∈ seg.links, id ∈ linkCrcIds link := by
  unfold segmentCrcIds
  rw [mem_destutter_ne, (List.mergeSort_perm _ _).mem_iff, List.mem_flatMap]

end

/-! ## Segments -/

section

variable (src : Source) (plan : ChainPlan)

/-- The object of a segment. -/
def segmentObject (seg : Segment) : Bytes := grown src plan seg.links

/-- What a segment has made so far. -/
def TaskInv (crcs : CrcStore) (temps : Temps) (t : SegmentTask) : Prop :=
  match t.state with
  | .waiting => True
  | .building li prev =>
    li < t.segment.links.length ∧ (∀ id ∈ segmentCrcIds t.segment, id ∈ crcs) ∧
      (li ≠ 0 → ∃ key, prev = some key ∧ key.index = t.segment.index ∧
        temps[key]? = some (grown src plan (t.segment.links.take li)))
  | .built => temps[segmentKey t.segment.index]? = some (segmentObject src plan t.segment)
  | .stitched => temps[segmentKey t.segment.index]? = some (segmentObject src plan t.segment)
  | .failed e => e = .s3

/-- The part that the archive's upload has for a segment. -/
def stitchedPart (t : SegmentTask) : Option (Nat × Bytes) :=
  if t.isStitched then some (t.segment.index + 1, segmentObject src plan t.segment) else none

end

section

variable {src : Source} {plan : ChainPlan} {crcs : CrcStore}

/-- A step keeps its segment's invariant, and writes only under its own keys. -/
structure SegmentEffect (src : Source) (plan : ChainPlan) (st : Stored) (t : SegmentTask)
    (st' : Stored) (t' : SegmentTask) : Prop where
  segment : t'.segment = t.segment
  not_stitched : stitchedPart src plan t = none
  parts : st'.parts = st.parts ++ (stitchedPart src plan t').toList
  other : ∀ key : TempKey, key.index ≠ t.segment.index → st'.temps[key]? = st.temps[key]?

theorem segmentStep_ok (hcrcs : CrcsOk src plan crcs) {st st' : Stored} {t t' : SegmentTask}
    {ev : ChainEvent} (hseg : SegmentOk src plan t.segment)
    (ht : TaskInv src plan crcs st.temps t) (h : SegmentStep src plan crcs st t ev st' t') :
    TaskInv src plan crcs st'.temps t' ∧ SegmentEffect src plan st t st' t' ∧
      (t'.isFailed → ev = .refuse) := by
  have hlinkOk {seg : Segment} {li : Nat} {prev : Option TempKey} {link : Link}
      (hseg : SegmentOk src plan seg) (ht : TaskInv src plan crcs st.temps ⟨seg, .building li prev⟩)
      (hlink : seg.links[li]? = some link) :
      buildOneLink src plan crcs st.temps prev link =
        .ok (grown src plan (seg.links.take (li + 1))) := by
    obtain ⟨_, hids, hprev⟩ := ht
    have hmem := List.mem_of_getElem? hlink
    rw [grown_take_succ hlink]
    apply buildOneLink_eq hcrcs (hseg.link link hmem)
    · intro id hid
      exact hids id (mem_segmentCrcIds.2 ⟨link, hmem, hid⟩)
    · rintro ⟨piece, rfl⟩
      have hli : li ≠ 0 := by
        rintro rfl
        exact hseg.first piece hlink
      obtain ⟨key, hkey, _, hget⟩ := hprev hli
      exact ⟨key, hkey, hget⟩
  cases h with
  | @start seg hall =>
    refine ⟨⟨List.length_pos_iff.2 hseg.ne_nil, hall, fun h => absurd rfl h⟩,
      ⟨rfl, rfl, ?_, fun _ _ => rfl⟩, fun h => by cases h⟩
    exact (List.append_nil _).symm
  | @link seg li prev link object hlink hbuild =>
    obtain rfl : grown src plan (seg.links.take (li + 1)) = object := by
      rw [hlinkOk hseg ht hlink] at hbuild
      exact Except.ok.inj hbuild
    obtain ⟨hlt, hids, _⟩ := ht
    have hparts : stitchedPart src plan ⟨seg, afterLink seg li⟩ = none := by
      unfold stitchedPart afterLink
      split <;> rfl
    have hkey : (outKey seg li).index = seg.index := by
      unfold outKey
      split <;> rfl
    have hok : (⟨seg, afterLink seg li⟩ : SegmentTask).isFailed = false := by
      unfold afterLink
      by_cases hlast : li = seg.links.length - 1
      · rw [if_pos hlast]
        rfl
      · rw [if_neg hlast]
        rfl
    refine ⟨?_, ⟨rfl, rfl, by rw [hparts]; exact (List.append_nil _).symm, ?_⟩, fun h => by
      rw [hok] at h; cases h⟩
    · unfold afterLink
      by_cases hlast : li = seg.links.length - 1
      · have htake : seg.links.take (li + 1) = seg.links := List.take_of_length_le (by omega)
        rw [if_pos hlast]
        show (st.temps.insert (outKey seg li) _)[segmentKey seg.index]? = some _
        unfold outKey
        rw [if_pos hlast, Std.HashMap.getElem?_insert_self, htake]
        rfl
      · rw [if_neg hlast]
        refine ⟨by dsimp only at *; omega, hids, fun _ => ⟨_, rfl, hkey, ?_⟩⟩
        exact Std.HashMap.getElem?_insert_self
    · intro key hne
      have : (outKey seg li == key) = false :=
        beq_false_of_ne fun heq => hne (by rw [← heq]; exact hkey)
      rw [Std.HashMap.getElem?_insert, this]
      rfl
  | @linkFails seg li prev link e hlink hbuild =>
    rw [hlinkOk hseg ht hlink] at hbuild
    cases hbuild
  | @stitch seg object hobject =>
    have hbuilt : st.temps[segmentKey seg.index]? = some (segmentObject src plan seg) := ht
    rw [hbuilt] at hobject
    cases hobject
    exact ⟨hbuilt, ⟨rfl, rfl, rfl, fun _ _ => rfl⟩, fun h => by cases h⟩
  | @stitchFails seg hobject =>
    have hbuilt : st.temps[segmentKey seg.index]? = some (segmentObject src plan seg) := ht
    rw [hbuilt] at hobject
    cases hobject
  | @refuse seg state hstate =>
    have hnone : stitchedPart src plan ⟨seg, state⟩ = none := by
      rcases hstate with rfl | ⟨li, prev, rfl⟩ <;> rfl
    exact ⟨rfl, ⟨rfl, hnone, (List.append_nil _).symm, fun _ _ => rfl⟩, fun _ => rfl⟩

/-- More checksums, and the objects of other segments, do not matter. -/
theorem TaskInv.mono {crcs' : CrcStore} {temps temps' : Temps} {t : SegmentTask}
    (h : TaskInv src plan crcs temps t) (hcrcs : ∀ id ∈ crcs, id ∈ crcs')
    (htemps : ∀ key : TempKey, key.index = t.segment.index → temps'[key]? = temps[key]?) :
    TaskInv src plan crcs' temps' t := by
  obtain ⟨seg, state⟩ := t
  cases state with
  | waiting => trivial
  | building li prev =>
    obtain ⟨hlt, hids, hprev⟩ := h
    refine ⟨hlt, fun id hid => hcrcs id (hids id hid), fun hli => ?_⟩
    obtain ⟨key, hkey, hindex, hget⟩ := hprev hli
    exact ⟨key, hkey, hindex, (htemps key hindex).trans hget⟩
  | built => exact (htemps _ rfl).trans h
  | stitched => exact (htemps _ rfl).trans h
  | failed e => exact h

end

/-! ## The whole run -/

section

variable (src : Source) (plan : ChainPlan)

/-- The last part of the archive's upload. -/
def directoryPart : Bytes :=
  let recs := plan.order.map fun id => centralDirEntry (storedMeta src plan id)
  recs.flatten ++ endRecords plan.order.length plan.cdOffset (recs.map List.length).sum

/-- The parts of the archive's upload. -/
def stitchUpload : List (Nat × Bytes) :=
  plan.segments.map (fun seg => (seg.index + 1, segmentObject src plan seg)) ++
    [(plan.segments.length + 1, directoryPart src plan)]

structure ChainInv (s : ChainState) : Prop where
  crcs : CrcsOk src plan s.crcs
  /-- An entry whose HEAD has been answered has its checksum. -/
  heads : ∀ id ∈ plan.order, id ∈ s.heads ∨ id ∈ s.crcs ∨ s.headFailed
  segments : s.tasks.map SegmentTask.segment = plan.segments
  task : ∀ t ∈ s.tasks, TaskInv src plan s.crcs s.stored.temps t
  parts : s.stored.parts.Perm (s.tasks.filterMap (stitchedPart src plan))
  outcome : ∀ r ∈ s.outcome, r = .ok (completeUpload (stitchUpload src plan)) ∨ r = .error .s3

/-- No request has been refused so far. -/
structure Unrefused (s : ChainState) : Prop where
  heads : s.headFailed = false
  task : ∀ t ∈ s.tasks, t.isFailed = false
  outcome : ∀ r ∈ s.outcome, r ≠ .error .s3

end

section

variable {src : Source} {plan : ChainPlan} (hplan : PlanOk src plan)

include hplan

theorem PlanOk.numbered : NumberedFrom Prod.fst 1 (stitchUpload src plan) := by
  unfold NumberedFrom stitchUpload
  have hnums : plan.segments.map (fun seg => seg.index + 1) =
      List.range' 1 plan.segments.length := by
    have hsucc : plan.segments.map (fun seg => seg.index + 1) =
        (plan.segments.map Segment.index).map (· + 1) := by
      rw [List.map_map]
      rfl
    rw [hsucc, hplan.indices, List.range_eq_range', ← List.range'_succ_left]
  rw [List.map_append, List.map_map, List.length_append, List.length_map, List.length_singleton,
    List.range'_1_concat]
  rw [← hnums, Nat.add_comm 1]
  rfl

theorem PlanOk.index_ne {s : ChainState} (hsegs : s.tasks.map SegmentTask.segment = plan.segments)
    {ts₁ ts₂ : List SegmentTask} {t : SegmentTask} (h : s.tasks = ts₁ ++ t :: ts₂) :
    ∀ u ∈ ts₁ ++ ts₂, u.segment.index ≠ t.segment.index := by
  have hnodup : ((ts₁ ++ t :: ts₂).map fun u => u.segment.index).Nodup := by
    have hrange : (ts₁ ++ t :: ts₂).map (fun u => u.segment.index) =
        List.range plan.segments.length := by
      rw [← hplan.indices, ← hsegs, h, List.map_map]
      rfl
    rw [hrange]
    exact List.nodup_range
  rw [List.map_append, List.map_cons, List.nodup_middle, List.nodup_cons] at hnodup
  intro u hu heq
  apply hnodup.1
  rw [← List.map_append, ← heq]
  exact List.mem_map_of_mem hu

theorem PlanOk.segmentOk {s : ChainState}
    (hsegs : s.tasks.map SegmentTask.segment = plan.segments) {t : SegmentTask}
    (ht : t ∈ s.tasks) : SegmentOk src plan t.segment := by
  apply hplan.segment
  rw [← hsegs]
  exact List.mem_map_of_mem ht

theorem PlanOk.buildCentralDirectory_eq {crcs : CrcStore} (hcrcs : CrcsOk src plan crcs)
    (hall : ∀ id ∈ plan.order, id ∈ crcs) :
    buildCentralDirectory plan crcs = .ok (directoryPart src plan) := by
  have hrecs : (plan.order.mapM fun id => do
      return centralDirEntry (← metaOf crcs plan.entries[id]!)) =
      Except.ok (plan.order.map fun id => centralDirEntry (storedMeta src plan id)) := by
    refine mapM_eq_ok fun id hid => ?_
    rw [metaOf_eq hcrcs (hplan.entry id hid) (hall id hid)]
    rfl
  unfold buildCentralDirectory
  rw [hrecs]
  rfl

/-- All segments are parts of the archive's upload. -/
theorem PlanOk.archive_eq {s : ChainState} (hinv : ChainInv src plan s)
    (hall : ∀ t ∈ s.tasks, t.isStitched) :
    completeUpload ((s.tasks.length + 1, directoryPart src plan) :: s.stored.parts) =
      completeUpload (stitchUpload src plan) := by
  have hparts : s.tasks.filterMap (stitchedPart src plan) =
      plan.segments.map fun seg => (seg.index + 1, segmentObject src plan seg) := by
    rw [← hinv.segments, List.map_map, ← List.filterMap_eq_map]
    refine List.filterMap_congr fun t ht => ?_
    unfold stitchedPart
    rw [if_pos (hall t ht)]
    rfl
  have hlen : s.tasks.length = plan.segments.length := by
    rw [← hinv.segments, List.length_map]
  have hperm : ((s.tasks.length + 1, directoryPart src plan) :: s.stored.parts).Perm
      (stitchUpload src plan) := by
    have := hinv.parts
    rw [hparts] at this
    rw [hlen]
    exact (List.Perm.cons _ this).trans (List.perm_append_singleton _ _).symm
  rw [completeUpload_of_perm hplan.numbered hperm,
    completeUpload_of_perm hplan.numbered (.refl _)]

theorem PlanOk.crcs_of_heads {s : ChainState} (hinv : ChainInv src plan s) (hheads : s.heads = [])
    (hok : s.headFailed = false) :
    buildCentralDirectory plan s.crcs = .ok (directoryPart src plan) := by
  apply hplan.buildCentralDirectory_eq hinv.crcs
  intro id hid
  have hmem := hinv.heads id hid
  rw [hheads, hok] at hmem
  simpa using hmem

/-- Every step keeps the invariant. -/
theorem PlanOk.step {s s' : ChainState} {ev : ChainEvent} (hinv : ChainInv src plan s)
    (h : ChainStep src plan s ev s') : ChainInv src plan s' := by
  cases h with
  | @head hs₁ hs₂ id hrun hheads hslot =>
    have hmono : ∀ id' ∈ s.crcs,
        id' ∈ s.crcs.insert id (src.crc32 plan.entries[id]!.name) := fun id' hid' =>
      Std.HashMap.mem_insert.2 (.inr hid')
    refine ⟨?_, ?_, hinv.segments, ?_, hinv.parts, hinv.outcome⟩
    · intro id' crc hget
      rw [Std.HashMap.getElem?_insert] at hget
      split at hget
      · rename_i heq
        cases hget
        rw [eq_of_beq heq]
      · exact hinv.crcs id' crc hget
    · intro id' hid'
      rcases hinv.heads id' hid' with hmem | hmem | hmem
      · rw [hheads, List.mem_append, List.mem_cons] at hmem
        rcases hmem with hmem | rfl | hmem
        · exact .inl (List.mem_append_left _ hmem)
        · exact .inr (.inl Std.HashMap.mem_insert_self)
        · exact .inl (List.mem_append_right _ hmem)
      · exact .inr (.inl (hmono id' hmem))
      · exact .inr (.inr hmem)
    · exact fun t ht => (hinv.task t ht).mono hmono fun _ _ => rfl
  | headRefused => exact { hinv with heads := fun _ _ => .inr (.inr rfl) }
  | headsFail =>
    refine { hinv with outcome := fun r hr => .inr ?_ }
    cases hr
    rfl
  | @segment ts₁ ts₂ t t' _ st hrun htasks hslot hstep =>
    have hmem : t ∈ s.tasks := by
      rw [htasks]
      exact List.mem_append_right _ List.mem_cons_self
    obtain ⟨ht', heffect, _⟩ := segmentStep_ok hinv.crcs (hplan.segmentOk hinv.segments hmem)
      (hinv.task t hmem) hstep
    have hne := hplan.index_ne hinv.segments htasks
    have hother : ∀ u ∈ ts₁ ++ ts₂, TaskInv src plan s.crcs st.temps u := by
      intro u hu
      have humem : u ∈ s.tasks := by
        rw [htasks]
        rcases List.mem_append.1 hu with hu | hu
        · exact List.mem_append_left _ hu
        · exact List.mem_append_right _ (List.mem_cons_of_mem _ hu)
      refine (hinv.task u humem).mono (fun _ h => h) fun key hkey => ?_
      exact heffect.other key (by rw [hkey]; exact hne u hu)
    refine ⟨hinv.crcs, hinv.heads, ?_, ?_, ?_, hinv.outcome⟩
    · rw [← hinv.segments, htasks, List.map_append, List.map_append, List.map_cons, List.map_cons,
        heffect.segment]
    · intro u hu
      rcases List.mem_append.1 hu with hu | hu
      · exact hother u (List.mem_append_left _ hu)
      · rcases List.mem_cons.1 hu with rfl | hu
        · exact ht'
        · exact hother u (List.mem_append_right _ hu)
    · have hparts := hinv.parts
      rw [htasks, List.filterMap_append,
        List.filterMap_cons_none heffect.not_stitched] at hparts
      rw [heffect.parts, List.filterMap_append]
      have hcons : (t' :: ts₂).filterMap (stitchedPart src plan) =
          (stitchedPart src plan t').toList ++ ts₂.filterMap (stitchedPart src plan) := by
        rw [List.filterMap_cons]
        cases stitchedPart src plan t' <;> rfl
      rw [hcons]
      refine (hparts.append_right _).trans ?_
      rw [List.append_assoc]
      exact List.perm_append_comm.append_left _
  | @finish cd hrun hheads hok hall hcd =>
    rw [hplan.crcs_of_heads hinv hheads hok] at hcd
    cases hcd
    refine { hinv with outcome := fun r hr => .inl ?_ }
    cases hr
    rw [hplan.archive_eq hinv hall]
  | @finishFails e hrun hheads hok hall herror =>
    rw [hplan.crcs_of_heads hinv hheads hok] at herror
    refine { hinv with outcome := fun r hr => .inr ?_ }
    cases hr
    rcases herror with hcd | ⟨t, ht, hfailed⟩
    · cases hcd
    · have := hinv.task t ht
      unfold TaskInv at this
      rw [hfailed] at this
      exact congrArg Except.error this
  | refused =>
    refine { hinv with outcome := fun r hr => .inr ?_ }
    cases hr
    rfl

theorem PlanOk.step_unrefused {s s' : ChainState} {ev : ChainEvent} (hev : ev ≠ .refuse)
    (hinv : ChainInv src plan s) (hok : Unrefused s) (h : ChainStep src plan s ev s') :
    Unrefused s' := by
  cases h with
  | head => exact ⟨hok.heads, hok.task, hok.outcome⟩
  | headRefused => exact absurd rfl hev
  | headsFail hrun hheads hfailed =>
    rw [hok.heads] at hfailed
    cases hfailed
  | @segment ts₁ ts₂ t t' _ st hrun htasks hslot hstep =>
    have hmem : t ∈ s.tasks := by
      rw [htasks]
      exact List.mem_append_right _ List.mem_cons_self
    obtain ⟨_, _, hfailed⟩ := segmentStep_ok hinv.crcs (hplan.segmentOk hinv.segments hmem)
      (hinv.task t hmem) hstep
    refine ⟨hok.heads, fun u hu => ?_, hok.outcome⟩
    rcases List.mem_append.1 hu with hu | hu
    · exact hok.task u (by rw [htasks]; exact List.mem_append_left _ hu)
    · rcases List.mem_cons.1 hu with rfl | hu
      · rw [Bool.eq_false_iff]
        exact fun h => hev (hfailed h)
      · exact hok.task u (by
          rw [htasks]
          exact List.mem_append_right _ (List.mem_cons_of_mem _ hu))
  | finish hrun =>
    refine ⟨hok.heads, hok.task, fun r hr => ?_⟩
    cases hr
    simp
  | @finishFails e hrun hheads hheadsOk hall herror =>
    rw [hplan.crcs_of_heads hinv hheads hheadsOk] at herror
    rcases herror with hcd | ⟨t, ht, hfailed⟩
    · cases hcd
    · have := hok.task t ht
      unfold SegmentTask.isFailed at this
      rw [hfailed] at this
      cases this
  | refused => exact absurd rfl hev

/-- The invariant holds in every run. -/
theorem PlanOk.run {s : ChainState} {evs : List ChainEvent}
    (h : ChainRun src plan (.start plan) evs s) : ChainInv src plan s := by
  have hstart : ChainInv src plan (.start plan) := by
    refine ⟨?_, fun id hid => .inl hid, ?_, ?_, ?_, ?_⟩
    · intro id crc hget
      exact absurd hget (by simp [ChainState.start])
    · show (plan.segments.map fun seg => (⟨seg, .waiting⟩ : SegmentTask)).map _ = _
      rw [List.map_map]
      exact List.map_id _
    · intro t ht
      obtain ⟨seg, _, rfl⟩ := List.mem_map.1 ht
      trivial
    · have hnone : (ChainState.start plan).tasks.filterMap (stitchedPart src plan) = [] := by
        rw [List.filterMap_eq_nil_iff]
        intro t ht
        obtain ⟨seg, _, rfl⟩ := List.mem_map.1 ht
        rfl
      rw [hnone]
      exact .nil
    · intro r hr
      cases hr
  exact h.invariant hstart fun _ _ _ hinv hstep => hplan.step hinv hstep

/-- A run without refusals fails nowhere. -/
theorem PlanOk.run_unrefused {s : ChainState} {evs : List ChainEvent}
    (hev : ∀ ev ∈ evs, ev ≠ .refuse) (h : ChainRun src plan (.start plan) evs s) :
    Unrefused s := by
  induction h with
  | refl =>
    refine ⟨rfl, fun t ht => ?_, fun r hr => by cases hr⟩
    obtain ⟨seg, _, rfl⟩ := List.mem_map.1 ht
    rfl
  | step hrun hlast ih =>
    have hok := ih fun ev hmem => hev ev (List.mem_append_left _ hmem)
    have hne := hev _ (List.mem_append_right _ List.mem_cons_self)
    exact hplan.step_unrefused hne (hplan.run hrun) hok hlast

/-! ## Progress -/

/-- While there is no outcome, some event other than a refusal is possible. -/
theorem PlanOk.progress {s : ChainState} (hinv : ChainInv src plan s) (hok : Unrefused s)
    (hrun : s.outcome = none) :
    ∃ ev s', ev ≠ .refuse ∧ ChainStep src plan s ev s' := by
  cases hheads : s.heads with
  | cons id rest =>
    have hfirst : s.heads = [] ++ id :: rest := hheads
    exact ⟨.head, _, by decide, .head hrun hfirst (by decide)⟩
  | nil =>
    have hcrcs : ∀ id ∈ plan.order, id ∈ s.crcs := by
      intro id hid
      have hmem := hinv.heads id hid
      rw [hheads, hok.heads] at hmem
      simpa using hmem
    cases hfind : s.tasks.find? fun t => !t.isStitched with
    | none =>
      have hall : ∀ t ∈ s.tasks, t.isStitched := by
        intro t ht
        simpa using List.find?_eq_none.1 hfind t ht
      exact ⟨.finish, _, by decide, .finish hrun hheads hok.heads hall
        (hplan.buildCentralDirectory_eq hinv.crcs hcrcs)⟩
    | some t =>
      obtain ⟨hunstitched, ts₁, ts₂, htasks, hbefore⟩ := List.find?_eq_some_iff_append.1 hfind
      have hslot : (ts₁.filter fun u => !u.finished).length < segmentConcurrency := by
        have hnil : ts₁.filter (fun u => !u.finished) = [] := by
          rw [List.filter_eq_nil_iff]
          intro u hu
          have := hbefore u hu
          simp_all [SegmentTask.finished]
        rw [hnil]
        decide
      have hmem : t ∈ s.tasks := by
        rw [htasks]
        exact List.mem_append_right _ List.mem_cons_self
      have hseg := hplan.segmentOk hinv.segments hmem
      have ht := hinv.task t hmem
      have hmove : ∃ ev st t', ev ≠ .refuse ∧
          SegmentStep src plan s.crcs s.stored t ev st t' := by
        obtain ⟨seg, state⟩ := t
        cases state with
        | waiting =>
          refine ⟨.start, _, _, by decide, .start fun id hid => ?_⟩
          obtain ⟨link, hlink, hid⟩ := mem_segmentCrcIds.1 hid
          exact hcrcs id ((hseg.link link hlink).entry id hid).1
        | building li prev =>
          have hlt : li < seg.links.length := ht.1
          have hlink := List.getElem?_eq_getElem hlt
          cases hbuild : buildOneLink src plan s.crcs s.stored.temps prev seg.links[li] with
          | ok object => exact ⟨.link, _, _, by decide, .link hlink hbuild⟩
          | error e => exact ⟨.link, _, _, by decide, .linkFails hlink hbuild⟩
        | built => exact ⟨.stitch, _, _, by decide, .stitch ht⟩
        | stitched => simp [SegmentTask.isStitched] at hunstitched
        | failed e => exact absurd (hok.task _ hmem) (by simp [SegmentTask.isFailed])
      obtain ⟨ev, st, t', hev, hstep⟩ := hmove
      exact ⟨ev, _, hev, .segment hrun htasks hslot hstep⟩

end

/-! ## Length of runs -/

/-- The steps that a segment has still to make, at most. -/
def SegmentTask.rank (t : SegmentTask) : Nat :=
  match t.state with
  | .waiting => t.segment.links.length + 2
  | .building li _ => t.segment.links.length - li + 1
  | .built => 1
  | .stitched => 0
  | .failed _ => 0

/-- The steps that the run has still to make, at most. -/
def ChainState.rank (s : ChainState) : Nat :=
  s.heads.length + (s.tasks.map SegmentTask.rank).sum + if s.outcome.isNone then 1 else 0

section

variable {src : Source} {plan : ChainPlan}

theorem segmentStep_rank {crcs : CrcStore} {st st' : Stored} {t t' : SegmentTask}
    {ev : ChainEvent} (h : SegmentStep src plan crcs st t ev st' t') : t'.rank < t.rank := by
  cases h with
  | start hall =>
    simp only [SegmentTask.rank]
    omega
  | @link seg li prev link object hlink hbuild =>
    have hlt := (List.getElem?_eq_some_iff.1 hlink).1
    by_cases hlast : li = seg.links.length - 1
    · simp only [SegmentTask.rank, afterLink, if_pos hlast]
      omega
    · simp only [SegmentTask.rank, afterLink, if_neg hlast]
      omega
  | linkFails hlink hbuild =>
    simp only [SegmentTask.rank]
    omega
  | stitch hobject => simp [SegmentTask.rank]
  | stitchFails hobject => simp [SegmentTask.rank]
  | refuse hstate =>
    rcases hstate with rfl | ⟨li, prev, rfl⟩
    · simp [SegmentTask.rank]
    · simp only [SegmentTask.rank]
      omega

theorem chainStep_rank {s s' : ChainState} {ev : ChainEvent} (h : ChainStep src plan s ev s') :
    s'.rank < s.rank := by
  cases h with
  | head hrun hheads hslot =>
    simp only [ChainState.rank, hheads, List.length_append, List.length_cons]
    omega
  | headRefused hrun hheads hslot =>
    simp only [ChainState.rank, hheads, List.length_append, List.length_cons]
    omega
  | segment hrun htasks hslot hstep =>
    have := segmentStep_rank hstep
    simp only [ChainState.rank, htasks, List.map_append, List.map_cons, List.sum_append,
      List.sum_cons]
    omega
  | headsFail hrun => simp [ChainState.rank, hrun]
  | finish hrun => simp [ChainState.rank, hrun]
  | finishFails hrun => simp [ChainState.rank, hrun]
  | refused hrun => simp [ChainState.rank, hrun]

/-- No run is longer than its first state allows. -/
theorem length_chainRun_le {s s' : ChainState} {evs : List ChainEvent}
    (h : ChainRun src plan s evs s') : evs.length ≤ s.rank := by
  have hle := Run.length_le (P := fun _ => True) h trivial (fun _ _ _ _ _ => trivial)
    fun _ _ _ _ hstep => chainStep_rank hstep
  omega

/-- Some run completes the archive. -/
theorem PlanOk.exists_run_ok (hplan : PlanOk src plan) :
    ∃ evs s, ChainRun src plan (.start plan) evs s ∧
      s.outcome = some (.ok (completeUpload (stitchUpload src plan))) := by
  have hlower (s : ChainState) (h : ChainInv src plan s ∧ Unrefused s) :
      s.outcome = some (.ok (completeUpload (stitchUpload src plan))) ∨
        ∃ evs s', ChainRun src plan s evs s' ∧ (ChainInv src plan s' ∧ Unrefused s') ∧
          s'.rank < s.rank := by
    obtain ⟨hinv, hok⟩ := h
    cases houtcome : s.outcome with
    | none =>
      obtain ⟨ev, s', hne, hstep⟩ := hplan.progress hinv hok houtcome
      exact .inr ⟨[ev], s', .cons hstep (.refl s'),
        ⟨hplan.step hinv hstep, hplan.step_unrefused hne hinv hok hstep⟩, chainStep_rank hstep⟩
    | some r =>
      rcases hinv.outcome r houtcome with rfl | rfl
      · exact .inl rfl
      · exact absurd rfl (hok.outcome _ houtcome)
  have hstart : ChainInv src plan (.start plan) ∧ Unrefused (.start plan) :=
    ⟨hplan.run (.refl _), hplan.run_unrefused (fun _ hev => absurd hev List.not_mem_nil) (.refl _)⟩
  obtain ⟨evs, s, hrun, _, hended⟩ :=
    Run.exists_final (P := fun s => ChainInv src plan s ∧ Unrefused s) hstart hlower
  exact ⟨evs, s, hrun, hended⟩

end

end S3Archive.FigmentEngineChain
