import Mathlib.Logic.Function.Basic
import S3Archive.Base.Notify
import S3Archive.FigmentEngineChain.ChainArchive

/-!
# figment-engine-chain: gating the segments on their checksums

`GatedStep` is the run with the loops of `wait_for` in place of the guard of
`SegmentStep.start`: each waiting segment has a `Gate` on the store's notifier,
and every `put` notifies. It refines the run (`GatedRun.chain`). `metaReads` is
what a link reads of the store. `CrcSafe` collects what the gating guarantees:
no lookup misses, and no parked segment misses its wake-up.
-/

namespace S3Archive.FigmentEngineChain

open FigmentEngine

/-! ## What a link reads -/

def pieceReads : Piece → List FileId
  | .header id => [id]
  | .body _ => []

/-- The ids whose stored checksums are looked up while a link is built. -/
def metaReads : Link → List FileId
  | .bootstrap anchor _ => [anchor]
  | .anchorOnly _ => []
  | .anchorThenAppend _ piece => pieceReads piece
  | .forwardThenAppend piece => pieceReads piece

theorem pieceReads_subset (piece : Piece) : pieceReads piece ⊆ [pieceId piece] := by
  cases piece with
  | header id => exact fun _ h => h
  | body id => exact List.nil_subset _

theorem metaReads_subset (link : Link) : metaReads link ⊆ linkCrcIds link := by
  cases link with
  | bootstrap anchor stealLen => exact fun _ h => h
  | anchorOnly anchor => exact List.nil_subset _
  | anchorThenAppend anchor piece =>
    exact fun id hid => List.mem_cons_of_mem _ (pieceReads_subset piece hid)
  | forwardThenAppend piece => exact pieceReads_subset piece

section

variable {src : Source} {plan : ChainPlan} {crcs crcs' : CrcStore}

theorem buildPiecePart_congr {piece : Piece}
    (h : ∀ id ∈ pieceReads piece, crcs[plan.entries[id]!.id]? = crcs'[plan.entries[id]!.id]?) :
    buildPiecePart src plan crcs piece = buildPiecePart src plan crcs' piece := by
  cases piece with
  | header id =>
    unfold buildPiecePart metaOf
    dsimp only
    rw [h id List.mem_cons_self]
  | body id => rfl

/-- Building a link depends on nothing else in the store. -/
theorem buildOneLink_congr {link : Link}
    (h : ∀ id ∈ metaReads link, crcs[plan.entries[id]!.id]? = crcs'[plan.entries[id]!.id]?)
    (temps : Temps) (prev : Option TempKey) :
    buildOneLink src plan crcs temps prev link = buildOneLink src plan crcs' temps prev link := by
  unfold buildOneLink linkParts
  cases link with
  | bootstrap anchor stealLen =>
    unfold metaOf
    dsimp only
    rw [h anchor List.mem_cons_self]
  | anchorOnly anchor => rfl
  | anchorThenAppend anchor piece =>
    dsimp only
    rw [buildPiecePart_congr h]
  | forwardThenAppend piece =>
    dsimp only
    rw [buildPiecePart_congr h]

theorem metaOf_of_mem {id : FileId} (h : plan.entries[id]!.id ∈ crcs) :
    ∃ m, metaOf crcs plan.entries[id]! = .ok m := by
  unfold metaOf
  rw [Std.HashMap.getElem?_eq_some_getElem h]
  exact ⟨_, rfl⟩

theorem exists_buildPiecePart {piece : Piece}
    (h : ∀ id ∈ pieceReads piece, plan.entries[id]!.id ∈ crcs) :
    ∃ bytes, buildPiecePart src plan crcs piece = .ok bytes := by
  cases piece with
  | header id =>
    obtain ⟨m, hm⟩ := metaOf_of_mem (h id List.mem_cons_self)
    unfold buildPiecePart
    dsimp only
    rw [hm]
    exact ⟨_, rfl⟩
  | body id => exact ⟨_, rfl⟩

/-- With the checksums that it reads, a link does not fail for want of one. -/
theorem buildOneLink_ne_badCrc {link : Link}
    (h : ∀ id ∈ metaReads link, plan.entries[id]!.id ∈ crcs) (temps : Temps)
    (prev : Option TempKey) (name : Bytes) :
    buildOneLink src plan crcs temps prev link ≠ .error (.badCrc name) := by
  unfold buildOneLink linkParts
  cases link with
  | bootstrap anchor stealLen =>
    obtain ⟨m, hm⟩ := metaOf_of_mem (h anchor List.mem_cons_self)
    dsimp only
    rw [hm]
    unfold getObjectRangeBytes getRange copyRange
    dsimp only [Except.mapError]
    -- a range request fails with an error of the store
    split_ifs <;> exact fun heq => by cases heq
  | anchorOnly anchor => exact fun heq => by cases heq
  | anchorThenAppend anchor piece =>
    obtain ⟨bytes, hbytes⟩ := @exists_buildPiecePart src _ _ _ h
    dsimp only
    rw [hbytes]
    exact fun heq => by cases heq
  | forwardThenAppend piece =>
    obtain ⟨bytes, hbytes⟩ := @exists_buildPiecePart src _ _ _ h
    dsimp only
    rw [hbytes]
    unfold copyPrevious
    cases prev with
    | none => exact fun heq => by cases heq
    | some key =>
      dsimp only
      cases temps[key]? with
      | none => exact fun heq => by cases heq
      | some object => exact fun heq => by cases heq

theorem exists_buildCentralDirectory (h : ∀ id ∈ plan.order, plan.entries[id]!.id ∈ crcs) :
    ∃ bytes, buildCentralDirectory plan crcs = .ok bytes := by
  have hrecs : ∀ ids : List FileId, (∀ id ∈ ids, plan.entries[id]!.id ∈ crcs) →
      ∃ recs, (ids.mapM fun id => do return centralDirEntry (← metaOf crcs plan.entries[id]!)) =
        (.ok recs : Except ChainError (List Bytes)) := by
    intro ids hids
    induction ids with
    | nil => exact ⟨[], rfl⟩
    | cons id ids ih =>
      obtain ⟨m, hm⟩ := metaOf_of_mem (hids id List.mem_cons_self)
      obtain ⟨recs, hrec⟩ := ih fun id hid => hids id (List.mem_cons_of_mem _ hid)
      rw [List.mapM_cons, hm, hrec]
      exact ⟨_, rfl⟩
  obtain ⟨recs, hrecs⟩ := hrecs plan.order h
  unfold buildCentralDirectory
  rw [hrecs]
  exact ⟨_, rfl⟩

end

/-! ## The gated run -/

/-- The segments before position `i` leave a slot to its segment. -/
def ChainState.InSlot (ts : List SegmentTask) : Prop :=
  (ts.filter fun u => !u.finished).length < segmentConcurrency

structure GatedState (ν τ : Type) where
  chain : ChainState
  notify : ν
  /-- The waiting loops, by segment position. -/
  gates : Nat → Gate τ

/-- All checksums that a segment waits for are in the store. -/
def AllPresent (crcs : CrcStore) (seg : Segment) : Prop := ∀ id ∈ segmentCrcIds seg, id ∈ crcs

section

variable {ν τ : Type} (src : Source) (plan : ChainPlan) (sem : NotifySemantics ν τ)

def GatedState.start : GatedState ν τ := ⟨.start plan, sem.init, fun _ => .looping⟩

/-- The event is `none` inside a waiting loop. -/
inductive GatedStep : GatedState ν τ → Option ChainEvent → GatedState ν τ → Prop
  /-- A HEAD reply is put into the store. -/
  | put {s : GatedState ν τ} {c : ChainState} (hstep : ChainStep src plan s.chain .head c) :
    GatedStep s (some .head) { s with chain := c, notify := sem.notifyWaiters s.notify }
  | gate {s : GatedState ν τ} {ts₁ ts₂ : List SegmentTask} {seg : Segment} {n : ν} {g : Gate τ}
      (hrun : s.chain.outcome = none) (htasks : s.chain.tasks = ts₁ ++ ⟨seg, .waiting⟩ :: ts₂)
      (hslot : ChainState.InSlot ts₁)
      (hstep : GateStep sem (AllPresent s.chain.crcs seg) s.notify (s.gates ts₁.length) n g) :
    GatedStep s none { s with notify := n, gates := Function.update s.gates ts₁.length g }
  /-- The check succeeds and `wait_for` returns. -/
  | found {s : GatedState ν τ} {ts₁ ts₂ : List SegmentTask} {seg : Segment} {t : τ}
      (hrun : s.chain.outcome = none) (htasks : s.chain.tasks = ts₁ ++ ⟨seg, .waiting⟩ :: ts₂)
      (hslot : ChainState.InSlot ts₁) (hgate : s.gates ts₁.length = .subscribed t)
      (hall : AllPresent s.chain.crcs seg) :
    GatedStep s (some .start)
      { s with chain.tasks := ts₁ ++ ⟨seg, .building 0 none⟩ :: ts₂ }
  | other {s : GatedState ν τ} {ev : ChainEvent} {c : ChainState} (hhead : ev ≠ .head)
      (hstart : ev ≠ .start) (hstep : ChainStep src plan s.chain ev c) :
    GatedStep s (some ev) { s with chain := c }

abbrev GatedRun : GatedState ν τ → List (Option ChainEvent) → GatedState ν τ → Prop :=
  Run (GatedStep src plan sem)

end

/-! ## The gated run is a run -/

section

variable {ν τ : Type} {src : Source} {plan : ChainPlan} {sem : NotifySemantics ν τ}

theorem GatedStep.chain {s s' : GatedState ν τ} {ev : Option ChainEvent}
    (h : GatedStep src plan sem s ev s') :
    ChainRun src plan s.chain ev.toList s'.chain := by
  cases h with
  | put hstep => exact (Run.refl _).step hstep
  | gate => exact .refl _
  | found hrun htasks hslot hgate hall =>
    exact (Run.refl _).step (.segment hrun htasks hslot (.start hall))
  | other hhead hstart hstep => exact (Run.refl _).step hstep

theorem GatedRun.chain {s s' : GatedState ν τ} {evs : List (Option ChainEvent)}
    (h : GatedRun src plan sem s evs s') :
    ChainRun src plan s.chain (evs.flatMap Option.toList) s'.chain := by
  induction h with
  | refl => exact .refl _
  | step _ hlast ih =>
    rw [List.flatMap_append, List.flatMap_singleton]
    exact ih.append hlast.chain

end

/-! ## Checksums in a run -/

/-- What a run keeps of the store. -/
structure CrcInv (plan : ChainPlan) (s : ChainState) : Prop where
  segments : s.tasks.map SegmentTask.segment = plan.segments
  heads : ∀ id ∈ plan.order, id ∈ s.heads ∨ id ∈ s.crcs ∨ s.headFailed = true
  building : ∀ t ∈ s.tasks, ∀ li prev, t.state = .building li prev → AllPresent s.crcs t.segment

section

variable {src : Source} {plan : ChainPlan}

theorem crcInv_start : CrcInv plan (.start plan) := by
  refine ⟨?_, fun id hid => .inl hid, ?_⟩
  · show (plan.segments.map fun seg => (⟨seg, .waiting⟩ : SegmentTask)).map _ = _
    rw [List.map_map]
    exact List.map_id _
  · intro t ht li prev hstate
    obtain ⟨seg, _, rfl⟩ := List.mem_map.1 ht
    cases hstate

theorem segmentStep_building {crcs : CrcStore} {st st' : Stored} {t t' : SegmentTask}
    {ev : ChainEvent} (h : SegmentStep src plan crcs st t ev st' t')
    (ht : ∀ li prev, t.state = .building li prev → AllPresent crcs t.segment) :
    t'.segment = t.segment ∧
      ∀ li prev, t'.state = .building li prev → AllPresent crcs t'.segment := by
  cases h with
  | start hall => exact ⟨rfl, fun _ _ _ => hall⟩
  | link hlink hbuild => exact ⟨rfl, fun _ _ _ => ht _ _ rfl⟩
  | linkFails => exact ⟨rfl, nofun⟩
  | stitch => exact ⟨rfl, nofun⟩
  | stitchFails => exact ⟨rfl, nofun⟩
  | refuse => exact ⟨rfl, nofun⟩

theorem CrcInv.step {s s' : ChainState} {ev : ChainEvent} (hinv : CrcInv plan s)
    (h : ChainStep src plan s ev s') : CrcInv plan s' := by
  cases h with
  | @head hs₁ hs₂ id hrun hheads hslot =>
    refine ⟨hinv.segments, ?_, ?_⟩
    · intro id' hid'
      rcases hinv.heads id' hid' with hmem | hmem | hmem
      · rw [hheads] at hmem
        rcases List.mem_append.1 hmem with hmem | hmem
        · exact .inl (List.mem_append_left _ hmem)
        · rcases List.mem_cons.1 hmem with rfl | hmem
          · exact .inr (.inl Std.HashMap.mem_insert_self)
          · exact .inl (List.mem_append_right _ hmem)
      · exact .inr (.inl (Std.HashMap.mem_insert.2 (.inr hmem)))
      · exact .inr (.inr hmem)
    · intro t ht li prev hstate id' hid'
      exact Std.HashMap.mem_insert.2 (.inr (hinv.building t ht li prev hstate id' hid'))
  | headRefused => exact ⟨hinv.segments, fun _ _ => .inr (.inr rfl), hinv.building⟩
  | headsFail => exact ⟨hinv.segments, hinv.heads, hinv.building⟩
  | @segment ts₁ ts₂ t t' _ st hrun htasks hslot hstep =>
    have hmem : t ∈ s.tasks := by
      rw [htasks]
      exact List.mem_append_right _ List.mem_cons_self
    obtain ⟨hseg, hbuilding⟩ := segmentStep_building hstep (hinv.building t hmem)
    refine ⟨?_, hinv.heads, ?_⟩
    · rw [← hinv.segments, htasks, List.map_append, List.map_append, List.map_cons, List.map_cons,
        hseg]
    · intro u hu
      rcases List.mem_append.1 hu with hu | hu
      · exact hinv.building u (by rw [htasks]; exact List.mem_append_left _ hu)
      · rcases List.mem_cons.1 hu with rfl | hu
        · exact hbuilding
        · refine hinv.building u ?_
          rw [htasks]
          exact List.mem_append_right _ (List.mem_cons_of_mem _ hu)
  | finish => exact ⟨hinv.segments, hinv.heads, hinv.building⟩
  | finishFails => exact ⟨hinv.segments, hinv.heads, hinv.building⟩
  | refused => exact ⟨hinv.segments, hinv.heads, hinv.building⟩

theorem crcInv_of_run {s : ChainState} {evs : List ChainEvent}
    (h : ChainRun src plan (.start plan) evs s) : CrcInv plan s :=
  h.invariant crcInv_start fun _ _ _ hinv hstep => hinv.step hstep

end

/-! ## No wake-up is missed -/

section

variable {ν τ : Type} {src : Source} {plan : ChainPlan} {sem : NotifySemantics ν τ}

/-- No gate misses a wake-up. -/
def GatesOk (plan : ChainPlan) (sem : NotifySemantics ν τ) (s : GatedState ν τ) : Prop :=
  ∀ i seg, plan.segments[i]? = some seg →
    Gate.Ok sem (AllPresent s.chain.crcs seg) s.notify (s.gates i)

theorem GatesOk.step {s s' : GatedState ν τ} {ev : Option ChainEvent}
    (hinv : CrcInv plan s.chain) (hok : GatesOk plan sem s) (h : GatedStep src plan sem s ev s') :
    GatesOk plan sem s' := by
  cases h with
  | put hstep => exact fun i seg hi => (hok i seg hi).notifyWaiters _
  | @gate ts₁ ts₂ seg n g hrun htasks hslot hstep =>
    intro i seg' hi
    show Gate.Ok sem _ n (Function.update s.gates ts₁.length g i)
    by_cases heq : i = ts₁.length
    · subst heq
      rw [Function.update_self]
      have hseg : plan.segments[ts₁.length]? = some seg := by
        rw [← hinv.segments, htasks]
        simp
      obtain rfl : seg = seg' := Option.some.inj (hseg.symm.trans hi)
      exact (hok _ _ hi).step hstep
    · rw [Function.update_of_ne heq]
      exact (hok i seg' hi).other hstep
  | found => exact hok
  | @other ev c hhead hstart hstep =>
    have hcrcs : c.crcs = s.chain.crcs := by
      cases hstep with
      | head => exact absurd rfl hhead
      | headRefused => rfl
      | headsFail => rfl
      | segment => rfl
      | finish => rfl
      | finishFails => rfl
      | refused => rfl
    intro i seg hi
    show Gate.Ok sem (AllPresent c.crcs seg) s.notify (s.gates i)
    rw [hcrcs]
    exact hok i seg hi

theorem gatesOk_of_run {s : GatedState ν τ} {evs : List (Option ChainEvent)}
    (h : GatedRun src plan sem (.start plan sem) evs s) : GatesOk plan sem s := by
  induction h with
  | refl => exact fun i seg hi => trivial
  | step hrun hlast ih => exact ih.step (crcInv_of_run (GatedRun.chain hrun)) hlast

end

/-! ## What the gating guarantees -/

structure CrcSafe (plan : ChainPlan) : Prop where
  /-- A segment waits for all that its links read, and all of it is in the plan's order. -/
  waits_for_reads : ∀ seg ∈ plan.segments, ∀ link ∈ seg.links, metaReads link ⊆ segmentCrcIds seg
  in_order : ∀ seg ∈ plan.segments, segmentCrcIds seg ⊆ plan.order
  /-- `metaReads` is what building a link reads of the store. -/
  reads_only : ∀ seg ∈ plan.segments, ∀ link ∈ seg.links, ∀ (src : Source) (crcs crcs' : CrcStore),
    (∀ id ∈ metaReads link, crcs[id]? = crcs'[id]?) → ∀ temps prev,
      buildOneLink src plan crcs temps prev link = buildOneLink src plan crcs' temps prev link
  /-- No lookup of a segment misses once its loop has returned. -/
  lookups : ∀ {ν τ : Type} (sem : NotifySemantics ν τ) src evs s,
    GatedRun src plan sem (.start plan sem) evs s →
    ∀ t ∈ s.chain.tasks, ∀ li prev, t.state = .building li prev →
      AllPresent s.chain.crcs t.segment ∧ ∀ link ∈ t.segment.links, ∀ temps prev name,
        buildOneLink src plan s.chain.crcs temps prev link ≠ .error (.badCrc name)
  /-- No lookup of the directory misses once the producer has finished without an error. -/
  directory : ∀ {ν τ : Type} (sem : NotifySemantics ν τ) src evs s,
    GatedRun src plan sem (.start plan sem) evs s →
    s.chain.heads = [] → s.chain.headFailed = false →
      ∃ bytes, buildCentralDirectory plan s.chain.crcs = .ok bytes
  /-- A parked segment whose checksums are all there has been woken. -/
  woken : ∀ {ν τ : Type} (sem : NotifySemantics ν τ) src evs s,
    GatedRun src plan sem (.start plan sem) evs s →
    ∀ ts₁ seg ts₂ t, s.chain.tasks = ts₁ ++ ⟨seg, .waiting⟩ :: ts₂ →
      s.gates ts₁.length = .parked t → AllPresent s.chain.crcs seg → sem.ready s.notify t
  /-- The loops do no more than wait for the guard of the run. -/
  refines : ∀ {ν τ : Type} (sem : NotifySemantics ν τ) src evs s,
    GatedRun src plan sem (.start plan sem) evs s →
      ChainRun src plan (.start plan) (evs.flatMap Option.toList) s.chain

theorem ChainBuckets.crcSafe {files : List SourceFile} {plan : ChainPlan}
    (c : ChainBuckets files plan) : CrcSafe plan := by
  have hentry : ∀ seg ∈ plan.segments, ∀ link ∈ seg.links, ∀ id ∈ linkCrcIds link,
      id ∈ plan.order ∧ plan.entries[id]!.id = id := fun seg hseg link hlink id hid =>
    c.entry_of_link hseg hlink hid
  have hreads : ∀ seg ∈ plan.segments, ∀ link ∈ seg.links, metaReads link ⊆ segmentCrcIds seg :=
    fun seg _ link hlink id hid => mem_segmentCrcIds.2 ⟨link, hlink, metaReads_subset link hid⟩
  refine ⟨hreads, ?_, ?_, ?_, ?_, ?_, fun _ _ _ _ hrun => hrun.chain⟩
  · intro seg hseg id hid
    obtain ⟨link, hlink, hid⟩ := mem_segmentCrcIds.1 hid
    exact (hentry seg hseg link hlink id hid).1
  · intro seg hseg link hlink src crcs crcs' h temps prev
    refine buildOneLink_congr (fun id hid => ?_) temps prev
    rw [(hentry seg hseg link hlink id (metaReads_subset link hid)).2]
    exact h id hid
  · intro ν τ sem src evs s hrun t ht li prev hstate
    have hinv := crcInv_of_run hrun.chain
    have hall := hinv.building t ht li prev hstate
    have hseg : t.segment ∈ plan.segments := by
      rw [← hinv.segments]
      exact List.mem_map_of_mem ht
    refine ⟨hall, fun link hlink temps prev name => ?_⟩
    refine buildOneLink_ne_badCrc (fun id hid => ?_) temps prev name
    rw [(hentry _ hseg link hlink id (metaReads_subset link hid)).2]
    exact hall id (hreads _ hseg link hlink hid)
  · intro ν τ sem src evs s hrun hheads hok
    have hinv := crcInv_of_run hrun.chain
    refine exists_buildCentralDirectory fun id hid => ?_
    rw [c.entry_of_order hid]
    have hmem := hinv.heads id hid
    rw [hheads, hok] at hmem
    simpa using hmem
  · intro ν τ sem src evs s hrun ts₁ seg ts₂ t htasks hgate hall
    have hinv := crcInv_of_run hrun.chain
    have hseg : plan.segments[ts₁.length]? = some seg := by
      rw [← hinv.segments, htasks]
      simp
    have hok := gatesOk_of_run hrun _ _ hseg
    rw [hgate] at hok
    exact hok.ready_of_parked hall

/-- In every chain plan no header is written before its checksum is known, and no segment waits
for one that has arrived. -/
theorem planSegmentChain_crcSafe {files : List SourceFile} {plan : ChainPlan}
    (hids : (files.map SourceFile.id).Nodup) (hplan : planSegmentChain files = .ok plan) :
    CrcSafe plan := by
  have hbig : ∃ f ∈ files, partFloor ≤ f.size := by
    by_contra hsmall
    have hnil : files.filter SourceFile.isBig = [] :=
      List.filter_eq_nil_iff.2 fun f hf hf' => hsmall ⟨f, hf, of_decide_eq_true hf'⟩
    unfold planSegmentChain at hplan
    rw [List.partition_eq_filter_filter, hnil] at hplan
    cases hplan
  obtain ⟨plan', hplan', ⟨c⟩⟩ := planSegmentChain_buckets hids hbig
  rw [hplan] at hplan'
  obtain rfl := Except.ok.inj hplan'
  exact c.crcSafe

/-- Five files: the small ones are in the links of two segments. -/
theorem planSegmentChain_crcSafe_five :
    ∃ plan, planSegmentChain fiveFiles = .ok plan ∧ CrcSafe plan := by
  obtain ⟨plan, hplan, _⟩ :=
    planSegmentChain_buckets nodup_fiveFiles ⟨_, List.mem_cons_self, by decide⟩
  exact ⟨plan, hplan, planSegmentChain_crcSafe nodup_fiveFiles hplan⟩

end S3Archive.FigmentEngineChain
