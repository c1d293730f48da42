import S3Archive.FigmentEngine.AssembleRun

/-!
# figment-engine: what every run of the assembler keeps

`AssembleInv` holds in every state of every run: the upload holds nothing but
planned parts, what has been reported has landed, and an object at the archive's
key is the archive.
-/

namespace S3Archive.FigmentEngine

/-! ## The planned archive -/

/-- The parts of a filled plan, made and completed in any order, are the archive. -/
theorem PlanRounds.completed {src : Source} {files : List SourceFile} {plan : SinglePlan}
    (p : PlanRounds files plan) (hids : (files.map SourceFile.id).Nodup)
    (hsizes : SizesListed src files) {results : List (FileId × UInt32)}
    (hresults : results.Perm (headCrcs src plan)) :
    ∃ made, plan.parts.mapM (partBytes src (fillCrcs plan results)) = .ok made ∧
      NumberedFrom Prod.fst 1 made ∧
      IsArchive src files p.files plan.offsetOf (bodySize p.files) (directorySize p.files)
        (made.map Prod.snd).flatten := by
  obtain ⟨made, hmade, hpieces⟩ := p.realises hids hresults hsizes
  refine ⟨made, hmade, ?_, ?_⟩
  · have hnums := map_eq_of_mapM fst_partBytes hmade
    have hlen := congrArg List.length hnums
    rw [List.length_map, List.length_map] at hlen
    unfold NumberedFrom
    rw [hnums, p.numbered, hlen]
  · have hoff : ∀ q ∈ placed p.files, plan.offsetOf q.2.id = some q.1 := by
      intro q hq
      obtain ⟨streamed, hentry⟩ := p.entry q hq
      unfold SinglePlan.offsetOf
      rw [hentry]
      rfl
    rw [hpieces, List.flatten_append, flatten_flatMap_pieces, List.flatten_singleton, finalPiece,
      ← List.append_assoc, ← List.flatMap_append]
    exact isArchive p.perm hsizes hoff

/-! ## The invariant -/

section

variable (store : ObjectStore) (plan : SinglePlan)

/-- The plan with the checksums of the store. -/
def IsFilled (filled : SinglePlan) : Prop :=
  ∃ results, results.Perm (headCrcs store.source plan) ∧ filled = fillCrcs plan results

/-- The part numbers of the calls that are over. -/
def reportedNumbers (copies streams : PartPool) : List Nat :=
  (copies.completed ++ streams.completed).map fun x => x.1.partNumber

structure PartsInv (filled : SinglePlan) (copies streams : PartPool)
    (stored : Std.HashMap Nat Bytes) (completed : List Nat) : Prop where
  copies_jobs : copies.jobs = filled.parts.filter PartSpec.isCopy
  streams_jobs : streams.jobs = filled.parts.filter fun part => !part.isCopy
  planned : ∀ n bytes, stored[n]? = some bytes →
    ∃ part ∈ filled.parts, partBytes store.source filled part = .ok (n, bytes)
  reported : completed.Perm (reportedNumbers copies streams)
  landed : ∀ n ∈ completed, n ∈ stored

def PhaseInv : AssemblePhase → Prop
  | .heads pool => pool.jobs = plan.order ∧ ∀ x ∈ pool.completed, ∀ text, x.2 = .ok text →
      text = store.checksumCrc32 plan.entries[x.1]!.name
  | .create filled => IsFilled store plan filled
  | .parts filled copies streams stored completed =>
    IsFilled store plan filled ∧ PartsInv store filled copies streams stored completed
  | .ended _ => True

end

structure AssembleInv (store : ObjectStore) (files : List SourceFile) {plan : SinglePlan}
    (p : PlanRounds files plan) (s : AssembleState) : Prop where
  phase : PhaseInv store plan s.phase
  /-- There is no object before the end. -/
  fresh : (∀ r, s.phase ≠ .ended r) → s.object = none
  object : ∀ archive, s.object = some archive →
    IsArchive store.source files p.files plan.offsetOf (bodySize p.files) (directorySize p.files)
      archive
  ended : s.phase = .ended (.ok ()) → s.object.isSome = true

/-! ## Steps -/

section

variable {store : ObjectStore} {plan filled : SinglePlan}
  {copies copies' streams streams' : PartPool} {stored : Std.HashMap Nat Bytes}
  {completed : List Nat} {part : PartSpec} {reply : Except RequestError Unit}
  {out : Option (Except RequestError Unit)}

theorem headCrc_ok (id : FileId) (text : Option String) : headCrc (id, .ok text) =
    match text.bind decodeS3Crc32 with
    | some crc => .ok (id, crc)
    | none => .error (.badCrc (utf8 s!"FileId({id.val})")) := by
  unfold headCrc
  cases h : text.bind decodeS3Crc32 <;> simp [bind, Except.bind, h] <;> rfl

/-- The checksums that were received are those of the store. -/
theorem isFilled_of_heads {pool : HeadPool} {results : List (FileId × UInt32)}
    (hinv : PhaseInv store plan (.heads pool)) (hdone : pool.isDone = true)
    (hresults : pool.completed.mapM headCrc = .ok results) :
    IsFilled store plan (fillCrcs plan results) := by
  obtain ⟨hjobs, htexts⟩ := hinv
  refine ⟨results, ?_, rfl⟩
  have heq : results = pool.completed.map fun x =>
      (x.1, store.source.crc32 plan.entries[x.1]!.name) := by
    refine eq_map_of_mapM (fun x hx y hy => ?_) hresults
    obtain ⟨id, r⟩ := x
    cases r with
    | error e => cases hy
    | ok text =>
      have htext : text = store.checksumCrc32 plan.entries[id]!.name := htexts _ hx text rfl
      show y = (id, ((store.checksumCrc32 plan.entries[id]!.name).bind decodeS3Crc32).getD 0)
      rw [← htext]
      rw [headCrc_ok] at hy
      cases hcrc : text.bind decodeS3Crc32 with
      | none =>
        rw [hcrc] at hy
        cases hy
      | some crc =>
        rw [hcrc] at hy
        exact (Except.ok.inj hy).symm
  rw [heq]
  unfold headCrcs
  rw [← hjobs]
  have hperm := (Pool.completed_jobs hdone).map fun id =>
    (id, store.source.crc32 plan.entries[id]!.name)
  rwa [List.map_map] at hperm

theorem partsInv_opened (filled : SinglePlan) :
    PartsInv store filled (startPool (filled.parts.filter PartSpec.isCopy))
      (startPool (filled.parts.filter fun part => !part.isCopy)) ∅ [] where
  copies_jobs := Pool.jobs_start _ _
  streams_jobs := Pool.jobs_start _ _
  planned n bytes h := by
    rw [Std.HashMap.getElem?_empty] at h
    cases h
  reported := .refl _
  landed n h := by cases h

theorem PartsInv.land (h : PartsInv store filled copies streams stored completed) {n : Nat}
    {bytes : Bytes} (hpart : part ∈ filled.parts)
    (hbytes : partBytes store.source filled part = .ok (n, bytes)) :
    PartsInv store filled copies streams (stored.insert n bytes) completed where
  copies_jobs := h.copies_jobs
  streams_jobs := h.streams_jobs
  planned m bs hget := by
    rw [Std.HashMap.getElem?_insert] at hget
    by_cases heq : n = m
    · rw [if_pos (by simpa using heq)] at hget
      rw [← heq, ← Option.some.inj hget]
      exact ⟨part, hpart, hbytes⟩
    · rw [if_neg (by simpa using heq)] at hget
      exact h.planned m bs hget
  reported := h.reported
  landed m hm := Std.HashMap.mem_insert.2 (.inr (h.landed m hm))

/-- What a reply adds to the calls that are over. -/
theorem PartReply.reported (h : PartReply copies streams part reply out copies' streams') :
    (reportedNumbers copies' streams').Perm
      (reportedNumbers copies streams ++ (out.map fun _ => part.partNumber).toList) := by
  have hperm : (copies'.completed ++ streams'.completed).Perm
      (copies.completed ++ streams.completed ++ (out.map fun r => (part, r)).toList) := by
    cases h with
    | copy h =>
      rw [h.completed_eq, List.append_assoc, List.append_assoc]
      exact List.perm_append_comm.append_left _
    | stream h =>
      rw [h.completed_eq, List.append_assoc]
  have hmap : (reportedNumbers copies' streams').Perm
      ((copies.completed ++ streams.completed ++ (out.map fun r => (part, r)).toList).map
        fun x => x.1.partNumber) := hperm.map _
  rw [List.map_append] at hmap
  cases out with
  | none => exact hmap
  | some r => exact hmap

theorem PartReply.jobs_eq (h : PartReply copies streams part reply out copies' streams') :
    copies'.jobs = copies.jobs ∧ streams'.jobs = streams.jobs := by
  cases h with
  | copy h => exact ⟨h.jobs_eq, rfl⟩
  | stream h => exact ⟨rfl, h.jobs_eq⟩

theorem PartReply.attemptsLeft_lt (h : PartReply copies streams part reply out copies' streams') :
    copies'.attemptsLeft + streams'.attemptsLeft < copies.attemptsLeft + streams.attemptsLeft := by
  cases h with
  | copy h => exact Nat.add_lt_add_right h.attemptsLeft_lt _
  | stream h => exact Nat.add_lt_add_left h.attemptsLeft_lt _

theorem PartReply.eq_ok (h : PartReply copies streams part reply out copies' streams')
    (hout : out = some (.ok ())) : reply = .ok () := by
  cases h with
  | copy h => exact h.eq_ok hout
  | stream h => exact h.eq_ok hout

theorem PartsInv.afterPart (h : PartsInv store filled copies streams stored completed)
    (hfilled : IsFilled store plan filled)
    (hreply : PartReply copies streams part reply out copies' streams')
    (hlanded : reply = .ok () → part.partNumber ∈ stored) :
    PhaseInv store plan (.afterPart filled copies' streams' stored completed part out) := by
  have hjobs := hreply.jobs_eq
  have hperm := hreply.reported
  cases out with
  | none =>
    refine ⟨hfilled, hjobs.1.trans h.copies_jobs, hjobs.2.trans h.streams_jobs, h.planned, ?_,
      h.landed⟩
    rw [Option.map_none, Option.toList_none, List.append_nil] at hperm
    exact h.reported.trans hperm.symm
  | some r =>
    cases r with
    | error e => exact trivial
    | ok u =>
      refine ⟨hfilled, hjobs.1.trans h.copies_jobs, hjobs.2.trans h.streams_jobs, h.planned, ?_, ?_⟩
      · exact (h.reported.append_right _).trans hperm.symm
      · intro n hn
        rcases List.mem_append.1 hn with hn | hn
        · exact h.landed n hn
        · rw [List.mem_singleton.1 hn]
          exact hlanded (hreply.eq_ok rfl)

/-- The parts that the pools have reported are all the planned ones. -/
theorem PartsInv.completed_numbers (h : PartsInv store filled copies streams stored completed)
    (hcopies : copies.isDone = true) (hstreams : streams.isDone = true) :
    completed.Perm (filled.parts.map PartSpec.partNumber) := by
  have hjobs : ((copies.completed ++ streams.completed).map Prod.fst).Perm filled.parts := by
    have hperm := (Pool.completed_jobs hcopies).append (Pool.completed_jobs hstreams)
    rw [← List.map_append, h.copies_jobs, h.streams_jobs] at hperm
    exact hperm.trans (List.filter_append_perm _ _)
  refine h.reported.trans ?_
  have hperm := hjobs.map PartSpec.partNumber
  rwa [List.map_map] at hperm

end

section

variable {store : ObjectStore} {files : List SourceFile} {plan filled : SinglePlan}
  (p : PlanRounds files plan) (hids : (files.map SourceFile.id).Nodup)
  (hsizes : SizesListed store.source files)

include hids hsizes

/-- What the upload joins when all parts have been reported. -/
theorem PartsInv.completedObject {copies streams : PartPool} {stored : Std.HashMap Nat Bytes}
    {completed : List Nat} (h : PartsInv store filled copies streams stored completed)
    (hfilled : IsFilled store plan filled) (hcopies : copies.isDone = true)
    (hstreams : streams.isDone = true) :
    IsArchive store.source files p.files plan.offsetOf (bodySize p.files) (directorySize p.files)
      (completedObject stored completed) := by
  obtain ⟨results, hresults, rfl⟩ := hfilled
  obtain ⟨made, hmade, hnum, harchive⟩ := p.completed hids hsizes hresults
  have hnumbers := h.completed_numbers hcopies hstreams
  have hfst : made.map Prod.fst = plan.parts.map PartSpec.partNumber :=
    map_eq_of_mapM fst_partBytes hmade
  -- what is stored under a number is the part of that number
  have hsubset : (completed.map fun n => (n, stored[n]!)) ⊆ made := by
    intro x hx
    obtain ⟨n, hn, rfl⟩ := List.mem_map.1 hx
    obtain ⟨bytes, hget⟩ := Option.isSome_iff_exists.1
      (Std.HashMap.isSome_getElem?_iff_mem.2 (h.landed n hn))
    obtain ⟨part, hpart, hbytes⟩ := h.planned n bytes hget
    rw [Std.HashMap.getElem!_eq_get!_getElem?, hget]
    exact mem_of_mapM hmade hpart hbytes
  have hperm : (completed.map fun n => (n, stored[n]!)).Perm made := by
    refine perm_of_numbers hnum ?_ hsubset
    rw [List.map_map, hfst]
    have hid : completed.map (Prod.fst ∘ fun n => (n, stored[n]!)) = completed := List.map_id _
    rw [hid]
    exact hnumbers
  unfold FigmentEngine.completedObject
  rw [completeUpload_of_perm hnum hperm]
  exact harchive

theorem AssembleInv.step {s s' : AssembleState} {ev : AssembleEvent}
    (hinv : AssembleInv store files p s) (h : AssembleStep store plan s ev s') :
    AssembleInv store files p s' := by
  cases h with
  | head h htext =>
    obtain ⟨hjobs, htexts⟩ := hinv.phase
    refine ⟨⟨h.jobs_eq.trans hjobs, fun x hx text hok => ?_⟩, fun _ => rfl, fun _ h => (by cases h),
      fun h => (by cases h)⟩
    rw [h.completed_eq] at hx
    rcases List.mem_append.1 hx with hx | hx
    · exact htexts x hx text hok
    · obtain ⟨r, hr, rfl⟩ := Option.map_eq_some_iff.1 (Option.mem_toList.1 hx)
      exact htext text (h.eq_ok (hr.trans (congrArg some hok)))
  | fill hdone hresults =>
    exact ⟨isFilled_of_heads hinv.phase hdone hresults, fun _ => rfl, fun _ h => (by cases h),
      fun h => (by cases h)⟩
  | fillFails hdone hresults => exact ⟨trivial, fun _ => rfl, fun _ h => (by cases h),
      fun h => (by cases h)⟩
  | create => exact ⟨⟨hinv.phase, partsInv_opened _⟩, fun _ => rfl, fun _ h => (by cases h),
      fun h => (by cases h)⟩
  | createFails => exact ⟨trivial, fun _ => rfl, fun _ h => (by cases h),
      fun h => (by cases h)⟩
  | land hpart hbytes =>
    exact ⟨⟨hinv.phase.1, hinv.phase.2.land hpart hbytes⟩, fun _ => rfl, fun _ h => (by cases h),
      fun h => (by cases h)⟩
  | @part _ _ _ _ _ _ _ _ _ out h hlanded =>
    refine ⟨hinv.phase.2.afterPart hinv.phase.1 h hlanded, fun _ => rfl, fun _ h => (by cases h),
      fun hended => ?_⟩
    -- a pool ends a run only with an error
    cases out with
    | none => cases hended
    | some r => cases r <;> cases hended
  | complete hcopies hstreams =>
    refine ⟨trivial, fun hne => absurd rfl (hne _), fun archive harchive => ?_, fun _ => rfl⟩
    rw [← Option.some.inj harchive]
    exact hinv.phase.2.completedObject p hids hsizes hinv.phase.1 hcopies hstreams
  | completeFails hcopies hstreams => exact ⟨trivial, fun _ => rfl, fun _ h => (by cases h),
      fun h => (by cases h)⟩

theorem assembleInv_of_run {s : AssembleState} {evs : List AssembleEvent}
    (h : AssembleRun store plan (.start plan) evs s) : AssembleInv store files p s := by
  refine h.invariant ?_ fun _ _ _ hinv hstep => hinv.step p hids hsizes hstep
  refine ⟨⟨Pool.jobs_start _ _, ?_⟩, fun _ => rfl, fun _ h => (by cases h),
      fun h => (by cases h)⟩
  intro x hx
  cases hx

end

end S3Archive.FigmentEngine
