import S3Archive.JrodonV3.FanOutInvariant

/-!
# jrodon-v3: fanning out refines local execution

The invariant along runs (`FanOutState.Sound`): the delegating block reports each
delegated part once and delivers each of their headers once, or it fails. So an
execution that returns parts returns those of local execution, and after any
failure it returns no parts (`planJobs_fanOut`).
-/

namespace S3Archive.JrodonV3

section

variable {src : Source} {J : JobSet} {ch : CdfhChannel} {bs : List Batch} {s s' : FanOutState}
  {ev : FanOutEvent}

/-! ## Steps of the block -/

/-- Good answers together are the headers and the parts of all their jobs. -/
theorem good_answers {dir : List CentralDirectoryFileHeader} {answered : List Answer}
    (h : ∀ a ∈ answered, a.Good src dir ch) :
    (answered.flatMap Answer.cdfhs).Perm
        ((answered.map Answer.jobs).flatten.flatMap (DelegatedPartJob.cdfhs src)) ∧
      Matched (PartJob.CompletedAs src dir)
        ((answered.map Answer.jobs).flatten.map (PartJob.new · ch))
        (answered.flatMap Answer.parts) := by
  induction answered with
  | nil => exact ⟨.nil, .nil⟩
  | cons a answered ih =>
    obtain ⟨hcdfhs, hparts⟩ := ih fun b hb => h b (List.mem_cons_of_mem _ hb)
    have hgood := h a List.mem_cons_self
    rw [List.map_cons, List.flatten_cons, List.flatMap_append, List.map_append]
    exact ⟨hgood.cdfhs.append hcdfhs, hgood.parts.append hparts⟩

/-- When the workers have stopped and all is sent, every batch is answered. -/
theorem FanOutInv.answered (h : FanOutInv src J ch bs s) (hb : s.delegation = .waitAll)
    (hd : s.dispatch = .finished) :
    s.cdfhs.Perm (bs.flatten.flatMap (DelegatedPartJob.cdfhs src)) ∧
      Matched (PartJob.CompletedAs src J.dir) (bs.flatten.map (PartJob.new · ch))
        s.completedParts := by
  obtain ⟨answered, lost, hl⟩ := h.ledger
  have hstopped : ∀ w ∈ s.workers, w.phase = .stopped := by
    have := h.joined
    rwa [hd] at this
  have hheld : s.workers.flatMap LambdaWorker.held = [] := by
    rw [List.flatMap_eq_nil_iff]
    intro w hw
    unfold LambdaWorker.held
    rw [hstopped w hw, h.stopped w hw (hstopped w hw)]
    rfl
  have hunsent : s.unsent bs = [] := by
    have hnone := (h.closing (by rw [hd]; rfl)).1
    unfold FanOutState.unsent
    rw [hb, hnone, hd]
    rfl
  have hlost : lost = 0 := by
    by_contra hne
    rcases hl.lost_seen hne with hfailed | ⟨w, hw, hfailed⟩
    · rw [hd] at hfailed
      cases hfailed
    · rw [hstopped w hw] at hfailed
      cases hfailed
  have hperm : (answered.map Answer.jobs).Perm bs := by
    have hsplit := hl.split
    rw [hheld, hunsent, hlost, Multiset.coe_nil, add_zero, add_zero, add_zero] at hsplit
    exact Multiset.coe_eq_coe.1 hsplit
  obtain ⟨hcdfhs, hparts⟩ := good_answers hl.good
  rw [hl.cdfhs, hl.parts]
  exact ⟨hcdfhs.trans (hperm.flatten.flatMap_right _),
    hparts.of_perm (hperm.flatten.map _)⟩

theorem FanOutInv.delegation (h : FanOutInv src J ch bs s) (hstep : DelegationStep s ev s') :
    s'.delegation = .failed ∨ FanOutInv src J ch bs s' := by
  have hholds := h.holds
  have hinv := h.localInv
  obtain ⟨answered, lost, hl⟩ := h.ledger
  have hsplit := hl.split
  have hopen : s.delegation.holdsTx = true → s.dispatch.isClosing = false := by
    intro htx
    refine Bool.eq_false_iff.2 fun hclosing => ?_
    rw [(h.closing hclosing).2] at htx
    cases htx
  cases hstep with
  | convertError hb hconv => exact .inl rfl
  | commandClosed hb hclosed => exact .inl rfl
  | collectError hb hall hd => exact .inl rfl
  | deliverClosed hb hclosed => exact .inl rfl
  | setUpload hb hfree hdead =>
    rw [hb] at hholds hinv hopen
    have hclosing := hopen rfl
    refine .inr ⟨⟨answered, lost, ?_, hl.good, hl.cdfhs, hl.parts, hl.lost_seen⟩, h.stopped,
      h.joined, fun hc => ?_, hholds, hinv⟩
    · rw [← hsplit]
      unfold FanOutState.unsent
      rw [hb, hfree]
      rfl
    · dsimp only at hc
      rw [hclosing] at hc
      cases hc
  | submit hb hconv hfree hdead =>
    rw [hb] at hholds hinv hopen
    have hclosing := hopen rfl
    obtain ⟨jobs, hjobs, hbs⟩ := hholds
    obtain rfl := Except.ok.inj (hconv.symm.trans hjobs)
    refine .inr ⟨⟨answered, lost, ?_, hl.good, hl.cdfhs, hl.parts, hl.lost_seen⟩, h.stopped,
      h.joined, fun hc => ?_, trivial, hinv⟩
    · -- the batches move from the block to the command
      rw [← hsplit]
      unfold FanOutState.unsent
      rw [hb, hfree]
      simp only [Delegation.holdsTx, Option.toList_some, Option.toList_none, List.flatMap_cons,
        List.flatMap_nil, List.append_nil, LambdaExecutorCommand.unsent, hbs]
      rfl
    · dsimp only at hc
      rw [hclosing] at hc
      cases hc
  | collect hb hall hd =>
    rw [hb] at hinv
    obtain ⟨hcdfhs, hparts⟩ := h.answered hb hd
    refine .inr ⟨⟨answered, lost, ?_, hl.good, hl.cdfhs, hl.parts, hl.lost_seen⟩, h.stopped,
      h.joined, fun hc => ⟨(h.closing hc).1, rfl⟩, ⟨hparts, .inr hd⟩, ?_⟩
    · rw [← hsplit]
      unfold FanOutState.unsent
      rw [hb]
      rfl
    · show LocalInv src J (s.cdfhs : Multiset CentralDirectoryFileHeader) s.localExec
      rw [Multiset.coe_eq_coe.2 hcdfhs]
      exact hinv
  | deliver hb hreceiver =>
    rw [hb] at hholds hinv
    refine .inr ⟨⟨answered, lost, ?_, hl.good, hl.cdfhs, hl.parts, hl.lost_seen⟩, h.stopped,
      h.joined, fun hc => ⟨(h.closing hc).1, rfl⟩, hholds, hinv.deliver⟩
    rw [← hsplit]
    unfold FanOutState.unsent
    rw [hb]
    rfl
  | done hb =>
    rw [hb] at hholds hinv
    refine .inr ⟨⟨answered, lost, ?_, hl.good, hl.cdfhs, hl.parts, hl.lost_seen⟩, h.stopped,
      h.joined, fun hc => ⟨(h.closing hc).1, rfl⟩, hholds, hinv.closeOutside⟩
    rw [← hsplit]
    unfold FanOutState.unsent
    rw [hb]
    rfl

/-! ## Runs -/

/-- A failed block stays failed. -/
theorem DelegationStep.failed (h : DelegationStep s ev s') (hfailed : s.delegation = .failed) :
    s'.delegation = .failed := by
  cases h with
  | commandClosed hb hclosed => rfl
  | convertError hb hconv => rfl
  | collectError hb hall hd => rfl
  | deliverClosed hb hclosed => rfl
  | _ hb =>
    rw [hb] at hfailed
    cases hfailed

/-- The block has failed, or the invariant holds. -/
def FanOutState.Sound (src : Source) (J : JobSet) (ch : CdfhChannel) (bs : List Batch)
    (s : FanOutState) : Prop :=
  s.delegation = .failed ∨ FanOutInv src J ch bs s

theorem FanOutState.Sound.step (h : s.Sound src J ch bs)
    (htiled : ∀ jobs ∈ bs, ∀ d ∈ jobs, d.Tiled) (hstep : FanOutStep src s ev s') :
    s'.Sound src J ch bs := by
  rcases h with hfailed | h
  · left
    cases hstep with
    | localExec hlocal => exact hfailed
    | worker hw hworker => exact hfailed
    | dispatch hdispatch => exact hdispatch.frame.delegation.trans hfailed
    | delegation hdel => exact hdel.failed hfailed
  · cases hstep with
    | localExec hlocal =>
      obtain ⟨answered, lost, hl⟩ := h.ledger
      exact .inr ⟨⟨answered, lost, hl.split, hl.good, hl.cdfhs, hl.parts, hl.lost_seen⟩, h.stopped,
        h.joined, h.closing, h.holds, h.localInv.step hlocal⟩
    | worker hw hworker => exact .inr (h.worker htiled hw hworker)
    | dispatch hdispatch => exact .inr (h.dispatch hdispatch)
    | delegation hdel => exact h.delegation hdel

theorem FanOutState.Sound.inv_of_done (h : s.Sound src J ch bs)
    {delegated : List CompletedPartInfo} (hb : s.delegation = .done delegated) :
    FanOutInv src J ch bs s := by
  refine h.resolve_left fun hfailed => ?_
  rw [hb] at hfailed
  cases hfailed

/-- What makes success impossible. -/
def FanOutState.Doomed (bs : List Batch) (s : FanOutState) : Prop :=
  s.delegation = .failed ∨ s.localExec.HasFailed ∨ (bs ≠ [] ∧ s.ExecutorFailed)

theorem FanOutInv.ne_nil_of_held (h : FanOutInv src J ch bs s) {w : LambdaWorker}
    (hw : w ∈ s.workers) {jobs : Batch} (hjobs : jobs ∈ w.held) : bs ≠ [] := by
  obtain ⟨answered, lost, hl⟩ := h.ledger
  exact List.ne_nil_of_mem (hl.mem_of_held hw hjobs)

theorem WorkerStep.failed {ws₁ ws₂ : List LambdaWorker} {w w' : LambdaWorker}
    {cdfhs : List CentralDirectoryFileHeader} {parts : List CompletedPartInfo}
    (h : WorkerStep src w ev cdfhs parts w') (hfailed : ∃ x ∈ ws₁ ++ w :: ws₂, x.phase = .failed) :
    ∃ x ∈ ws₁ ++ w' :: ws₂, x.phase = .failed := by
  obtain ⟨x, hx, hphase⟩ := hfailed
  rcases List.mem_append.1 hx with hx | hx
  · exact ⟨x, List.mem_append_left _ hx, hphase⟩
  · rcases List.mem_cons.1 hx with rfl | hx
    · have hmoving := h.not_ended
      unfold LambdaWorker.ended at hmoving
      rw [hphase] at hmoving
      cases hmoving
    · exact ⟨x, List.mem_append_right _ (List.mem_cons_of_mem _ hx), hphase⟩

theorem FanOutState.Doomed.step (h : s.Doomed bs) (hstep : FanOutStep src s ev s') :
    s'.Doomed bs := by
  rcases h with hfailed | hfailed | ⟨hne, hfailed⟩
  · left
    cases hstep with
    | localExec hlocal => exact hfailed
    | worker hw hworker => exact hfailed
    | dispatch hdispatch => exact hdispatch.frame.delegation.trans hfailed
    | delegation hdel => exact hdel.failed hfailed
  · right
    left
    cases hstep with
    | localExec hlocal => exact hlocal.hasFailed hfailed
    | worker hw hworker => exact hfailed
    | dispatch hdispatch =>
      rw [hdispatch.frame.localExec]
      exact hfailed
    | delegation hdel => cases hdel <;> exact hfailed
  · right
    right
    refine ⟨hne, ?_⟩
    cases hstep with
    | localExec hlocal => exact hfailed
    | worker hw hworker =>
      refine hfailed.imp id fun hfailed => ?_
      rw [hw] at hfailed
      exact hworker.failed hfailed
    | dispatch hdispatch =>
      rcases hfailed with hd | hfailed
      · have hmoving := hdispatch.frame.moving
        rw [hd] at hmoving
        cases hmoving
      · exact .inr (hdispatch.frame.failed hfailed)
    | delegation hdel => cases hdel <;> exact hfailed

/-- A failure makes success impossible. -/
theorem FanOutStep.doomed (hstep : FanOutStep src s ev s') (h : s.Sound src J ch bs)
    (htiled : ∀ jobs ∈ bs, ∀ d ∈ jobs, d.Tiled) (hfails : ev.fails = true) : s'.Doomed bs := by
  rcases h with hfailed | h
  · exact FanOutState.Doomed.step (.inl hfailed) hstep
  cases hstep with
  | localExec hlocal => exact .inr (.inl (hlocal.hasFailed_of_fails hfails))
  | @worker ev ws₁ ws₂ w w' cdfhs parts hw hworker =>
    have hmem : w ∈ s.workers := hw ▸ List.mem_append_right _ List.mem_cons_self
    cases hworker with
    | @reply jobs inbox jobTx snd handler t hrun hfin completed hok =>
      -- a handler that succeeds has no failing event
      obtain ⟨answered, lost, hl⟩ := h.ledger
      have hjobs : jobs ∈ bs := hl.mem_of_held hmem (List.mem_append_left _ List.mem_cons_self)
      have hinv := (LocalInv.start_handler src snd jobs (htiled jobs hjobs)).run hrun
      have hpart : t.partFailed = false := by
        refine Bool.eq_false_iff.2 fun hfailed => ?_
        unfold LocalState.outcome at hok
        rw [if_pos hfailed] at hok
        cases hok
      exact absurd (LocalRun.hasFailed hrun (List.any_eq_true.1 hfails))
        (hinv.no_failure hfin hpart)
    | replyError hrun hfin herror =>
      refine .inr (.inr ⟨h.ne_nil_of_held hmem (List.mem_append_left _ List.mem_cons_self), ?_⟩)
      exact .inr ⟨_, List.mem_append_right _ List.mem_cons_self, rfl⟩
    | invokeFault =>
      refine .inr (.inr ⟨h.ne_nil_of_held hmem (List.mem_append_left _ List.mem_cons_self), ?_⟩)
      exact .inr ⟨_, List.mem_append_right _ List.mem_cons_self, rfl⟩
    | _ => cases hfails
  | dispatch hdispatch => cases hdispatch <;> cases hfails
  | delegation hdel =>
    left
    cases hdel with
    | commandClosed hb hclosed => rfl
    | convertError hb hconv => rfl
    | deliverClosed hb hclosed => rfl
    | _ => cases hfails

theorem FanOutRun.sound {evs : List FanOutEvent} (hrun : FanOutRun src s evs s')
    (h : s.Sound src J ch bs) (htiled : ∀ jobs ∈ bs, ∀ d ∈ jobs, d.Tiled) :
    s'.Sound src J ch bs :=
  hrun.invariant h fun _ _ _ ha hstep => ha.step htiled hstep

theorem FanOutRun.doomed {evs : List FanOutEvent} (hrun : FanOutRun src s evs s')
    (h : s.Sound src J ch bs) (htiled : ∀ jobs ∈ bs, ∀ d ∈ jobs, d.Tiled)
    (hfails : ∃ ev ∈ evs, ev.fails = true) : s'.Doomed bs := by
  induction hrun with
  | refl =>
    obtain ⟨ev, hev, _⟩ := hfails
    cases hev
  | step hrun hlast ih =>
    obtain ⟨ev, hev, hfails⟩ := hfails
    rcases List.mem_append.1 hev with hev | hev
    · exact (ih ⟨ev, hev, hfails⟩).step hlast
    · rw [List.mem_singleton.1 hev] at hfails
      exact hlast.doomed (FanOutRun.sound hrun h htiled) htiled hfails

/-- What is doomed returns no parts. -/
theorem FanOutInv.not_doomed (h : FanOutInv src J ch bs s) {delegated : List CompletedPartInfo}
    (hb : s.delegation = .done delegated) (hfin : s.localExec.Finished)
    (hok : s.localExec.partFailed = false) : ¬ s.Doomed bs := by
  have hholds := h.holds
  rw [hb] at hholds
  rintro (hfailed | hfailed | ⟨hne, hfailed⟩)
  · rw [hb] at hfailed
    cases hfailed
  · exact h.localInv.no_failure hfin hok hfailed
  · have hd := hholds.2.resolve_left hne
    rcases hfailed with hfailed | ⟨w, hw, hfailed⟩
    · rw [hd] at hfailed
      cases hfailed
    · have hjoined := h.joined
      rw [hd] at hjoined
      rw [hjoined w hw] at hfailed
      cases hfailed

end

/-! ## The start -/

/-- The jobs that are not delegated; their directory needs the headers of all jobs. -/
def JobSet.localPart (K : JobSet) : JobSet where
  jobs := K.jobs.filter fun job => !job.delegatable
  headers := K.headers
  dir := K.dir
  tiled := fun job hjob => K.tiled job (List.mem_of_mem_filter hjob)
  directory := fun job hjob => K.directory job (List.mem_of_mem_filter hjob)

section

variable {src : Source} {K : JobSet} {ch : CdfhChannel} {ds : List DelegatedPartJob}

theorem tiled_of_new {d : DelegatedPartJob} (h : PartJob.new d ch ∈ K.jobs) : d.Tiled := by
  refine (K.tiled _ h rfl).trans ?_
  rw [elems_new]
  unfold entryElems
  rw [List.map_map, List.map_map]
  rfl

theorem perm_filter (jobs : List PartJob) :
    ((jobs.filter fun job => !job.delegatable) ++ jobs.filter PartJob.delegatable).Perm jobs :=
  List.perm_append_comm.trans (List.filter_append_perm _ _)

/-- The headers of the local and of the delegated jobs are all headers. -/
theorem headers_split (hheaders : K.headers = (K.jobs.flatMap (PartJob.cdfhs src) : List _))
    {bs : List Batch} (hbs : (bs.flatten.map (PartJob.new · ch)).Perm
      (K.jobs.filter PartJob.delegatable)) :
    ((K.localPart.jobs.flatMap (PartJob.cdfhs src) : List _) :
        Multiset CentralDirectoryFileHeader) +
      (bs.flatten.flatMap (DelegatedPartJob.cdfhs src) : List _) = K.headers := by
  rw [hheaders, Multiset.coe_add, Multiset.coe_eq_coe, ← flatMap_cdfhs_new src ch,
    ← List.flatMap_append]
  exact ((hbs.append_left _).trans (perm_filter K.jobs)).flatMap_right _

theorem held_replicate_new (n : Nat) :
    (List.replicate n LambdaWorker.new).flatMap LambdaWorker.held = [] := by
  rw [List.flatMap_eq_nil_iff]
  intro w hw
  rw [List.eq_of_mem_replicate hw]
  rfl

/-- At the start all delegated jobs are with the block. -/
theorem exists_fanOutInv_start
    (hconv : ∀ job ∈ K.jobs, job.delegatable → ∃ d,
      DelegatedPartJob.newFromPartJob job = .ok (d, ch) ∧ PartJob.new d ch = job)
    (hheaders : K.headers = (K.jobs.flatMap (PartJob.cdfhs src) : List _))
    {workerCount : Nat} (hw : 0 < workerCount) :
    ∃ bs : List Batch, (bs.flatten.map (PartJob.new · ch)).Perm
        (K.jobs.filter PartJob.delegatable) ∧
      (∀ jobs ∈ bs, ∀ d ∈ jobs, d.Tiled) ∧
      FanOutInv src K.localPart ch bs (.start workerCount K.jobs) := by
  have hstopped : ∀ w ∈ (FanOutState.start workerCount K.jobs).workers,
      w.phase = .stopped → w.inbox = none := by
    intro w hw hphase
    rw [List.eq_of_mem_replicate hw] at hphase
    cases hphase
  have hconv' : ∀ job ∈ K.jobs.filter PartJob.delegatable, ∃ d,
      DelegatedPartJob.newFromPartJob job = .ok (d, ch) ∧ PartJob.new d ch = job := by
    intro job hjob
    exact hconv job (List.mem_of_mem_filter hjob) (List.mem_filter.1 hjob).2
  rcases List.eq_nil_or_concat (K.jobs.filter PartJob.delegatable) with hnil | ⟨init, last, hlast⟩
  · -- nothing is delegated
    have hdel : (FanOutState.start workerCount K.jobs).delegation = .done [] := by
      unfold FanOutState.start
      rw [hnil]
      rfl
    refine ⟨[], by rw [hnil]; exact .nil, nofun, ⟨[], 0, ?_, nofun, rfl, rfl, fun h => absurd rfl h⟩,
      hstopped, trivial, nofun, ?_, ?_⟩
    · show ((0 : Multiset Batch) + 0 + (_ : List Batch) + _) = 0
      rw [show (FanOutState.start workerCount K.jobs).workers.flatMap LambdaWorker.held = [] from
        held_replicate_new workerCount]
      unfold FanOutState.unsent
      rw [hdel]
      rfl
    · rw [hdel]
      exact ⟨.nil, .inl rfl⟩
    · rw [hdel]
      refine LocalInv.start (J := K.localPart) ?_ fun _ => rfl
      exact @headers_split src K ch hheaders [] (by rw [hnil]; exact .nil)
  · rw [List.concat_eq_append] at hlast
    obtain ⟨d, hd, hnew⟩ := hconv' last (hlast ▸ List.mem_append_right _ List.mem_cons_self)
    obtain ⟨ds, hds, hmap⟩ := @mapM_convert ch init fun job hjob =>
      hconv' job (hlast ▸ List.mem_append_left _ hjob)
    have hdel : (FanOutState.start workerCount K.jobs).delegation = .setUpload init d := by
      unfold FanOutState.start
      dsimp only
      rw [hlast, List.getLast?_concat, List.dropLast_concat]
      dsimp only
      rw [hd]
    have hall : (ds ++ [d]).map (PartJob.new · ch) = K.jobs.filter PartJob.delegatable := by
      rw [List.map_append, hmap, hlast, List.map_singleton, hnew]
    have hbs : ((batches workerCount (ds ++ [d])).flatten.map (PartJob.new · ch)).Perm
        (K.jobs.filter PartJob.delegatable) := by
      rw [← hall]
      exact (batches_perm hw _).map _
    refine ⟨batches workerCount (ds ++ [d]), hbs, ?_, ⟨[], 0, ?_, nofun, rfl, rfl,
      fun h => absurd rfl h⟩, hstopped, trivial, nofun, ?_, ?_⟩
    · intro jobs hjobs d' hd'
      refine @tiled_of_new K ch d' (List.mem_of_mem_filter (hbs.mem_iff.1 ?_))
      exact List.mem_map_of_mem (List.mem_flatten_of_mem hjobs hd')
    · show ((0 : Multiset Batch) + 0 + (_ : List Batch) + _) = _
      rw [show (FanOutState.start workerCount K.jobs).workers.flatMap LambdaWorker.held = [] from
        held_replicate_new workerCount]
      unfold FanOutState.unsent
      rw [hdel]
      show (0 : Multiset Batch) + 0 + 0 + ((batches workerCount (ds ++ [d]) ++ ([] ++ []) : List Batch)) = _
      rw [List.append_nil, List.append_nil, add_zero, zero_add, zero_add]
    · rw [hdel]
      refine ⟨ds, hds, ?_⟩
      rw [show (FanOutState.start workerCount K.jobs).workers.length = workerCount from
        List.length_replicate]
    · rw [hdel]
      refine LocalInv.start (J := K.localPart) (headers_split hheaders hbs) fun hout => ?_
      -- the sender of the last delegated job is alive
      have hany : K.jobs.any PartJob.delegatable = true := by
        refine List.any_eq_true.2 ⟨last, ?_⟩
        exact List.mem_filter.1 (hlast ▸ List.mem_append_right _ List.mem_cons_self)
      rw [hany] at hout
      cases hout

/-! ## Refinement -/

/-- The parts `parts` that a run ends with are those of local execution of `jobs`. -/
structure RefinesLocal (src : Source) (jobs : List PartJob) (s : FanOutState)
    (parts : List CompletedPartInfo) : Prop where
  numbers : (parts.map CompletedPartInfo.partNumber).Perm (List.range' 1 jobs.length)
  /-- The directory's channel got the header of each entry once. -/
  headers : s.localExec.channel.sent.Perm (jobs.flatMap (PartJob.cdfhs src))
  /-- Each part is the output of its job. -/
  outputs : Matched (PartJob.CompletedAs src s.localExec.channel.sent) jobs parts
  /-- Any local execution that succeeds ends with the same parts. -/
  same : ∀ evs t completed, LocalRun src (.start jobs false) evs t → t.Finished →
    t.outcome = .ok completed → parts.Perm completed

theorem LocalState.of_outcome_ok {t : LocalState} {completed : List CompletedPartInfo}
    (h : t.outcome = .ok completed) : t.partFailed = false ∧ t.completed = completed := by
  unfold outcome at h
  by_cases hfailed : t.partFailed = true
  · rw [if_pos hfailed] at h
    cases h
  · rw [if_neg hfailed] at h
    exact ⟨Bool.eq_false_iff.2 hfailed, Except.ok.inj h⟩

/-- What the parts of both halves are when neither has failed. -/
theorem FanOutInv.completed {bs : List Batch} {s : FanOutState}
    (h : FanOutInv src K.localPart ch bs s) (hbs : (bs.flatten.map (PartJob.new · ch)).Perm
      (K.jobs.filter PartJob.delegatable)) {delegated : List CompletedPartInfo}
    (hb : s.delegation = .done delegated) (hfin : s.localExec.Finished)
    (hok : s.localExec.partFailed = false) :
    Matched (PartJob.CompletedAs src K.dir) K.jobs (s.localExec.completed ++ delegated) ∧
      (s.localExec.channel.sent : Multiset CentralDirectoryFileHeader) = K.headers := by
  have hholds := h.holds
  have hinv := h.localInv
  rw [hb] at hholds hinv
  refine ⟨?_, ?_⟩
  · have hlocal : Matched (PartJob.CompletedAs src K.dir)
        (K.jobs.filter fun job => !job.delegatable) s.localExec.completed :=
      hinv.completed hfin hok
    exact (hlocal.append (hholds.1.of_perm hbs)).of_perm (perm_filter K.jobs)
  · have hsent := hinv.sent_eq hfin hok
    exact (add_zero _).symm.trans hsent

end

/-- The output of a planned job needs the headers only up to order. -/
theorem output_planned {src : Source} {ch : CdfhChannel} {duos : List Duo} {tail : List FileEntry}
    {job : PartJob} (hjob : job ∈ jobList ch duos tail)
    {received : List CentralDirectoryFileHeader}
    (h : received.Perm (directory src (duos.flatMap Duo.files ++ tail))) :
    job.output src received = job.output src (directory src (duos.flatMap Duo.files ++ tail)) := by
  have hbytes : ∀ e ∈ job.elems, e.bytes src received =
      e.bytes src (directory src (duos.flatMap Duo.files ++ tail)) := by
    intro e he
    by_cases hentry : e.isEntry = true
    · cases e with
      | entryFromS3 e => rfl
      | centralDirectory total eocd c => cases hentry
    · rw [directory_jobList hjob he (Bool.eq_false_iff.2 hentry), bytes_cdElem h,
        bytes_cdElem (.refl _)]
  have hwrite : ∀ (elems : List UploadPartElement) (remain : Nat), (∀ e ∈ elems, e ∈ job.elems) →
      writeElems src received remain elems =
        writeElems src (directory src (duos.flatMap Duo.files ++ tail)) remain elems := by
    intro elems
    induction elems with
    | nil => exact fun _ _ => rfl
    | cons e elems ih =>
      intro remain hmem
      unfold writeElems
      rw [hbytes e (hmem e List.mem_cons_self),
        ih _ fun e' he' => hmem e' (List.mem_cons_of_mem _ he')]
  obtain ⟨n, size, jobType⟩ := job
  cases jobType with
  | copy source range => rfl
  | upload elems => exact hwrite elems size fun _ he => he

theorem CompletedAs.unique {src : Source} {dir : List CentralDirectoryFileHeader} {job : PartJob}
    {part part' : CompletedPartInfo} (h : job.CompletedAs src dir part)
    (h' : job.CompletedAs src dir part') : part = part' := by
  obtain ⟨n, c⟩ := part
  obtain ⟨n', c'⟩ := part'
  obtain rfl : n = n' := h.1.trans h'.1.symm
  obtain rfl : c = c' := Option.some_inj.1 (h.2.symm.trans h'.2)
  rfl

section

variable {src : Source} {ch : CdfhChannel} {bs : List Batch} {s : FanOutState}

/-- The parts of a run that ends without a failure. -/
theorem FanOutInv.refinesLocal {files : List FileInfo} {p : Plan files}
    (h : FanOutInv src (JobSet.planned ch src p.duos p.tail).localPart ch bs s)
    (hbs : (bs.flatten.map (PartJob.new · ch)).Perm
      ((jobList ch p.duos p.tail).filter PartJob.delegatable))
    {delegated : List CompletedPartInfo} (hb : s.delegation = .done delegated)
    (hfin : s.localExec.Finished) (hok : s.localExec.partFailed = false) :
    RefinesLocal src (jobList ch p.duos p.tail) s (s.localExec.completed ++ delegated) := by
  obtain ⟨hmatched, hsent⟩ := h.completed hbs hb hfin hok
  have hperm : s.localExec.channel.sent.Perm (directory src p.order) :=
    Multiset.coe_eq_coe.1 hsent
  refine ⟨?_, ?_, ?_, ?_⟩
  · have hnumbered := (jobList_legal ch p.big_mem p.tail).numbered
    unfold NumberedFrom at hnumbered
    rw [← hnumbered]
    exact hmatched.map_perm fun _ _ h => h.1
  · rw [cdfhs_jobList]
    exact hperm
  · refine hmatched.imp_of_mem ?_
    rintro job part hjob ⟨hnumber, hout⟩
    refine ⟨hnumber, ?_⟩
    rw [output_planned hjob hperm]
    exact hout
  · intro evs t completed hrun hfin' houtcome
    obtain ⟨hok', rfl⟩ := LocalState.of_outcome_ok houtcome
    have hlocal := ((LocalInv.start_planned ch src p.duos p.tail).run hrun).completed hfin' hok'
    exact hmatched.perm hlocal fun _ _ _ => CompletedAs.unique

end

/-- Fanning out the planned jobs refines their local execution: a job for a worker survives the
conversion, the parts returned are those of local execution, and after a failure none are
returned. -/
theorem planJobs_fanOut (ch : CdfhChannel) (src : Source) (files : List FileInfo) :
    ∃ jobs, planJobs ch files = .ok jobs ∧
      (∀ job ∈ jobs, job.delegatable → ∃ d,
        DelegatedPartJob.newFromPartJob job = .ok (d, ch) ∧ PartJob.new d ch = job) ∧
      ∀ workerCount, 0 < workerCount →
        ∀ evs s, FanOutRun src (.start workerCount jobs) evs s →
          (∀ parts, Returns s (.ok parts) → RefinesLocal src jobs s parts) ∧
          ((∃ ev ∈ evs, ev.fails = true) → ∀ result, Returns s result → result = .error ()) := by
  obtain ⟨p, hjobs, htail, _⟩ := planJobs_eq ch files
  rw [← htail] at hjobs
  refine ⟨_, hjobs, fun job hjob hdel => convert_planned hjob hdel, ?_⟩
  intro workerCount hw evs s hrun
  have hheaders : (JobSet.planned ch src p.duos p.tail).headers =
      ((jobList ch p.duos p.tail).flatMap (PartJob.cdfhs src) : List _) := by
    rw [cdfhs_jobList]
    rfl
  obtain ⟨bs, hbs, htiled, hstart⟩ := exists_fanOutInv_start (K := .planned ch src p.duos p.tail)
    (fun job hjob hdel => convert_planned hjob hdel) hheaders hw
  have hsound := FanOutRun.sound hrun (.inr hstart) htiled
  constructor
  · intro parts hreturns
    cases hreturns with
    | @ok local_ delegated hfin hlocal hb =>
      obtain ⟨hok, rfl⟩ := LocalState.of_outcome_ok hlocal
      exact (hsound.inv_of_done hb).refinesLocal hbs hb hfin hok
  · intro hfails result hreturns
    cases hreturns with
    | localError hfin herror => rfl
    | delegationError hb => rfl
    | @ok local_ delegated hfin hlocal hb =>
      obtain ⟨hok, rfl⟩ := LocalState.of_outcome_ok hlocal
      exact absurd (FanOutRun.doomed hrun (.inr hstart) htiled hfails)
        ((hsound.inv_of_done hb).not_doomed hb hfin hok)

/-! ## Two workers -/

/-- Two files of 20 MiB. -/
def twoLarge : List FileInfo :=
  [⟨[0x61], [0x73], [0x61], 20971520⟩, ⟨[0x62], [0x73], [0x62], 20971520⟩]

/-- Both are in duos that no small file pads. -/
theorem fromFilesInfo_twoLarge : fromFilesInfo twoLarge =
    [.duo [] (.partialCopy ⟨[0x62], [0x73], [0x62], 20971520⟩ 5242849),
      .duo [] (.partialCopy ⟨[0x61], [0x73], [0x61], 20971520⟩ 5242849)] := by
  decide +kernel

/-- The entry of a file of `twoLarge` with its local header at `offset`. -/
def largeEntry (offset : Nat) (name : Bytes) : SerializableEntryFromS3 :=
  ⟨.new offset name 20971520, .partialGet 5242849, [0x73], name⟩

/-- Its first bytes. -/
def firstBytes (n offset : Nat) (name : Bytes) : DelegatedPartJob :=
  ⟨n, 5242880, [largeEntry offset name]⟩

/-- The copy of its other bytes. -/
def copyRest (n : Nat) (name : Bytes) : PartJob :=
  ⟨n, 15728671, .copy ⟨[0x73], name⟩ (some ⟨5242849, 20971519⟩)⟩

/-- The end records of the two files. -/
def endOfTwo : EndOfCentralDirectory64 := ⟨2, 94, 41943102, 41943196⟩

/-- The jobs of `twoLarge`; the first bytes of each file are for a worker. -/
def jobsOfTwo : List PartJob :=
  [.new (firstBytes 1 0 [0x62]) 0, copyRest 2 [0x62], .new (firstBytes 3 20971551 [0x61]) 0,
    copyRest 4 [0x61], ⟨5, 116, .upload [.centralDirectory 116 endOfTwo 0]⟩]

theorem planJobs_twoLarge : planJobs 0 twoLarge = .ok jobsOfTwo := by
  unfold planJobs
  rw [fromFilesInfo_twoLarge]
  rfl

theorem batches_two {α : Type} (x y : α) : batches 2 [x, y] = [[y], [x]] := by
  unfold batches rounds fillRound
  simp [deal, List.replicate, lambdaWorkerPartJobMaxChunkSize]
  unfold fillRound
  simp [deal]

section

variable {src : Source}

/-- A worker with a job of one entry returns its part and the header. -/
theorem exists_reply {n size : Nat} (e : SerializableEntryFromS3)
    (hsize : size ≤ maxPartJobTasksMemory) (inbox : Option (List DelegatedPartJob))
    (jobTx : Bool) : ∃ ev completed, WorkerStep src ⟨.invoking [⟨n, size, [e]⟩], inbox, jobTx⟩ ev
      [e.cdfh src] completed ⟨.idle, inbox, jobTx⟩ := by
  have h₁ := (@Run.refl _ _ (LocalStep src) (.start [.new ⟨n, size, [e]⟩ 0] false)).step
    (.acquire rfl ((Nat.min_le_left size u32Max).trans hsize))
  have h₂ := h₁.step (@LocalStep.task _ _ [] [] _ [] [] _ _ _ _ rfl (.respond rfl))
  have h₃ := h₂.step (@LocalStep.task _ _ [] [] _ [] [] _ _ _ _ rfl .write)
  have h₄ := h₃.step (@LocalStep.finish _ _ [] [] _ _ _ rfl
    (.upload rfl fun t ht => by rw [List.mem_singleton.1 ht]; rfl))
  exact ⟨_, _, @WorkerStep.reply src [⟨n, size, [e]⟩] inbox jobTx 0 _ _ h₄ ⟨rfl, rfl⟩ _ rfl⟩

/-- The command channel has the jobs, and each worker has been sent one of them. -/
theorem exists_run_sent : ∃ evs, FanOutRun src (.start 2 jobsOfTwo) evs
    { FanOutState.start 2 jobsOfTwo with
      delegation := .waitAll
      dispatch := .sending [] 2
      workers := [⟨.warming, some [firstBytes 3 20971551 [0x61]], true⟩,
        ⟨.warming, some [firstBytes 1 0 [0x62]], true⟩] } := by
  have h₁ := (@Run.refl _ _ (FanOutStep src) (.start 2 jobsOfTwo)).step
    (.delegation (.setUpload rfl rfl rfl))
  have h₂ := h₁.step (.dispatch (.upload rfl rfl))
  have h₃ := h₂.step (.delegation (.submit rfl rfl rfl rfl))
  have h₄ := h₃.step (.dispatch (.jobs rfl rfl))
  have hbatches : batches 2 [firstBytes 1 0 [0x62], firstBytes 3 20971551 [0x61]] =
      [[firstBytes 3 20971551 [0x61]], [firstBytes 1 0 [0x62]]] := batches_two _ _
  have h₅ := h₄.step (.dispatch (@DispatchStep.send _ _ _ _ [] [LambdaWorker.new] _
    (congrArg (Dispatch.sending · 0) hbatches) rfl rfl rfl rfl))
  have h₆ := h₅.step (.dispatch (@DispatchStep.send _ _ _ _ [_] [] _ rfl rfl rfl rfl rfl))
  exact ⟨_, h₆⟩

/-- The headers of the two files, as the workers send them. -/
def headersOfTwo (src : Source) : List CentralDirectoryFileHeader :=
  [(largeEntry 20971551 [0x61]).cdfh src, (largeEntry 0 [0x62]).cdfh src]

/-- Both workers answer and stop, and the block returns their parts. -/
theorem exists_run_answered : ∃ evs parts, FanOutRun src (.start 2 jobsOfTwo) evs
    { localExec := { LocalState.start [copyRest 2 [0x62], copyRest 4 [0x61],
          ⟨5, 116, .upload [.centralDirectory 116 endOfTwo 0]⟩] false with
        channel := ⟨headersOfTwo src, true, false⟩ }
      delegation := .done parts
      command := none
      dispatch := .finished
      workers := [⟨.stopped, none, false⟩, ⟨.stopped, none, false⟩]
      cdfhs := headersOfTwo src
      completedParts := parts } := by
  obtain ⟨evs, h₀⟩ := @exists_run_sent src
  obtain ⟨ev₁, part₁, hreply₁⟩ := @exists_reply src 3 5242880 (largeEntry 20971551 [0x61])
    (by decide) none true
  obtain ⟨ev₂, part₂, hreply₂⟩ := @exists_reply src 1 5242880 (largeEntry 0 [0x62])
    (by decide) none true
  have h₁ := h₀.step (.dispatch (.sent rfl))
  have h₂ := h₁.step (.dispatch (.closed rfl ⟨rfl, rfl⟩))
  -- the workers
  have h₃ := h₂.step (@FanOutStep.worker _ _ _ [] [_] _ _ _ _ rfl .warm)
  have h₄ := h₃.step (@FanOutStep.worker _ _ _ [] [_] _ _ _ _ rfl .take)
  have h₅ := h₄.step (@FanOutStep.worker _ _ _ [] [_] _ _ _ _ rfl hreply₁)
  have h₆ := h₅.step (@FanOutStep.worker _ _ _ [_] [] _ _ _ _ rfl .warm)
  have h₇ := h₆.step (@FanOutStep.worker _ _ _ [_] [] _ _ _ _ rfl .take)
  have h₈ := h₇.step (@FanOutStep.worker _ _ _ [_] [] _ _ _ _ rfl hreply₂)
  -- they stop in turn
  have h₉ := h₈.step (.dispatch (@DispatchStep.dropTx _ [] [_] _ rfl rfl))
  have h₁₀ := h₉.step (@FanOutStep.worker _ _ _ [] [_] _ _ _ _ rfl .stop)
  have h₁₁ := h₁₀.step (.dispatch (@DispatchStep.join _ [] [_] _ rfl rfl rfl))
  have h₁₂ := h₁₁.step (.dispatch (@DispatchStep.dropTx _ [_] [] _ rfl rfl))
  have h₁₃ := h₁₂.step (@FanOutStep.worker _ _ _ [_] [] _ _ _ _ rfl .stop)
  have h₁₄ := h₁₃.step (.dispatch (@DispatchStep.join _ [_] [] _ rfl rfl rfl))
  have h₁₅ := h₁₄.step (.dispatch (.finish rfl))
  have h₁₆ := h₁₅.step (.delegation (.collect rfl (by simp [LambdaWorker.ended]) rfl))
  -- the headers
  have h₁₇ := h₁₆.step (.delegation (.deliver rfl rfl))
  have h₁₈ := h₁₇.step (.delegation (.deliver rfl rfl))
  have h₁₉ := h₁₈.step (.delegation (.done rfl))
  exact ⟨_, _, h₁₉⟩

/-- The first worker's invocation fails, the second one answers and stops, and the run fails. -/
theorem exists_run_fails : ∃ evs s, FanOutRun src (.start 2 jobsOfTwo) evs s ∧
    (∃ ev ∈ evs, ev.fails = true) ∧ Returns s (.error ()) := by
  obtain ⟨evs, h₀⟩ := @exists_run_sent src
  obtain ⟨ev, part, hreply⟩ := @exists_reply src 1 5242880 (largeEntry 0 [0x62])
    (by decide) none false
  have h₁ := h₀.step (@FanOutStep.worker _ _ _ [] [_] _ _ _ _ rfl .warm)
  have h₂ := h₁.step (@FanOutStep.worker _ _ _ [] [_] _ _ _ _ rfl .take)
  have h₃ := h₂.step (@FanOutStep.worker _ _ _ [] [_] _ _ _ _ rfl .invokeFault)
  have h₄ := h₃.step (.dispatch (.sent rfl))
  have h₅ := h₄.step (.dispatch (.closed rfl ⟨rfl, rfl⟩))
  have h₆ := h₅.step (.dispatch (@DispatchStep.dropTx _ [] [_] _ rfl rfl))
  have h₇ := h₆.step (.dispatch (@DispatchStep.joinError _ [] [_] _ rfl rfl rfl))
  have h₈ := h₇.step (@FanOutStep.worker _ _ _ [_] [] _ _ _ _ rfl .warm)
  have h₉ := h₈.step (@FanOutStep.worker _ _ _ [_] [] _ _ _ _ rfl .take)
  have h₁₀ := h₉.step (@FanOutStep.worker _ _ _ [_] [] _ _ _ _ rfl hreply)
  have h₁₁ := h₁₀.step (@FanOutStep.worker _ _ _ [_] [] _ _ _ _ rfl .stop)
  have h₁₂ := h₁₁.step (.delegation (.collectError rfl
    (by simp [LambdaWorker.ended, LambdaWorker.dropTx]) rfl))
  exact ⟨_, _, h₁₂, ⟨.invokeFault, by simp, rfl⟩, .delegationError rfl⟩

/-- The first header is not the last one. -/
theorem size_headersOfTwo (h h' : CentralDirectoryFileHeader) (hne : h.locOffset ≠ h'.locOffset) :
    2 ≠ ((∅ : Std.TreeMap Nat CentralDirectoryFileHeader).insert h.locOffset h).size ∧
      2 = (((∅ : Std.TreeMap Nat CentralDirectoryFileHeader).insert h.locOffset h).insert
        h'.locOffset h').size := by
  simp [Std.TreeMap.size_insert, hne]

variable {b a : Bytes}
  (hb : copyBytes (src.body [0x73] [0x62]) (some ⟨5242849, 20971519⟩) = some b)
  (ha : copyBytes (src.body [0x73] [0x61]) (some ⟨5242849, 20971519⟩) = some a)

include hb ha

/-- The local jobs end, and the run returns parts. -/
theorem exists_run_returns : ∃ evs s parts, FanOutRun src (.start 2 jobsOfTwo) evs s ∧
    Returns s (.ok parts) := by
  obtain ⟨evs, parts, h₀⟩ := @exists_run_answered src
  have hp₁ : 256 * 1024 ≤ maxPartJobTasksMemory := by decide
  have hp₂ : 256 * 1024 ≤ maxPartJobTasksMemory - 256 * 1024 + 256 * 1024 := by decide
  have hp₃ : min 116 u32Max ≤
      maxPartJobTasksMemory - 256 * 1024 + 256 * 1024 - 256 * 1024 + 256 * 1024 := by decide
  obtain ⟨hmore, hlast⟩ := size_headersOfTwo ((largeEntry 20971551 [0x61]).cdfh src)
    ((largeEntry 0 [0x62]).cdfh src) (show 20971551 ≠ 0 by decide)
  have h₁ := h₀.step (.localExec (.acquire rfl hp₁))
  have h₂ := h₁.step (.localExec (@LocalStep.finish _ _ [] [] _ _ _ rfl (.copy rfl hb)))
  have h₃ := h₂.step (.localExec (.acquire rfl hp₂))
  have h₄ := h₃.step (.localExec (@LocalStep.finish _ _ [] [] _ _ _ rfl (.copy rfl ha)))
  have h₅ := h₄.step (.localExec (.acquire rfl hp₃))
  have h₆ := h₅.step (.localExec (@LocalStep.task _ _ [] [] _ [] [] _ _ _ _ rfl
    (.receive rfl hmore)))
  have h₇ := h₆.step (.localExec (@LocalStep.task _ _ [] [] _ [] [] _ _ _ _ rfl
    (.receiveLast rfl hlast)))
  have h₈ := h₇.step (.localExec (@LocalStep.finish _ _ [] [] _ _ _ rfl
    (.upload rfl fun t ht => by rw [List.mem_singleton.1 ht]; rfl)))
  exact ⟨_, _, _, h₈, .ok ⟨rfl, rfl⟩ rfl rfl⟩

end

/-- Their bodies are zeros. -/
def zeroSource : Source where
  body _ _ := List.replicate 20971520 0
  crc32 _ _ := ⟨leBytes 4 0x38773417, leBytes_length 4 _⟩

theorem exists_copyBytes {body : Bytes} {r : ByteRange} (hle : r.start ≤ r.stop)
    (hlt : r.stop < body.length) : ∃ content, copyBytes body (some r) = some content :=
  ⟨_, if_pos ⟨hle, hlt⟩⟩

theorem length_zeroSource (bucketName key : Bytes) :
    (zeroSource.body bucketName key).length = 20971520 := List.length_replicate

/-- With two workers and two jobs for them, a run returns the parts of local execution, and another
one, in which an invocation fails, returns none. -/
theorem planJobs_fanOut_two :
    ∃ jobs, planJobs 0 twoLarge = .ok jobs ∧
      (∃ evs s parts, FanOutRun zeroSource (.start 2 jobs) evs s ∧ Returns s (.ok parts) ∧
        RefinesLocal zeroSource jobs s parts) ∧
      ∃ evs s, FanOutRun zeroSource (.start 2 jobs) evs s ∧ Returns s (.error ()) ∧
        ∀ result, Returns s result → result = .error () := by
  obtain ⟨jobs, hjobs, -, hruns⟩ := planJobs_fanOut 0 zeroSource twoLarge
  obtain rfl : jobsOfTwo = jobs := Except.ok.inj (planJobs_twoLarge.symm.trans hjobs)
  have hcopies (name : Bytes) : ∃ content,
      copyBytes (zeroSource.body [0x73] name) (some ⟨5242849, 20971519⟩) = some content :=
    exists_copyBytes (by decide) (length_zeroSource _ name ▸ by decide)
  obtain ⟨b, hb⟩ := hcopies [0x62]
  obtain ⟨a, ha⟩ := hcopies [0x61]
  obtain ⟨evs, s, parts, hrun, hreturns⟩ := exists_run_returns hb ha
  obtain ⟨evs', s', hrun', hfails, hreturns'⟩ := @exists_run_fails zeroSource
  exact ⟨_, hjobs, ⟨evs, s, parts, hrun, hreturns,
    (hruns 2 (by decide) evs s hrun).1 parts hreturns⟩, evs', s', hrun', hreturns',
    (hruns 2 (by decide) evs' s' hrun').2 hfails⟩

end S3Archive.JrodonV3
