import S3Archive.JrodonV3.Delegation

/-!
# jrodon-v3: the invariant of the fan-out

`FanOutInv` says where each batch is in a reachable state: it waits to be sent, is
held by a worker, answered, or lost with a failed task (`BatchLedger`). When the
delegating block has its results, every batch is answered, so its parts and
headers are those of the delegated jobs.
-/

namespace S3Archive.JrodonV3

abbrev Batch := List DelegatedPartJob

/-! ## Answers -/

/-- The results of an invocation. -/
structure Answer where
  jobs : Batch
  cdfhs : List CentralDirectoryFileHeader
  parts : List CompletedPartInfo

/-- The parts and headers are those of the jobs, each once. -/
structure Answer.Good (src : Source) (dir : List CentralDirectoryFileHeader) (ch : CdfhChannel)
    (a : Answer) : Prop where
  cdfhs : a.cdfhs.Perm (a.jobs.flatMap (DelegatedPartJob.cdfhs src))
  parts : Matched (PartJob.CompletedAs src dir) (a.jobs.map (PartJob.new · ch)) a.parts

theorem completedAs_new {src : Source} {d : DelegatedPartJob} {snd ch : CdfhChannel}
    {dir dir' : List CentralDirectoryFileHeader} {part : CompletedPartInfo}
    (h : (PartJob.new d snd).CompletedAs src dir part) :
    (PartJob.new d ch).CompletedAs src dir' part :=
  ⟨h.1, (output_new src d ch snd dir' dir).trans h.2⟩

theorem matched_rebuild {src : Source} {jobs : Batch} {snd ch : CdfhChannel}
    {dir dir' : List CentralDirectoryFileHeader} {parts : List CompletedPartInfo}
    (h : Matched (PartJob.CompletedAs src dir) (jobs.map (PartJob.new · snd)) parts) :
    Matched (PartJob.CompletedAs src dir') (jobs.map (PartJob.new · ch)) parts := by
  have hd := h.of_map.imp (S := fun d part => (PartJob.new d ch).CompletedAs src dir' part)
    fun _ _ => completedAs_new
  exact hd.map

/-- A handler that succeeds gives a good answer. -/
theorem good_of_handler {src : Source} {dir : List CentralDirectoryFileHeader} {ch snd : CdfhChannel}
    {jobs : Batch} (htiled : ∀ d ∈ jobs, d.Tiled) {evs : List LocalEvent} {t : LocalState}
    (hrun : LocalRun src (.start (jobs.map (PartJob.new · snd)) false) evs t) (hfin : t.Finished)
    (hok : t.partFailed = false) : Answer.Good src dir ch ⟨jobs, t.channel.sent, t.completed⟩ := by
  have hinv := (LocalInv.start_handler src snd jobs htiled).run hrun
  refine ⟨?_, matched_rebuild (hinv.completed hfin hok)⟩
  have hsent := hinv.sent_eq hfin hok
  rw [add_zero] at hsent
  exact Multiset.coe_eq_coe.1 hsent

/-! ## Where the batches are -/

/-- The batches that a worker has. -/
def LambdaWorker.held (w : LambdaWorker) : List Batch :=
  (match w.phase with
    | .invoking jobs => [jobs]
    | _ => []) ++ w.inbox.toList

def LambdaExecutorCommand.unsent (workerCount : Nat) : LambdaExecutorCommand → List Batch
  | .multipartUpload => []
  | .delegatedPartJobs jobs => batches workerCount jobs

def Dispatch.unsent : Dispatch → List Batch
  | .sending rest _ => rest
  | _ => []

/-- The batches that are not yet with a worker; `bs` are all. -/
def FanOutState.unsent (bs : List Batch) (s : FanOutState) : List Batch :=
  (if s.delegation.holdsTx then bs else []) ++
    (s.command.toList.flatMap (LambdaExecutorCommand.unsent s.workers.length) ++ s.dispatch.unsent)

/-- Some task of the executor has failed. -/
def FanOutState.ExecutorFailed (s : FanOutState) : Prop :=
  s.dispatch = .failed ∨ ∃ w ∈ s.workers, w.phase = .failed

structure BatchLedger (src : Source) (dir : List CentralDirectoryFileHeader) (ch : CdfhChannel)
    (bs : List Batch) (s : FanOutState) (answered : List Answer) (lost : Multiset Batch) :
    Prop where
  split : ((answered.map Answer.jobs : List Batch) : Multiset Batch) + lost +
    (s.workers.flatMap LambdaWorker.held : List Batch) + (s.unsent bs : List Batch) = bs
  good : ∀ a ∈ answered, a.Good src dir ch
  cdfhs : s.cdfhs = answered.flatMap Answer.cdfhs
  parts : s.completedParts = answered.flatMap Answer.parts
  lost_seen : lost ≠ 0 → s.ExecutorFailed

/-- The workers that the dispatch task has joined have stopped. -/
def Dispatch.Joined (workers : List LambdaWorker) : Dispatch → Prop
  | .joining k => ∀ w ∈ workers.take k, w.phase = .stopped
  | .awaiting k => ∀ w ∈ workers.take k, w.phase = .stopped
  | .finished => ∀ w ∈ workers, w.phase = .stopped
  | _ => True

/-- The dispatch task has seen the end of the commands. -/
def Dispatch.isClosing : Dispatch → Bool
  | .joining _ => true
  | .awaiting _ => true
  | .finished => true
  | _ => false

/-- The headers that the block has still to send; `all` are those of the delegated jobs. -/
def Delegation.outer (all : Multiset CentralDirectoryFileHeader) :
    Delegation → Multiset CentralDirectoryFileHeader
  | .sendCdfhs cdfhs _ => cdfhs
  | .done _ => 0
  | _ => all

/-- What the block holds: the jobs `bs` before it submits them, their parts at the end. -/
def Delegation.Holds (src : Source) (dir : List CentralDirectoryFileHeader) (ch : CdfhChannel)
    (bs : List Batch) (workerCount : Nat) (dispatch : Dispatch) : Delegation → Prop
  | .setUpload toDelegate last =>
    ∃ jobs, toDelegate.mapM convert = .ok jobs ∧ batches workerCount (jobs ++ [last]) = bs
  | .submit toDelegate last =>
    ∃ jobs, toDelegate.mapM convert = .ok jobs ∧ batches workerCount (jobs ++ [last]) = bs
  | .sendCdfhs _ partInfos =>
    Matched (PartJob.CompletedAs src dir) (bs.flatten.map (PartJob.new · ch)) partInfos ∧
      (bs = [] ∨ dispatch = .finished)
  | .done partInfos =>
    Matched (PartJob.CompletedAs src dir) (bs.flatten.map (PartJob.new · ch)) partInfos ∧
      (bs = [] ∨ dispatch = .finished)
  | _ => True

structure FanOutInv (src : Source) (J : JobSet) (ch : CdfhChannel) (bs : List Batch)
    (s : FanOutState) : Prop where
  ledger : ∃ answered lost, BatchLedger src J.dir ch bs s answered lost
  stopped : ∀ w ∈ s.workers, w.phase = .stopped → w.inbox = none
  joined : s.dispatch.Joined s.workers
  closing : s.dispatch.isClosing = true → s.NoCommand
  holds : s.delegation.Holds src J.dir ch bs s.workers.length s.dispatch
  localInv : LocalInv src J
    (s.delegation.outer (bs.flatten.flatMap (DelegatedPartJob.cdfhs src) : List _)) s.localExec

/-! ## Steps of a worker -/

section

variable {src : Source} {dir : List CentralDirectoryFileHeader} {ch : CdfhChannel}
  {w w' : LambdaWorker} {ev : FanOutEvent} {cdfhs : List CentralDirectoryFileHeader}
  {parts : List CompletedPartInfo}

theorem WorkerStep.not_ended (h : WorkerStep src w ev cdfhs parts w') : w.ended = false := by
  cases h <;> rfl

theorem WorkerStep.inbox_of_stopped (h : WorkerStep src w ev cdfhs parts w')
    (hstopped : w'.phase = .stopped) : w'.inbox = none := by
  cases h
  case stop => rfl
  all_goals cases hstopped

/-- A batch that a worker has is kept, answered, or lost with the worker. -/
theorem WorkerStep.batch (h : WorkerStep src w ev cdfhs parts w')
    (htiled : ∀ jobs ∈ w.held, ∀ d ∈ jobs, d.Tiled) :
    ∃ (answered : List Answer) (lost : Multiset Batch),
      ((answered.map Answer.jobs : List Batch) : Multiset Batch) + lost +
        (w'.held : Multiset Batch) = w.held ∧
      (∀ a ∈ answered, a.Good src dir ch) ∧ cdfhs = answered.flatMap Answer.cdfhs ∧
      parts = answered.flatMap Answer.parts ∧ (lost ≠ 0 → w'.phase = .failed) := by
  cases h
  case reply jobs inbox jobTx cdfhSender handler t hrun hfin hok =>
    have hpart : t.partFailed = false := by
      refine Bool.eq_false_iff.2 fun hfailed => ?_
      unfold LocalState.outcome at hok
      rw [if_pos hfailed] at hok
      cases hok
    obtain rfl : t.completed = parts := by
      unfold LocalState.outcome at hok
      rw [if_neg (Bool.eq_false_iff.1 hpart)] at hok
      exact Except.ok.inj hok
    have hgood : Answer.Good src dir ch ⟨jobs, t.channel.sent, t.completed⟩ :=
      good_of_handler (htiled jobs (List.mem_append_left _ List.mem_cons_self)) hrun hfin hpart
    refine ⟨[⟨jobs, t.channel.sent, t.completed⟩], 0, ?_, ?_, ?_, ?_, fun h => absurd rfl h⟩
    · rw [add_zero, Multiset.coe_add]
      rfl
    · intro a ha
      rw [List.mem_singleton.1 ha]
      exact hgood
    · exact (List.flatMap_singleton _ _).symm
    · exact (List.flatMap_singleton _ _).symm
  case replyError jobs inbox jobTx cdfhSender handler t hrun hfin herror =>
    exact ⟨[], {jobs}, rfl, nofun, rfl, rfl, fun _ => rfl⟩
  case invokeFault jobs inbox jobTx =>
    exact ⟨[], {jobs}, rfl, nofun, rfl, rfl, fun _ => rfl⟩
  all_goals exact ⟨[], 0, zero_add _, nofun, rfl, rfl, fun h => absurd rfl h⟩

end

/-! ## Steps of the executor -/

section

variable {src : Source} {J : JobSet} {ch : CdfhChannel} {bs : List Batch} {s s' : FanOutState}
  {ev : FanOutEvent}

theorem BatchLedger.mem_of_held {dir : List CentralDirectoryFileHeader} {answered : List Answer}
    {lost : Multiset Batch} (h : BatchLedger src dir ch bs s answered lost) {w : LambdaWorker}
    (hw : w ∈ s.workers) {jobs : Batch} (hjobs : jobs ∈ w.held) : jobs ∈ bs := by
  have hmem : jobs ∈ (bs : Multiset Batch) := by
    rw [← h.split]
    refine Multiset.mem_add.2 (.inl (Multiset.mem_add.2 (.inr ?_)))
    exact Multiset.mem_coe.2 (List.mem_flatMap_of_mem hw hjobs)
  exact Multiset.mem_coe.1 hmem

/-- A worker that moves is not among the joined ones. -/
theorem Dispatch.Joined.update {d : Dispatch} {ws₁ ws₂ : List LambdaWorker} {w w' : LambdaWorker}
    (h : d.Joined (ws₁ ++ w :: ws₂)) (hw : w.phase ≠ .stopped) :
    d.Joined (ws₁ ++ w' :: ws₂) := by
  have htake : ∀ k, (∀ x ∈ (ws₁ ++ w :: ws₂).take k, x.phase = .stopped) →
      ∀ x ∈ (ws₁ ++ w' :: ws₂).take k, x.phase = .stopped := by
    intro k hk
    have hle : k ≤ ws₁.length := by
      refine Nat.le_of_not_lt fun hlt => hw (hk w ?_)
      rw [List.take_append, List.take_of_length_le (Nat.le_of_lt hlt)]
      refine List.mem_append_right _ ?_
      obtain ⟨n, hn⟩ := Nat.exists_eq_add_of_lt hlt
      rw [show k - ws₁.length = n + 1 by omega]
      exact List.mem_cons_self
    rw [List.take_append_of_le_length hle] at hk ⊢
    exact hk
  cases d with
  | joining k => exact htake k h
  | awaiting k => exact htake k h
  | finished => exact absurd (h w (List.mem_append_right _ List.mem_cons_self)) hw
  | _ => trivial

theorem FanOutInv.worker (h : FanOutInv src J ch bs s)
    (htiled : ∀ jobs ∈ bs, ∀ d ∈ jobs, d.Tiled) {ws₁ ws₂ : List LambdaWorker}
    {w w' : LambdaWorker} {cdfhs : List CentralDirectoryFileHeader}
    {parts : List CompletedPartInfo} (hw : s.workers = ws₁ ++ w :: ws₂)
    (hstep : WorkerStep src w ev cdfhs parts w') :
    FanOutInv src J ch bs
      { s with
        workers := ws₁ ++ w' :: ws₂
        cdfhs := s.cdfhs ++ cdfhs
        completedParts := s.completedParts ++ parts } := by
  have hmem : w ∈ s.workers := hw ▸ List.mem_append_right _ List.mem_cons_self
  have hlen : (ws₁ ++ w' :: ws₂).length = s.workers.length := by
    rw [hw, List.length_append, List.length_append]
    rfl
  have hsame : ∀ x ∈ ws₁ ++ w' :: ws₂, x ∈ s.workers ∨ x = w' := by
    intro x hx
    rw [hw]
    rcases List.mem_append.1 hx with hx | hx
    · exact .inl (List.mem_append_left _ hx)
    · rcases List.mem_cons.1 hx with rfl | hx
      · exact .inr rfl
      · exact .inl (List.mem_append_right _ (List.mem_cons_of_mem _ hx))
  have hmoving : w.phase ≠ .stopped ∧ w.phase ≠ .failed := by
    have := hstep.not_ended
    unfold LambdaWorker.ended at this
    constructor
    · intro hphase
      rw [hphase] at this
      cases this
    · intro hphase
      rw [hphase] at this
      cases this
  refine ⟨?_, ?_, ?_, h.closing, ?_, h.localInv⟩
  · obtain ⟨answered, lost, hl⟩ := h.ledger
    obtain ⟨answered', lost', hsum, hgood, hcdfhs, hparts, hlost⟩ :=
      @WorkerStep.batch src J.dir ch _ _ _ _ _ hstep
        fun jobs hjobs => htiled jobs (hl.mem_of_held hmem hjobs)
    refine ⟨answered ++ answered', lost + lost', ?_, ?_, ?_, ?_, ?_⟩
    · rw [← hl.split]
      unfold FanOutState.unsent
      simp only [hlen, hw, List.map_append, List.flatMap_append, List.flatMap_cons,
        ← Multiset.coe_add]
      rw [← hsum]
      abel
    · intro a ha
      rcases List.mem_append.1 ha with ha | ha
      · exact hl.good a ha
      · exact hgood a ha
    · rw [List.flatMap_append, hl.cdfhs, hcdfhs]
    · rw [List.flatMap_append, hl.parts, hparts]
    · intro hne
      by_cases hlost₀ : lost = 0
      · refine .inr ⟨w', List.mem_append_right _ List.mem_cons_self, hlost ?_⟩
        rwa [hlost₀, zero_add] at hne
      · rcases hl.lost_seen hlost₀ with hd | ⟨x, hx, hfailed⟩
        · exact .inl hd
        · -- a failed worker does not move
          refine .inr ⟨x, ?_, hfailed⟩
          rw [hw] at hx
          rcases List.mem_append.1 hx with hx | hx
          · exact List.mem_append_left _ hx
          · rcases List.mem_cons.1 hx with rfl | hx
            · exact absurd hfailed hmoving.2
            · exact List.mem_append_right _ (List.mem_cons_of_mem _ hx)
  · intro x hx hstopped
    rcases hsame x hx with hx | rfl
    · exact h.stopped x hx hstopped
    · exact hstep.inbox_of_stopped hstopped
  · have hjoined := h.joined
    rw [hw] at hjoined
    exact hjoined.update hmoving.1
  · show s.delegation.Holds src J.dir ch bs (ws₁ ++ w' :: ws₂).length s.dispatch
    rw [hlen]
    exact h.holds

@[simp] theorem LambdaWorker.held_dropTx (w : LambdaWorker) : w.dropTx.held = w.held := rfl

theorem flatMap_held_dropTx (ws : List LambdaWorker) :
    (ws.map LambdaWorker.dropTx).flatMap LambdaWorker.held = ws.flatMap LambdaWorker.held := by
  rw [List.flatMap_map]
  rfl

/-- What no step of the dispatch task changes. -/
structure DispatchFrame (s s' : FanOutState) : Prop where
  localExec : s'.localExec = s.localExec
  delegation : s'.delegation = s.delegation
  workers : s'.workers.length = s.workers.length
  cdfhs : s'.cdfhs = s.cdfhs
  completedParts : s'.completedParts = s.completedParts
  moving : s.dispatch.ended = false
  failed : (∃ w ∈ s.workers, w.phase = .failed) → ∃ w ∈ s'.workers, w.phase = .failed

theorem FanOutState.frame_failDispatch (hmoving : s.dispatch.ended = false) :
    DispatchFrame s s.failDispatch where
  localExec := rfl
  delegation := rfl
  workers := List.length_map _
  cdfhs := rfl
  completedParts := rfl
  moving := hmoving
  failed := by
    rintro ⟨w, hw, hfailed⟩
    exact ⟨w.dropTx, List.mem_map_of_mem hw, hfailed⟩

theorem failed_update {ws₁ ws₂ : List LambdaWorker} {w w' : LambdaWorker}
    (hphase : w'.phase = w.phase) (h : ∃ x ∈ ws₁ ++ w :: ws₂, x.phase = .failed) :
    ∃ x ∈ ws₁ ++ w' :: ws₂, x.phase = .failed := by
  obtain ⟨x, hx, hfailed⟩ := h
  rcases List.mem_append.1 hx with hx | hx
  · exact ⟨x, List.mem_append_left _ hx, hfailed⟩
  · rcases List.mem_cons.1 hx with rfl | hx
    · exact ⟨w', List.mem_append_right _ List.mem_cons_self, hphase.trans hfailed⟩
    · exact ⟨x, List.mem_append_right _ (List.mem_cons_of_mem _ hx), hfailed⟩

theorem length_update {ws₁ ws₂ : List LambdaWorker} {w w' : LambdaWorker} :
    (ws₁ ++ w' :: ws₂).length = (ws₁ ++ w :: ws₂).length := by
  rw [List.length_append, List.length_append]
  rfl

theorem DispatchStep.frame (h : DispatchStep s ev s') : DispatchFrame s s' := by
  cases h with
  | @send rest jobs k ws₁ ws₂ w hd hw hk hopen hfree =>
    refine ⟨rfl, rfl, ?_, rfl, rfl, by rw [hd]; rfl, fun hfailed => ?_⟩
    · rw [hw]
      exact length_update
    · rw [hw] at hfailed
      exact failed_update (w := w) rfl hfailed
  | @dropTx ws₁ ws₂ w hd hw =>
    refine ⟨rfl, rfl, ?_, rfl, rfl, by rw [hd]; rfl, fun hfailed => ?_⟩
    · rw [hw]
      exact length_update
    · rw [hw] at hfailed
      exact failed_update (w := w) rfl hfailed
  | noUpload hd hc => exact s.frame_failDispatch (by rw [hd]; rfl)
  | secondUpload hd hc => exact s.frame_failDispatch (by rw [hd]; rfl)
  | sendClosed hd hw hk hclosed => exact s.frame_failDispatch (by rw [hd]; rfl)
  | joinError hd hw hphase => exact s.frame_failDispatch (by rw [hd]; rfl)
  | upload hd hc => exact ⟨rfl, rfl, rfl, rfl, rfl, by rw [hd]; rfl, id⟩
  | jobs hd hc => exact ⟨rfl, rfl, rfl, rfl, rfl, by rw [hd]; rfl, id⟩
  | sent hd => exact ⟨rfl, rfl, rfl, rfl, rfl, by rw [hd]; rfl, id⟩
  | closed hd hc => exact ⟨rfl, rfl, rfl, rfl, rfl, by rw [hd]; rfl, id⟩
  | join hd hw hphase => exact ⟨rfl, rfl, rfl, rfl, rfl, by rw [hd]; rfl, id⟩
  | finish hd => exact ⟨rfl, rfl, rfl, rfl, rfl, by rw [hd]; rfl, id⟩

/-- When the dispatch task fails, what it has not sent is lost. -/
theorem FanOutState.split_failDispatch (bs : List Batch) (s : FanOutState) :
    ∃ lost : Multiset Batch,
      lost + ((s.failDispatch.workers.flatMap LambdaWorker.held : List Batch) +
        (s.failDispatch.unsent bs : List Batch) : Multiset Batch) =
        (s.workers.flatMap LambdaWorker.held : List Batch) + (s.unsent bs : List Batch) := by
  refine ⟨(s.command.toList.flatMap (LambdaExecutorCommand.unsent s.workers.length) ++
    s.dispatch.unsent : List Batch), ?_⟩
  have hheld : s.failDispatch.workers.flatMap LambdaWorker.held =
      s.workers.flatMap LambdaWorker.held := flatMap_held_dropTx s.workers
  have hunsent : s.failDispatch.unsent bs = if s.delegation.holdsTx then bs else [] :=
    List.append_nil _
  rw [hheld, hunsent]
  unfold FanOutState.unsent
  simp only [← Multiset.coe_add]
  abel

/-- The dispatch task moves batches on, or fails. -/
theorem DispatchStep.split (h : DispatchStep s ev s') :
    ∃ lost : Multiset Batch,
      lost + ((s'.workers.flatMap LambdaWorker.held : List Batch) +
        (s'.unsent bs : List Batch) : Multiset Batch) =
        (s.workers.flatMap LambdaWorker.held : List Batch) + (s.unsent bs : List Batch) ∧
      (lost ≠ 0 → s'.dispatch = .failed) := by
  have hfail : ∃ lost : Multiset Batch,
      lost + ((s.failDispatch.workers.flatMap LambdaWorker.held : List Batch) +
        (s.failDispatch.unsent bs : List Batch) : Multiset Batch) =
        (s.workers.flatMap LambdaWorker.held : List Batch) + (s.unsent bs : List Batch) ∧
      (lost ≠ 0 → s.failDispatch.dispatch = .failed) := by
    obtain ⟨lost, hsum⟩ := s.split_failDispatch bs
    exact ⟨lost, hsum, fun _ => rfl⟩
  cases h with
  | noUpload hd hc => exact hfail
  | secondUpload hd hc => exact hfail
  | sendClosed hd hw hk hclosed => exact hfail
  | joinError hd hw hphase => exact hfail
  | send hd hw hk hopen hfree =>
    refine ⟨0, ?_, fun h => absurd rfl h⟩
    unfold FanOutState.unsent Dispatch.unsent LambdaWorker.held
    simp only [hd, hw, hfree, List.length_append, List.length_cons, List.flatMap_append, List.flatMap_cons,
      Option.toList_none, Option.toList_some, List.append_nil, ← Multiset.coe_add,
      ← Multiset.cons_coe, ← Multiset.singleton_add, Multiset.coe_nil]
    abel
  | jobs hd hc =>
    refine ⟨0, ?_, fun h => absurd rfl h⟩
    unfold FanOutState.unsent Dispatch.unsent
    simp only [hd, hc, Option.toList_none, Option.toList_some, List.flatMap_nil,
      List.flatMap_cons, List.append_nil, List.nil_append, zero_add]
    rfl
  | dropTx hd hw =>
    refine ⟨0, ?_, fun h => absurd rfl h⟩
    unfold FanOutState.unsent Dispatch.unsent
    simp only [hd, hw, List.length_append, List.length_cons, List.flatMap_append,
      List.flatMap_cons, LambdaWorker.held_dropTx, zero_add]
  | upload hd hc =>
    refine ⟨0, ?_, fun h => absurd rfl h⟩
    unfold FanOutState.unsent Dispatch.unsent
    simp only [hd, hc, zero_add]
    rfl
  | sent hd =>
    refine ⟨0, ?_, fun h => absurd rfl h⟩
    unfold FanOutState.unsent Dispatch.unsent
    simp only [hd, zero_add]
  | closed hd hc =>
    refine ⟨0, ?_, fun h => absurd rfl h⟩
    unfold FanOutState.unsent Dispatch.unsent
    simp only [hd, zero_add]
  | join hd hw hphase =>
    refine ⟨0, ?_, fun h => absurd rfl h⟩
    unfold FanOutState.unsent Dispatch.unsent
    simp only [hd, zero_add]
  | finish hd =>
    refine ⟨0, ?_, fun h => absurd rfl h⟩
    unfold FanOutState.unsent Dispatch.unsent
    simp only [hd, zero_add]

theorem take_length {ws₁ ws₂ : List LambdaWorker} : (ws₁ ++ ws₂).take ws₁.length = ws₁ :=
  List.take_left

/-- The dispatch task joins the workers in order. -/
theorem DispatchStep.joined (h : DispatchStep s ev s') (hj : s.dispatch.Joined s.workers) :
    s'.dispatch.Joined s'.workers := by
  cases h with
  | closed hd hc => exact fun w hw => by cases hw
  | @dropTx ws₁ ws₂ w hd hw =>
    rw [hd, hw] at hj
    intro x hx
    refine hj x ?_
    rw [take_length]
    rwa [take_length] at hx
  | @join ws₁ ws₂ w hd hw hphase =>
    rw [hd, hw] at hj
    intro x hx
    dsimp only at hx
    rw [hw, List.take_length_add_append, List.take_one, List.head?_cons] at hx
    rcases List.mem_append.1 hx with hx | hx
    · refine hj x ?_
      rwa [take_length]
    · rw [List.mem_singleton.1 hx]
      exact hphase
  | finish hd =>
    rw [hd] at hj
    intro x hx
    refine hj x ?_
    rwa [List.take_length]
  | _ => trivial

theorem DispatchStep.stopped (h : DispatchStep s ev s')
    (hs : ∀ w ∈ s.workers, w.phase = .stopped → w.inbox = none) :
    ∀ w ∈ s'.workers, w.phase = .stopped → w.inbox = none := by
  have hfail : ∀ w ∈ s.failDispatch.workers, w.phase = .stopped → w.inbox = none := by
    intro x hx
    obtain ⟨w, hw, rfl⟩ := List.mem_map.1 hx
    exact hs w hw
  cases h with
  | noUpload hd hc => exact hfail
  | secondUpload hd hc => exact hfail
  | sendClosed hd hw hk hclosed => exact hfail
  | joinError hd hw hphase => exact hfail
  | @send rest jobs k ws₁ ws₂ w hd hw hk hopen hfree =>
    intro x hx hphase
    rw [hw] at hs
    rcases List.mem_append.1 hx with hx | hx
    · exact hs x (List.mem_append_left _ hx) hphase
    · rcases List.mem_cons.1 hx with rfl | hx
      · have hstopped : w.phase = .stopped := hphase
        unfold LambdaWorker.ended at hopen
        rw [hstopped] at hopen
        cases hopen
      · exact hs x (List.mem_append_right _ (List.mem_cons_of_mem _ hx)) hphase
  | @dropTx ws₁ ws₂ w hd hw =>
    intro x hx hphase
    rw [hw] at hs
    rcases List.mem_append.1 hx with hx | hx
    · exact hs x (List.mem_append_left _ hx) hphase
    · rcases List.mem_cons.1 hx with rfl | hx
      · exact hs w (List.mem_append_right _ List.mem_cons_self) hphase
      · exact hs x (List.mem_append_right _ (List.mem_cons_of_mem _ hx)) hphase
  | _ => exact hs

/-- The commands end before the dispatch task joins its workers, and stay ended. -/
theorem DispatchStep.closing (h : DispatchStep s ev s')
    (hs : s.dispatch.isClosing = true → s.NoCommand) :
    s'.dispatch.isClosing = true → s'.NoCommand := by
  intro hclosing
  cases h with
  | closed hd hc => exact hc
  | dropTx hd hw => exact hs (by rw [hd]; rfl)
  | join hd hw hphase => exact hs (by rw [hd]; rfl)
  | finish hd => exact hs (by rw [hd]; rfl)
  | _ => cases hclosing

theorem FanOutInv.dispatch (h : FanOutInv src J ch bs s) (hstep : DispatchStep s ev s') :
    FanOutInv src J ch bs s' := by
  have hframe := hstep.frame
  refine ⟨?_, hstep.stopped h.stopped, hstep.joined h.joined, hstep.closing h.closing, ?_, ?_⟩
  · obtain ⟨answered, lost, hl⟩ := h.ledger
    obtain ⟨lost', hsum, hlost⟩ := @DispatchStep.split bs s s' ev hstep
    refine ⟨answered, lost + lost', ?_, hl.good, ?_, ?_, ?_⟩
    · calc _ = ((answered.map Answer.jobs : List Batch) : Multiset Batch) + lost +
            (lost' + ((s'.workers.flatMap LambdaWorker.held : List Batch) +
              (s'.unsent bs : List Batch))) := by abel
        _ = bs := by rw [hsum, ← hl.split]; abel
    · rw [hframe.cdfhs, hl.cdfhs]
    · rw [hframe.completedParts, hl.parts]
    · intro hne
      by_cases hlost₀ : lost' = 0
      · rw [hlost₀, add_zero] at hne
        rcases hl.lost_seen hne with hd | hfailed
        · have hmoving := hframe.moving
          rw [hd] at hmoving
          cases hmoving
        · exact .inr (hframe.failed hfailed)
      · exact .inl (hlost hlost₀)
  · rw [hframe.delegation, hframe.workers]
    have hholds := h.holds
    have hnot : s.dispatch ≠ .finished := by
      intro hd
      have hmoving := hframe.moving
      rw [hd] at hmoving
      cases hmoving
    cases hdel : s.delegation with
    | sendCdfhs cdfhs partInfos =>
      rw [hdel] at hholds
      exact ⟨hholds.1, hholds.2.imp id fun hd => absurd hd hnot⟩
    | done partInfos =>
      rw [hdel] at hholds
      exact ⟨hholds.1, hholds.2.imp id fun hd => absurd hd hnot⟩
    | _ =>
      rw [hdel] at hholds
      exact hholds
  · rw [hframe.localExec, hframe.delegation]
    exact h.localInv

end

end S3Archive.JrodonV3
