import Mathlib.Data.List.Perm.Subperm
import S3Archive.SebstoPy.Pipeline

/-!
# sebsto Python: what a run keeps

`PoolInv` is about the work queue and the pool: the sentinels come last, and a
worker returns only when it has taken one or `stop` is set. `Conserved` counts the
files on their way to the archive, none of which is lost without an error.
`OutcomeOk` says with what the handler ends. `PipelineInv` is all of these.
-/

namespace S3Archive.SebstoPy

variable {ε : Type} {files : List FileInfo} {s s' : PipelineState ε} {ev : PipelineEvent}

/-! ## The work queue -/

namespace Muxer

/-- What is still to be put on the work queue. -/
def rest : Muxer ε → List WorkItem
  | filling rest => rest
  | _ => []

/-- No exception has been raised and the loop is not over. -/
def Running : Muxer ε → Prop
  | filling _ => True
  | looping => True
  | getting => True
  | writing _ _ => True
  | _ => False

end Muxer

def PipelineState.todo (s : PipelineState ε) : List WorkItem := s.shared.workQ ++ s.muxer.rest

/-- What a run keeps of the work queue and the pool. -/
structure PoolInv (s : PipelineState ε) : Prop where
  /-- The sentinels come last. -/
  work : s.todo.Pairwise fun item next => item = .done → next = .done
  workers : s.workers ≠ []
  returned : .returned ∈ s.workers → s.shared.stop = true ∨ ∀ item ∈ s.todo, item = .done
  failing : .failing ∈ s.workers → s.shared.errorBox ≠ []
  stop : s.shared.stop = true → s.shared.errorBox ≠ [] ∨ ¬ s.muxer.Running

theorem pairwise_work (files : List FileInfo) :
    (PipelineState.work files).Pairwise fun item next => item = .done → next = .done := by
  unfold PipelineState.work
  refine List.pairwise_append.2 ⟨?_, ?_, ?_⟩
  · rw [List.pairwise_map]
    exact List.pairwise_of_forall fun _ _ h => by cases h
  · exact List.pairwise_replicate.2 (.inr fun _ => rfl)
  · intro item hitem next hnext _
    exact List.eq_of_mem_replicate hnext

theorem poolInv_start (files : List FileInfo) :
    PoolInv (PipelineState.start files : PipelineState ε) := by
  refine ⟨pairwise_work files, ?_, fun h => ?_, fun h => ?_, fun h => ?_⟩
  · simp [PipelineState.start, maxDownloadWorkers]
  · cases List.eq_of_mem_replicate h
  · cases List.eq_of_mem_replicate h
  · cases h

theorem mem_workers {ws₁ ws₂ : List Worker} {w w' x : Worker}
    (hworkers : s.workers = ws₁ ++ w :: ws₂) (hx : x ∈ ws₁ ++ w' :: ws₂) :
    x = w' ∨ x ∈ s.workers := by
  rw [hworkers]
  rcases List.mem_append.1 hx with hx | hx
  · exact .inr (List.mem_append_left _ hx)
  · exact (List.mem_cons.1 hx).imp_right fun hx =>
      List.mem_append_right _ (List.mem_cons_of_mem _ hx)

/-- A step of one worker, seen from the pool. -/
theorem PoolInv.worker {ws₁ ws₂ : List Worker} {w w' : Worker} {sh : Shared ε} {wev : WorkerEvent}
    (hinv : PoolInv s) (hworkers : s.workers = ws₁ ++ w :: ws₂)
    (hstep : WorkerStep s.shared w wev sh w') :
    PoolInv { s with shared := sh, workers := ws₁ ++ w' :: ws₂ } := by
  obtain ⟨hwork, hne, hreturned, hfailing, hstop⟩ := hinv
  have hmem : ∀ x ∈ ws₁ ++ w' :: ws₂, x = w' ∨ x ∈ s.workers := fun x => mem_workers hworkers
  have hne' : ws₁ ++ w' :: ws₂ ≠ [] := by simp
  have hw : w ∈ s.workers := by
    rw [hworkers]
    exact List.mem_append_right _ List.mem_cons_self
  unfold PipelineState.todo at hwork hreturned
  cases hstep with
  | stopped h =>
    refine ⟨hwork, hne', fun _ => .inl h, fun hx => ?_, hstop⟩
    exact (hmem _ hx).elim (fun heq => by cases heq) hfailing
  | goOn h =>
    refine ⟨hwork, hne', fun hx => ?_, fun hx => ?_, hstop⟩
    · exact (hmem _ hx).elim (fun heq => by cases heq) hreturned
    · exact (hmem _ hx).elim (fun heq => by cases heq) hfailing
  | @take item rest h =>
    rw [h] at hwork hreturned
    refine ⟨(List.pairwise_cons.1 hwork).2, hne', fun hx => ?_, fun hx => ?_, hstop⟩
    · rcases hmem _ hx with heq | hx
      · cases heq
      · exact (hreturned hx).imp_right fun hall x hx => hall x (List.mem_cons_of_mem _ hx)
    · exact (hmem _ hx).elim (fun heq => by cases heq) hfailing
  | @takeDone rest h =>
    rw [h] at hwork
    obtain ⟨hdone, hwork⟩ := List.pairwise_cons.1 hwork
    refine ⟨hwork, hne', fun hx => .inr fun x hx => hdone x hx rfl, fun hx => ?_, hstop⟩
    exact (hmem _ hx).elim (fun heq => by cases heq) hfailing
  | download data =>
    refine ⟨hwork, hne', fun hx => ?_, fun hx => ?_, hstop⟩
    · exact (hmem _ hx).elim (fun heq => by cases heq) hreturned
    · exact (hmem _ hx).elim (fun heq => by cases heq) hfailing
  | put h =>
    refine ⟨hwork, hne', fun hx => ?_, fun hx => ?_, hstop⟩
    · exact (hmem _ hx).elim (fun heq => by cases heq) hreturned
    · exact (hmem _ hx).elim (fun heq => by cases heq) hfailing
  | fail e =>
    have herr : s.shared.errorBox ++ [e] ≠ [] := by simp
    refine ⟨hwork, hne', fun hx => ?_, fun _ => herr, fun _ => .inl herr⟩
    exact (hmem _ hx).elim (fun heq => by cases heq) hreturned
  | setStop =>
    exact ⟨hwork, hne', fun _ => .inl rfl, fun _ => hfailing hw, fun _ => .inl (hfailing hw)⟩

/-- What a step of the main thread leaves alone. -/
structure MainFrame (s s' : PipelineState ε) : Prop where
  todo : s'.todo = s.todo
  workers : s'.workers = s.workers
  errorBox : s'.shared.errorBox = s.shared.errorBox
  stop : s.shared.stop = true → s'.shared.stop = true
  stop' : s'.shared.stop = true → s.shared.stop = true ∨ ¬ s'.muxer.Running
  running : s'.muxer.Running → s.muxer.Running

theorem PipelineStep.mainFrame (h : PipelineStep s .main s') : MainFrame s s' := by
  cases h <;> constructor <;>
    simp_all [PipelineState.todo, Muxer.rest, Muxer.Running]

theorem PoolInv.step (hinv : PoolInv s) (h : PipelineStep s ev s') : PoolInv s' := by
  cases ev with
  | worker i wev =>
    cases h with
    | worker hworkers hstep => exact hinv.worker hworkers hstep
  | main =>
    have hframe := h.mainFrame
    refine ⟨?_, ?_, fun hmem => ?_, fun hmem => ?_, fun hstop => ?_⟩
    · rw [hframe.todo]
      exact hinv.work
    · rw [hframe.workers]
      exact hinv.workers
    · rw [hframe.workers] at hmem
      rw [hframe.todo]
      exact (hinv.returned hmem).imp_left hframe.stop
    · rw [hframe.workers] at hmem
      rw [hframe.errorBox]
      exact hinv.failing hmem
    · rw [hframe.errorBox]
      rcases hframe.stop' hstop with hstop | hnot
      · exact (hinv.stop hstop).imp_right fun hnot hrunning => hnot (hframe.running hrunning)
      · exact .inr hnot

/-! ## No file is lost -/

def WorkItem.file? : WorkItem → Option FileInfo
  | .file f => some f
  | .done => none

def Worker.held : Worker → List FileInfo
  | downloading f => [f]
  | putting f _ => [f]
  | _ => []

def Muxer.held : Muxer ε → List FileInfo
  | writing f _ => [f]
  | _ => []

/-- The files on the queues and in the worker's hands. -/
def Shared.onTheWay (sh : Shared ε) (w : Worker) : List FileInfo :=
  sh.doneQ.map Prod.fst ++ w.held ++ sh.workQ.filterMap WorkItem.file?

/-- The files on the way to the archive. -/
def PipelineState.onTheWay (s : PipelineState ε) : List FileInfo :=
  s.muxed.map Prod.fst ++ s.muxer.held ++ s.shared.doneQ.map Prod.fst ++
    s.workers.flatMap Worker.held ++ s.todo.filterMap WorkItem.file?

/-- Without an error, all files are on the way. -/
def Conserved (files : List FileInfo) (s : PipelineState ε) : Prop :=
  ∃ lost, (∀ f, s.onTheWay.count f + lost.count f = files.count f) ∧
    (s.shared.errorBox = [] → s.muxer.Running → lost = [])

theorem conserved_start (files : List FileInfo) :
    Conserved files (PipelineState.start files : PipelineState ε) := by
  have hwork : (PipelineState.work files).filterMap WorkItem.file? = files := by
    unfold PipelineState.work
    have hfile : WorkItem.file? ∘ WorkItem.file = some := rfl
    rw [List.filterMap_append, List.filterMap_map, hfile, List.filterMap_some,
      List.filterMap_replicate_of_none rfl, List.append_nil]
  have hheld : (List.replicate maxDownloadWorkers Worker.looping).flatMap Worker.held = [] := rfl
  refine ⟨[], fun f => ?_, fun _ _ => rfl⟩
  show (((([] ++ []) ++ []) ++ (List.replicate maxDownloadWorkers Worker.looping).flatMap
    Worker.held) ++ (PipelineState.work files).filterMap WorkItem.file?).count f + 0 = _
  rw [hheld, hwork]
  rfl

theorem WorkerStep.count_onTheWay {sh sh' : Shared ε} {w w' : Worker} {wev : WorkerEvent}
    (h : WorkerStep sh w wev sh' w') :
    ∃ lost, (∀ f, (sh'.onTheWay w').count f + lost.count f = (sh.onTheWay w).count f) ∧
      (sh'.errorBox = [] → sh.errorBox = [] ∧ lost = []) := by
  cases h with
  | stopped => exact ⟨[], fun f => rfl, fun h => ⟨h, rfl⟩⟩
  | goOn => exact ⟨[], fun f => rfl, fun h => ⟨h, rfl⟩⟩
  | take hwork =>
    refine ⟨[], fun f => ?_, fun h => ⟨h, rfl⟩⟩
    unfold Shared.onTheWay
    rw [hwork]
    simp [Worker.held, WorkItem.file?, List.count_cons]
  | takeDone hwork =>
    refine ⟨[], fun f => ?_, fun h => ⟨h, rfl⟩⟩
    unfold Shared.onTheWay
    rw [hwork]
    rfl
  | download => exact ⟨[], fun f => rfl, fun h => ⟨h, rfl⟩⟩
  | put =>
    refine ⟨[], fun f => ?_, fun h => ⟨h, rfl⟩⟩
    unfold Shared.onTheWay
    simp [Worker.held]
  | @fail item e =>
    refine ⟨[item], fun f => ?_, fun h => absurd h (by simp)⟩
    unfold Shared.onTheWay
    simp [Worker.held, List.count_cons]
    omega
  | setStop => exact ⟨[], fun f => rfl, fun h => ⟨h, rfl⟩⟩

theorem PipelineStep.count_onTheWay (h : PipelineStep s .main s') :
    ∃ lost, (∀ f, s'.onTheWay.count f + lost.count f = s.onTheWay.count f) ∧
      (s'.muxer.Running → lost = []) := by
  have htodo := h.mainFrame.todo
  unfold PipelineState.onTheWay
  rw [htodo]
  cases h with
  | @get file data rest hmuxer hdone =>
    refine ⟨[], fun f => ?_, fun _ => rfl⟩
    rw [hmuxer, hdone]
    simp [Muxer.held]
  | write hmuxer =>
    refine ⟨[], fun f => ?_, fun _ => rfl⟩
    rw [hmuxer]
    simp [Muxer.held]
  | @writeFails file data e hmuxer =>
    refine ⟨[file], fun f => ?_, fun h => absurd h id⟩
    rw [hmuxer]
    simp [Muxer.held, List.count_cons]
    omega
  | @drain outcome x rest hmuxer hdone =>
    refine ⟨[x.1], fun f => ?_, fun h => ?_⟩
    · rw [hdone]
      simp [List.count_cons]
      omega
    · rw [hmuxer] at h
      exact absurd h id
  | raiseOther e hmuxer =>
    refine ⟨[], fun f => ?_, fun _ => rfl⟩
    rw [hmuxer]
    rfl
  | closeFails e hmuxer =>
    refine ⟨[], fun f => ?_, fun _ => rfl⟩
    rw [hmuxer]
    rfl
  | _ hmuxer =>
    refine ⟨[], fun f => ?_, fun _ => rfl⟩
    rw [hmuxer]
    rfl

theorem Conserved.step (hinv : Conserved files s) (h : PipelineStep s ev s') :
    Conserved files s' := by
  obtain ⟨lost, hcount, hlost⟩ := hinv
  cases ev with
  | worker i wev =>
    unfold PipelineState.onTheWay PipelineState.todo at hcount
    cases h with
    | worker hworkers hstep =>
      obtain ⟨lost', hcount', hlost'⟩ := hstep.count_onTheWay
      refine ⟨lost ++ lost', fun f => ?_, fun herr hrunning => ?_⟩
      · have h₁ := hcount f
        have h₂ := hcount' f
        rw [hworkers] at h₁
        unfold Shared.onTheWay at h₂
        unfold PipelineState.onTheWay PipelineState.todo
        simp only [List.count_append, List.flatMap_append, List.flatMap_cons,
          List.filterMap_append] at h₁ h₂ ⊢
        omega
      · obtain ⟨herr, rfl⟩ := hlost' herr
        rw [hlost herr hrunning]
        rfl
  | main =>
    have hframe := h.mainFrame
    obtain ⟨lost', hcount', hlost'⟩ := h.count_onTheWay
    refine ⟨lost ++ lost', fun f => ?_, fun herr hrunning => ?_⟩
    · have h₁ := hcount f
      have h₂ := hcount' f
      rw [List.count_append]
      omega
    · rw [hframe.errorBox] at herr
      rw [hlost herr (hframe.running hrunning), hlost' hrunning]
      rfl

/-! ## What a run keeps -/

def OutcomeOk (files : List FileInfo) (s : PipelineState ε) : Prop :=
  match s.muxer with
  | .getting => s.archive = none ∧ s.muxed.length < files.length
  | .closing => s.archive = none ∧ files.length ≤ s.muxed.length
  | .draining (.ok _) | .ended (.ok _) =>
    ∃ entries, s.archive = some entries ∧ (entries.map Prod.fst).Perm files
  | .draining (.error _) | .ended (.error _) => s.archive = none ∧ s.aborted = true
  | _ => s.archive = none

structure PipelineInv (files : List FileInfo) (s : PipelineState ε) : Prop where
  total : s.total = files.length
  pool : PoolInv s
  conserved : Conserved files s
  outcome : OutcomeOk files s

theorem Conserved.muxed_perm (h : Conserved files s) (hall : files.length ≤ s.muxed.length) :
    (s.muxed.map Prod.fst).Perm files := by
  obtain ⟨lost, hcount, -⟩ := h
  refine List.Subperm.perm_of_length_le ?_ (by rwa [List.length_map])
  refine List.subperm_ext_iff.2 fun f _ => ?_
  have hf := hcount f
  unfold PipelineState.onTheWay at hf
  simp only [List.count_append] at hf
  omega

theorem OutcomeOk.step (hinv : PipelineInv files s) (h : PipelineStep s ev s') :
    OutcomeOk files s' := by
  obtain ⟨htotal, -, hconserved, houtcome⟩ := hinv
  unfold OutcomeOk at houtcome
  cases h with
  | worker hworkers hstep => exact houtcome
  | drain hmuxer hdone => exact houtcome
  | check hmuxer hless herr =>
    rw [hmuxer] at houtcome
    exact ⟨houtcome, htotal ▸ hless⟩
  | allMuxed hmuxer hall =>
    rw [hmuxer] at houtcome
    exact ⟨houtcome, htotal ▸ hall⟩
  | complete hmuxer =>
    rw [hmuxer] at houtcome
    exact ⟨s.muxed, rfl, hconserved.muxed_perm houtcome.2⟩
  | abort hmuxer =>
    rw [hmuxer] at houtcome
    exact ⟨houtcome, rfl⟩
  | get hmuxer hdone =>
    rw [hmuxer] at houtcome
    exact houtcome.1
  | closeFails e hmuxer =>
    rw [hmuxer] at houtcome
    exact houtcome.1
  | @drained outcome hmuxer hdone =>
    rw [hmuxer] at houtcome
    cases outcome with
    | ok => exact houtcome
    | error e => exact houtcome
  | raiseOther e hmuxer hless herr =>
    rw [hmuxer] at houtcome
    exact houtcome
  | writeFails e hmuxer =>
    rw [hmuxer] at houtcome
    exact houtcome
  | _ hmuxer =>
    rw [hmuxer] at houtcome
    exact houtcome

theorem PipelineStep.total_eq (h : PipelineStep s ev s') : s'.total = s.total := by
  cases h <;> rfl

theorem PipelineInv.step (hinv : PipelineInv files s) (h : PipelineStep s ev s') :
    PipelineInv files s' :=
  ⟨h.total_eq.trans hinv.total, hinv.pool.step h, hinv.conserved.step h, .step hinv h⟩

theorem pipelineInv_of_run {evs : List PipelineEvent} (h : PipelineRun (.start files) evs s) :
    PipelineInv files s :=
  h.invariant ⟨rfl, poolInv_start files, conserved_start files, rfl⟩
    fun _ _ _ hinv hstep => hinv.step hstep

end S3Archive.SebstoPy
