import S3Archive.SebstoPy.PipelineInvariant

/-!
# sebsto Python: when the muxer ends

The muxer tests `error_box` before it waits, so a download that fails while it
waits may leave it waiting. `Fed` says when that does not happen: a fed run never
starves the muxer (`Supplied`), and a step that is not fed starves it at once
(`Barren`). `rank` bounds the length of a run.
-/

namespace S3Archive.SebstoPy

variable {ε : Type} {files : List FileInfo} {s s' : PipelineState ε} {ev : PipelineEvent}

/-! ## The muxer is supplied -/

/-- A waiting muxer has an item, or a worker that can still put one. -/
def Supplied (s : PipelineState ε) : Prop :=
  s.muxer = .getting → s.shared.doneQ ≠ [] ∨
    ∃ w ∈ s.workers, w.CanPut s.shared.workQ s.shared.stop

theorem eraseIdx_workers {ws₁ ws₂ : List Worker} {w : Worker} (h : s.workers = ws₁ ++ w :: ws₂) :
    s.workers.eraseIdx ws₁.length = ws₁ ++ ws₂ := by
  rw [h, List.eraseIdx_append_of_length_le (Nat.le_refl _), Nat.sub_self]
  rfl

theorem Supplied.worker {ws₁ ws₂ : List Worker} {w w' : Worker} {sh : Shared ε}
    {wev : WorkerEvent} (hsupplied : Supplied s) (hworkers : s.workers = ws₁ ++ w :: ws₂)
    (hstep : WorkerStep s.shared w wev sh w') (hfed : Fed s (.worker ws₁.length wev)) :
    Supplied { s with shared := sh, workers := ws₁ ++ w' :: ws₂ } := by
  intro hgetting
  have hsupplied := hsupplied hgetting
  have hself : w' ∈ ws₁ ++ w' :: ws₂ := List.mem_append_right _ List.mem_cons_self
  have hothers : ∀ x ∈ ws₁ ++ ws₂, x ∈ ws₁ ++ w' :: ws₂ := fun x hx =>
    (List.sublist_cons_self w' ws₂).append_left ws₁ |>.subset hx
  have hsplit : ∀ x ∈ s.workers, x = w ∨ x ∈ ws₁ ++ ws₂ := by
    intro x hx
    rw [hworkers] at hx
    simpa [or_left_comm] using hx
  cases hstep with
  | stopped hstop =>
    refine hsupplied.imp_right fun ⟨x, hx, hcan⟩ => ?_
    rcases hsplit x hx with rfl | hx
    · rw [hcan.1] at hstop
      cases hstop
    · exact ⟨x, hothers x hx, hcan⟩
  | goOn hstop =>
    refine hsupplied.imp_right fun ⟨x, hx, hcan⟩ => ?_
    rcases hsplit x hx with rfl | hx
    · exact ⟨_, hself, hcan.2⟩
    · exact ⟨x, hothers x hx, hcan⟩
  | take hwork => exact .inr ⟨_, hself, trivial⟩
  | takeDone hwork =>
    refine hsupplied.imp_right fun ⟨x, hx, hcan⟩ => ?_
    rw [hwork] at hcan
    rcases hsplit x hx with rfl | hx
    · obtain ⟨f, hf⟩ := hcan
      cases hf
    · -- whoever can put an item has a file
      refine ⟨x, hothers x hx, ?_⟩
      cases x with
      | looping =>
        obtain ⟨_, f, hf⟩ := hcan
        cases hf
      | taking =>
        obtain ⟨f, hf⟩ := hcan
        cases hf
      | _ => exact hcan
  | download data => exact .inr ⟨_, hself, trivial⟩
  | put hroom => exact .inl (by simp)
  | fail e =>
    by_cases hdone : s.shared.doneQ = []
    · obtain ⟨x, hx, hcan⟩ := hfed hgetting hdone
      rw [eraseIdx_workers hworkers] at hx
      exact .inr ⟨x, hothers x hx, hcan⟩
    · exact .inl hdone
  | setStop =>
    by_cases hdone : s.shared.doneQ = []
    · obtain ⟨x, hx, hcan⟩ := hfed hgetting hdone
      rw [eraseIdx_workers hworkers] at hx
      exact .inr ⟨x, hothers x hx, hcan⟩
    · exact .inl hdone

/-- Without an error, a muxer that is not through is supplied. -/
theorem PipelineInv.supplied (hinv : PipelineInv files s) (herr : s.shared.errorBox = [])
    (hmuxer : s.muxer = .looping) (hless : s.muxed.length < files.length)
    (hdone : s.shared.doneQ = []) : ∃ w ∈ s.workers, w.CanPut s.shared.workQ s.shared.stop := by
  obtain ⟨-, hpool, ⟨lost, hcount, hlost⟩, -⟩ := hinv
  by_contra hnone
  have hnot : ∀ w ∈ s.workers, ¬ w.CanPut s.shared.workQ s.shared.stop := fun w hw hcan =>
    hnone ⟨w, hw, hcan⟩
  have hrunning : s.muxer.Running := by
    rw [hmuxer]
    trivial
  have hstop : s.shared.stop = false := by
    cases h : s.shared.stop with
    | false => rfl
    | true =>
      rcases hpool.stop h with hsome | hnot
      · exact absurd herr hsome
      · exact absurd hrunning hnot
  have htodo : s.todo = s.shared.workQ := by
    unfold PipelineState.todo
    rw [hmuxer]
    exact List.append_nil _
  have hheld : s.workers.flatMap Worker.held = [] := by
    refine List.flatMap_eq_nil_iff.2 fun w hw => ?_
    have := hnot w hw
    cases w with
    | downloading f => exact absurd trivial this
    | putting f data => exact absurd trivial this
    | _ => rfl
  -- the files that are not muxed can only be on the work queue
  have hwork : ∃ f, .file f ∈ s.todo := by
    by_contra hnofile
    have hnil : s.todo.filterMap WorkItem.file? = [] := by
      refine List.filterMap_eq_nil_iff.2 fun item hitem => ?_
      cases item with
      | file f => exact absurd ⟨f, hitem⟩ hnofile
      | done => rfl
    have hperm : (s.muxed.map Prod.fst).Perm files := by
      refine List.perm_iff_count.2 fun f => ?_
      have hf := hcount f
      unfold PipelineState.onTheWay at hf
      rw [hheld, hnil, hdone, hmuxer, hlost herr hrunning] at hf
      simpa [Muxer.held] using hf
    have := hperm.length_eq
    rw [List.length_map] at this
    omega
  obtain ⟨f, hf⟩ := hwork
  have hhead : ∃ f, s.shared.workQ.head? = some (.file f) := by
    have hpairwise := hpool.work
    rw [htodo] at hf hpairwise
    cases hq : s.shared.workQ with
    | nil =>
      rw [hq] at hf
      cases hf
    | cons item rest =>
      rw [hq] at hf hpairwise
      cases item with
      | file f => exact ⟨f, rfl⟩
      | done =>
        rcases List.mem_cons.1 hf with heq | hf
        · cases heq
        · cases (List.pairwise_cons.1 hpairwise).1 _ hf rfl
  obtain ⟨w, hw⟩ := List.exists_mem_of_ne_nil _ hpool.workers
  refine hnot w hw ?_
  cases w with
  | looping => exact ⟨hstop, hhead⟩
  | taking => exact hhead
  | downloading f => trivial
  | putting f data => trivial
  | failing => exact absurd herr (hpool.failing hw)
  | returned =>
    rcases hpool.returned hw with h | h
    · rw [hstop] at h
      cases h
    · cases h _ hf

theorem Supplied.step (hinv : PipelineInv files s) (hsupplied : Supplied s)
    (h : PipelineStep s ev s') (hfed : Fed s ev) : Supplied s' := by
  cases h with
  | worker hworkers hstep => exact hsupplied.worker hworkers hstep hfed
  | check hmuxer hless herr =>
    intro _
    by_cases hdone : s.shared.doneQ = []
    · exact .inr (hinv.supplied herr hmuxer (hinv.total ▸ hless) hdone)
    · exact .inl hdone
  | drain hmuxer hdone =>
    intro hgetting
    rw [hmuxer] at hgetting
    cases hgetting
  | _ => exact fun hgetting => by cases hgetting

theorem FedRun.pipelineRun {evs : List PipelineEvent} (h : FedRun s evs s') :
    PipelineRun s evs s' := by
  induction h with
  | refl => exact .refl _
  | step _ hlast ih => exact ih.step hlast.1

theorem supplied_of_fedRun {evs : List PipelineEvent} (h : FedRun (.start files) evs s) :
    Supplied s := by
  induction h with
  | refl => exact fun hgetting => by cases hgetting
  | step hrun hlast ih => exact ih.step (pipelineInv_of_run (FedRun.pipelineRun hrun)) hlast.1 hlast.2

/-! ## A supplied muxer may get an item -/

theorem exists_put_of_step {i : Nat} (h : PipelineStep s ev s')
    (hput : ∃ evs t, PipelineRun s' evs t ∧ .worker i .put ∈ evs) :
    ∃ evs t, PipelineRun s evs t ∧ .worker i .put ∈ evs := by
  obtain ⟨evs, t, hrun, hmem⟩ := hput
  exact ⟨ev :: evs, t, hrun.cons h, List.mem_cons_of_mem _ hmem⟩

section

variable {ws₁ ws₂ : List Worker} {f : FileInfo}

theorem exists_put_of_putting {data : Bytes} (hworkers : s.workers = ws₁ ++ .putting f data :: ws₂)
    (hdone : s.shared.doneQ = []) :
    ∃ evs t, PipelineRun s evs t ∧ .worker ws₁.length .put ∈ evs := by
  have hroom : s.shared.doneQ.length < doneQueueDepth := by
    rw [hdone]
    decide
  exact ⟨_, _, (Run.refl s).step (.worker hworkers (.put hroom)), List.mem_singleton_self _⟩

theorem exists_put_of_downloading (hworkers : s.workers = ws₁ ++ .downloading f :: ws₂)
    (hdone : s.shared.doneQ = []) :
    ∃ evs t, PipelineRun s evs t ∧ .worker ws₁.length .put ∈ evs :=
  exists_put_of_step (.worker hworkers (.download [])) (exists_put_of_putting rfl hdone)

theorem exists_put_of_taking (hworkers : s.workers = ws₁ ++ .taking :: ws₂)
    (hwork : s.shared.workQ.head? = some (.file f)) (hdone : s.shared.doneQ = []) :
    ∃ evs t, PipelineRun s evs t ∧ .worker ws₁.length .put ∈ evs := by
  obtain ⟨rest, hwork⟩ := List.head?_eq_some_iff.1 hwork
  exact exists_put_of_step (.worker hworkers (.take hwork)) (exists_put_of_downloading rfl hdone)

end

theorem exists_put {w : Worker} (hw : w ∈ s.workers)
    (hcan : w.CanPut s.shared.workQ s.shared.stop) (hdone : s.shared.doneQ = []) :
    ∃ i evs t, PipelineRun s evs t ∧ .worker i .put ∈ evs := by
  obtain ⟨ws₁, ws₂, hworkers⟩ := List.append_of_mem hw
  refine ⟨ws₁.length, ?_⟩
  cases w with
  | looping =>
    obtain ⟨hstop, f, hf⟩ := hcan
    exact exists_put_of_step (.worker hworkers (.goOn hstop)) (exists_put_of_taking rfl hf hdone)
  | taking =>
    obtain ⟨f, hf⟩ := hcan
    exact exists_put_of_taking hworkers hf hdone
  | downloading f => exact exists_put_of_downloading hworkers hdone
  | putting f data => exact exists_put_of_putting hworkers hdone
  | failing => exact absurd hcan id
  | returned => exact absurd hcan id

theorem Supplied.not_starved (h : Supplied s) : ¬ Starved s := by
  rintro ⟨hgetting, hdone, hnever⟩
  rcases h hgetting with hsome | ⟨w, hw, hcan⟩
  · exact hsome hdone
  · obtain ⟨i, evs, t, hrun, hmem⟩ := exists_put hw hcan hdone
    exact hnever evs t hrun i hmem

/-! ## A muxer that is not supplied is starved -/

structure Barren (s : PipelineState ε) : Prop where
  getting : s.muxer = .getting
  doneQ : s.shared.doneQ = []
  work : s.shared.workQ.Pairwise fun item next => item = .done → next = .done
  workers : ∀ w ∈ s.workers, ¬ w.CanPut s.shared.workQ s.shared.stop

theorem Barren.step (hbarren : Barren s) (h : PipelineStep s ev s') :
    Barren s' ∧ ∀ i, ev ≠ .worker i .put := by
  obtain ⟨hgetting, hdone, hwork, hnot⟩ := hbarren
  cases h with
  | @worker ws₁ ws₂ w w' sh wev hworkers hstep =>
    have hw := hnot w (by rw [hworkers]; exact List.mem_append_right _ List.mem_cons_self)
    have hothers : ∀ x ∈ ws₁ ++ w' :: ws₂, x = w' ∨ x ∈ s.workers := fun x => mem_workers hworkers
    cases hstep with
    | stopped hstop =>
      refine ⟨⟨hgetting, hdone, hwork, fun x hx => ?_⟩, nofun⟩
      rcases hothers x hx with rfl | hx
      · exact id
      · exact hnot x hx
    | goOn hstop =>
      refine ⟨⟨hgetting, hdone, hwork, fun x hx => ?_⟩, nofun⟩
      rcases hothers x hx with rfl | hx
      · exact fun hcan => hw ⟨hstop, hcan⟩
      · exact hnot x hx
    | @take item rest h =>
      refine absurd ⟨item, ?_⟩ hw
      rw [h]
      rfl
    | @takeDone rest h =>
      rw [h] at hwork
      obtain ⟨hdones, hwork⟩ := List.pairwise_cons.1 hwork
      have hhead : ¬ ∃ f, rest.head? = some (.file f) := by
        rintro ⟨f, hf⟩
        cases hdones _ (List.mem_of_mem_head? hf) rfl
      refine ⟨⟨hgetting, hdone, hwork, fun x hx => ?_⟩, nofun⟩
      rcases hothers x hx with rfl | hx
      · exact id
      · have hx := hnot x hx
        cases x with
        | looping => exact fun hcan => hhead hcan.2
        | taking => exact hhead
        | _ => exact hx
    | download data => exact absurd trivial hw
    | put hroom => exact absurd trivial hw
    | fail e => exact absurd trivial hw
    | setStop =>
      refine ⟨⟨hgetting, hdone, hwork, fun x hx => ?_⟩, nofun⟩
      rcases hothers x hx with rfl | hx
      · exact id
      · have hx := hnot x hx
        cases x with
        | looping => exact fun hcan => by cases hcan.1
        | _ => exact hx
  | get hmuxer hget =>
    rw [hdone] at hget
    cases hget
  | raiseOther e hmuxer =>
    rw [hgetting] at hmuxer
    cases hmuxer
  | writeFails e hmuxer =>
    rw [hgetting] at hmuxer
    cases hmuxer
  | closeFails e hmuxer =>
    rw [hgetting] at hmuxer
    cases hmuxer
  | _ hmuxer =>
    rw [hgetting] at hmuxer
    cases hmuxer

theorem Barren.run {evs : List PipelineEvent} (hbarren : Barren s) (h : PipelineRun s evs s') :
    Barren s' ∧ ∀ i, .worker i .put ∉ evs := by
  induction h with
  | refl => exact ⟨hbarren, fun i => List.not_mem_nil⟩
  | step _ hlast ih =>
    obtain ⟨hbarren', hne⟩ := ih.1.step hlast
    refine ⟨hbarren', fun i hmem => ?_⟩
    rcases List.mem_append.1 hmem with hmem | hmem
    · exact ih.2 i hmem
    · exact hne i (List.mem_singleton.1 hmem).symm

theorem Barren.starved (h : Barren s) : Starved s :=
  ⟨h.getting, h.doneQ, fun _ _ hrun => (h.run hrun).2⟩

theorem not_canPut_of_not_fed {ws₁ ws₂ : List Worker} {w : Worker} {stop : Bool}
    (hworkers : s.workers = ws₁ ++ w :: ws₂) (w' : Worker) (hw' : ¬ w'.CanPut s.shared.workQ stop)
    (h : ¬ (s.muxer = .getting → s.shared.doneQ = [] → OthersCanPut s ws₁.length stop)) :
    s.muxer = .getting ∧ s.shared.doneQ = [] ∧
      ∀ x ∈ ws₁ ++ w' :: ws₂, ¬ x.CanPut s.shared.workQ stop := by
  unfold OthersCanPut at h
  rw [eraseIdx_workers hworkers] at h
  push Not at h
  obtain ⟨hgetting, hdone, hothers⟩ := h
  refine ⟨hgetting, hdone, fun x hx => ?_⟩
  rcases List.mem_append.1 hx with hx | hx
  · exact hothers x (List.mem_append_left _ hx)
  · rcases List.mem_cons.1 hx with rfl | hx
    · exact hw'
    · exact hothers x (List.mem_append_right _ hx)

/-- A step that is not fed starves the muxer. -/
theorem PoolInv.barren (hpool : PoolInv s) (h : PipelineStep s ev s') (hfed : ¬ Fed s ev) :
    Barren s' := by
  have hwork : s.muxer = .getting →
      s.shared.workQ.Pairwise fun item next => item = .done → next = .done := by
    intro hgetting
    have := hpool.work
    unfold PipelineState.todo at this
    rw [hgetting] at this
    simpa [Muxer.rest] using this
  cases h with
  | worker hworkers hstep =>
    cases hstep with
    | fail e =>
      obtain ⟨hgetting, hdone, hnot⟩ := not_canPut_of_not_fed hworkers .failing id hfed
      exact ⟨hgetting, hdone, hwork hgetting, hnot⟩
    | setStop =>
      obtain ⟨hgetting, hdone, hnot⟩ := not_canPut_of_not_fed hworkers .returned id hfed
      exact ⟨hgetting, hdone, hwork hgetting, hnot⟩
    | _ => exact absurd trivial hfed
  | _ => exact absurd trivial hfed

/-! ## Runs are bounded -/

def Worker.rank : Worker → Nat
  | looping => 2
  | taking => 1
  | downloading _ => 9
  | putting _ _ => 8
  | failing => 1
  | returned => 0

def Muxer.rank : Muxer ε → Nat
  | filling rest => 10 * rest.length + 6
  | looping => 5
  | getting => 4
  | writing _ _ => 6
  | closing => 4
  | aborting _ => 3
  | draining _ => 2
  | ended _ => 0

/-- An item's way is priced in its steps. -/
def PipelineState.rank (s : PipelineState ε) : Nat :=
  9 * s.shared.workQ.length + 5 * s.shared.doneQ.length + (s.workers.map Worker.rank).sum +
    s.muxer.rank

theorem WorkerStep.rank {sh sh' : Shared ε} {w w' : Worker} {wev : WorkerEvent}
    (h : WorkerStep sh w wev sh' w') :
    9 * sh'.workQ.length + 5 * sh'.doneQ.length + w'.rank <
      9 * sh.workQ.length + 5 * sh.doneQ.length + w.rank := by
  cases h with
  | take hwork =>
    simp only [hwork, List.length_cons, Worker.rank]
    omega
  | takeDone hwork =>
    simp only [hwork, List.length_cons, Worker.rank]
    omega
  | put hroom =>
    simp only [List.length_append, List.length_singleton, Worker.rank]
    omega
  | _ =>
    simp only [Worker.rank]
    omega

theorem PipelineStep.rank (h : PipelineStep s ev s') : s'.rank < s.rank := by
  unfold PipelineState.rank
  cases h with
  | worker hworkers hstep =>
    have := hstep.rank
    rw [hworkers]
    simp only [List.map_append, List.map_cons, List.sum_append, List.sum_cons]
    omega
  | fill hmuxer =>
    simp only [hmuxer, Muxer.rank, List.length_append, List.length_cons, List.length_nil]
    omega
  | get hmuxer hdone =>
    simp only [hmuxer, hdone, Muxer.rank, List.length_cons]
    omega
  | drain hmuxer hdone =>
    simp only [hdone, List.length_cons]
    omega
  | raiseOther e hmuxer =>
    simp only [hmuxer, Muxer.rank]
    omega
  | writeFails e hmuxer =>
    simp only [hmuxer, Muxer.rank]
    omega
  | closeFails e hmuxer =>
    simp only [hmuxer, Muxer.rank]
    omega
  | _ hmuxer =>
    simp only [hmuxer, Muxer.rank]
    omega

/-! ## When the muxer ends -/

/-- A thread that is not through has a step, unless the muxer waits for an item. -/
theorem PipelineState.progress (s : PipelineState ε) :
    (∃ r, s.muxer = .ended r) ∨ (s.muxer = .getting ∧ s.shared.doneQ = []) ∨
      ∃ s', PipelineStep s .main s' := by
  cases hmuxer : s.muxer with
  | filling rest =>
    cases rest with
    | nil => exact .inr (.inr ⟨_, .filled hmuxer⟩)
    | cons item rest => exact .inr (.inr ⟨_, .fill hmuxer⟩)
  | looping =>
    refine .inr (.inr ?_)
    rcases Nat.lt_or_ge s.muxed.length s.total with hless | hall
    · cases herr : s.shared.errorBox with
      | nil => exact ⟨_, .check hmuxer hless herr⟩
      | cons e es => exact ⟨_, .raise hmuxer hless herr⟩
    · exact ⟨_, .allMuxed hmuxer hall⟩
  | getting =>
    cases hdone : s.shared.doneQ with
    | nil => exact .inr (.inl ⟨rfl, rfl⟩)
    | cons x rest => exact .inr (.inr ⟨_, .get hmuxer hdone⟩)
  | writing file data => exact .inr (.inr ⟨_, .write hmuxer⟩)
  | closing => exact .inr (.inr ⟨_, .complete hmuxer⟩)
  | aborting e => exact .inr (.inr ⟨_, .abort hmuxer⟩)
  | draining outcome =>
    cases hdone : s.shared.doneQ with
    | nil => exact .inr (.inr ⟨_, .drained hmuxer hdone⟩)
    | cons x rest => exact .inr (.inr ⟨_, .drain hmuxer hdone⟩)
  | ended outcome => exact .inl ⟨outcome, rfl⟩

structure EndsOnFailure (ε : Type) (files : List FileInfo) : Prop where
  /-- A fed run never starves the muxer. -/
  fed : ∀ evs (s : PipelineState ε), FedRun (.start files) evs s → ¬ Starved s
  /-- A step that is not fed does. -/
  unfed : ∀ evs (s : PipelineState ε), PipelineRun (.start files) evs s →
    ∀ ev s', PipelineStep s ev s' → ¬ Fed s ev → Starved s'
  /-- Where a fed run cannot go on, the handler has ended. -/
  ends : ∀ evs (s : PipelineState ε), FedRun (.start files) evs s →
    (∀ ev s', ¬ PipelineStep s ev s') → ∃ outcome, s.muxer = .ended outcome
  bounded : ∀ evs (s : PipelineState ε), PipelineRun (.start files) evs s →
    evs.length ≤ (PipelineState.start files : PipelineState ε).rank
  /-- It ends with every file in the archive, or with an exception and the upload aborted. -/
  completed : ∀ evs (s : PipelineState ε), PipelineRun (.start files) evs s →
    s.muxer = .ended (.ok ()) → ∃ entries, s.archive = some entries ∧
      (entries.map Prod.fst).Perm files
  raised : ∀ evs (s : PipelineState ε) e, PipelineRun (.start files) evs s →
    s.muxer = .ended (.error e) → s.archive = none ∧ s.aborted = true

theorem createArchive_endsOnFailure (ε : Type) (files : List FileInfo) :
    EndsOnFailure ε files where
  fed _ _ hrun := (supplied_of_fedRun hrun).not_starved
  unfed _ _ hrun _ _ hstep hfed := ((pipelineInv_of_run hrun).pool.barren hstep hfed).starved
  ends evs s hrun hmax := by
    rcases s.progress with hended | ⟨hgetting, hdone⟩ | ⟨s', hstep⟩
    · exact hended
    · rcases supplied_of_fedRun hrun hgetting with hsome | ⟨w, hw, hcan⟩
      · exact absurd hdone hsome
      · obtain ⟨i, evs', t, hrun', hmem⟩ := exists_put hw hcan hdone
        obtain ⟨rfl, -⟩ := hrun'.eq_nil_of_stuck hmax
        cases hmem
    · exact absurd hstep (hmax _ _)
  bounded evs s hrun := by
    have := @Run.length_le _ _ _ _ _ _ (fun _ => True) PipelineState.rank hrun trivial
      (fun _ _ _ _ _ => trivial) fun _ _ _ _ hstep => hstep.rank
    omega
  completed evs s hrun hended := by
    have houtcome := (pipelineInv_of_run hrun).outcome
    unfold OutcomeOk at houtcome
    rwa [hended] at houtcome
  raised evs s e hrun hended := by
    have houtcome := (pipelineInv_of_run hrun).outcome
    unfold OutcomeOk at houtcome
    rwa [hended] at houtcome

theorem exists_filled {rest : List WorkItem} (hmuxer : s.muxer = .filling rest) :
    ∃ evs, PipelineRun s evs
      { s with shared.workQ := s.shared.workQ ++ rest, muxer := .filling [] } := by
  induction rest generalizing s with
  | nil =>
    refine ⟨[], ?_⟩
    rw [List.append_nil, ← hmuxer]
    exact .refl s
  | cons item rest ih =>
    have hstep := PipelineStep.fill hmuxer
    obtain ⟨evs, hrun⟩ := @ih { s with
      shared.workQ := s.shared.workQ ++ [item], muxer := .filling rest } rfl
    refine ⟨.main :: evs, ?_⟩
    have hwork : s.shared.workQ ++ item :: rest = s.shared.workQ ++ [item] ++ rest := by simp
    rw [hwork]
    exact hrun.cons hstep

/-- The one download fails while the muxer waits for it. -/
theorem muxer_starves : ¬ ∀ evs (s : PipelineState String),
    PipelineRun (.start [⟨"a", "p/a", 1⟩]) evs s → ¬ Starved s := by
  intro hnever
  obtain ⟨evs, hfilled⟩ :=
    @exists_filled String (.start [⟨"a", "p/a", 1⟩]) (PipelineState.work [⟨"a", "p/a", 1⟩]) rfl
  have hwaits := (hfilled.step (.filled rfl)).step (.check rfl (by decide) rfl)
  have hpolled := hwaits.step
    (@PipelineStep.worker _ _ [] (List.replicate 15 .looping) _ _ _ _ rfl (.goOn rfl))
  have htaken := hpolled.step (@PipelineStep.worker _ _ [] _ _ _ _ _ rfl (.take rfl))
  have hfailed := htaken.step (@PipelineStep.worker _ _ [] _ _ _ _ _ rfl (.fail "NoSuchKey"))
  refine hnever _ _ hfailed (Barren.starved ⟨rfl, rfl, ?_, fun w hw => ?_⟩)
  · exact List.pairwise_replicate.2 (.inr fun _ => rfl)
  · rcases List.mem_cons.1 hw with rfl | hw
    · exact id
    · rw [List.eq_of_mem_replicate hw]
      rintro ⟨-, f, hf⟩
      cases hf

end S3Archive.SebstoPy
