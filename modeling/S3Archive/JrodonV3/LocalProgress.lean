import S3Archive.JrodonV3.LocalInvariant

/-!
# jrodon-v3: progress of local execution

When every budget can be granted and the directory is in the last job, some step
is enabled in every state that is not finished (`LocalInv.progress`), and the
steps are bounded (`LocalInv.length_le`). The job that waits for headers holds
permits only when no other job is waiting for any
(`LocalInv.queue_nil_of_directory`).
-/

namespace S3Archive.JrodonV3

/-- Only the last job may have a directory element. -/
def DirectoryLast (jobs : List PartJob) : Prop :=
  ∀ job ∈ jobs.dropLast, ∀ e ∈ job.elems, e.isEntry

/-- Every request for permits is within the total. -/
def Grantable (jobs : List PartJob) : Prop :=
  ∀ job ∈ jobs, job.memoryBudgetNeeded ≤ maxPartJobTasksMemory

section

variable {src : Source} {J : JobSet} {outer : Multiset CentralDirectoryFileHeader}
  {s s' : LocalState}

/-- Once the job with the directory has its permits, every other job has had them. -/
theorem LocalInv.queue_nil_of_directory (h : LocalInv src J outer s) (hlast : DirectoryLast J.jobs)
    {r : RunningJob} (hr : r ∈ s.running) {t : Task} (ht : t ∈ r.tasks)
    (hdir : t.elem.isEntry = false) : s.queue = [] := by
  by_cases hq : s.queue = []
  · exact hq
  · obtain ⟨admitted, ended, hl⟩ := h.ledger
    have hadm : r.job ∈ admitted := by
      refine hl.split.subset (List.mem_append_right _ ?_)
      exact List.mem_map_of_mem hr
    have hmem : r.job ∈ J.jobs.dropLast := by
      rw [hl.in_order, List.dropLast_append_of_ne_nil hq]
      exact List.mem_append_left _ hadm
    have helem : t.elem ∈ r.job.elems := by
      rw [← h.elems r hr]
      exact List.mem_map_of_mem ht
    rw [hlast _ hmem _ helem] at hdir
    cases hdir

/-! ## Enabled steps -/

/-- A fitting task has a sender, is over, or collects headers. -/
theorem Task.Fits.cases_state {dir sent : List CentralDirectoryFileHeader} {failed : Bool} {t : Task}
    (h : t.Fits src dir sent failed) :
    t.holdsSender = true ∨ (t.slice?.isSome ∨ t.isFailed) ∨
      ∃ total eocd ch k m, t = ⟨.centralDirectory total eocd ch, .collecting k m⟩ := by
  obtain ⟨elem, state⟩ := t
  cases elem with
  | entryFromS3 e =>
    rcases h with h | h | h | h <;> (obtain rfl : state = _ := h)
    · exact .inl rfl
    · exact .inl rfl
    · exact .inr (.inl (.inl rfl))
    · exact .inr (.inl (.inr rfl))
  | centralDirectory total eocd ch =>
    rcases h with ⟨k, _, h⟩ | ⟨m, h, _⟩ <;> (obtain rfl : state = _ := h)
    · exact .inr (.inr ⟨_, _, _, _, _, rfl⟩)
    · exact .inr (.inl (.inl rfl))

theorem exists_taskStep_of_holdsSender (src : Source) (senders : Bool) (c : Channel) {t : Task}
    (h : t.holdsSender = true) :
    ∃ ev c' t', TaskStep src senders c t ev c' t' ∧ ev.isFault = false := by
  obtain ⟨elem, state⟩ := t
  cases elem with
  | centralDirectory total eocd ch => cases h
  | entryFromS3 e =>
    cases state with
    | fetching =>
      by_cases hopen : c.receiver = true
      · exact ⟨_, _, _, .respond hopen, rfl⟩
      · exact ⟨_, _, _, .sendClosed (Bool.eq_false_iff.2 hopen), rfl⟩
    | streaming => exact ⟨_, _, _, .write, rfl⟩
    | _ => cases h

/-- A collecting task receives a header, or sees that the channel is closed. -/
theorem exists_taskStep_of_collecting (src : Source) (c : Channel) (total ch k : Nat)
    (eocd : EndOfCentralDirectory64) (m : Std.TreeMap Nat CentralDirectoryFileHeader) :
    ∃ ev c' t', TaskStep src false c ⟨.centralDirectory total eocd ch, .collecting k m⟩ ev c' t' ∧
      ev.isFault = false := by
  rcases Nat.lt_or_ge k c.sent.length with hk | hk
  · have hnext : c.sent[k]? = some c.sent[k] := List.getElem?_eq_getElem hk
    by_cases hlast : eocd.recordCount = (m.insert c.sent[k].locOffset c.sent[k]).size
    · exact ⟨_, _, _, .receiveLast hnext hlast, rfl⟩
    · exact ⟨_, _, _, .receive hnext hlast, rfl⟩
  · exact ⟨_, _, _, .close hk rfl, rfl⟩

theorem exists_jobEnd (src : Source) {r : RunningJob} (hover : ∀ t ∈ r.tasks, t.slice?.isSome ∨ t.isFailed) :
    ∃ ev content, JobEnd src r ev content ∧ ev.isFault = false := by
  cases htype : r.job.partJobType with
  | copy source range =>
    cases hrange : copyBytes (src.body source.bucketName source.key) range with
    | none => exact ⟨_, _, .copyRejected htype hrange, rfl⟩
    | some content => exact ⟨_, _, .copy htype hrange, rfl⟩
  | upload elems =>
    have hup : r.job.isCopy = false := by
      unfold PartJob.isCopy
      rw [htype]
    by_cases hfail : ∃ t ∈ r.tasks, t.isFailed
    · exact ⟨_, _, .joinError hup hover hfail, rfl⟩
    · refine ⟨_, _, .upload hup fun t ht => ?_, rfl⟩
      rcases hover t ht with h | h
      · exact h
      · exact absurd ⟨t, ht, h⟩ hfail

/-- Local execution waits only for answers of S3. -/
theorem LocalInv.progress (h : LocalInv src J outer s) (hlast : DirectoryLast J.jobs)
    (hbudget : Grantable J.jobs) (hout : s.channel.outside = false) (hnot : ¬ s.Finished) :
    ∃ ev s', LocalStep src s ev s' ∧ ev.isFault = false := by
  by_cases hsender : ∃ r ∈ s.running, ∃ t ∈ r.tasks, t.holdsSender = true
  · -- an entry moves on
    obtain ⟨r, hr, t, ht, hhold⟩ := hsender
    obtain ⟨rs₁, rs₂, hrun⟩ := List.append_of_mem hr
    obtain ⟨ts₁, ts₂, htasks⟩ := List.append_of_mem ht
    obtain ⟨ev, c', t', hstep, hev⟩ := exists_taskStep_of_holdsSender src
      s.sendersAlive s.channel hhold
    obtain ⟨job, tasks⟩ := r
    obtain rfl : tasks = ts₁ ++ t :: ts₂ := htasks
    exact ⟨ev, _, .task hrun hstep, hev⟩
  by_cases hdone : ∃ r ∈ s.running, ∀ t ∈ r.tasks, t.slice?.isSome ∨ t.isFailed
  · -- a job ends
    obtain ⟨r, hr, hover⟩ := hdone
    obtain ⟨rs₁, rs₂, hrun⟩ := List.append_of_mem hr
    obtain ⟨ev, content, hend, hev⟩ := exists_jobEnd src hover
    exact ⟨ev, _, .finish hrun hend, hev⟩
  cases hrun : s.running with
  | nil =>
    -- all permits are free for the next job
    have hpermits := h.permits
    rw [hrun, List.map_nil, List.sum_nil, Nat.add_zero] at hpermits
    cases hq : s.queue with
    | nil => exact absurd ⟨hq, hrun⟩ hnot
    | cons job rest =>
      obtain ⟨admitted, ended, hl⟩ := h.ledger
      have hjob : job ∈ J.jobs := by
        rw [hl.in_order, hq]
        exact List.mem_append_right _ List.mem_cons_self
      exact ⟨.acquire, _, .acquire hq (hpermits ▸ hbudget job hjob), rfl⟩
  | cons r rs =>
    -- some task collects, and nobody can send any more
    have hr : r ∈ s.running := hrun ▸ List.mem_cons_self
    have hstate : ∃ t ∈ r.tasks, ∃ total eocd ch k m,
        t = ⟨.centralDirectory total eocd ch, .collecting k m⟩ := by
      by_contra hno
      refine hdone ⟨r, hr, fun t ht => ?_⟩
      rcases (h.fits r hr t ht).cases_state with hs | hover | hcollect
      · exact absurd ⟨r, hr, t, ht, hs⟩ hsender
      · exact hover
      · exact absurd ⟨t, ht, hcollect⟩ hno
    obtain ⟨t, ht, total, eocd, ch, k, m, rfl⟩ := hstate
    have hq := h.queue_nil_of_directory hlast hr ht rfl
    have halive : s.sendersAlive = false := by
      unfold LocalState.sendersAlive
      rw [hout, hq]
      simp only [List.any_nil, Bool.or_false, Bool.false_or, List.any_eq_false]
      intro r' hr' hany
      obtain ⟨t', ht', hhold⟩ := List.any_eq_true.1 hany
      exact hsender ⟨r', hr', t', ht', hhold⟩
    obtain ⟨ev, c', t', hstep, hev⟩ := exists_taskStep_of_collecting src s.channel total ch k eocd m
    rw [← halive] at hstep
    obtain ⟨ts₁, ts₂, htasks⟩ := List.append_of_mem ht
    obtain ⟨job, tasks⟩ := r
    obtain rfl : tasks = ts₁ ++ _ :: ts₂ := htasks
    exact ⟨ev, _, @LocalStep.task _ _ [] _ _ _ _ _ _ _ _ hrun hstep, hev⟩

/-! ## Termination -/

/-- The steps that a task can still make, `n` being a bound on the headers sent. -/
def Task.weight (n : Nat) (t : Task) : Nat :=
  match t.state with
  | .fetching => 2
  | .streaming => 1
  | .collecting k _ => n + 1 - k
  | _ => 0

def RunningJob.weight (n : Nat) (r : RunningJob) : Nat := 1 + (r.tasks.map (Task.weight n)).sum

def LocalState.weight (n : Nat) (s : LocalState) : Nat :=
  (s.queue.map fun job => 1 + (RunningJob.start job).weight n).sum +
    (s.running.map (RunningJob.weight n)).sum

theorem LocalInv.length_sent_le (h : LocalInv src J outer s) :
    s.channel.sent.length ≤ Multiset.card J.headers := by
  obtain ⟨lost, hsum, _⟩ := h.headers
  rw [← hsum, add_assoc, add_assoc, Multiset.card_add, Multiset.coe_card]
  exact Nat.le_add_right _ _

theorem TaskStep.weight_lt {senders : Bool} {c c' : Channel} {t t' : Task} {ev : LocalEvent}
    {dir : List CentralDirectoryFileHeader} {failed : Bool} {n : Nat}
    (h : TaskStep src senders c t ev c' t') (hfits : t.Fits src dir c.sent failed)
    (hn : c.sent.length ≤ n) : t'.weight n < t.weight n := by
  cases h
  case respond => exact Nat.lt_succ_self 1
  case sendClosed => exact Nat.two_pos
  case write => exact Nat.one_pos
  case entryFault e st hst =>
    rcases hst with rfl | rfl
    · exact Nat.two_pos
    · exact Nat.one_pos
  case receive total ch k eocd m h hnext hmore =>
    have hk : k < c.sent.length := (List.getElem?_eq_some_iff.1 hnext).1
    show n + 1 - (k + 1) < n + 1 - k
    omega
  case receiveLast total ch k eocd m h hnext hsize =>
    have hk : k < c.sent.length := (List.getElem?_eq_some_iff.1 hnext).1
    show 0 < n + 1 - k
    omega
  case close total ch k eocd m hempty hsenders =>
    rcases hfits with ⟨k', hk', hst⟩ | ⟨m', hst, _⟩
    · obtain ⟨rfl, _⟩ : k = k' ∧ m = _ := by simpa using hst
      show 0 < n + 1 - k
      omega
    · cases hst

/-- Every step lowers the weight. -/
theorem LocalInv.weight_lt {ev : LocalEvent} (h : LocalInv src J outer s)
    (hstep : LocalStep src s ev s') :
    s'.weight (Multiset.card J.headers) < s.weight (Multiset.card J.headers) := by
  have hn := h.length_sent_le
  generalize Multiset.card J.headers = n at hn
  cases hstep with
  | acquire hq hpermits =>
    unfold LocalState.weight
    simp only [hq, List.map_cons, List.sum_cons, List.map_append, List.sum_append, List.map_nil,
      List.sum_nil]
    omega
  | @task rs₁ rs₂ job ts₁ ts₂ t t' ev c hrun htask =>
    have hmem : (⟨job, ts₁ ++ t :: ts₂⟩ : RunningJob) ∈ s.running := by
      rw [hrun]
      exact List.mem_append_right _ List.mem_cons_self
    have hlt := htask.weight_lt
      (h.fits _ hmem t (List.mem_append_right _ List.mem_cons_self)) hn
    unfold LocalState.weight RunningJob.weight
    simp only [hrun, List.map_append, List.map_cons, List.sum_append, List.sum_cons]
    omega
  | finish hrun hend =>
    unfold LocalState.weight RunningJob.weight
    simp only [hrun, List.map_append, List.map_cons, List.sum_append, List.sum_cons]
    omega

/-- Runs are bounded. -/
theorem LocalInv.length_le {evs : List LocalEvent} (h : LocalInv src J outer s)
    (hrun : LocalRun src s evs s') :
    evs.length ≤ s.weight (Multiset.card J.headers) := by
  have := Run.length_le (P := LocalInv src J outer)
    (m := LocalState.weight (Multiset.card J.headers)) hrun h (fun _ _ _ => LocalInv.step)
    fun _ _ _ => LocalInv.weight_lt
  omega

theorem LocalStep.outside_eq {ev : LocalEvent} (h : LocalStep src s ev s') :
    s'.channel.outside = s.channel.outside := by
  cases h with
  | acquire hq hpermits => rfl
  | task hrun htask => exact htask.outside_eq
  | finish hrun hend => rfl

theorem LocalRun.outside_eq {evs : List LocalEvent} (h : LocalRun src s evs s') :
    s'.channel.outside = s.channel.outside :=
  h.invariant (P := fun a => a.channel.outside = s.channel.outside) rfl
    fun _ _ _ ha hstep => hstep.outside_eq.trans ha

end

end S3Archive.JrodonV3
