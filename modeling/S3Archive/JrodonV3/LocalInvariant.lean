import Mathlib.Algebra.Order.Group.Multiset
import Mathlib.Tactic.Abel
import S3Archive.Base.Matching
import S3Archive.JrodonV3.LocalExec

/-!
# jrodon-v3: the invariant of local execution

`LocalInv` says where each job, each permit and each header is in a reachable
state: every job is queued, running or ended, every permit is free or held by a
running job, and every header is sent, still to be sent by an entry, outside, or
lost with a failed entry. `LocalInv.step` keeps it over every step.
-/

namespace S3Archive.JrodonV3

open CentralDirectoryFileHeader (locOffset dump)

/-- A job list with what is sent on its channel. A directory element needs all headers, and
`dir` is their order. -/
structure JobSet where
  jobs : List PartJob
  headers : Multiset CentralDirectoryFileHeader
  dir : List CentralDirectoryFileHeader
  tiled : ∀ job ∈ jobs, job.isCopy = false →
    job.partSize = (job.elems.map UploadPartElement.elemSize).sum
  directory : ∀ job ∈ jobs, ∀ total eocd ch, .centralDirectory total eocd ch ∈ job.elems →
    headers = dir ∧ (dir.map locOffset).Pairwise (· < ·) ∧ eocd.recordCount = dir.length

/-! ## The headers of the directory -/

section

variable {sent dir : List CentralDirectoryFileHeader}
  {rest : Multiset CentralDirectoryFileHeader}

/-- Headers that are sent and not yet stored have distinct offsets. -/
theorem nodup_sent (hall : (sent : Multiset CentralDirectoryFileHeader) + rest = dir)
    (hsorted : (dir.map locOffset).Pairwise (· < ·)) : (sent.map locOffset).Nodup := by
  have hdir : (Multiset.map locOffset (dir : Multiset CentralDirectoryFileHeader)).Nodup := by
    rw [Multiset.map_coe, Multiset.coe_nodup]
    exact hsorted.imp Nat.ne_of_lt
  have hle : (sent : Multiset CentralDirectoryFileHeader) ≤ dir := hall ▸ Multiset.le_add_right _ _
  have hsent := Multiset.nodup_of_le (Multiset.map_le_map hle) hdir
  rwa [Multiset.map_coe, Multiset.coe_nodup] at hsent

theorem values_of_sent (hall : (sent : Multiset CentralDirectoryFileHeader) = dir)
    (hsorted : (dir.map locOffset).Pairwise (· < ·)) :
    intoValues (insertAll locOffset ∅ sent) = dir :=
  insertAll_values (Multiset.coe_eq_coe.1 hall) hsorted

/-- As many keys as there are headers: all have been sent and taken. -/
theorem values_of_size {k : Nat} (hk : k ≤ sent.length)
    (hall : (sent : Multiset CentralDirectoryFileHeader) + rest = dir)
    (hsorted : (dir.map locOffset).Pairwise (· < ·))
    (hsize : (insertAll locOffset ∅ (sent.take k)).size = dir.length) :
    intoValues (insertAll locOffset ∅ (sent.take k)) = dir := by
  have hnodup : (([] ++ sent.take k).map locOffset).Nodup :=
    (nodup_sent hall hsorted).sublist ((List.take_sublist _ _).map _)
  have hholds : (insertAll locOffset ∅ (sent.take k)).size = (sent.take k).length :=
    (Holds.empty.insertAll hnodup).size
  have hcard := congrArg Multiset.card hall
  rw [Multiset.card_add, Multiset.coe_card, Multiset.coe_card] at hcard
  rw [List.length_take] at hholds
  have hrest : Multiset.card rest = 0 := by omega
  have hfull : sent.take k = sent := List.take_of_length_le (by omega)
  rw [Multiset.card_eq_zero.1 hrest, add_zero] at hall
  rw [hfull]
  exact values_of_sent hall hsorted

end

/-! ## Tasks -/

/-- The states that a task can be in once `sent` was sent. -/
def Task.Fits (src : Source) (dir sent : List CentralDirectoryFileHeader) (entryFailed : Bool)
    (t : Task) : Prop :=
  match t.elem with
  | .entryFromS3 e => t.state = .fetching ∨ t.state = .streaming ∨
      t.state = .written (intoSlice e.elemSize (e.entry.bytes src)) ∨ t.state = .failed
  | .centralDirectory total eocd _ =>
    (∃ k, k ≤ sent.length ∧ t.state = .collecting k (insertAll locOffset ∅ (sent.take k))) ∨
      ∃ m, t.state = .stored m (intoSlice total (directoryBytes m eocd)) ∧
        (entryFailed = false → intoValues m = dir)

theorem Task.fits_start (src : Source) (dir sent : List CentralDirectoryFileHeader)
    (entryFailed : Bool) (e : UploadPartElement) :
    (Task.start e).Fits src dir sent entryFailed := by
  cases e with
  | entryFromS3 e => exact .inl rfl
  | centralDirectory total eocd ch => exact .inl ⟨0, Nat.zero_le _, rfl⟩

/-- More headers and more failures change nothing for a task that does not move. -/
theorem Task.Fits.mono {src : Source} {dir sent : List CentralDirectoryFileHeader} {t : Task}
    {failed failed' : Bool} (h : t.Fits src dir sent failed)
    (more : List CentralDirectoryFileHeader) (hfailed : failed' = false → failed = false) :
    t.Fits src dir (sent ++ more) failed' := by
  unfold Fits at *
  split at h
  · exact h
  · rcases h with ⟨k, hk, hst⟩ | ⟨m, hst, hm⟩
    · refine .inl ⟨k, ?_, ?_⟩
      · rw [List.length_append]
        omega
      · rw [List.take_append_of_le_length hk]
        exact hst
    · exact .inr ⟨m, hst, fun h => hm (hfailed h)⟩

section

variable {src : Source} {senders : Bool} {c c' : Channel} {t t' : Task} {ev : LocalEvent}

theorem TaskStep.elem_eq (h : TaskStep src senders c t ev c' t') : t'.elem = t.elem := by
  cases h <;> rfl

theorem TaskStep.outside_eq (h : TaskStep src senders c t ev c' t') :
    c'.outside = c.outside := by
  cases h <;> rfl

theorem TaskStep.not_failed (h : TaskStep src senders c t ev c' t') : t.isFailed = false := by
  cases h
  case entryFault e st hst => rcases hst with rfl | rfl <;> rfl
  all_goals rfl

theorem TaskStep.sent_eq (h : TaskStep src senders c t ev c' t') :
    ∃ more, c'.sent = c.sent ++ more := by
  cases h
  case respond => exact ⟨_, rfl⟩
  all_goals exact ⟨[], (List.append_nil _).symm⟩

/-- A header moves from its entry to the channel, or is lost with the entry. -/
theorem TaskStep.headers (h : TaskStep src senders c t ev c' t') :
    ∃ lost : Multiset CentralDirectoryFileHeader,
      (c'.sent : Multiset CentralDirectoryFileHeader) + t'.pending src + lost =
        c.sent + t.pending src ∧ (t'.isFailed = false → lost = 0) := by
  have hfail : ∀ e : EntryFromS3, (Task.pending src ⟨.entryFromS3 e, .failed⟩ :
      Multiset CentralDirectoryFileHeader) = 0 := fun _ => rfl
  cases h
  case respond e hopen =>
    refine ⟨0, ?_, fun _ => rfl⟩
    rw [add_zero, ← Multiset.coe_add]
    exact add_zero _
  case sendClosed e hclosed =>
    refine ⟨(Task.pending src ⟨.entryFromS3 e, .fetching⟩ : List _), ?_, fun h => by cases h⟩
    rw [hfail, add_zero]
  case entryFault e st hst =>
    refine ⟨(Task.pending src ⟨.entryFromS3 e, st⟩ : List _), ?_, fun h => by cases h⟩
    rw [hfail, add_zero]
  all_goals exact ⟨0, add_zero _, fun _ => rfl⟩

/-- A task that stores the directory has all headers, unless an entry failed. -/
theorem TaskStep.fits {dir : List CentralDirectoryFileHeader} {failed : Bool}
    (h : TaskStep src senders c t ev c' t') (hfits : t.Fits src dir c.sent failed)
    (hlast : ∀ total eocd ch, t.elem = .centralDirectory total eocd ch → ∀ k ≤ c.sent.length,
      (insertAll locOffset ∅ (c.sent.take k)).size = eocd.recordCount →
      intoValues (insertAll locOffset ∅ (c.sent.take k)) = dir)
    (hclose : ∀ total eocd ch, t.elem = .centralDirectory total eocd ch → senders = false →
      failed = false → intoValues (insertAll locOffset ∅ c.sent) = dir) :
    t'.Fits src dir c'.sent (failed || t'.isFailed) := by
  cases h
  case respond => exact .inr (.inl rfl)
  case sendClosed => exact .inr (.inr (.inr rfl))
  case write => exact .inr (.inr (.inl rfl))
  case entryFault => exact .inr (.inr (.inr rfl))
  case receive total ch k eocd m h hnext hmore =>
    have hk : k < c.sent.length := (List.getElem?_eq_some_iff.1 hnext).1
    rcases hfits with ⟨k', _, hst⟩ | ⟨m', hst, _⟩
    · obtain ⟨rfl, rfl⟩ : k = k' ∧ m = _ := by simpa using hst
      refine .inl ⟨k + 1, hk, ?_⟩
      rw [List.take_add_one, hnext, insertAll_append]
      rfl
    · cases hst
  case receiveLast total ch k eocd m h hnext hsize =>
    have hk : k < c.sent.length := (List.getElem?_eq_some_iff.1 hnext).1
    rcases hfits with ⟨k', _, hst⟩ | ⟨m', hst, _⟩
    · obtain ⟨rfl, rfl⟩ : k = k' ∧ m = _ := by simpa using hst
      have htake : insertAll locOffset ∅ (c.sent.take (k + 1)) =
          (insertAll locOffset ∅ (c.sent.take k)).insert h.locOffset h := by
        rw [List.take_add_one, hnext, insertAll_append]
        rfl
      refine .inr ⟨_, rfl, fun _ => ?_⟩
      rw [← htake]
      refine hlast _ _ _ rfl _ hk ?_
      rw [htake, hsize]
    · cases hst
  case close total ch k eocd m hempty hsenders =>
    rcases hfits with ⟨k', hk', hst⟩ | ⟨m', hst, _⟩
    · obtain ⟨rfl, rfl⟩ : k = k' ∧ m = _ := by simpa using hst
      refine .inr ⟨_, rfl, fun hfailed => ?_⟩
      rw [List.take_of_length_le hempty]
      exact hclose _ _ _ rfl hsenders (Bool.or_eq_false_iff.1 hfailed).1
    · cases hst

end

/-! ## The invariant -/

/-- The headers that entries have still to send. -/
def LocalState.pending (src : Source) (s : LocalState) : Multiset CentralDirectoryFileHeader :=
  (s.queue.flatMap (PartJob.cdfhs src) : List _) +
    (s.running.flatMap fun r => r.tasks.flatMap (Task.pending src) : List _)

/-- The jobs in the order of their admission, and those that ended with their parts. -/
structure Ledger (src : Source) (J : JobSet) (s : LocalState) (admitted : List PartJob)
    (ended : List (PartJob × Option Bytes)) : Prop where
  in_order : J.jobs = admitted ++ s.queue
  split : (ended.map Prod.fst ++ s.running.map RunningJob.job).Perm admitted
  completed : s.completed =
    ended.flatMap fun p => (p.2.map (⟨p.1.partNumber, ·⟩)).toList
  partFailed : s.partFailed = ended.any fun p => p.2.isNone
  content : s.entryFailed = false → ∀ p ∈ ended, ∀ c, p.2 = some c →
    p.1.output src J.dir = some c

/-- `outer` are the headers that are still outside of the job list. -/
structure LocalInv (src : Source) (J : JobSet) (outer : Multiset CentralDirectoryFileHeader)
    (s : LocalState) : Prop where
  permits : s.permits + (s.running.map fun r => r.job.memoryBudgetNeeded).sum =
    maxPartJobTasksMemory
  ledger : ∃ admitted ended, Ledger src J s admitted ended
  elems : ∀ r ∈ s.running, r.tasks.map Task.elem = r.job.elems
  fits : ∀ r ∈ s.running, ∀ t ∈ r.tasks, t.Fits src J.dir s.channel.sent s.entryFailed
  headers : ∃ lost : Multiset CentralDirectoryFileHeader,
    (s.channel.sent : Multiset CentralDirectoryFileHeader) + s.pending src + outer + lost =
      J.headers ∧ (s.entryFailed = false → lost = 0)
  failure_seen : s.entryFailed = true →
    s.partFailed = true ∨ ∃ r ∈ s.running, ∃ t ∈ r.tasks, t.isFailed
  outside : s.channel.outside = false → outer = 0

namespace LocalInv

variable {src : Source} {J : JobSet} {outer : Multiset CentralDirectoryFileHeader}
  {s s' : LocalState}

theorem start {outside : Bool}
    (hheaders : ((J.jobs.flatMap (PartJob.cdfhs src) : List _) : Multiset _) + outer = J.headers)
    (houtside : outside = false → outer = 0) :
    LocalInv src J outer (.start J.jobs outside) where
  permits := Nat.add_zero _
  ledger := ⟨[], [], rfl, .nil, rfl, rfl, by simp⟩
  elems := by simp [LocalState.start]
  fits := by simp [LocalState.start]
  headers := by
    refine ⟨0, ?_, fun _ => rfl⟩
    rw [← hheaders]
    simp [LocalState.pending, LocalState.start]
  failure_seen := by simp [LocalState.start]
  outside := houtside

/-- A running job is one of the list. -/
theorem job_mem (h : LocalInv src J outer s) : ∀ r ∈ s.running, r.job ∈ J.jobs := by
  intro r hr
  obtain ⟨admitted, ended, hledger⟩ := h.ledger
  rw [hledger.in_order]
  refine List.mem_append_left _ (hledger.split.subset (List.mem_append_right _ ?_))
  exact List.mem_map_of_mem hr

theorem pending_start (src : Source) (job : PartJob) :
    (RunningJob.start job).tasks.flatMap (Task.pending src) = job.cdfhs src := by
  unfold RunningJob.start PartJob.cdfhs
  rw [List.flatMap_map]
  induction job.elems with
  | nil => rfl
  | cons e es ih =>
    rw [List.flatMap_cons, ih]
    cases e <;> rfl

/-- Who has still to send a header holds a sender. -/
theorem pending_eq_zero (h : s.sendersAlive = false) : s.pending src = 0 := by
  unfold LocalState.sendersAlive at h
  simp only [Bool.or_eq_false_iff, List.any_eq_false, Bool.not_eq_true] at h
  obtain ⟨⟨_, hqueue⟩, hrunning⟩ := h
  have h₁ : s.queue.flatMap (PartJob.cdfhs src) = [] := by
    rw [List.flatMap_eq_nil_iff]
    intro job hjob
    refine List.filterMap_eq_nil_iff.2 fun e he => ?_
    have := hqueue job hjob e he
    cases e with
    | entryFromS3 e => cases this
    | centralDirectory total eocd ch => rfl
  have h₂ : (s.running.flatMap fun r => r.tasks.flatMap (Task.pending src)) = [] := by
    rw [List.flatMap_eq_nil_iff]
    intro r hr
    rw [List.flatMap_eq_nil_iff]
    intro t ht
    have := hrunning r hr t ht
    obtain ⟨elem, state⟩ := t
    cases elem with
    | centralDirectory total eocd ch => rfl
    | entryFromS3 e =>
      cases state with
      | fetching => cases this
      | _ => rfl
  unfold LocalState.pending
  rw [h₁, h₂]
  rfl

/-! ## Steps -/

theorem acquire (h : LocalInv src J outer s) {job : PartJob} {rest : List PartJob}
    (hq : s.queue = job :: rest) (hpermits : job.memoryBudgetNeeded ≤ s.permits) :
    LocalInv src J outer
      { s with
        queue := rest
        permits := s.permits - job.memoryBudgetNeeded
        running := s.running ++ [.start job] } where
  permits := by
    have := h.permits
    simp only [List.map_append, List.sum_append, List.map_cons, List.map_nil, List.sum_cons,
      List.sum_nil, RunningJob.start]
    omega
  ledger := by
    obtain ⟨admitted, ended, hl⟩ := h.ledger
    refine ⟨admitted ++ [job], ended, ?_, ?_, hl.completed, hl.partFailed, hl.content⟩
    · rw [hl.in_order, hq]
      simp
    · have := hl.split.append_right [job]
      simpa [RunningJob.start] using this
  elems := by
    intro r hr
    rcases List.mem_append.1 hr with hr | hr
    · exact h.elems r hr
    · rw [List.mem_singleton.1 hr]
      show (job.elems.map Task.start).map Task.elem = job.elems
      rw [List.map_map]
      exact List.map_id _
  fits := by
    intro r hr t ht
    rcases List.mem_append.1 hr with hr | hr
    · exact h.fits r hr t ht
    · rw [List.mem_singleton.1 hr] at ht
      obtain ⟨e, _, rfl⟩ := List.mem_map.1 ht
      exact Task.fits_start _ _ _ _ e
  headers := by
    obtain ⟨lost, hsum, hlost⟩ := h.headers
    refine ⟨lost, ?_, hlost⟩
    rw [← hsum]
    unfold LocalState.pending
    simp only [hq, List.flatMap_append, List.flatMap_cons, List.flatMap_nil, List.append_nil,
      pending_start, ← Multiset.coe_add]
    abel
  failure_seen := by
    intro hfailed
    rcases h.failure_seen hfailed with hpart | ⟨r, hr, ht⟩
    · exact .inl hpart
    · exact .inr ⟨r, List.mem_append_left _ hr, ht⟩
  outside := h.outside

section

variable {rs₁ rs₂ : List RunningJob} {job : PartJob} {ts₁ ts₂ : List Task} {t t' : Task}
  {ev : LocalEvent} {c : Channel}

/-- The task that moves still fits: a directory task has a prefix of the headers, or all. -/
theorem fits_moved (h : LocalInv src J outer s)
    (hrun : s.running = rs₁ ++ ⟨job, ts₁ ++ t :: ts₂⟩ :: rs₂)
    (htask : TaskStep src s.sendersAlive s.channel t ev c t') :
    t'.Fits src J.dir c.sent (s.entryFailed || t'.isFailed) := by
  obtain ⟨lost, hsum, hlost⟩ := h.headers
  have hmem : (⟨job, ts₁ ++ t :: ts₂⟩ : RunningJob) ∈ s.running := by
    rw [hrun]
    exact List.mem_append_right _ List.mem_cons_self
  have ht : t ∈ ts₁ ++ t :: ts₂ := List.mem_append_right _ List.mem_cons_self
  -- a directory element of the list
  have hdir : ∀ total eocd ch, t.elem = .centralDirectory total eocd ch →
      J.headers = J.dir ∧ (J.dir.map locOffset).Pairwise (· < ·) ∧
        eocd.recordCount = J.dir.length := by
    intro total eocd ch helem
    refine J.directory job (h.job_mem _ hmem) total eocd ch ?_
    rw [← h.elems _ hmem, ← helem]
    exact List.mem_map_of_mem ht
  refine htask.fits (h.fits _ hmem t ht) ?_ ?_
  · intro total eocd ch helem k hk hsize
    obtain ⟨hall, hsorted, hcount⟩ := hdir total eocd ch helem
    rw [← hsum, add_assoc, add_assoc] at hall
    exact values_of_size hk hall hsorted (hsize.trans hcount)
  · intro total eocd ch helem hsenders hfailed
    obtain ⟨hall, hsorted, _⟩ := hdir total eocd ch helem
    have houtside : s.channel.outside = false := by
      unfold LocalState.sendersAlive at hsenders
      simp only [Bool.or_eq_false_iff] at hsenders
      exact hsenders.1.1
    rw [← hsum, pending_eq_zero hsenders, h.outside houtside, hlost hfailed, add_zero,
      add_zero, add_zero] at hall
    exact values_of_sent hall hsorted

/-- A header that leaves its task is in the channel or lost. -/
theorem headers_moved {lost lost' : Multiset CentralDirectoryFileHeader}
    (hrun : s.running = rs₁ ++ ⟨job, ts₁ ++ t :: ts₂⟩ :: rs₂)
    (hsum : (s.channel.sent : Multiset CentralDirectoryFileHeader) + s.pending src + outer + lost =
      J.headers)
    (hmoved : (c.sent : Multiset CentralDirectoryFileHeader) + t'.pending src + lost' =
      s.channel.sent + t.pending src) :
    (c.sent : Multiset CentralDirectoryFileHeader) +
      LocalState.pending src { s with running := rs₁ ++ ⟨job, ts₁ ++ t' :: ts₂⟩ :: rs₂ } + outer +
      (lost + lost') = J.headers := by
  rw [← hsum]
  unfold LocalState.pending
  simp only [hrun, List.flatMap_append, List.flatMap_cons, ← Multiset.coe_add]
  have hswap : ∀ a b b' q x y z w o l l' : Multiset CentralDirectoryFileHeader,
      c.sent + b' + l' = a + b → c.sent + (q + (x + (y + (b' + z) + w))) + o + (l + l') =
        a + (q + (x + (y + (b + z) + w))) + o + l := by
    intro a b b' q x y z w o l l' heq
    calc c.sent + (q + (x + (y + (b' + z) + w))) + o + (l + l')
        = (c.sent + b' + l') + (q + x + y + z + w + o + l) := by abel
      _ = (a + b) + (q + x + y + z + w + o + l) := by rw [heq]
      _ = a + (q + (x + (y + (b + z) + w))) + o + l := by abel
  exact hswap _ _ _ _ _ _ _ _ _ _ _ hmoved

/-- A failed task does not move, so it is still seen. -/
theorem failure_seen_moved (h : LocalInv src J outer s)
    (hrun : s.running = rs₁ ++ ⟨job, ts₁ ++ t :: ts₂⟩ :: rs₂)
    (htask : TaskStep src s.sendersAlive s.channel t ev c t')
    (hfailed : (s.entryFailed || t'.isFailed) = true) :
    s.partFailed = true ∨
      ∃ r ∈ rs₁ ++ ⟨job, ts₁ ++ t' :: ts₂⟩ :: rs₂, ∃ t₀ ∈ r.tasks, t₀.isFailed := by
  rcases Bool.or_eq_true_iff.1 hfailed with hfailed | hfailed
  · rcases h.failure_seen hfailed with hpart | ⟨r, hr, t₀, ht₀, hfail⟩
    · exact .inl hpart
    · refine .inr ?_
      rw [hrun] at hr
      rcases mem_replace ⟨job, ts₁ ++ t' :: ts₂⟩ hr with rfl | hr
      · refine ⟨_, List.mem_append_right _ List.mem_cons_self, t₀, ?_, hfail⟩
        rcases mem_replace t' ht₀ with rfl | ht₀
        · rw [htask.not_failed] at hfail
          cases hfail
        · exact ht₀
      · exact ⟨r, hr, t₀, ht₀, hfail⟩
  · exact .inr ⟨_, List.mem_append_right _ List.mem_cons_self, t',
      List.mem_append_right _ List.mem_cons_self, hfailed⟩

theorem task (h : LocalInv src J outer s)
    (hrun : s.running = rs₁ ++ ⟨job, ts₁ ++ t :: ts₂⟩ :: rs₂)
    (htask : TaskStep src s.sendersAlive s.channel t ev c t') :
    LocalInv src J outer
      { s with
        running := rs₁ ++ ⟨job, ts₁ ++ t' :: ts₂⟩ :: rs₂
        channel := c
        entryFailed := s.entryFailed || t'.isFailed } := by
  have hmem : (⟨job, ts₁ ++ t :: ts₂⟩ : RunningJob) ∈ s.running := by
    rw [hrun]
    exact List.mem_append_right _ List.mem_cons_self
  have hfailed : (s.entryFailed || t'.isFailed) = false → s.entryFailed = false :=
    fun hf => (Bool.or_eq_false_iff.1 hf).1
  have hcases : ∀ r ∈ rs₁ ++ ⟨job, ts₁ ++ t' :: ts₂⟩ :: rs₂,
      r = ⟨job, ts₁ ++ t' :: ts₂⟩ ∨ r ∈ s.running := by
    intro r hr
    rw [hrun]
    exact mem_replace _ hr
  refine ⟨?_, ?_, ?_, ?_, ?_, h.failure_seen_moved hrun htask, ?_⟩
  · simpa [hrun] using h.permits
  · obtain ⟨admitted, ended, hl⟩ := h.ledger
    refine ⟨admitted, ended, hl.in_order, ?_, hl.completed, hl.partFailed,
      fun hf => hl.content (hfailed hf)⟩
    simpa [hrun] using hl.split
  · intro r hr
    rcases hcases r hr with rfl | hr
    · simpa [htask.elem_eq] using h.elems _ hmem
    · exact h.elems r hr
  · have hold : ∀ r ∈ s.running, ∀ t₀ ∈ r.tasks,
        t₀.Fits src J.dir c.sent (s.entryFailed || t'.isFailed) := by
      obtain ⟨more, hmore⟩ := htask.sent_eq
      intro r hr t₀ ht₀
      rw [hmore]
      exact (h.fits r hr t₀ ht₀).mono more hfailed
    intro r hr t₀ ht₀
    rcases hcases r hr with rfl | hr
    · rcases mem_replace t ht₀ with rfl | ht₀
      · exact h.fits_moved hrun htask
      · exact hold _ hmem t₀ ht₀
    · exact hold r hr t₀ ht₀
  · obtain ⟨lost, hsum, hlost⟩ := h.headers
    obtain ⟨lost', hmoved, hlost'⟩ := htask.headers
    refine ⟨lost + lost', headers_moved hrun hsum hmoved, fun hf => ?_⟩
    rw [hlost (hfailed hf), hlost' (Bool.or_eq_false_iff.1 hf).2, add_zero]
  · intro hout
    rw [htask.outside_eq] at hout
    exact h.outside hout

end

end LocalInv

/-! ## Ended jobs -/

/-- The directory that a fitting task has stored has the bytes of all headers. -/
theorem Task.Fits.slice_eq {src : Source} {dir sent : List CentralDirectoryFileHeader} {t : Task}
    (h : t.Fits src dir sent false)
    (hdir : ∀ total eocd ch, t.elem = .centralDirectory total eocd ch →
      (dir.map locOffset).Pairwise (· < ·) ∧ eocd.recordCount = dir.length)
    {slice : Bytes} (hslice : t.slice? = some slice) :
    slice = intoSlice t.elem.elemSize (t.elem.bytes src dir) := by
  obtain ⟨elem, state⟩ := t
  cases elem with
  | entryFromS3 e =>
    rcases h with h | h | h | h <;> (obtain rfl : state = _ := h)
    · cases hslice
    · cases hslice
    · cases hslice; rfl
    · cases hslice
  | centralDirectory total eocd ch =>
    rcases h with ⟨k, _, h⟩ | ⟨m, h, hm⟩ <;> (obtain rfl : state = _ := h)
    · cases hslice
    · cases hslice
      obtain ⟨hsorted, hcount⟩ := hdir total eocd ch rfl
      have hstored : storedCdfhs eocd dir = dir := collect_values (.refl _) hsorted hcount
      show intoSlice total ((intoValues m).flatMap dump ++ eocd.dump) =
        intoSlice total ((storedCdfhs eocd dir).flatMap dump ++ eocd.dump)
      rw [hm rfl, hstored]

theorem Task.pending_of_over {src : Source} {t : Task} (h : t.slice?.isSome ∨ t.isFailed) :
    t.pending src = [] := by
  obtain ⟨elem, state⟩ := t
  cases elem with
  | centralDirectory total eocd ch => rfl
  | entryFromS3 e =>
    cases state with
    | fetching => rcases h with h | h <;> cases h
    | _ => rfl

section

variable {src : Source} {J : JobSet} {outer : Multiset CentralDirectoryFileHeader}
  {s s' : LocalState} {r : RunningJob} {ev : LocalEvent} {content : Option Bytes}

/-- All tasks of an ended job are over. -/
theorem JobEnd.over (h : JobEnd src r ev content) (helems : r.tasks.map Task.elem = r.job.elems) :
    ∀ t ∈ r.tasks, t.slice?.isSome ∨ t.isFailed := by
  have hnone : ∀ source range, r.job.partJobType = .copy source range → r.tasks = [] := by
    intro source range hcopy
    unfold PartJob.elems at helems
    rw [hcopy] at helems
    exact List.map_eq_nil_iff.1 helems
  cases h with
  | upload hup hall => exact fun t ht => .inl (hall t ht)
  | copy hcopy hrange => rw [hnone _ _ hcopy]; nofun
  | copyRejected hcopy hrange => rw [hnone _ _ hcopy]; nofun
  | joinError hup hover hfail => exact hover
  | partFault hall => exact fun t ht => .inl (hall t ht)

/-- A job with a failed task does not succeed. -/
theorem JobEnd.no_failed {c : Bytes} (h : JobEnd src r ev (some c))
    (helems : r.tasks.map Task.elem = r.job.elems) : ∀ t ∈ r.tasks, t.isFailed = false := by
  intro t ht
  have hslice : t.slice?.isSome := by
    cases h with
    | upload hup hall => exact hall t ht
    | copy hcopy hrange =>
      unfold PartJob.elems at helems
      rw [hcopy] at helems
      rw [List.map_eq_nil_iff.1 helems] at ht
      cases ht
  obtain ⟨elem, state⟩ := t
  cases state with
  | failed => cases hslice
  | _ => rfl

/-- An ended job that succeeds has the output that the job list determines. -/
theorem JobEnd.output {c : Bytes} (h : JobEnd src r ev (some c)) (hinv : LocalInv src J outer s)
    (hr : r ∈ s.running) (hclean : s.entryFailed = false) :
    r.job.output src J.dir = some c := by
  have hjob := hinv.job_mem r hr
  have helems := hinv.elems r hr
  cases h with
  | copy hcopy hrange =>
    unfold PartJob.output
    rw [hcopy]
    exact hrange
  | upload hup hall =>
    have hslices : ∀ t ∈ r.tasks, t.slice?.getD [] =
        intoSlice t.elem.elemSize (t.elem.bytes src J.dir) := by
      intro t ht
      obtain ⟨slice, hslice⟩ := Option.isSome_iff_exists.1 (hall t ht)
      have hfits := hinv.fits r hr t ht
      rw [hclean] at hfits
      rw [hslice, Option.getD_some]
      refine hfits.slice_eq (fun total eocd ch helem => ?_) hslice
      refine (J.directory r.job hjob total eocd ch ?_).2
      rw [← helems, ← helem]
      exact List.mem_map_of_mem ht
    have hbuf : r.tasks.flatMap (fun t => t.slice?.getD []) =
        r.job.elems.flatMap fun e => intoSlice e.elemSize (e.bytes src J.dir) := by
      rw [← helems, List.flatMap_map, List.flatMap_def, List.flatMap_def,
        List.map_congr_left hslices]
    have hlen : (r.job.elems.flatMap fun e => intoSlice e.elemSize (e.bytes src J.dir)).length =
        r.job.partSize := by
      rw [J.tiled r.job hjob hup, List.length_flatMap]
      simp
    have htype : r.job.partJobType = .upload r.job.elems := by
      unfold PartJob.isCopy at hup
      unfold PartJob.elems
      split at hup
      · next elems htype => rw [htype]
      · cases hup
    have hbuffer : r.buffer =
        r.job.elems.flatMap fun e => intoSlice e.elemSize (e.bytes src J.dir) := by
      unfold RunningJob.buffer
      dsimp only
      rw [hbuf, hlen, Nat.sub_self, List.replicate_zero, List.append_nil]
    unfold PartJob.output
    rw [htype, hbuffer]
    dsimp only
    rw [J.tiled r.job hjob hup, writeElems_sum]

theorem LocalInv.finish (h : LocalInv src J outer s) {rs₁ rs₂ : List RunningJob}
    (hrun : s.running = rs₁ ++ r :: rs₂) (hend : JobEnd src r ev content) :
    LocalInv src J outer
      { s with
        running := rs₁ ++ rs₂
        permits := s.permits + r.job.memoryBudgetNeeded
        completed := s.completed ++ (content.map (⟨r.job.partNumber, ·⟩)).toList
        partFailed := s.partFailed || content.isNone } := by
  have hr : r ∈ s.running := by
    rw [hrun]
    exact List.mem_append_right _ List.mem_cons_self
  have hsame : ∀ r' ∈ rs₁ ++ rs₂, r' ∈ s.running := by
    intro r' hr'
    rw [hrun]
    rcases List.mem_append.1 hr' with hr' | hr'
    · exact List.mem_append_left _ hr'
    · exact List.mem_append_right _ (List.mem_cons_of_mem _ hr')
  have helems := h.elems r hr
  refine ⟨?_, ?_, fun r' hr' => h.elems r' (hsame r' hr'), fun r' hr' => h.fits r' (hsame r' hr'),
    ?_, ?_, h.outside⟩
  · have := h.permits
    simp only [hrun, List.map_append, List.map_cons, List.sum_append, List.sum_cons] at this ⊢
    omega
  · obtain ⟨admitted, ended, hl⟩ := h.ledger
    refine ⟨admitted, ended ++ [(r.job, content)], hl.in_order, ?_, ?_, ?_, ?_⟩
    · refine .trans ?_ hl.split
      simp only [hrun, List.map_append, List.map_cons, List.map_nil, List.append_assoc,
        List.singleton_append]
      exact (List.perm_middle.append_left _).symm
    · rw [List.flatMap_append, hl.completed]
      simp
    · rw [List.any_append, hl.partFailed]
      simp
    · intro hclean p hp c hc
      rcases List.mem_append.1 hp with hp | hp
      · exact hl.content hclean p hp c hc
      · rw [List.mem_singleton.1 hp] at hc ⊢
        obtain rfl : content = some c := hc
        exact hend.output h hr hclean
  · obtain ⟨lost, hsum, hlost⟩ := h.headers
    have hover : r.tasks.flatMap (Task.pending src) = [] :=
      List.flatMap_eq_nil_iff.2 fun t ht => Task.pending_of_over (hend.over helems t ht)
    refine ⟨lost, ?_, hlost⟩
    rw [← hsum]
    unfold LocalState.pending
    simp only [hrun, List.flatMap_append, List.flatMap_cons, hover, List.nil_append]
  · intro hfailed
    cases content with
    | none => exact .inl (Bool.or_true _)
    | some c =>
      rcases h.failure_seen hfailed with hpart | ⟨r', hr', t, ht, hfail⟩
      · exact .inl (Bool.or_eq_true_iff.2 (.inl hpart))
      · rw [hrun] at hr'
        rcases List.mem_append.1 hr' with hr' | hr'
        · exact .inr ⟨r', List.mem_append_left _ hr', t, ht, hfail⟩
        · rcases List.mem_cons.1 hr' with rfl | hr'
          · rw [hend.no_failed helems t ht] at hfail
            cases hfail
          · exact .inr ⟨r', List.mem_append_right _ hr', t, ht, hfail⟩

/-- A header arrives from outside. -/
theorem LocalInv.deliver {cdfh : CentralDirectoryFileHeader}
    {cdfhs : List CentralDirectoryFileHeader}
    (h : LocalInv src J ((cdfh :: cdfhs : List _) : Multiset CentralDirectoryFileHeader) s) :
    LocalInv src J (cdfhs : Multiset CentralDirectoryFileHeader)
      { s with channel := { s.channel with sent := s.channel.sent ++ [cdfh] } } where
  permits := h.permits
  ledger := by
    obtain ⟨admitted, ended, hl⟩ := h.ledger
    exact ⟨admitted, ended, hl.in_order, hl.split, hl.completed, hl.partFailed, hl.content⟩
  elems := h.elems
  fits := fun r hr t ht => (h.fits r hr t ht).mono [cdfh] id
  headers := by
    obtain ⟨lost, hsum, hlost⟩ := h.headers
    refine ⟨lost, ?_, hlost⟩
    rw [← hsum, ← Multiset.coe_add, ← Multiset.cons_coe cdfh cdfhs, ← Multiset.singleton_add,
      Multiset.coe_singleton]
    show _ + s.pending src + _ + lost = _
    abel
  failure_seen := h.failure_seen
  outside := fun hout => absurd (h.outside hout) (Multiset.cons_ne_zero (a := cdfh) (m := cdfhs))

/-- The last sender outside is dropped once nothing is outside. -/
theorem LocalInv.closeOutside (h : LocalInv src J 0 s) :
    LocalInv src J 0 { s with channel := { s.channel with outside := false } } where
  permits := h.permits
  ledger := by
    obtain ⟨admitted, ended, hl⟩ := h.ledger
    exact ⟨admitted, ended, hl.in_order, hl.split, hl.completed, hl.partFailed, hl.content⟩
  elems := h.elems
  fits := h.fits
  headers := h.headers
  failure_seen := h.failure_seen
  outside := fun _ => rfl

/-- Every step keeps the invariant. -/
theorem LocalInv.step (h : LocalInv src J outer s) (hstep : LocalStep src s ev s') :
    LocalInv src J outer s' := by
  cases hstep with
  | acquire hq hpermits => exact h.acquire hq hpermits
  | task hrun htask => exact h.task hrun htask
  | finish hrun hend => exact h.finish hrun hend

theorem LocalInv.run {evs : List LocalEvent} (h : LocalInv src J outer s)
    (hrun : LocalRun src s evs s') : LocalInv src J outer s' :=
  hrun.invariant h fun _ _ _ => LocalInv.step

/-! ## Success -/

/-- A completed part is the output of its job. -/
def PartJob.CompletedAs (src : Source) (dir : List CentralDirectoryFileHeader) (job : PartJob)
    (part : CompletedPartInfo) : Prop :=
  part.partNumber = job.partNumber ∧ job.output src dir = some part.content

theorem Ledger.forall₂_completed {admitted : List PartJob} {ended : List (PartJob × Option Bytes)}
    (hl : Ledger src J s admitted ended) (hclean : s.entryFailed = false)
    (hok : s.partFailed = false) :
    List.Forall₂ (PartJob.CompletedAs src J.dir) (ended.map Prod.fst) s.completed := by
  have hcontent := hl.content hclean
  have hsome := hl.partFailed
  rw [hok] at hsome
  rw [hl.completed]
  clear hl
  induction ended with
  | nil => exact .nil
  | cons p ended ih =>
    obtain ⟨job, content⟩ := p
    rw [List.any_cons, eq_comm, Bool.or_eq_false_iff] at hsome
    cases content with
    | none => cases hsome.1
    | some c =>
      have hhead : job.CompletedAs src J.dir ⟨job.partNumber, c⟩ :=
        ⟨rfl, hcontent _ List.mem_cons_self c rfl⟩
      exact .cons hhead (ih (fun p hp => hcontent p (List.mem_cons_of_mem _ hp)) hsome.2.symm)

/-- No entry has failed where no part has. -/
theorem LocalInv.entryFailed_eq (h : LocalInv src J outer s) (hfin : s.Finished)
    (hok : s.partFailed = false) : s.entryFailed = false := by
  refine Bool.eq_false_iff.2 fun hfailed => ?_
  rcases h.failure_seen hfailed with hpart | ⟨r, hr, _⟩
  · rw [hok] at hpart
    cases hpart
  · rw [hfin.2] at hr
    cases hr

/-- Execution that succeeds completes each job once, with what the job outputs. -/
theorem LocalInv.completed (h : LocalInv src J outer s) (hfin : s.Finished)
    (hok : s.partFailed = false) : Matched (PartJob.CompletedAs src J.dir) J.jobs s.completed := by
  have hclean := h.entryFailed_eq hfin hok
  obtain ⟨hqueue, hrunning⟩ := hfin
  obtain ⟨admitted, ended, hl⟩ := h.ledger
  refine ⟨ended.map Prod.fst, ?_, hl.forall₂_completed hclean hok⟩
  have hsplit := hl.split
  rw [hrunning, List.map_nil, List.append_nil] at hsplit
  rw [hl.in_order, hqueue, List.append_nil]
  exact hsplit

/-- Whoever sends is done and nothing is lost: all headers were sent or are still outside. -/
theorem LocalInv.sent_eq (h : LocalInv src J outer s) (hfin : s.Finished)
    (hok : s.partFailed = false) :
    (s.channel.sent : Multiset CentralDirectoryFileHeader) + outer = J.headers := by
  have hclean := h.entryFailed_eq hfin hok
  obtain ⟨hqueue, hrunning⟩ := hfin
  obtain ⟨lost, hsum, hlost⟩ := h.headers
  have hpending : s.pending src = 0 := by
    unfold LocalState.pending
    rw [hqueue, hrunning]
    rfl
  rw [hpending, hlost hclean, add_zero, add_zero] at hsum
  exact hsum

/-! ## Failures -/

/-- Some entry or some part has failed. -/
def LocalState.HasFailed (s : LocalState) : Prop := s.entryFailed = true ∨ s.partFailed = true

theorem LocalStep.hasFailed (hstep : LocalStep src s ev s') (h : s.HasFailed) : s'.HasFailed := by
  cases hstep with
  | acquire hq hpermits => exact h
  | task hrun htask => exact h.imp (fun h => Bool.or_eq_true_iff.2 (.inl h)) id
  | finish hrun hend => exact h.imp id fun h => Bool.or_eq_true_iff.2 (.inl h)

theorem LocalStep.hasFailed_of_fails (hstep : LocalStep src s ev s') (h : ev.fails = true) :
    s'.HasFailed := by
  cases hstep with
  | acquire hq hpermits => cases h
  | task hrun htask =>
    refine .inl (Bool.or_eq_true_iff.2 (.inr ?_))
    cases htask
    case sendClosed => rfl
    case entryFault => rfl
    all_goals cases h
  | finish hrun hend =>
    refine .inr (Bool.or_eq_true_iff.2 (.inr ?_))
    cases hend with
    | upload hup hall => cases h
    | copy hcopy hrange => cases h
    | _ => rfl

theorem LocalRun.hasFailed {evs : List LocalEvent} (hrun : LocalRun src s evs s')
    (h : ∃ ev ∈ evs, ev.fails = true) : s'.HasFailed := by
  induction hrun with
  | refl =>
    obtain ⟨ev, hev, _⟩ := h
    cases hev
  | step _ hlast ih =>
    obtain ⟨ev, hev, hfails⟩ := h
    rcases List.mem_append.1 hev with hev | hev
    · exact hlast.hasFailed (ih ⟨ev, hev, hfails⟩)
    · rw [List.mem_singleton.1 hev] at hfails
      exact hlast.hasFailed_of_fails hfails

/-- Execution that succeeds has no failing event. -/
theorem LocalInv.no_failure (h : LocalInv src J outer s) (hfin : s.Finished)
    (hok : s.partFailed = false) : ¬ s.HasFailed := by
  rintro (hentry | hpart)
  · rw [h.entryFailed_eq hfin hok] at hentry
    cases hentry
  · rw [hok] at hpart
    cases hpart

end

end S3Archive.JrodonV3
