import S3Archive.JrodonV3.PlannedJobs

/-!
# jrodon-v3: the central directory does not depend on the order of arrival

In every run in which no request for an entry fails, no header is lost
(`LocalState.NoLoss`): the receiver is dropped only when nobody has a header left
to send. So the directory task stores all headers in archive order
(`planJobs_directory`).
-/

namespace S3Archive.JrodonV3

open CentralDirectoryFileHeader (locOffset)
open RegularZipPart (partSize)

/-! ## No header is lost -/

/-- No entry has failed, and the receiver is dropped only when every header has been sent. -/
structure LocalState.NoLoss (src : Source) (outer : Multiset CentralDirectoryFileHeader)
    (s : LocalState) : Prop where
  entries : s.entryFailed = false
  tasks : ∀ r ∈ s.running, ∀ t ∈ r.tasks, t.isFailed = false
  closed : s.channel.receiver = false → s.pending src + outer = 0

section

variable {src : Source} {J : JobSet} {outer : Multiset CentralDirectoryFileHeader}
  {s s' : LocalState} {ev : LocalEvent}

theorem Task.fails_of_step {senders : Bool} {c c' : Channel} {t t' : Task}
    (h : TaskStep src senders c t ev c' t') (hfail : t'.isFailed = true) :
    ev = .entryFault ∨ (c.receiver = false ∧ t.pending src ≠ []) := by
  cases h
  case sendClosed e hclosed => exact .inr ⟨hclosed, List.cons_ne_nil _ _⟩
  case entryFault e st hst => exact .inl rfl
  all_goals cases hfail

/-- The receiver is dropped by a directory task that has enough headers, or when no sender is
alive. -/
theorem TaskStep.receiver_closed {senders failed : Bool} {c c' : Channel} {t t' : Task}
    {dir : List CentralDirectoryFileHeader} (h : TaskStep src senders c t ev c' t')
    (hfits : t.Fits src dir c.sent failed) (hopen : c.receiver = true)
    (hclosed : c'.receiver = false) :
    senders = false ∨ ∃ total eocd ch, t.elem = .centralDirectory total eocd ch ∧
      eocd.recordCount ≤ c.sent.length := by
  cases h
  case receiveLast total ch k eocd m h hnext hsize =>
    have hk : k < c.sent.length := (List.getElem?_eq_some_iff.1 hnext).1
    refine .inr ⟨total, eocd, ch, rfl, ?_⟩
    rcases hfits with ⟨k', _, hst⟩ | ⟨m', hst, _⟩
    · obtain ⟨rfl, rfl⟩ : k = k' ∧ m = _ := by simpa using hst
      have hins := size_insertAll_le locOffset (insertAll locOffset ∅ (c.sent.take k)) [h]
      have htake := size_insertAll_le locOffset ∅ (c.sent.take k)
      have hempty : (∅ : Std.TreeMap Nat CentralDirectoryFileHeader).size = 0 := rfl
      rw [List.length_take] at htake
      rw [hsize]
      refine Nat.le_trans hins ?_
      rw [List.length_singleton]
      omega
    · cases hst
  case close total ch k eocd m hempty hsenders => exact .inl hsenders
  all_goals
    rw [hopen] at hclosed
    cases hclosed

/-- Once as many headers are sent as there are, none is left. -/
theorem LocalInv.rest_eq_zero (h : LocalInv src J outer s)
    (hlen : Multiset.card J.headers ≤ s.channel.sent.length) : s.pending src + outer = 0 := by
  obtain ⟨lost, hsum, _⟩ := h.headers
  have hcard := congrArg Multiset.card hsum
  rw [Multiset.card_add, Multiset.card_add, Multiset.card_add, Multiset.coe_card] at hcard
  refine Multiset.card_eq_zero.1 ?_
  rw [Multiset.card_add]
  omega

theorem LocalInv.card_of_rest (h : LocalInv src J outer s) (hclean : s.entryFailed = false)
    (hrest : s.pending src + outer = 0) :
    Multiset.card J.headers = s.channel.sent.length := by
  obtain ⟨lost, hsum, hlost⟩ := h.headers
  have hcard := congrArg Multiset.card hrest
  rw [Multiset.card_add, Multiset.card_zero] at hcard
  rw [← hsum, hlost hclean, add_zero, Multiset.card_add, Multiset.card_add, Multiset.coe_card]
  omega

theorem LocalState.pending_of_mem {r : RunningJob} {t : Task} (hr : r ∈ s.running)
    (ht : t ∈ r.tasks) (hrest : s.pending src + outer = 0) : t.pending src = [] := by
  have hpending : s.pending src = 0 := Multiset.le_zero.1 (hrest ▸ Multiset.le_add_right _ _)
  unfold pending at hpending
  have hrun := Multiset.le_zero.1 (hpending ▸ Multiset.le_add_left _ _)
  rw [Multiset.coe_eq_zero, List.flatMap_eq_nil_iff] at hrun
  exact List.flatMap_eq_nil_iff.1 (hrun r hr) t ht

/-- Only a failing request loses a header. -/
theorem LocalState.NoLoss.step (hs : s.NoLoss src outer) (h : LocalInv src J outer s)
    (hstep : LocalStep src s ev s') (hev : ev ≠ .entryFault) : s'.NoLoss src outer := by
  have h' := h.step hstep
  cases hstep with
  | @acquire job rest hq hpermits =>
    refine ⟨hs.entries, ?_, fun hclosed => ?_⟩
    · intro r hr t ht
      rcases List.mem_append.1 hr with hr | hr
      · exact hs.tasks r hr t ht
      · rw [List.mem_singleton.1 hr] at ht
        obtain ⟨e, _, rfl⟩ := List.mem_map.1 ht
        cases e <;> rfl
    · have hcard := h.card_of_rest hs.entries (hs.closed hclosed)
      exact h'.rest_eq_zero (Nat.le_of_eq hcard)
  | @task rs₁ rs₂ job ts₁ ts₂ t t' ev c hrun htask =>
    have hmem : (⟨job, ts₁ ++ t :: ts₂⟩ : RunningJob) ∈ s.running := by
      rw [hrun]
      exact List.mem_append_right _ List.mem_cons_self
    have ht : t ∈ ts₁ ++ t :: ts₂ := List.mem_append_right _ List.mem_cons_self
    have halive : t'.isFailed = false := by
      rcases hfail : t'.isFailed with _ | _
      · rfl
      · rcases Task.fails_of_step htask hfail with rfl | ⟨hclosed, hpending⟩
        · exact absurd rfl hev
        · exact absurd (LocalState.pending_of_mem hmem ht (hs.closed hclosed)) hpending
    have hentries : (s.entryFailed || t'.isFailed) = false := by
      rw [hs.entries, halive]
      rfl
    refine ⟨hentries, ?_, fun hclosed => ?_⟩
    · have hold : ∀ r ∈ rs₁ ++ rs₂, r ∈ s.running := by
        intro r hr
        rw [hrun]
        rcases List.mem_append.1 hr with hr | hr
        · exact List.mem_append_left _ hr
        · exact List.mem_append_right _ (List.mem_cons_of_mem _ hr)
      intro r hr t₀ ht₀
      rcases List.mem_append.1 hr with hr | hr
      · exact hs.tasks r (hold r (List.mem_append_left _ hr)) t₀ ht₀
      · rcases List.mem_cons.1 hr with rfl | hr
        · rcases List.mem_append.1 ht₀ with ht₀ | ht₀
          · exact hs.tasks _ hmem t₀ (List.mem_append_left _ ht₀)
          · rcases List.mem_cons.1 ht₀ with rfl | ht₀
            · exact halive
            · exact hs.tasks _ hmem t₀ (List.mem_append_right _ (List.mem_cons_of_mem _ ht₀))
        · exact hs.tasks r (hold r (List.mem_append_right _ hr)) t₀ ht₀
    · refine h'.rest_eq_zero ?_
      obtain ⟨more, hmore⟩ := htask.sent_eq
      have hlen : s.channel.sent.length ≤ c.sent.length := by
        rw [hmore, List.length_append]
        omega
      refine Nat.le_trans ?_ hlen
      by_cases hopen : s.channel.receiver = true
      · rcases htask.receiver_closed (h.fits _ hmem t ht) hopen hclosed with
          hsenders | ⟨total, eocd, ch, helem, hcount⟩
        · -- nobody can send any more
          have houtside : s.channel.outside = false := by
            unfold LocalState.sendersAlive at hsenders
            simp only [Bool.or_eq_false_iff] at hsenders
            exact hsenders.1.1
          refine Nat.le_of_eq (h.card_of_rest hs.entries ?_)
          rw [LocalInv.pending_eq_zero hsenders, h.outside houtside, add_zero]
        · have hdir : .centralDirectory total eocd ch ∈ job.elems := by
            rw [← h.elems _ hmem, ← helem]
            exact List.mem_map_of_mem ht
          obtain ⟨hall, _, heq⟩ := J.directory job (h.job_mem _ hmem) total eocd ch hdir
          rw [hall, Multiset.coe_card, ← heq]
          exact hcount
      · exact Nat.le_of_eq (h.card_of_rest hs.entries (hs.closed (Bool.eq_false_iff.2 hopen)))
  | @finish rs₁ rs₂ r ev content hrun hend =>
    refine ⟨hs.entries, fun r' hr' => ?_, fun hclosed => ?_⟩
    · refine hs.tasks r' ?_
      rw [hrun]
      rcases List.mem_append.1 hr' with hr' | hr'
      · exact List.mem_append_left _ hr'
      · exact List.mem_append_right _ (List.mem_cons_of_mem _ hr')
    · have hcard := h.card_of_rest hs.entries (hs.closed hclosed)
      exact h'.rest_eq_zero (Nat.le_of_eq hcard)

/-- Runs in which the requests for entries succeed lose no header. -/
theorem LocalInv.noLoss {evs : List LocalEvent} {jobs : List PartJob} {outside : Bool}
    (h : LocalInv src J outer (.start jobs outside)) (hrun : LocalRun src (.start jobs outside) evs s)
    (hevs : .entryFault ∉ evs) : LocalInv src J outer s ∧ s.NoLoss src outer := by
  have hstart : (LocalState.start jobs outside).NoLoss src outer :=
    ⟨rfl, fun r hr => (List.not_mem_nil hr).elim, fun hclosed => by cases hclosed⟩
  refine hrun.invariant_of (P := fun s => LocalInv src J outer s ∧ s.NoLoss src outer)
    ⟨h, hstart⟩ (fun a ev b hev ha hstep => ⟨ha.1.step hstep, ha.2.step ha.1 hstep hev⟩) ?_
  rintro ev hev rfl
  exact hevs hev

/-- The requests of a run succeed and no copy range is rejected. -/
def LocalEvent.succeeds (ev : LocalEvent) : Bool := !ev.isFault && decide (ev ≠ .copyRejected)

theorem LocalStep.partFailed_eq (hstep : LocalStep src s ev s') (hs : s.NoLoss src outer)
    (hev : ev.succeeds) (hok : s.partFailed = false) : s'.partFailed = false := by
  cases hstep with
  | acquire hq hpermits => exact hok
  | task hrun htask => exact hok
  | @finish rs₁ rs₂ r ev content hrun hend =>
    have hr : r ∈ s.running := by
      rw [hrun]
      exact List.mem_append_right _ List.mem_cons_self
    cases hend with
    | upload hup hall => exact Bool.or_eq_false_iff.2 ⟨hok, rfl⟩
    | copy hcopy hrange => exact Bool.or_eq_false_iff.2 ⟨hok, rfl⟩
    | copyRejected hcopy hrange => cases hev
    | joinError hup hover hfail =>
      obtain ⟨t, ht, hfail⟩ := hfail
      rw [hs.tasks r hr t ht] at hfail
      cases hfail
    | partFault hall => cases hev

/-- Where all requests succeed, no part fails. -/
theorem LocalInv.partFailed_eq {evs : List LocalEvent} {jobs : List PartJob} {outside : Bool}
    (h : LocalInv src J outer (.start jobs outside)) (hrun : LocalRun src (.start jobs outside) evs s)
    (hevs : ∀ ev ∈ evs, ev.succeeds) : s.partFailed = false := by
  have hstart : (LocalState.start jobs outside).NoLoss src outer :=
    ⟨rfl, fun r hr => (List.not_mem_nil hr).elim, fun hclosed => by cases hclosed⟩
  have hall : LocalInv src J outer s ∧ s.NoLoss src outer ∧ s.partFailed = false := by
    refine hrun.invariant_of
      (P := fun s => LocalInv src J outer s ∧ s.NoLoss src outer ∧ s.partFailed = false)
      ⟨h, hstart, rfl⟩ ?_ hevs
    rintro a ev b hev ⟨hinv, hloss, hok⟩ hstep
    refine ⟨hinv.step hstep, hloss.step hinv hstep ?_, hstep.partFailed_eq hloss hev hok⟩
    rintro rfl
    cases hev
  exact hall.2.2

/-- A step that is no fault succeeds when every copy is inside its source. -/
theorem LocalStep.succeeds_of_outputs (hstep : LocalStep src s ev s') (h : LocalInv src J outer s)
    (houtputs : ∀ job ∈ J.jobs, ∃ out, job.output src J.dir = some out) (hev : ev.isFault = false) :
    ev.succeeds := by
  have hcopy : ev ≠ .copyRejected := by
    rintro rfl
    cases hstep with
    | task hrun htask => cases htask
    | @finish rs₁ rs₂ r _ content hrun hend =>
      cases hend with
      | copyRejected htype hrange =>
        have hr : r ∈ s.running := by
          rw [hrun]
          exact List.mem_append_right _ List.mem_cons_self
        obtain ⟨out, hout⟩ := houtputs r.job (h.job_mem r hr)
        unfold PartJob.output at hout
        rw [htype] at hout
        cases hrange.symm.trans hout
  unfold LocalEvent.succeeds
  rw [hev, decide_eq_true hcopy]
  rfl

/-- Some run completes every part, when every request for permits is within the total. -/
theorem LocalInv.exists_run_ok {jobs : List PartJob}
    (h : LocalInv src J outer (.start jobs false)) (hlast : DirectoryLast J.jobs)
    (hbudget : Grantable J.jobs) (houtputs : ∀ job ∈ J.jobs, ∃ out, job.output src J.dir = some out) :
    ∃ evs s, LocalRun src (.start jobs false) evs s ∧ s.Finished ∧ s.partFailed = false := by
  have hlower (s : LocalState) (hs : (LocalInv src J outer s ∧ s.NoLoss src outer ∧
      s.partFailed = false) ∧ s.channel.outside = false) :
      s.Finished ∨ ∃ evs s', LocalRun src s evs s' ∧ ((LocalInv src J outer s' ∧
        s'.NoLoss src outer ∧ s'.partFailed = false) ∧ s'.channel.outside = false) ∧
          s'.weight (Multiset.card J.headers) < s.weight (Multiset.card J.headers) := by
    obtain ⟨⟨hinv, hloss, hok⟩, hout⟩ := hs
    by_cases hfin : s.Finished
    · exact .inl hfin
    obtain ⟨ev, s', hstep, hfault⟩ := hinv.progress hlast hbudget hout hfin
    have hev := hstep.succeeds_of_outputs hinv houtputs hfault
    have hentry : ev ≠ .entryFault := by
      rintro rfl
      cases hfault
    exact .inr ⟨[ev], s', .cons hstep (.refl s'), ⟨⟨hinv.step hstep,
      hloss.step hinv hstep hentry, hstep.partFailed_eq hloss hev hok⟩,
      hstep.outside_eq.trans hout⟩, hinv.weight_lt hstep⟩
  have hstart : (LocalState.start jobs false).NoLoss src outer :=
    ⟨rfl, fun r hr => (List.not_mem_nil hr).elim, fun hclosed => by cases hclosed⟩
  obtain ⟨evs, s, hrun, ⟨⟨_, _, hok⟩, _⟩, hfin⟩ := Run.exists_final
    (P := fun s => (LocalInv src J outer s ∧ s.NoLoss src outer ∧ s.partFailed = false) ∧
      s.channel.outside = false) ⟨⟨h, hstart, rfl⟩, rfl⟩ hlower
  exact ⟨evs, s, hrun, hfin, hok⟩

end

/-! ## The directory element -/

/-- What the runs of a job list have in common: `total` and `eocd` are the fields of the directory
element, `bytes` is what it writes. -/
structure DirectoryWritten (src : Source) (jobs : List PartJob) (total : Nat)
    (eocd : EndOfCentralDirectory64) (bytes : Bytes) : Prop where
  only : ∃ init last, jobs = init ++ [last] ∧ (∃ ch, .centralDirectory total eocd ch ∈ last.elems) ∧
    ∀ job ∈ init, ∀ e ∈ job.elems, e.isEntry
  distinct : ((jobs.flatMap (PartJob.cdfhs src)).map locOffset).Nodup
  fills : bytes.length = total
  /-- Whatever the order of arrival, all headers are stored and the same bytes are written. -/
  stored : ∀ evs s, LocalRun src (.start jobs false) evs s → .entryFault ∉ evs →
    ∀ r ∈ s.running, ∀ t ∈ r.tasks, ∀ m slice, t.state = .stored m slice →
      m.size = eocd.recordCount ∧ directoryBytes m eocd = bytes ∧ slice = bytes
  /-- While the directory's job holds permits, no job waits for any. -/
  holds_last : ∀ evs s, LocalRun src (.start jobs false) evs s →
    ∀ r ∈ s.running, ∀ t ∈ r.tasks, t.elem.isEntry = false → s.queue = []
  bounded : ∃ n, ∀ evs s, LocalRun src (.start jobs false) evs s → evs.length ≤ n
  progress : Grantable jobs → ∀ evs s, LocalRun src (.start jobs false) evs s → ¬ s.Finished →
    ∃ ev s', LocalStep src s ev s' ∧ ev.isFault = false
  /-- Once all jobs are joined, the last part ends with the directory. -/
  completed : ∀ evs s, LocalRun src (.start jobs false) evs s → s.Finished →
    (∀ ev ∈ evs, ev.succeeds) →
      ∃ content, ⟨jobs.length, content⟩ ∈ s.completed ∧ bytes <:+ content

section

variable {src : Source} {ch : CdfhChannel} {duos : List Duo} {tail : List FileEntry}

/-- What the directory element of a job list writes. -/
def plannedDirectory (src : Source) (order : List FileEntry) : Bytes :=
  (directory src order).flatMap CentralDirectoryFileHeader.dump ++ (endRecords order).dump

theorem length_plannedDirectory (src : Source) (order : List FileEntry) :
    (plannedDirectory src order).length = directorySize order + (endRecords order).size := by
  unfold plannedDirectory
  rw [List.length_append, length_directory, EndOfCentralDirectory64.length_dump]

/-- A directory task that has stored its headers has stored all of them. -/
theorem Task.Fits.stored_eq {sent : List CentralDirectoryFileHeader} {t : Task}
    {order : List FileEntry} (h : t.Fits src (directory src order) sent false)
    (helem : t.elem.isEntry = false → t.elem = cdElem ch order)
    {m : Std.TreeMap Nat CentralDirectoryFileHeader} {slice : Bytes}
    (hst : t.state = .stored m slice) :
    m.size = (endRecords order).recordCount ∧
      directoryBytes m (endRecords order) = plannedDirectory src order ∧
      slice = plannedDirectory src order := by
  obtain ⟨elem, state⟩ := t
  obtain rfl : state = _ := hst
  cases elem with
  | entryFromS3 e => rcases h with h | h | h | h <;> cases h
  | centralDirectory total eocd c =>
    cases helem rfl
    rcases h with ⟨k, _, h⟩ | ⟨m', h, hm⟩
    · cases h
    · cases h
      have hvalues := hm rfl
      have hbytes : directoryBytes m (endRecords order) = plannedDirectory src order := by
        unfold directoryBytes
        rw [hvalues]
        rfl
      refine ⟨?_, hbytes, ?_⟩
      · rw [← length_intoValues, hvalues]
        unfold directory
        rw [List.length_map, length_offsetsFrom]
        rfl
      · rw [hbytes]
        exact intoSlice_exact (length_plannedDirectory src order)

/-- The output of the last job ends with the directory. -/
theorem suffix_output_lastJob {n : Nat} {elems : List UploadPartElement} {order : List FileEntry}
    {content : Bytes} (h : (uploadJob n (elems ++ [cdElem ch order])).output src
      (directory src order) = some content) : plannedDirectory src order <:+ content := by
  have hout : writeElems src (directory src order)
      ((elems ++ [cdElem ch order]).map UploadPartElement.elemSize).sum
      (elems ++ [cdElem ch order]) = some content := h
  have hlast : intoSlice (cdElem ch order).elemSize
      ((cdElem ch order).bytes src (directory src order)) = plannedDirectory src order := by
    rw [bytes_cdElem (.refl _)]
    exact intoSlice_exact (length_plannedDirectory src order)
  rw [writeElems_sum, Option.some_inj, List.flatMap_append, List.flatMap_singleton, hlast] at hout
  exact ⟨_, hout⟩

theorem directoryWritten_jobList (src : Source) (ch : CdfhChannel) (duos : List Duo)
    (tail : List FileEntry) :
    DirectoryWritten src (jobList ch duos tail)
      (directorySize (duos.flatMap Duo.files ++ tail) +
        (endRecords (duos.flatMap Duo.files ++ tail)).size)
      (endRecords (duos.flatMap Duo.files ++ tail))
      (plannedDirectory src (duos.flatMap Duo.files ++ tail)) := by
  have hinv := LocalInv.start_planned ch src duos tail
  have hlast : DirectoryLast (JobSet.planned ch src duos tail).jobs :=
    directoryLast_jobList duos tail
  refine ⟨?_, ?_, length_plannedDirectory _ _, ?_, ?_, ?_, ?_, ?_⟩
  · refine ⟨_, _, rfl, ⟨ch, ?_⟩, isEntry_duoJobs 0 1⟩
    exact List.mem_append_right _ List.mem_cons_self
  · rw [cdfhs_jobList]
    exact (sorted_directory _ _).imp Nat.ne_of_lt
  · intro evs s hrun hevs r hr t ht m slice hst
    obtain ⟨hs, hloss⟩ := hinv.noLoss hrun hevs
    have hfits := hs.fits r hr t ht
    rw [hloss.entries] at hfits
    refine @Task.Fits.stored_eq src ch _ _ _ hfits (fun hdir => ?_) _ _ hst
    refine directory_jobList (hs.job_mem r hr) ?_ hdir
    rw [← hs.elems r hr]
    exact List.mem_map_of_mem ht
  · intro evs s hrun r hr t ht hdir
    exact (hinv.run hrun).queue_nil_of_directory hlast hr ht hdir
  · exact ⟨_, fun evs s hrun => hinv.length_le hrun⟩
  · intro hbudget evs s hrun hnot
    exact (hinv.run hrun).progress hlast hbudget hrun.outside_eq hnot
  · intro evs s hrun hfin hevs
    have hcompleted := (hinv.run hrun).completed hfin (hinv.partFailed_eq hrun hevs)
    have hmem : uploadJob (2 * duos.length + 1) (getElems ch (partSize (duos.flatMap Duo.files)) tail ++
        [cdElem ch (duos.flatMap Duo.files ++ tail)]) ∈ jobList ch duos tail :=
      List.mem_append_right _ List.mem_cons_self
    obtain ⟨part, hpart, hnumber, hout⟩ := hcompleted.exists_of_mem hmem
    refine ⟨part.content, ?_, suffix_output_lastJob hout⟩
    have hlen : (jobList ch duos tail).length = part.partNumber := by
      rw [hnumber]
      unfold jobList
      rw [List.length_append, length_duoJobs]
      rfl
    rw [hlen]
    exact hpart

end

/-- In every run of the planned jobs the directory element writes the same bytes, which fill its
slice, and it never keeps another job from running. -/
theorem planJobs_directory (ch : CdfhChannel) (src : Source) (files : List FileInfo) :
    ∃ jobs total eocd bytes, planJobs ch files = .ok jobs ∧ eocd.recordCount = files.length ∧
      DirectoryWritten src jobs total eocd bytes := by
  obtain ⟨p, hjobs, htail, _⟩ := planJobs_eq ch files
  rw [← htail] at hjobs
  exact ⟨_, _, _, _, hjobs, p.perm.length_eq, directoryWritten_jobList src ch p.duos p.tail⟩

end S3Archive.JrodonV3
