import S3Archive.FigmentEngine.AssembleInvariant

/-!
# figment-engine: the assembler ends

No run makes more than five requests for each HEAD and each part (`stepsLeft`).
While it has not ended some reply is to come (`AssembleInv.progress`). A run that
is `Tolerated`, in which no call fails more than four times and only in ways that
are retried, ends with the archive (`assemble_run`).
-/

namespace S3Archive.FigmentEngine

/-! ## The number of steps -/

def AssembleEvent.isLand : AssembleEvent → Bool
  | .land _ => true
  | _ => false

/-- The most steps that a run still takes, landing parts aside. -/
def stepsLeft (plan : SinglePlan) : AssemblePhase → Nat
  | .heads pool => pool.attemptsLeft + (maxAttempts * plan.parts.length + 3)
  | .create _ => maxAttempts * plan.parts.length + 2
  | .parts _ copies streams _ _ => copies.attemptsLeft + streams.attemptsLeft + 1
  | .ended _ => 0

theorem parts_of_isFilled {store : ObjectStore} {plan filled : SinglePlan}
    (h : IsFilled store plan filled) : filled.parts = plan.parts := by
  obtain ⟨results, _, rfl⟩ := h
  rfl

theorem stepsLeft_opened (plan : SinglePlan) {filled : SinglePlan}
    (h : filled.parts = plan.parts) :
    stepsLeft plan (.opened filled) = maxAttempts * plan.parts.length + 1 := by
  have hsplit := (List.filter_append_perm PartSpec.isCopy plan.parts).length_eq
  rw [List.length_append] at hsplit
  unfold AssemblePhase.opened startPool stepsLeft
  rw [h]
  dsimp only
  rw [Pool.attemptsLeft_start, Pool.attemptsLeft_start, ← Nat.mul_add, hsplit]

theorem stepsLeft_afterPart (plan filled : SinglePlan) (copies streams : PartPool)
    (stored : Std.HashMap Nat Bytes) (completed : List Nat) (part : PartSpec)
    (out : Option (Except RequestError Unit)) :
    stepsLeft plan (.afterPart filled copies streams stored completed part out) ≤
      copies.attemptsLeft + streams.attemptsLeft + 1 := by
  cases out with
  | none => exact Nat.le_refl _
  | some r =>
    cases r with
    | ok u => exact Nat.le_refl _
    | error e => exact Nat.zero_le _

section

variable {store : ObjectStore} {files : List SourceFile} {plan : SinglePlan}
  {p : PlanRounds files plan} {s s' : AssembleState} {ev : AssembleEvent}

theorem AssembleInv.stepsLeft_step (hinv : AssembleInv store files p s)
    (h : AssembleStep store plan s ev s') :
    stepsLeft plan s'.phase + (if ev.isLand then 0 else 1) ≤ stepsLeft plan s.phase := by
  cases h with
  | head h htext =>
    have hlt := h.attemptsLeft_lt
    simp only [AssembleEvent.isLand, stepsLeft, Bool.false_eq_true, if_false]
    omega
  | fill hdone hresults =>
    simp only [AssembleEvent.isLand, stepsLeft, Bool.false_eq_true, if_false]
    omega
  | fillFails hdone hresults => exact Nat.le_add_left 1 _
  | create =>
    rw [stepsLeft_opened plan (parts_of_isFilled hinv.phase)]
    exact Nat.le_refl _
  | createFails => exact Nat.le_add_left 1 _
  | land hpart hbytes => exact Nat.le_refl _
  | @part filled _ copies' _ streams' stored completed part _ out h hlanded =>
    have hlt := h.attemptsLeft_lt
    have hafter :=
      stepsLeft_afterPart plan filled copies' streams' stored completed part out
    simp only [AssembleEvent.isLand, stepsLeft, Bool.false_eq_true, if_false] at hafter ⊢
    omega
  | complete hcopies hstreams => exact Nat.le_add_left 1 _
  | completeFails hcopies hstreams => exact Nat.le_add_left 1 _

end

/-! ## Failures that are tolerated -/

def AssembleEvent.failedHead : AssembleEvent → List FileId
  | .head id reply => Pool.failedJob id reply
  | _ => []

def AssembleEvent.failedPart : AssembleEvent → List PartSpec
  | .part job reply => Pool.failedJob job reply
  | _ => []

/-- Every call fails less than five times and in ways that are retried; the requests that are
made once succeed. -/
structure Tolerated (evs : List AssembleEvent) : Prop where
  head_transient : ∀ id e, .head id (.error e) ∈ evs → isRetryable e = true
  part_transient : ∀ part e, .part part (.error e) ∈ evs → isRetryable e = true
  heads : ∀ id, (evs.flatMap AssembleEvent.failedHead).count id < maxAttempts
  parts : ∀ part, (evs.flatMap AssembleEvent.failedPart).count part < maxAttempts
  create : ∀ e, .create (.error e) ∉ evs
  complete : ∀ e, .complete (.error e) ∉ evs

theorem Tolerated.left {evs : List AssembleEvent} {ev : AssembleEvent}
    (h : Tolerated (evs ++ [ev])) : Tolerated evs where
  head_transient id e hmem := h.head_transient id e (List.mem_append_left _ hmem)
  part_transient part e hmem := h.part_transient part e (List.mem_append_left _ hmem)
  heads id := by
    have hall := h.heads id
    rw [List.flatMap_append, List.count_append] at hall
    omega
  parts part := by
    have hall := h.parts part
    rw [List.flatMap_append, List.count_append] at hall
    omega
  create e hmem := h.create e (List.mem_append_left _ hmem)
  complete e hmem := h.complete e (List.mem_append_left _ hmem)

/-- No call has given up, and the pools know how often each call has failed. -/
def PhaseTolerated (evs : List AssembleEvent) : AssemblePhase → Prop
  | .heads pool => pool.Tracks (evs.flatMap AssembleEvent.failedHead) ∧
      (∀ x ∈ pool.completed, ∃ text, x.2 = .ok text) ∧
      evs.flatMap AssembleEvent.failedPart = []
  | .create _ => evs.flatMap AssembleEvent.failedPart = []
  | .parts _ copies streams _ _ => copies.Tracks (evs.flatMap AssembleEvent.failedPart) ∧
      streams.Tracks (evs.flatMap AssembleEvent.failedPart)
  | .ended r => r = .ok ()

theorem ObjectStore.crc32_source {store : ObjectStore} {name : Bytes} {crc : UInt32}
    (h : (store.checksumCrc32 name).bind decodeS3Crc32 = some crc) :
    store.source.crc32 name = crc := by
  show ((store.checksumCrc32 name).bind decodeS3Crc32).getD 0 = crc
  rw [h]
  rfl

/-- A call of a pool does not give up. -/
theorem not_gives_up {ι α : Type} [DecidableEq ι] {slots : Nat}
    {pool pool' : Pool maxAttempts ι RequestError α} {job : ι} {reply : Except RequestError α}
    {out : Option (Except RequestError α)} {log : List ι} (htracks : pool.Tracks log)
    (h : pool.Step slots isRetryable job reply out pool')
    (htransient : ∀ e, reply = .error e → isRetryable e = true)
    (hcount : (log ++ Pool.failedJob job reply).count job < maxAttempts) (e : RequestError) :
    out ≠ some (.error e) := by
  intro hout
  cases reply with
  | ok a =>
    cases h with
    | reply htasks hslot hreceive htasks' hcompleted =>
      rw [hreceive] at hout
      cases Option.some.inj hout
  | error e' =>
    have hfailed : (Pool.failedJob job (.error e' : Except RequestError α)).count job = 1 :=
      List.count_singleton_self
    rw [List.count_append, hfailed] at hcount
    rw [htracks.retries h (htransient e' rfl) hcount] at hout
    cases hout

section

variable {store : ObjectStore} {files : List SourceFile} {plan : SinglePlan}
  {p : PlanRounds files plan} {s s' : AssembleState} {evs : List AssembleEvent} {ev : AssembleEvent}

theorem nodup_parts (p : PlanRounds files plan) : plan.parts.Nodup := by
  refine .of_map PartSpec.partNumber ?_
  rw [p.numbered]
  exact List.nodup_range'

theorem PartReply.tolerated {filled : SinglePlan} {copies copies' streams streams' : PartPool}
    {stored : Std.HashMap Nat Bytes} {completed : List Nat} {part : PartSpec}
    {reply : Except RequestError Unit} {out : Option (Except RequestError Unit)}
    {log : List PartSpec} (h : PartReply copies streams part reply out copies' streams')
    (hinv : PartsInv store filled copies streams stored completed) (hnodup : filled.parts.Nodup)
    (hcopies : copies.Tracks log) (hstreams : streams.Tracks log)
    (htransient : ∀ e, reply = .error e → isRetryable e = true)
    (hcount : (log ++ Pool.failedJob part reply).count part < maxAttempts) :
    (∀ e, out ≠ some (.error e)) ∧ copies'.Tracks (log ++ Pool.failedJob part reply) ∧
      streams'.Tracks (log ++ Pool.failedJob part reply) := by
  have hfailed : ∀ job ∈ Pool.failedJob part reply, job = part := by
    cases reply with
    | ok u => exact fun job hjob => absurd hjob List.not_mem_nil
    | error e => exact fun job hjob => List.mem_singleton.1 hjob
  -- a part is in one pool only
  cases h with
  | copy h =>
    have hcopy : part.isCopy = true := by
      have hmem := h.mem_jobs
      rw [hinv.copies_jobs] at hmem
      exact (List.mem_filter.1 hmem).2
    refine ⟨not_gives_up hcopies h htransient hcount, hcopies.step ?_ h, hstreams.append ?_⟩
    · rw [hinv.copies_jobs]
      exact hnodup.filter _
    · intro job hjob hmem
      rw [hfailed job hjob, hinv.streams_jobs] at hmem
      simpa [hcopy] using (List.mem_filter.1 hmem).2
  | stream h =>
    have hstream : part.isCopy = false := by
      have hmem := h.mem_jobs
      rw [hinv.streams_jobs] at hmem
      simpa using (List.mem_filter.1 hmem).2
    refine ⟨not_gives_up hstreams h htransient hcount, hcopies.append ?_, hstreams.step ?_ h⟩
    · intro job hjob hmem
      rw [hfailed job hjob, hinv.copies_jobs] at hmem
      simpa [hstream] using (List.mem_filter.1 hmem).2
    · rw [hinv.streams_jobs]
      exact hnodup.filter _

theorem AssembleInv.tolerated_step (hids : (files.map SourceFile.id).Nodup)
    (hcrcs : ∀ f ∈ files, ((store.checksumCrc32 f.name).bind decodeS3Crc32).isSome = true)
    (hinv : AssembleInv store files p s) (hev : Tolerated (evs ++ [ev]))
    (h : PhaseTolerated evs s.phase) (hstep : AssembleStep store plan s ev s') :
    PhaseTolerated (evs ++ [ev]) s'.phase := by
  have hheads : (evs ++ [ev]).flatMap AssembleEvent.failedHead =
      evs.flatMap AssembleEvent.failedHead ++ ev.failedHead := by
    rw [List.flatMap_append, List.flatMap_singleton]
  have hparts : (evs ++ [ev]).flatMap AssembleEvent.failedPart =
      evs.flatMap AssembleEvent.failedPart ++ ev.failedPart := by
    rw [List.flatMap_append, List.flatMap_singleton]
  cases hstep with
  | @head pool pool' id reply out hreply htext =>
    obtain ⟨htracks, hok, hnone⟩ := h
    obtain ⟨hjobs, _⟩ := hinv.phase
    have hnodup : pool.jobs.Nodup := by
      rw [hjobs, p.order_eq]
      exact (p.perm.map SourceFile.id).nodup_iff.2 hids
    have hcount := hev.heads id
    rw [hheads] at hcount
    have hgives := not_gives_up htracks hreply (fun e he => hev.head_transient id e
      (he ▸ List.mem_append_right _ List.mem_cons_self)) hcount
    refine ⟨?_, fun x hx => ?_, ?_⟩
    · rw [hheads]
      exact htracks.step hnodup hreply
    · rw [hreply.completed_eq] at hx
      rcases List.mem_append.1 hx with hx | hx
      · exact hok x hx
      · obtain ⟨r, hr, rfl⟩ := Option.map_eq_some_iff.1 (Option.mem_toList.1 hx)
        cases r with
        | ok text => exact ⟨text, rfl⟩
        | error e => exact absurd hr (hgives e)
    · rw [hparts, hnone]
      rfl
  | fill hdone hresults =>
    show _ = []
    rw [hparts, h.2.2]
    rfl
  | @fillFails pool e hdone hresults =>
    -- every received checksum decodes
    exfalso
    obtain ⟨_, hok, _⟩ := h
    obtain ⟨hjobs, htexts⟩ := hinv.phase
    have hall : ∀ x ∈ pool.completed, headCrc x =
        .ok (x.1, store.source.crc32 plan.entries[x.1]!.name) := by
      intro x hx
      obtain ⟨id, r⟩ := x
      obtain ⟨text, rfl⟩ := hok _ hx
      have htext : text = store.checksumCrc32 plan.entries[id]!.name := htexts _ hx text rfl
      have hmem : id ∈ plan.order := by
        rw [← hjobs]
        exact (Pool.completed_jobs hdone).subset (List.mem_map_of_mem hx)
      rw [p.order_eq] at hmem
      obtain ⟨f, hf, rfl⟩ := List.mem_map.1 hmem
      have hname : plan.entries[f.id]!.name = f.name := by
        obtain ⟨off, hplaced⟩ := exists_placed hf
        obtain ⟨streamed, hget⟩ := p.entry _ hplaced
        rw [Std.HashMap.getElem!_eq_get!_getElem?, hget]
        rfl
      obtain ⟨crc, hcrc⟩ := Option.isSome_iff_exists.1 (hcrcs f (p.perm.subset hf))
      show headCrc (f.id, .ok text) = .ok (f.id, store.source.crc32 plan.entries[f.id]!.name)
      rw [headCrc_ok, htext, hname, hcrc, ObjectStore.crc32_source hcrc]
    rw [mapM_eq_ok hall] at hresults
    cases hresults
  | create =>
    have hnone : evs.flatMap AssembleEvent.failedPart = [] := h
    show Pool.Tracks _ _ ∧ Pool.Tracks _ _
    rw [hparts, hnone]
    exact ⟨Pool.tracks_start _ _, Pool.tracks_start _ _⟩
  | @createFails _ e => exact absurd (List.mem_append_right _ List.mem_cons_self) (hev.create e)
  | land hpart hbytes =>
    show Pool.Tracks _ _ ∧ Pool.Tracks _ _
    rw [hparts]
    show Pool.Tracks _ (_ ++ []) ∧ Pool.Tracks _ (_ ++ [])
    rw [List.append_nil]
    exact h
  | @part filled copies copies' streams streams' stored completed part reply out hreply hlanded =>
    have hcount := hev.parts part
    rw [hparts] at hcount
    have hnodup : filled.parts.Nodup := by
      rw [parts_of_isFilled hinv.phase.1]
      exact nodup_parts p
    obtain ⟨hgives, hcopies, hstreams⟩ := hreply.tolerated hinv.phase.2 hnodup h.1 h.2
      (fun e he => hev.part_transient part e (he ▸ List.mem_append_right _ List.mem_cons_self))
      hcount
    cases out with
    | none =>
      show Pool.Tracks _ _ ∧ Pool.Tracks _ _
      rw [hparts]
      exact ⟨hcopies, hstreams⟩
    | some r =>
      cases r with
      | ok u =>
        show Pool.Tracks _ _ ∧ Pool.Tracks _ _
        rw [hparts]
        exact ⟨hcopies, hstreams⟩
      | error e => exact absurd rfl (hgives e)
  | @complete _ _ _ _ _ reply hcopies hstreams =>
    cases reply with
    | ok u => rfl
    | error e => exact absurd (List.mem_append_right _ List.mem_cons_self) (hev.complete e)
  | @completeFails _ _ _ _ _ e hcopies hstreams =>
    exact absurd (List.mem_append_right _ List.mem_cons_self) (hev.complete e)

theorem phaseTolerated_of_run (p : PlanRounds files plan) (hids : (files.map SourceFile.id).Nodup)
    (hsizes : SizesListed store.source files)
    (hcrcs : ∀ f ∈ files, ((store.checksumCrc32 f.name).bind decodeS3Crc32).isSome = true)
    (hrun : AssembleRun store plan (.start plan) evs s) (hev : Tolerated evs) :
    PhaseTolerated evs s.phase := by
  induction hrun with
  | refl =>
    refine ⟨Pool.tracks_start _ _, fun x hx => ?_, rfl⟩
    cases hx
  | step hrun hlast ih =>
    exact (assembleInv_of_run p hids hsizes hrun).tolerated_step hids hcrcs hev (ih hev.left) hlast

/-! ## Progress -/

/-- A run that has not ended goes on, not only by landing parts. -/
theorem AssembleInv.progress (hinv : AssembleInv store files p s)
    (hended : ∀ r, s.phase ≠ .ended r) :
    ∃ ev s', ev.isLand = false ∧ AssembleStep store plan s ev s' := by
  obtain ⟨phase, object⟩ := s
  obtain rfl : object = none := hinv.fresh hended
  cases phase with
  | heads pool =>
    cases hdone : pool.isDone with
    | false =>
      obtain ⟨id, _, hreply⟩ := @Pool.exists_step _ crcConcurrency _ _ _ pool isRetryable
        (by decide) hdone
      obtain ⟨out, pool', hstep⟩ := hreply (.ok (store.checksumCrc32 plan.entries[id]!.name))
      exact ⟨.head id _, _, rfl, .head hstep fun text htext => (Except.ok.inj htext).symm⟩
    | true =>
      cases hresults : pool.completed.mapM headCrc with
      | ok results => exact ⟨.fill, _, rfl, .fill hdone hresults⟩
      | error e => exact ⟨.fill, _, rfl, .fillFails hdone hresults⟩
  | create filled => exact ⟨.create (.ok ()), _, rfl, .create⟩
  | parts filled copies streams stored completed =>
    cases hcopies : copies.isDone with
    | false =>
      obtain ⟨part, _, hreply⟩ := @Pool.exists_step _ copyConcurrency _ _ _ copies isRetryable
        (by decide) hcopies
      obtain ⟨out, copies', hstep⟩ := hreply (.error .byteStream)
      exact ⟨.part part _, _, rfl, .part (.copy hstep) fun h => (by cases h)⟩
    | true =>
      cases hstreams : streams.isDone with
      | false =>
        obtain ⟨part, _, hreply⟩ := @Pool.exists_step _ streamConcurrency _ _ _ streams isRetryable
          (by decide) hstreams
        obtain ⟨out, streams', hstep⟩ := hreply (.error .byteStream)
        exact ⟨.part part _, _, rfl, .part (.stream hstep) fun h => (by cases h)⟩
      | true => exact ⟨.complete (.ok ()), _, rfl, .complete hcopies hstreams⟩
  | ended r => exact absurd rfl (hended r)

end

/-! ## A run in which every call succeeds -/

/-- The reply is no error. -/
def AssembleEvent.succeeds : AssembleEvent → Bool
  | .head _ reply => reply.isOk
  | .fill => true
  | .create reply => reply.isOk
  | .land _ => true
  | .part _ reply => reply.isOk
  | .complete reply => reply.isOk

section

variable {store : ObjectStore} {files : List SourceFile} {plan filled : SinglePlan}
  {p : PlanRounds files plan} {s s' : AssembleState} {ev : AssembleEvent} {phase : AssemblePhase}

theorem AssembleEvent.failed_of_succeeds (h : ev.succeeds = true) :
    ev.failedHead = [] ∧ ev.failedPart = [] := by
  cases ev with
  | head id reply =>
    cases reply with
    | ok text => exact ⟨rfl, rfl⟩
    | error e => cases h
  | part part reply =>
    cases reply with
    | ok u => exact ⟨rfl, rfl⟩
    | error e => cases h
  | _ => exact ⟨rfl, rfl⟩

theorem tolerated_of_succeeds (h : ev.succeeds = true) : Tolerated ([] ++ [ev]) := by
  obtain ⟨hhead, hpart⟩ := AssembleEvent.failed_of_succeeds h
  refine ⟨fun id e hmem => ?_, fun part e hmem => ?_, fun id => ?_, fun part => ?_, fun e hmem => ?_,
    fun e hmem => ?_⟩
  · rw [← List.mem_singleton.1 hmem] at h
    cases h
  · rw [← List.mem_singleton.1 hmem] at h
    cases h
  · rw [List.nil_append, List.flatMap_singleton, hhead]
    exact Nat.succ_pos 4
  · rw [List.nil_append, List.flatMap_singleton, hpart]
    exact Nat.succ_pos 4
  · rw [← List.mem_singleton.1 hmem] at h
    cases h
  · rw [← List.mem_singleton.1 hmem] at h
    cases h

/-- What is left after a call that succeeds is as if there had been none. -/
theorem phaseTolerated_of_succeeds (h : ev.succeeds = true)
    (hphase : PhaseTolerated ([] ++ [ev]) phase) : PhaseTolerated [] phase := by
  obtain ⟨hhead, hpart⟩ := AssembleEvent.failed_of_succeeds h
  have hheads : ([] ++ [ev]).flatMap AssembleEvent.failedHead = [] := by
    rw [List.nil_append, List.flatMap_singleton, hhead]
  have hparts : ([] ++ [ev]).flatMap AssembleEvent.failedPart = [] := by
    rw [List.nil_append, List.flatMap_singleton, hpart]
  unfold PhaseTolerated at hphase
  rw [hheads, hparts] at hphase
  exact hphase

/-- The parts of a filled plan can be built. -/
theorem exists_partBytes (p : PlanRounds files plan) (hids : (files.map SourceFile.id).Nodup)
    (hsizes : SizesListed store.source files) (hfilled : IsFilled store plan filled)
    {part : PartSpec} (hpart : part ∈ filled.parts) :
    ∃ bytes, partBytes store.source filled part = .ok (part.partNumber, bytes) := by
  have hparts := parts_of_isFilled hfilled
  obtain ⟨results, hresults, rfl⟩ := hfilled
  obtain ⟨made, hmade, _⟩ := p.completed hids hsizes hresults
  rw [hparts] at hpart
  obtain ⟨y, hy⟩ := exists_of_mapM hmade hpart
  refine ⟨y.2, ?_⟩
  rw [hy, ← fst_partBytes _ _ hy]

/-- What a run of calls that succeed keeps. -/
def Succeeding (store : ObjectStore) (p : PlanRounds files plan) (s : AssembleState) : Prop :=
  AssembleInv store files p s ∧ PhaseTolerated [] s.phase

section

variable (hids : (files.map SourceFile.id).Nodup) (hsizes : SizesListed store.source files)
  (hcrcs : ∀ f ∈ files, ((store.checksumCrc32 f.name).bind decodeS3Crc32).isSome = true)

include hids hsizes hcrcs

theorem Succeeding.step (h : Succeeding store p s) (hev : ev.succeeds = true)
    (hstep : AssembleStep store plan s ev s') : Succeeding store p s' :=
  ⟨h.1.step p hids hsizes hstep, phaseTolerated_of_succeeds hev
    (h.1.tolerated_step hids hcrcs (tolerated_of_succeeds hev) h.2 hstep)⟩

/-- A call that succeeds, a part being landed first, brings the end nearer. -/
theorem Succeeding.lowers (h : Succeeding store p s) (hended : ∀ r, s.phase ≠ .ended r) :
    ∃ evs s', AssembleRun store plan s evs s' ∧ Succeeding store p s' ∧
      stepsLeft plan s'.phase < stepsLeft plan s.phase := by
  -- one step is enough, but for a part
  have hone {s s' : AssembleState} {ev : AssembleEvent} (h : Succeeding store p s)
      (hev : ev.succeeds = true) (hland : ev.isLand = false)
      (hstep : AssembleStep store plan s ev s') :
      ∃ evs t, AssembleRun store plan s evs t ∧ Succeeding store p t ∧
        stepsLeft plan t.phase < stepsLeft plan s.phase := by
    refine ⟨[ev], s', .cons hstep (.refl s'), h.step hids hsizes hcrcs hev hstep, ?_⟩
    have hsteps := h.1.stepsLeft_step hstep
    rw [hland] at hsteps
    exact hsteps
  obtain ⟨phase, object⟩ := s
  obtain rfl : object = none := h.1.fresh hended
  cases phase with
  | heads pool =>
    cases hdone : pool.isDone with
    | false =>
      obtain ⟨id, _, hreply⟩ := @Pool.exists_step _ crcConcurrency _ _ _ pool isRetryable
        (by decide) hdone
      obtain ⟨out, pool', hstep⟩ := hreply (.ok (store.checksumCrc32 plan.entries[id]!.name))
      exact @hone _ _ (.head id _) h rfl rfl
        (.head hstep fun text htext => (Except.ok.inj htext).symm)
    | true =>
      cases hresults : pool.completed.mapM headCrc with
      | ok results => exact hone h rfl rfl (.fill hdone hresults)
      | error e =>
        -- all checksums decode
        have hfails : Succeeding store p _ :=
          h.step hids hsizes hcrcs rfl (AssembleStep.fillFails hdone hresults)
        cases hfails.2
  | create filled => exact hone h rfl rfl .create
  | parts filled copies streams stored completed =>
    have hpart {part : PartSpec} (hpart : part ∈ filled.parts)
        (hreply : ∃ out copies' streams', PartReply copies streams part (.ok ()) out copies'
          streams') :
        ∃ evs s', AssembleRun store plan
            ⟨.parts filled copies streams stored completed, none⟩ evs s' ∧
          Succeeding store p s' ∧ stepsLeft plan s'.phase <
            stepsLeft plan (.parts filled copies streams stored completed) := by
      obtain ⟨out, copies', streams', hreply⟩ := hreply
      obtain ⟨bytes, hbytes⟩ := exists_partBytes p hids hsizes h.1.phase.1 hpart
      have hland : AssembleStep store plan ⟨.parts filled copies streams stored completed, none⟩
          (.land part.partNumber)
          ⟨.parts filled copies streams (stored.insert part.partNumber bytes) completed, none⟩ :=
        .land hpart hbytes
      obtain ⟨evs, s', hrun, hs', hlt⟩ := @hone _ _ (.part part (.ok ()))
        (h.step hids hsizes hcrcs rfl hland) rfl rfl
        (.part hreply fun _ => Std.HashMap.mem_insert_self)
      exact ⟨_, s', hrun.cons hland, hs', hlt⟩
    cases hcopies : copies.isDone with
    | false =>
      obtain ⟨part, hmem, hreply⟩ := @Pool.exists_step _ copyConcurrency _ _ _ copies isRetryable
        (by decide) hcopies
      obtain ⟨out, copies', hstep⟩ := hreply (.ok ())
      rw [h.1.phase.2.copies_jobs] at hmem
      exact hpart (List.mem_filter.1 hmem).1 ⟨out, copies', streams, .copy hstep⟩
    | true =>
      cases hstreams : streams.isDone with
      | false =>
        obtain ⟨part, hmem, hreply⟩ := @Pool.exists_step _ streamConcurrency _ _ _ streams
          isRetryable (by decide) hstreams
        obtain ⟨out, streams', hstep⟩ := hreply (.ok ())
        rw [h.1.phase.2.streams_jobs] at hmem
        exact hpart (List.mem_filter.1 hmem).1 ⟨out, copies, streams', .stream hstep⟩
      | true => exact @hone _ _ (.complete (.ok ())) h rfl rfl (.complete hcopies hstreams)
  | ended r => exact absurd rfl (hended r)

/-- Some run ends with the archive. -/
theorem exists_run_ok (p : PlanRounds files plan) :
    ∃ evs s, AssembleRun store plan (.start plan) evs s ∧ s.phase = .ended (.ok ()) := by
  have hstart : Succeeding store p (.start plan) := by
    refine ⟨assembleInv_of_run p hids hsizes (.refl _), Pool.tracks_start _ _, fun x hx => ?_, rfl⟩
    cases hx
  have hlower (s : AssembleState) (h : Succeeding store p s) :
      s.phase = .ended (.ok ()) ∨ ∃ evs s', AssembleRun store plan s evs s' ∧
        Succeeding store p s' ∧ stepsLeft plan s'.phase < stepsLeft plan s.phase := by
    by_cases hended : ∃ r, s.phase = .ended r
    · obtain ⟨r, hr⟩ := hended
      have hok := h.2
      rw [hr] at hok
      exact .inl (hr.trans (congrArg AssemblePhase.ended hok))
    · exact .inr (h.lowers hids hsizes hcrcs fun r hr => hended ⟨r, hr⟩)
  obtain ⟨evs, s, hrun, _, hended⟩ := @Run.exists_final _ _ _ _ _ _
    (fun s => stepsLeft plan s.phase) hstart hlower
  exact ⟨evs, s, hrun, hended⟩

end

end

/-! ## Whole runs -/

theorem stepsLeft_start {files : List SourceFile} {plan : SinglePlan} (p : PlanRounds files plan) :
    stepsLeft plan (AssembleState.start plan).phase =
      maxAttempts * (files.length + plan.parts.length) + 3 := by
  have hlen : plan.order.length = files.length := by
    rw [p.order_eq, List.length_map, p.perm.length_eq]
  unfold AssembleState.start startPool stepsLeft
  dsimp only
  rw [Pool.attemptsLeft_start, hlen, Nat.mul_add, Nat.add_assoc]

/-- Every run of the assembler, whatever the replies and the order in which they and the parts
come: it takes a bounded number of steps, goes on until it has ended, puts nothing but the archive
at its key, and ends with it unless a call fails five times or in a way that is not retried. -/
theorem assemble_run {store : ObjectStore} {files : List SourceFile} {plan : SinglePlan}
    (hids : (files.map SourceFile.id).Nodup) (hsizes : SizesListed store.source files)
    (hplan : planSingleMpu files = .singleMpu plan) :
    ∃ order, plan.order = order.map SourceFile.id ∧
      ∀ evs s, AssembleRun store plan (.start plan) evs s →
        evs.countP (fun ev => !ev.isLand) ≤
          maxAttempts * (files.length + plan.parts.length) + 3 ∧
        ((∀ r, s.phase ≠ .ended r) → ∃ ev s', ev.isLand = false ∧ AssembleStep store plan s ev s') ∧
        (∀ archive, s.object = some archive →
          IsArchive store.source files order plan.offsetOf (bodySize order) (directorySize order)
            archive) ∧
        (s.phase = .ended (.ok ()) → s.object.isSome = true) ∧
        (Tolerated evs →
          (∀ f ∈ files, ((store.checksumCrc32 f.name).bind decodeS3Crc32).isSome = true) →
          ∀ r, s.phase = .ended r → r = .ok ()) := by
  obtain ⟨p⟩ := planSingleMpu_rounds hids hplan
  refine ⟨p.files, p.order_eq, fun evs s hrun => ?_⟩
  have hinv := assembleInv_of_run p hids hsizes hrun
  refine ⟨?_, hinv.progress, hinv.object, hinv.ended, fun hev hcrcs r hended => ?_⟩
  · have hsteps : stepsLeft plan s.phase + evs.countP (fun ev => !ev.isLand) ≤
        stepsLeft plan (AssembleState.start plan).phase := by
      clear hinv
      induction hrun with
      | refl => exact Nat.le_refl _
      | @step evs s s' ev hrun hlast ih =>
        have hstep := (assembleInv_of_run p hids hsizes hrun).stepsLeft_step hlast
        rw [List.countP_append, List.countP_singleton]
        cases hland : ev.isLand with
        | false =>
          simp only [hland, Bool.false_eq_true, if_false, Bool.not_false, if_true] at hstep ⊢
          omega
        | true =>
          simp only [hland, if_true, Bool.not_true, Bool.false_eq_true, if_false] at hstep ⊢
          omega
    rw [stepsLeft_start p] at hsteps
    omega
  · have htolerated := phaseTolerated_of_run p hids hsizes hcrcs hrun hev
    rw [hended] at htolerated
    exact htolerated

/-- The five objects with their checksums. -/
def fiveStore : ObjectStore where
  body := fiveSource.body
  checksumCrc32 name := some <|
    if name = [0x61] then "OHc0Fw=="
    else if name = [0x62] then "OPmDVQ=="
    else if name = [0x63] then "IUTfHA=="
    else if name = [0x64] then "OD8QTA=="
    else "AAAAAA=="

/-- Five files: some run ends with their archive, and so does every run that is tolerated. -/
theorem assemble_run_five :
    ∃ plan order, planSingleMpu fiveFiles = .singleMpu plan ∧
      (∃ evs s, AssembleRun fiveStore plan (.start plan) evs s ∧ s.phase = .ended (.ok ())) ∧
      ∀ evs s, AssembleRun fiveStore plan (.start plan) evs s → Tolerated evs →
        ∀ r, s.phase = .ended r → ∃ archive, s.object = some archive ∧
          IsArchive fiveStore.source fiveFiles order plan.offsetOf (bodySize order)
            (directorySize order) archive := by
  have hcrcs : ∀ f ∈ fiveFiles,
      ((fiveStore.checksumCrc32 f.name).bind decodeS3Crc32).isSome = true := by decide +kernel
  obtain ⟨plan, hplan⟩ := exists_plan_fiveFiles
  obtain ⟨p⟩ := planSingleMpu_rounds nodup_fiveFiles hplan
  obtain ⟨order, _, h⟩ :=
    @assemble_run fiveStore _ _ nodup_fiveFiles sizesListed_fiveFiles hplan
  refine ⟨plan, order, hplan,
    exists_run_ok nodup_fiveFiles sizesListed_fiveFiles hcrcs p, fun evs s hrun hev r hended => ?_⟩
  obtain ⟨_, _, hobject, hok, htolerated⟩ := h evs s hrun
  rw [htolerated hev hcrcs r hended] at hended
  obtain ⟨archive, harchive⟩ := Option.isSome_iff_exists.1 (hok hended)
  exact ⟨archive, harchive, hobject archive harchive⟩

end S3Archive.FigmentEngine
