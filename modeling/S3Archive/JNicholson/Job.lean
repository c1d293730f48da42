import S3Archive.Base.Listing
import S3Archive.Base.Upload
import S3Archive.JNicholson.RoundTrip
import S3Archive.JNicholson.SlabOwnership

/-!
# j-nicholson98: a whole job

`archive` over the objects of a bucket: a download gives the bytes of its object
(`JobStep`). Each key is in the key queue, with a worker, queued, held or written,
unless an error is under way (`JobInv.items`), so a run that returns has written
every object once. `archive_readsBack` says what it has uploaded.
-/

namespace S3Archive.JNicholson

/-! ## Runs over objects -/

/-- What a downloader should make of a key. -/
def itemOf (crc32 : Bytes → UInt32) (bodies : String → Bytes) (key : String) : Item :=
  ⟨baseName key, crc32 (bodies key), bodies key⟩

inductive JobStep (crc32 : Bytes → UInt32) (bodies : String → Bytes) (queueDepth nKeys : Nat) :
    ArchiveState → ArchiveEvent → ArchiveState → Prop where
  /-- A body that is complete is the object's. -/
  | worker {s : ArchiveState} {shared : Shared} {w w' : Worker} {ws₁ ws₂ : List Worker}
      (hworkers : s.workers = ws₁ ++ w :: ws₂)
      (hstep : WorkerStep crc32 queueDepth s.shared w shared w')
      (hbytes : ∀ key slab e, w = .downloading key slab → w' = .putting e →
        e.filled = bodies key) :
    JobStep crc32 bodies queueDepth nKeys s .worker { s with shared, workers := ws₁ ++ w' :: ws₂ }
  | assembler {s s' : ArchiveState} {ev : ArchiveEvent} (hev : ev ≠ .worker)
      (hstep : ArchiveStep crc32 queueDepth nKeys s ev s') :
    JobStep crc32 bodies queueDepth nKeys s ev s'

abbrev JobRun (crc32 : Bytes → UInt32) (bodies : String → Bytes) (queueDepth nKeys : Nat) :
    ArchiveState → List ArchiveEvent → ArchiveState → Prop :=
  Run (JobStep crc32 bodies queueDepth nKeys)

/-! ## Where the items are -/

/-- What will be written of an entry. -/
def Entry.item (e : Entry) : Item := ⟨e.name, e.crc, e.filled⟩

/-- The header and the size are those of the filled bytes. -/
def Entry.Made (e : Entry) : Prop :=
  e.size = e.filled.length ∧
    localFileHeader (utf8 e.name) e.crc.toNat e.filled.length = some e.header

def Message.items : Message → List Item
  | .entry e => [e.item]
  | .err => []

def Phase.items : Phase → List Item
  | .holding e _ => [e.item]
  | _ => []

section

variable (crc32 : Bytes → UInt32) (bodies : String → Bytes)

def Worker.items : Worker → List Item
  | .borrowing key => [itemOf crc32 bodies key]
  | .downloading key _ => [itemOf crc32 bodies key]
  | .putting e => [e.item]
  | _ => []

/-- The items of the keys that nobody has taken, of the workers and of the queue. -/
def Shared.items (a : Shared) (w : List Item) : List Item :=
  a.keys.map (itemOf crc32 bodies) ++ w ++ a.queue.flatMap Message.items

def ArchiveState.writtenItems (s : ArchiveState) : List Item := s.written.map fun p => p.1.item

/-- The items that are on their way, and those that are written. -/
def ArchiveState.items (s : ArchiveState) : List Item :=
  s.shared.items crc32 bodies (s.workers.flatMap (Worker.items crc32 bodies)) ++
    s.phase.items ++ s.writtenItems

/-- The assembler will get an error. -/
def ArchiveState.Failing (s : ArchiveState) : Prop :=
  .puttingErr ∈ s.workers ∨ .err ∈ s.shared.queue

structure JobInv (cfg : Config) (keys : List String) (s : ArchiveState) : Prop where
  items : ∀ left, s.phase.left? keys.length = some left →
    s.Failing ∨ (s.items crc32 bodies).Perm (keys.map (itemOf crc32 bodies))
  made : ∀ e ∈ s.entries, e.Made
  writer : s.writtenItems.foldlM push { sink := { partSize := cfg.partSize } } = some s.writer
  done : s.phase = .finishing ∨ s.phase = .returned →
    s.writtenItems.Perm (keys.map (itemOf crc32 bodies))
  upload : s.phase = .returned → ∃ parts, s.upload = .completed parts ∧
    assemble cfg.partSize s.writtenItems = some parts

end

section

variable {crc32 : Bytes → UInt32} {bodies : String → Bytes} {cfg : Config} {keys : List String}
  {evs : List ArchiveEvent} {s s' : ArchiveState}

theorem JobStep.archiveStep {queueDepth nKeys : Nat} {ev : ArchiveEvent}
    (h : JobStep crc32 bodies queueDepth nKeys s ev s') :
    ArchiveStep crc32 queueDepth nKeys s ev s' := by
  cases h with
  | worker hworkers hstep hbytes => exact .worker hworkers hstep
  | assembler hev hstep => exact hstep

theorem makeEntry_made {key : String} {slab : Nat} {body : Body} {filled : Bytes} {e : Entry}
    (h : makeEntry crc32 key slab body filled = some e) :
    e.Made ∧ e.item = ⟨baseName key, crc32 filled, filled⟩ := by
  simp only [makeEntry, Option.bind_eq_bind, Option.bind_eq_some_iff, Option.pure_def,
    Option.some.injEq] at h
  obtain ⟨header, hheader, rfl⟩ := h
  exact ⟨⟨rfl, hheader⟩, rfl⟩

/-! ## Steps of a worker -/

/-- An entry that a step makes has its own header. -/
theorem WorkerStep.made {depth : Nat} {a b : Shared} {w w' : Worker}
    (h : WorkerStep crc32 depth a w b w') {e : Entry}
    (he : e ∈ w'.entries ++ b.queue.flatMap Message.entries) :
    e ∈ w.entries ++ a.queue.flatMap Message.entries ∨ e.Made := by
  cases h with
  | filled hn hmake | oversized hmake =>
    rcases List.mem_append.1 he with he | he
    · rw [Worker.entries, List.mem_singleton] at he
      subst he
      exact .inr (makeEntry_made hmake).1
    · exact .inl (List.mem_append_right _ he)
  | put hroom =>
    left
    simpa [Worker.entries, Message.entries, List.flatMap_append, or_comm] using he
  | putErr hroom =>
    left
    simpa [Worker.entries, Message.entries, List.flatMap_append] using he
  | putStopped hstop => exact .inl (List.mem_append_right _ he)
  | _ => exact .inl he

/-- A worker makes the item of its key. -/
theorem makeEntry_item {key : String} {slab : Nat} {body : Body} {filled : Bytes} {e : Entry}
    (h : makeEntry crc32 key slab body filled = some e) (hbody : e.filled = bodies key) :
    Worker.items crc32 bodies (.putting e) =
      Worker.items crc32 bodies (.downloading key slab) := by
  obtain ⟨_, hitem⟩ := makeEntry_made h
  obtain ⟨_, _, hfilled⟩ := makeEntry_spec h
  show [e.item] = [itemOf crc32 bodies key]
  unfold itemOf
  rw [hitem, ← hbody, hfilled]

/-- A step moves an item, unless it fails. -/
theorem WorkerStep.items {depth : Nat} {a b : Shared} {w w' : Worker}
    (h : WorkerStep crc32 depth a w b w') (hstop : a.stop = false)
    (hbytes : ∀ key slab e, w = .downloading key slab → w' = .putting e → e.filled = bodies key) :
    w' = .puttingErr ∨ .err ∈ b.queue ∨
      (b.items crc32 bodies (w'.items crc32 bodies)).Perm
        (a.items crc32 bodies (w.items crc32 bodies)) := by
  cases h with
  | stopped h | borrowStopped h | putStopped h | putErrStopped h =>
    rw [hstop] at h
    cases h
  | @take key keys hkeys =>
    right; right
    unfold Shared.items
    rw [hkeys, List.map_cons]
    refine List.Perm.append_right _ ?_
    simp only [Worker.items, List.append_nil]
    exact List.perm_append_singleton _ _
  | noKey hkeys | borrow hfree | readInto hfits => exact .inr (.inr (.refl _))
  | filled hn hmake | oversized hmake =>
    right; right
    unfold Shared.items
    rw [makeEntry_item hmake (hbytes _ _ _ rfl rfl)]
  | failed => exact .inl rfl
  | @put e hroom =>
    right; right
    unfold Shared.items
    rw [List.flatMap_append]
    simp only [Worker.items, Message.items, List.flatMap_cons, List.flatMap_nil, List.append_nil,
      List.append_assoc]
    exact List.Perm.append_left _ List.perm_append_comm
  | putErr hroom => exact .inr (.inl (List.mem_append_right _ List.mem_cons_self))

/-- An error stays on its way. -/
theorem WorkerStep.failing {depth : Nat} {a b : Shared} {w w' : Worker}
    (h : WorkerStep crc32 depth a w b w') (hstop : a.stop = false) :
    (.err ∈ a.queue → .err ∈ b.queue) ∧ (w = .puttingErr → .err ∈ b.queue) := by
  cases h with
  | stopped h | borrowStopped h | putStopped h | putErrStopped h =>
    rw [hstop] at h
    cases h
  | put hroom => exact ⟨List.mem_append_left _, fun h => (by cases h)⟩
  | putErr hroom =>
    exact ⟨List.mem_append_left _, fun _ => List.mem_append_right _ List.mem_cons_self⟩
  | _ => exact ⟨id, fun h => (by cases h)⟩

/-! ## Every step -/

theorem JobInv.start (cfg : Config) (keys : List String) :
    JobInv crc32 bodies cfg keys (.start cfg keys) := by
  refine ⟨fun left _ => .inr ?_, ?_, rfl, ?_, ?_⟩
  · simp [ArchiveState.items, Shared.items, ArchiveState.start, ArchiveState.writtenItems,
      Phase.items, List.flatMap_replicate, Worker.items]
  · simp [ArchiveState.entries, ArchiveState.start, Phase.entries, List.flatMap_replicate,
      Worker.entries]
  · rintro (h | h)
    · cases h
    · cases h
  · exact fun h => (by cases h)

theorem JobInv.worker (harchive : ArchiveInv cfg keys evs s)
    (hinv : JobInv crc32 bodies cfg keys s) {shared : Shared} {w w' : Worker}
    {ws₁ ws₂ : List Worker} (hworkers : s.workers = ws₁ ++ w :: ws₂)
    (h : WorkerStep crc32 cfg.queueDepth s.shared w shared w')
    (hbytes : ∀ key slab e, w = .downloading key slab → w' = .putting e → e.filled = bodies key) :
    JobInv crc32 bodies cfg keys { s with shared, workers := ws₁ ++ w' :: ws₂ } := by
  refine ⟨fun left hleft => ?_, fun e he => ?_, hinv.writer, hinv.done, hinv.upload⟩
  · obtain ⟨hstop, _⟩ := harchive.account left hleft
    obtain ⟨hkeep, hsent⟩ := h.failing hstop
    rcases h.items hstop hbytes with hfail | hfail | hmoved
    · left; left
      rw [hfail]
      exact List.mem_append_right _ List.mem_cons_self
    · exact .inl (.inr hfail)
    · rcases hinv.items left hleft with (hfail | hfail) | hperm
      · rw [hworkers, List.mem_append, List.mem_cons] at hfail
        rcases hfail with hfail | hfail | hfail
        · exact .inl (.inl (List.mem_append_left _ hfail))
        · exact .inl (.inr (hsent hfail.symm))
        · exact .inl (.inl (List.mem_append_right _ (List.mem_cons_of_mem _ hfail)))
      · exact .inl (.inr (hkeep hfail))
      · right
        refine List.Perm.trans ?_ hperm
        classical
        have hmoved := List.perm_iff_count.1 hmoved
        rw [List.perm_iff_count]
        intro x
        have := hmoved x
        simp only [ArchiveState.items, Shared.items, hworkers, List.count_append,
          List.flatMap_append, List.flatMap_cons, ArchiveState.writtenItems] at this ⊢
        omega
  · have hnew := h.made (e := e)
    have hold := hinv.made e
    unfold ArchiveState.entries at he hold
    rw [hworkers] at hold
    simp only [List.mem_append, List.flatMap_append, List.flatMap_cons] at he hold hnew
    rcases he with ((he | he | he) | he) | he
    · exact hold (.inl (.inl (.inl he)))
    · rcases hnew (.inl he) with (h | h) | h
      · exact hold (.inl (.inl (.inr (.inl h))))
      · exact hold (.inl (.inr h))
      · exact h
    · exact hold (.inl (.inl (.inr (.inr he))))
    · rcases hnew (.inr he) with (h | h) | h
      · exact hold (.inl (.inl (.inr (.inl h))))
      · exact hold (.inl (.inr h))
      · exact h
    · exact hold (.inr he)

/-- At the end of the loop everything is written. -/
theorem JobInv.written_perm (harchive : ArchiveInv cfg keys evs s)
    (hinv : JobInv crc32 bodies cfg keys s) (hphase : s.phase = .looping 0) :
    s.writtenItems.Perm (keys.map (itemOf crc32 bodies)) := by
  have hleft : s.phase.left? keys.length = some 0 := by rw [hphase]; rfl
  obtain ⟨_, hcount⟩ := harchive.account 0 hleft
  have hqueue : s.shared.queue = [] := List.eq_nil_of_length_eq_zero (by omega)
  have hkeys : s.shared.keys = [] := List.eq_nil_of_length_eq_zero (by omega)
  have hidle : ∀ w ∈ s.workers, ¬ w.busy = true := List.countP_eq_zero.1 (by omega)
  have hitems : s.workers.flatMap (Worker.items crc32 bodies) = [] := by
    refine List.flatMap_eq_nil_iff.2 fun w hw => ?_
    have := hidle w hw
    cases w with
    | top => rfl
    | returned => rfl
    | _ => exact absurd rfl this
  rcases hinv.items 0 hleft with (hfail | hfail) | hperm
  · exact absurd rfl (hidle _ hfail)
  · rw [hqueue] at hfail
    cases hfail
  · unfold ArchiveState.items Shared.items at hperm
    rw [hitems, hqueue, hkeys, hphase] at hperm
    exact hperm

/-- What is pushed of an entry is its item. -/
theorem Entry.push_item {e : Entry} (h : e.Made) (z : Zip64Assembler) :
    push z e.item = z.addSegments e.name e.crc.toNat e.size e.header e.filled := by
  obtain ⟨hsize, hheader⟩ := h
  unfold push Entry.item
  rw [hheader, hsize]
  rfl

theorem JobInv.step {ev : ArchiveEvent} (harchive : ArchiveInv cfg keys evs s)
    (hinv : JobInv crc32 bodies cfg keys s)
    (h : JobStep crc32 bodies cfg.queueDepth keys.length s ev s') :
    JobInv crc32 bodies cfg keys s' := by
  cases h with
  | worker hworkers hstep hbytes => exact hinv.worker harchive hworkers hstep hbytes
  | assembler hev hstep =>
    obtain ⟨hitems, hmade, hwriter, hdone, hupload⟩ := hinv
    cases hstep with
    | worker => exact absurd rfl hev
    | opened hphase =>
      unfold ArchiveState.items at hitems
      unfold ArchiveState.entries at hmade
      rw [hphase] at hitems hmade
      exact ⟨fun left hleft => hitems keys.length rfl, hmade, hwriter, by simp, by simp⟩
    | @getEntry left e queue hphase hqueue =>
      unfold ArchiveState.items Shared.items ArchiveState.Failing at hitems
      unfold ArchiveState.entries at hmade
      rw [hphase, hqueue] at hitems hmade
      refine ⟨fun n _ => ?_, fun e' he' => hmade e' ?_, hwriter, by simp, by simp⟩
      · rcases hitems (left + 1) rfl with (hfail | hfail) | hperm
        · exact .inl (.inl hfail)
        · rcases List.mem_cons.1 hfail with h | h
          · cases h
          · exact .inl (.inr h)
        · right
          refine List.Perm.trans ?_ hperm
          classical
          rw [List.perm_iff_count]
          intro x
          simp only [ArchiveState.items, Shared.items, ArchiveState.writtenItems, Message.items,
            Phase.items, List.count_append, List.flatMap_cons, List.count_nil]
          omega
      · simp only [ArchiveState.entries, Message.entries, Phase.entries, List.flatMap_cons,
          List.mem_append] at he' ⊢
        rcases he' with (he' | he') | he'
        · exact .inl (.inl he')
        · exact .inl (.inr (.inr he'))
        · exact .inl (.inr (.inl he'))
    | getErr hphase hqueue =>
      unfold ArchiveState.entries at hmade
      rw [hphase, hqueue] at hmade
      exact ⟨by simp [Phase.left?], hmade, hwriter, by simp, by simp⟩
    | @written left e z hphase hadd =>
      have hread := harchive.intact e
      unfold ArchiveState.items at hitems
      unfold ArchiveState.entries at hmade hread
      rw [hphase] at hitems hmade hread
      have hmem : e ∈ Phase.entries (.holding e left) := List.mem_cons_self
      rw [hread (List.mem_append_right _ hmem)] at hadd ⊢
      refine ⟨fun n _ => ?_, fun e' he' => hmade e' (List.mem_append_left _ ?_), ?_, by simp,
        by simp⟩
      · refine (hitems left rfl).imp_right fun hperm => ?_
        refine List.Perm.trans ?_ hperm
        classical
        rw [List.perm_iff_count]
        intro x
        simp only [ArchiveState.items, Shared.items, ArchiveState.writtenItems, Phase.items,
          List.count_append, List.map_append, List.map_cons, List.map_nil, List.count_nil]
        omega
      · simpa [ArchiveState.entries, Phase.entries] using he'
      · unfold ArchiveState.writtenItems at hwriter ⊢
        rw [List.map_append, List.foldlM_append, hwriter]
        simp only [List.map_cons, List.map_nil, List.foldlM_cons, List.foldlM_nil,
          Option.bind_eq_bind, Option.bind_some]
        rw [Entry.push_item (hmade e (List.mem_append_right _ hmem)), hadd]
        rfl
    | writeFailed hphase =>
      unfold ArchiveState.entries at hmade
      refine ⟨by simp [Phase.left?], fun e he => hmade e (List.mem_append_left _ ?_), hwriter,
        by simp, by simp⟩
      simpa [ArchiveState.entries, Phase.entries] using he
    | loopEnd hphase =>
      have hperm := JobInv.written_perm harchive ⟨hitems, hmade, hwriter, hdone, hupload⟩ hphase
      unfold ArchiveState.entries at hmade
      rw [hphase] at hmade
      exact ⟨by simp [Phase.left?], hmade, hwriter, fun _ => hperm, by simp⟩
    | @completed sink hphase hfinish =>
      have hperm := hdone (.inl hphase)
      unfold ArchiveState.entries at hmade
      rw [hphase] at hmade
      refine ⟨by simp [Phase.left?], hmade, hwriter, fun _ => hperm, fun _ => ⟨_, rfl, ?_⟩⟩
      show assemble cfg.partSize s.writtenItems = some sink.flushFinal.uploaded
      unfold assemble
      simp only [hwriter, hfinish, Option.bind_eq_bind, Option.bind_some, Option.pure_def]
    | finishFailed hphase =>
      unfold ArchiveState.entries at hmade
      rw [hphase] at hmade
      exact ⟨by simp [Phase.left?], hmade, hwriter, by simp, by simp⟩
    | aborted hphase =>
      unfold ArchiveState.entries at hmade
      rw [hphase] at hmade
      exact ⟨by simp [Phase.left?], hmade, hwriter, by simp, by simp⟩

theorem JobRun.inv
    (h : JobRun crc32 bodies cfg.queueDepth keys.length (.start cfg keys) evs s) :
    ArchiveInv cfg keys evs s ∧ JobInv crc32 bodies cfg keys s := by
  generalize hstart : ArchiveState.start cfg keys = s₀ at h
  induction h with
  | refl =>
    subst hstart
    exact ⟨.start cfg keys, .start cfg keys⟩
  | step _ hlast ih =>
    obtain ⟨harchive, hinv⟩ := ih
    exact ⟨harchive.step hlast.archiveStep, hinv.step harchive hlast⟩

end

end S3Archive.JNicholson
