import S3Archive.JNicholson.Workers
import Mathlib.Data.List.Nodup

/-!
# j-nicholson98: who owns a slab

At every moment each slab of the pool has one owner: the free list, a worker, a
queued entry or the assembler (`ArchiveInv.owned`), so nobody writes to a slab
while another holds its filled bytes (`ArchiveInv.intact`). The items that are
still to come are the queued ones, the remaining keys and the busy workers
(`ArchiveInv.account`), so the assembler never waits in vain
(`ArchiveInv.progress`). `archive_safe` puts this together for all runs.
-/

namespace S3Archive.JNicholson

/-! ## Owners and entries -/

def Worker.entries : Worker → List Entry
  | .putting e => [e]
  | _ => []

def Worker.slabs : Worker → List Nat
  | .downloading _ slab => [slab]
  | .putting e => [e.slab]
  | _ => []

/-- The worker will still send an item. -/
def Worker.busy : Worker → Bool
  | .top => false
  | .returned => false
  | _ => true

def Message.entries : Message → List Entry
  | .entry e => [e]
  | .err => []

def Message.slabs : Message → List Nat
  | .entry e => [e.slab]
  | .err => []

def Phase.entries : Phase → List Entry
  | .holding e _ => [e]
  | _ => []

def Phase.slabs : Phase → List Nat
  | .holding e _ => [e.slab]
  | _ => []

/-- The items to come from the queue while the loop is not left. -/
def Phase.left? (nKeys : Nat) : Phase → Option Nat
  | .opening => some nKeys
  | .looping left => some left
  | .holding _ left => some left
  | _ => none

/-- The slabs of each owner in turn: the pool, the workers, the queue, the assembler. -/
def ArchiveState.owners (s : ArchiveState) : List Nat :=
  s.shared.free ++ s.workers.flatMap Worker.slabs ++ s.shared.queue.flatMap Message.slabs ++
    s.phase.slabs

/-- The entries whose bytes are filled and not consumed. -/
def ArchiveState.entries (s : ArchiveState) : List Entry :=
  s.workers.flatMap Worker.entries ++ s.shared.queue.flatMap Message.entries ++ s.phase.entries

theorem Worker.slab_mem {w : Worker} {e : Entry} (h : e ∈ w.entries) : e.slab ∈ w.slabs := by
  cases w with
  | putting e' =>
    rw [Worker.entries, List.mem_singleton] at h
    rw [h]
    exact List.mem_singleton.2 rfl
  | _ => cases h

theorem Message.slab_mem {m : Message} {e : Entry} (h : e ∈ m.entries) : e.slab ∈ m.slabs := by
  cases m with
  | entry e' =>
    rw [Message.entries, List.mem_singleton] at h
    rw [h]
    exact List.mem_singleton.2 rfl
  | err => cases h

theorem Phase.slab_mem {p : Phase} {e : Entry} (h : e ∈ p.entries) : e.slab ∈ p.slabs := by
  cases p with
  | holding e' left =>
    rw [Phase.entries, List.mem_singleton] at h
    rw [h]
    exact List.mem_singleton.2 rfl
  | _ => cases h

theorem mem_flatMap_slabs {w : Worker} {ws : List Worker} {e : Entry} (hw : w ∈ ws)
    (h : e ∈ w.entries) : e.slab ∈ ws.flatMap Worker.slabs :=
  List.mem_flatMap.2 ⟨w, hw, Worker.slab_mem h⟩

/-- A downloader's slab is not that of a filled entry. -/
theorem slab_ne_of_nodup {s : ArchiveState} {key : String} {slab : Nat} {ws₁ ws₂ : List Worker}
    (hnodup : s.owners.Nodup) (hworkers : s.workers = ws₁ ++ .downloading key slab :: ws₂)
    {e : Entry} (he : e ∈ s.entries) : e.slab ≠ slab := by
  have hcount := List.nodup_iff_count_le_one.1 hnodup slab
  unfold ArchiveState.owners at hcount
  rw [hworkers] at hcount
  simp only [List.count_append, List.flatMap_append, List.flatMap_cons, Worker.slabs,
    List.count_cons_self, List.count_nil] at hcount
  rintro rfl
  have hpos {xs : List Nat} (h : e.slab ∈ xs) : 0 < xs.count e.slab := List.count_pos_iff.2 h
  unfold ArchiveState.entries at he
  rw [hworkers] at he
  simp only [List.mem_append, List.flatMap_append, List.flatMap_cons, Worker.entries,
    List.nil_append, List.mem_flatMap] at he
  rcases he with ((⟨w, hw, he⟩ | ⟨w, hw, he⟩) | ⟨m, hm, he⟩) | he
  · have := hpos (mem_flatMap_slabs hw he)
    omega
  · have := hpos (mem_flatMap_slabs hw he)
    omega
  · have := hpos (List.mem_flatMap.2 ⟨m, hm, Message.slab_mem he⟩)
    omega
  · have := hpos (Phase.slab_mem he)
    omega

/-! ## What a run keeps -/

structure ArchiveInv (cfg : Config) (keys : List String) (evs : List ArchiveEvent)
    (s : ArchiveState) : Prop where
  owned : s.owners.Perm (List.range cfg.poolSize)
  intact : ∀ e ∈ s.entries, e.read s.shared.mem = e.filled
  written : ∀ p ∈ s.written, p.2 = p.1.filled
  workers : s.workers.length = cfg.nDownload
  /-- Until the loop is left, the items to come are queued, not started, or being made. -/
  account : ∀ left, s.phase.left? keys.length = some left → s.shared.stop = false ∧
    left = s.shared.queue.length + s.shared.keys.length + s.workers.countP Worker.busy
  /-- A worker stops because there are no keys, or after it has sent an error. -/
  retired : ∀ left, s.phase.left? keys.length = some left → .returned ∈ s.workers →
    s.shared.keys = [] ∨ .err ∈ s.shared.queue
  failed : .getErr ∈ evs → s.phase = .raising ∨ s.phase = .raised
  pending : s.phase ≠ .raised → s.phase ≠ .returned → s.upload = .inProgress
  raised : s.phase = .raised → s.upload = .aborted

section

variable {crc32 : Bytes → UInt32} {cfg : Config} {keys : List String} {evs : List ArchiveEvent}
  {s s' : ArchiveState}

theorem ArchiveInv.start (cfg : Config) (keys : List String) :
    ArchiveInv cfg keys [] (.start cfg keys) := by
  refine ⟨?_, ?_, ?_, ?_, ?_, ?_, ?_, ?_, ?_⟩
  · simp [ArchiveState.owners, ArchiveState.start, Phase.slabs, List.flatMap_replicate, Worker.slabs]
  · simp [ArchiveState.entries, ArchiveState.start, Phase.entries, List.flatMap_replicate,
      Worker.entries]
  · simp [ArchiveState.start]
  · simp [ArchiveState.start]
  · intro left h
    simp only [ArchiveState.start, Phase.left?, Option.some.injEq] at h
    simp [ArchiveState.start, ← h, List.countP_replicate, Worker.busy]
  · simp [ArchiveState.start]
  · simp
  · simp [ArchiveState.start]
  · simp [ArchiveState.start]

theorem makeEntry_spec {key : String} {slab : Nat} {body : Body} {filled : Bytes} {e : Entry}
    (h : makeEntry crc32 key slab body filled = some e) :
    e.slab = slab ∧ e.body = body ∧ e.filled = filled := by
  simp only [makeEntry, Option.bind_eq_bind, Option.bind_eq_some_iff, Option.pure_def,
    Option.some.injEq] at h
  obtain ⟨header, -, rfl⟩ := h
  exact ⟨rfl, rfl, rfl⟩

/-- Writing to a slab changes no entry of another slab. -/
theorem read_update {e : Entry} {mem : Nat → Bytes} {slab : Nat} {bs : Bytes}
    (h : e.slab ≠ slab) : e.read (Function.update mem slab bs) = e.read mem := by
  unfold Entry.read
  rw [Function.update_of_ne h]

/-- What a worker's step does to the slabs: they only move. -/
theorem WorkerStep.owned {depth : Nat} {a b : Shared} {w w' : Worker}
    (h : WorkerStep crc32 depth a w b w') :
    (b.free ++ w'.slabs ++ b.queue.flatMap Message.slabs).Perm
      (a.free ++ w.slabs ++ a.queue.flatMap Message.slabs) := by
  cases h with
  | stopped | take | noKey | borrowStopped | readInto | putErrStopped => exact .refl _
  | borrow hfree =>
    rw [hfree, List.perm_iff_count]
    intro x
    simp [Worker.slabs, List.count_cons]
    omega
  | filled hn he =>
    rw [Worker.slabs, Worker.slabs, (makeEntry_spec he).1]
  | oversized he =>
    rw [Worker.slabs, Worker.slabs, (makeEntry_spec he).1]
  | failed => simp [Worker.slabs]
  | put hroom =>
    rw [List.perm_iff_count]
    intro x
    simp [Worker.slabs, Message.slabs, List.flatMap_append, List.count_cons]
  | putStopped hstop => simp [Worker.slabs]
  | putErr hroom => simp [Worker.slabs, Message.slabs, List.flatMap_append]

/-- A step changes no slab but that of the downloader that makes it. -/
theorem WorkerStep.mem {depth : Nat} {a b : Shared} {w w' : Worker}
    (h : WorkerStep crc32 depth a w b w') :
    b.mem = a.mem ∨ ∃ key slab, w = .downloading key slab ∧
      ∀ e : Entry, e.slab ≠ slab → e.read b.mem = e.read a.mem := by
  cases h with
  | @readInto key slab start data hfits =>
    exact .inr ⟨key, slab, rfl, fun e he => read_update he⟩
  | _ => exact .inl rfl

/-- An entry that a step makes is read as it was filled. -/
theorem WorkerStep.entries {depth : Nat} {a b : Shared} {w w' : Worker}
    (h : WorkerStep crc32 depth a w b w') {e : Entry}
    (he : e ∈ w'.entries ++ b.queue.flatMap Message.entries) :
    e ∈ w.entries ++ a.queue.flatMap Message.entries ∨ e.read b.mem = e.filled := by
  cases h with
  | @filled key slab n e' hn hmake =>
    rcases List.mem_append.1 he with he | he
    · rw [Worker.entries, List.mem_singleton] at he
      subst he
      obtain ⟨hslab, hbody, hfilled⟩ := makeEntry_spec hmake
      right
      rw [Entry.read, hbody, hslab, hfilled]
    · exact .inl (List.mem_append_right _ he)
  | @oversized key slab data e' hmake =>
    rcases List.mem_append.1 he with he | he
    · rw [Worker.entries, List.mem_singleton] at he
      subst he
      obtain ⟨-, hbody, hfilled⟩ := makeEntry_spec hmake
      right
      rw [Entry.read, hbody, hfilled]
    · exact .inl (List.mem_append_right _ he)
  | put hroom =>
    left
    simpa [Worker.entries, Message.entries, List.flatMap_append, or_comm] using he
  | putErr hroom =>
    left
    simpa [Worker.entries, Message.entries, List.flatMap_append] using he
  | putStopped hstop => exact .inl (List.mem_append_right _ he)
  | _ => exact .inl he

/-- Unless it stops early, a worker turns a key into exactly one item. -/
theorem WorkerStep.account {depth : Nat} {a b : Shared} {w w' : Worker}
    (h : WorkerStep crc32 depth a w b w') (hstop : a.stop = false) :
    b.stop = false ∧ b.queue.length + b.keys.length + w'.busy.toNat =
      a.queue.length + a.keys.length + w.busy.toNat := by
  cases h with
  | stopped h | borrowStopped h | putStopped h | putErrStopped h =>
    rw [hstop] at h
    cases h
  | take hkeys =>
    refine ⟨hstop, ?_⟩
    rw [hkeys]
    simp [Worker.busy]
    omega
  | put hroom | putErr hroom =>
    refine ⟨hstop, ?_⟩
    simp [Worker.busy]
    omega
  | _ => exact ⟨hstop, rfl⟩

/-- No keys, or an error in the queue. -/
def Shared.Drained (a : Shared) : Prop := a.keys = [] ∨ .err ∈ a.queue

theorem WorkerStep.drained {depth : Nat} {a b : Shared} {w w' : Worker}
    (h : WorkerStep crc32 depth a w b w') (hstop : a.stop = false) :
    (a.Drained → b.Drained) ∧ (w' = .returned → w ≠ .returned → b.Drained) := by
  cases h with
  | stopped h | borrowStopped h | putStopped h | putErrStopped h =>
    rw [hstop] at h
    cases h
  | take hkeys =>
    refine ⟨fun h => ?_, by simp⟩
    rcases h with h | h
    · rw [hkeys] at h
      cases h
    · exact .inr h
  | noKey hkeys => exact ⟨id, fun _ _ => .inl hkeys⟩
  | put hroom => exact ⟨fun h => h.imp_right (List.mem_append_left _), by simp⟩
  | putErr hroom =>
    exact ⟨fun h => h.imp_right (List.mem_append_left _), fun _ _ =>
      .inr (List.mem_append_right _ List.mem_cons_self)⟩
  | _ => exact ⟨id, by simp⟩

/-! ## Every step -/

theorem ArchiveInv.worker (hinv : ArchiveInv cfg keys evs s) {shared : Shared} {w w' : Worker}
    {ws₁ ws₂ : List Worker} (hworkers : s.workers = ws₁ ++ w :: ws₂)
    (h : WorkerStep crc32 cfg.queueDepth s.shared w shared w') :
    ArchiveInv cfg keys (evs ++ [.worker]) { s with shared, workers := ws₁ ++ w' :: ws₂ } := by
  have hnodup : s.owners.Nodup := hinv.owned.nodup_iff.2 List.nodup_range
  refine ⟨?_, ?_, hinv.written, ?_, fun left hleft => ?_, fun left hleft hret => ?_, ?_,
    hinv.pending, hinv.raised⟩
  · refine List.Perm.trans ?_ hinv.owned
    have howned := List.perm_iff_count.1 h.owned
    rw [List.perm_iff_count]
    intro x
    have := howned x
    simp only [ArchiveState.owners, hworkers, List.count_append, List.flatMap_append,
      List.flatMap_cons] at this ⊢
    omega
  · intro e he
    have hold : e ∈ s.entries ∨ e.read shared.mem = e.filled := by
      have hnew := h.entries (e := e)
      unfold ArchiveState.entries at he ⊢
      rw [hworkers]
      simp only [List.mem_append, List.flatMap_append, List.flatMap_cons] at he hnew ⊢
      have hlift : e ∈ w'.entries ∨ e ∈ shared.queue.flatMap Message.entries →
          (((e ∈ ws₁.flatMap Worker.entries ∨ e ∈ w.entries ∨ e ∈ ws₂.flatMap Worker.entries) ∨
            e ∈ s.shared.queue.flatMap Message.entries) ∨ e ∈ s.phase.entries) ∨
              e.read shared.mem = e.filled := fun he =>
        (hnew he).imp_left fun he => .inl (he.imp_left fun he => .inr (.inl he))
      rcases he with ((he | he | he) | he) | he
      · exact .inl (.inl (.inl (.inl he)))
      · exact hlift (.inl he)
      · exact .inl (.inl (.inl (.inr (.inr he))))
      · exact hlift (.inr he)
      · exact .inl (.inr he)
    rcases hold with hold | hread
    · rw [← hinv.intact e hold]
      rcases h.mem with hmem | ⟨key, slab, rfl, hmem⟩
      · rw [hmem]
      · exact hmem e (slab_ne_of_nodup hnodup hworkers hold)
    · exact hread
  · rw [← hinv.workers, hworkers]
    simp
  · obtain ⟨hstop, haccount⟩ := hinv.account left hleft
    obtain ⟨hstop', hitems⟩ := h.account hstop
    refine ⟨hstop', ?_⟩
    rw [hworkers] at haccount
    simp only [List.countP_append, List.countP_cons] at haccount ⊢
    have hnat (v : Worker) : (if v.busy = true then 1 else 0) = v.busy.toNat := by
      cases v.busy <;> rfl
    rw [hnat] at haccount ⊢
    omega
  · obtain ⟨hstop, -⟩ := hinv.account left hleft
    obtain ⟨hkeep, hnew⟩ := h.drained hstop
    have hretired := hinv.retired left hleft
    rw [hworkers] at hretired
    simp only [List.mem_append, List.mem_cons] at hret hretired
    by_cases hw : w = .returned
    · exact hkeep (hretired (.inr (.inl hw.symm)))
    · rcases hret with hret | hret | hret
      · exact hkeep (hretired (.inl hret))
      · exact hnew hret.symm hw
      · exact hkeep (hretired (.inr (.inr hret)))
  · intro hget
    refine hinv.failed ?_
    simpa using hget

theorem ArchiveInv.step {ev : ArchiveEvent} (hinv : ArchiveInv cfg keys evs s)
    (h : ArchiveStep crc32 cfg.queueDepth keys.length s ev s') :
    ArchiveInv cfg keys (evs ++ [ev]) s' := by
  obtain ⟨howned, hintact, hwritten, hcount, haccount, hretired, hfailed, hpending, hraised⟩ := hinv
  unfold ArchiveState.owners at howned
  unfold ArchiveState.entries at hintact
  cases h with
  | worker hworkers hstep =>
    exact ArchiveInv.worker ⟨howned, hintact, hwritten, hcount, haccount, hretired, hfailed,
      hpending, hraised⟩ hworkers hstep
  | opened hphase =>
    rw [hphase] at howned hintact haccount hretired hfailed hpending
    refine ⟨howned, hintact, hwritten, hcount, haccount, hretired, ?_,
      fun _ _ => hpending (by simp) (by simp), by simp⟩
    simpa using hfailed
  | @getEntry left e queue hphase hqueue =>
    rw [hphase] at howned hintact haccount hretired hfailed hpending
    rw [hqueue] at howned hintact haccount hretired
    refine ⟨?_, ?_, hwritten, hcount, ?_, ?_, ?_,
      fun _ _ => hpending (by simp) (by simp), by simp⟩
    · refine List.Perm.trans (List.perm_iff_count.2 fun x => ?_) howned
      simp [ArchiveState.owners, Message.slabs, Phase.slabs, List.count_cons]
    · intro e' he'
      refine hintact e' ?_
      simp only [ArchiveState.entries, Message.entries, Phase.entries, List.flatMap_cons,
        List.mem_append] at he' ⊢
      rcases he' with (he' | he') | he'
      · exact .inl (.inl he')
      · exact .inl (.inr (.inr he'))
      · exact .inl (.inr (.inl he'))
    · intro n hn
      cases hn
      obtain ⟨hstop, hleft⟩ := haccount (left + 1) rfl
      rw [List.length_cons] at hleft
      refine ⟨hstop, ?_⟩
      dsimp only
      omega
    · intro n hn hret
      exact (hretired (left + 1) rfl hret).imp_right fun h => by simpa using h
    · simpa using hfailed
  | getErr hphase hqueue =>
    rw [hphase] at howned hintact hpending
    rw [hqueue] at howned hintact
    exact ⟨howned, hintact, hwritten, hcount, by simp [Phase.left?], by simp [Phase.left?],
      fun _ => .inl rfl, fun _ _ => hpending (by simp) (by simp), by simp⟩
  | @written left e z hphase hadd =>
    rw [hphase] at howned hintact haccount hretired hfailed hpending
    refine ⟨?_, ?_, ?_, hcount, ?_, ?_, ?_,
      fun _ _ => hpending (by simp) (by simp), by simp⟩
    · refine List.Perm.trans (List.perm_iff_count.2 fun x => ?_) howned
      simp [ArchiveState.owners, Phase.slabs, List.count_cons]
      omega
    · intro e' he'
      refine hintact e' (List.mem_append_left _ ?_)
      simpa [ArchiveState.entries, Phase.entries] using he'
    · intro p hp
      rcases List.mem_append.1 hp with hp | hp
      · exact hwritten p hp
      · cases List.mem_singleton.1 hp
        exact hintact e (List.mem_append_right _ List.mem_cons_self)
    · intro n hn
      cases hn
      exact haccount left rfl
    · intro n hn
      cases hn
      exact hretired left rfl
    · simpa using hfailed
  | @writeFailed left e hphase =>
    rw [hphase] at howned hintact hpending
    refine ⟨?_, ?_, hwritten, hcount, by simp [Phase.left?], by simp [Phase.left?],
      fun _ => .inl rfl, fun _ _ => hpending (by simp) (by simp), by simp⟩
    · refine List.Perm.trans (List.perm_iff_count.2 fun x => ?_) howned
      simp [ArchiveState.owners, Phase.slabs, List.count_cons]
      omega
    · intro e' he'
      refine hintact e' (List.mem_append_left _ ?_)
      simpa [ArchiveState.entries, Phase.entries] using he'
  | loopEnd hphase =>
    rw [hphase] at howned hintact hfailed hpending
    refine ⟨howned, hintact, hwritten, hcount, by simp [Phase.left?], by simp [Phase.left?], ?_,
      fun _ _ => hpending (by simp) (by simp), by simp⟩
    simpa using hfailed
  | completed hphase hfinish =>
    rw [hphase] at howned hintact hfailed hpending
    refine ⟨howned, hintact, hwritten, hcount, by simp [Phase.left?], by simp [Phase.left?], ?_,
      by simp, by simp⟩
    simpa using hfailed
  | finishFailed hphase =>
    rw [hphase] at howned hintact hpending
    exact ⟨howned, hintact, hwritten, hcount, by simp [Phase.left?], by simp [Phase.left?],
      fun _ => .inl rfl, fun _ _ => hpending (by simp) (by simp), by simp⟩
  | aborted hphase =>
    rw [hphase] at howned hintact hpending
    exact ⟨howned, hintact, hwritten, hcount, by simp [Phase.left?], by simp [Phase.left?],
      fun _ => .inr rfl, by simp, fun _ => rfl⟩

/-! ## Progress -/

def Worker.todo : Worker → Nat
  | .top => 1
  | .borrowing _ => 5
  | .downloading _ _ => 4
  | .putting _ => 3
  | .puttingErr => 3
  | .returned => 0

def Phase.todo (nKeys : Nat) : Phase → Nat
  | .opening => 2 * nKeys + 5
  | .looping left => 2 * left + 4
  | .holding _ left => 2 * left + 5
  | .finishing => 3
  | .raising => 2
  | .raised => 0
  | .returned => 0

/-- What is left to do; every step lowers it, except for a read into a slab. -/
def ArchiveState.todo (nKeys : Nat) (s : ArchiveState) : Nat :=
  5 * s.shared.keys.length + (s.workers.map Worker.todo).sum + s.shared.queue.length +
    s.phase.todo nKeys

/-- A step that brings the run closer to its end. -/
def ArchiveState.Advances (crc32 : Bytes → UInt32) (queueDepth nKeys : Nat) (s : ArchiveState) :
    Prop :=
  ∃ ev s', ArchiveStep crc32 queueDepth nKeys s ev s' ∧ s'.todo nKeys < s.todo nKeys

/-- A worker's step advances the archive when it brings that worker further. -/
theorem advances_of_worker {nKeys : Nat} {shared : Shared} {w w' : Worker} (hmem : w ∈ s.workers)
    (h : WorkerStep crc32 cfg.queueDepth s.shared w shared w')
    (htodo : 5 * shared.keys.length + w'.todo + shared.queue.length <
      5 * s.shared.keys.length + w.todo + s.shared.queue.length) :
    s.Advances crc32 cfg.queueDepth nKeys := by
  obtain ⟨ws₁, ws₂, hworkers⟩ := List.append_of_mem hmem
  refine ⟨_, _, .worker hworkers h, ?_⟩
  simp only [ArchiveState.todo, hworkers, List.map_append, List.map_cons, List.sum_append,
    List.sum_cons]
  omega

/-- The owner of a slab among the workers can go on when the queue has room. -/
theorem advances_of_slab {nKeys : Nat} {w : Worker} (hmem : w ∈ s.workers) (hslab : w.slabs ≠ [])
    (hroom : s.shared.queue.length < cfg.queueDepth) :
    s.Advances crc32 cfg.queueDepth nKeys := by
  cases w with
  | downloading key slab =>
    apply advances_of_worker hmem .failed
    simp [Worker.todo]
  | putting e =>
    apply advances_of_worker hmem (.put hroom)
    simp [Worker.todo]
    omega
  | _ => cases hslab rfl

/-- With the assembler waiting at an empty queue, some worker can go on. -/
theorem ArchiveInv.advances_of_empty (hinv : ArchiveInv cfg keys evs s) {left : Nat}
    (hphase : s.phase = .looping (left + 1)) (hqueue : s.shared.queue = [])
    (hworkers : 1 ≤ cfg.nDownload) (hdepth : 1 ≤ cfg.queueDepth) (hpool : 1 ≤ cfg.poolSize) :
    s.Advances crc32 cfg.queueDepth keys.length := by
  have hroom : s.shared.queue.length < cfg.queueDepth := by
    rw [hqueue]
    exact hdepth
  obtain ⟨-, haccount⟩ := hinv.account (left + 1) (by rw [hphase, Phase.left?])
  by_cases hbusy : s.workers.countP Worker.busy = 0
  · -- nobody is busy: a key is left, so the workers have not returned
    have hkeys : s.shared.keys ≠ [] := by
      intro hkeys
      rw [hqueue, hkeys, hbusy] at haccount
      simp at haccount
    obtain ⟨w, hw⟩ := List.exists_mem_of_length_pos (hinv.workers.symm ▸ hworkers)
    have hidle := List.countP_eq_zero.1 hbusy w hw
    cases w with
    | top =>
      obtain ⟨key, rest, hcons⟩ := List.exists_cons_of_ne_nil hkeys
      apply advances_of_worker hw (.take hcons)
      simp [Worker.todo, hcons]
      omega
    | returned =>
      rcases hinv.retired (left + 1) (by rw [hphase, Phase.left?]) hw with h | h
      · exact absurd h hkeys
      · rw [hqueue] at h
        cases h
    | _ => exact absurd rfl hidle
  · obtain ⟨w, hw, hwbusy⟩ := List.countP_pos_iff.1 (Nat.pos_of_ne_zero hbusy)
    cases w with
    | borrowing key =>
      cases hfree : s.shared.free with
      | cons slab free =>
        apply advances_of_worker hw (.borrow hfree)
        simp [Worker.todo]
      | nil =>
        -- the pool is empty, so some other worker owns a slab
        have howned := hinv.owned
        rw [ArchiveState.owners, hfree, hqueue, hphase] at howned
        simp only [List.nil_append, List.flatMap_nil, List.append_nil, Phase.slabs] at howned
        have hslab : 0 ∈ s.workers.flatMap Worker.slabs := by
          rw [howned.mem_iff, List.mem_range]
          exact hpool
        obtain ⟨w', hw', hmem⟩ := List.mem_flatMap.1 hslab
        exact advances_of_slab hw' (List.ne_nil_of_mem hmem) hroom
    | downloading key slab => exact advances_of_slab hw (by simp [Worker.slabs]) hroom
    | putting e => exact advances_of_slab hw (by simp [Worker.slabs]) hroom
    | puttingErr =>
      apply advances_of_worker hw (.putErr hroom)
      simp [Worker.todo]
      omega
    | _ => cases hwbusy

/-- Until `archive` returns or raises, a step brings it closer to that. -/
theorem ArchiveInv.progress (hinv : ArchiveInv cfg keys evs s) (hworkers : 1 ≤ cfg.nDownload)
    (hdepth : 1 ≤ cfg.queueDepth) (hpool : 1 ≤ cfg.poolSize) (hraised : s.phase ≠ .raised)
    (hreturned : s.phase ≠ .returned) : s.Advances crc32 cfg.queueDepth keys.length := by
  cases hphase : s.phase with
  | opening =>
    refine ⟨_, _, .opened hphase, ?_⟩
    simp [ArchiveState.todo, hphase, Phase.todo]
  | looping left =>
    cases left with
    | zero =>
      refine ⟨_, _, .loopEnd hphase, ?_⟩
      simp [ArchiveState.todo, hphase, Phase.todo]
    | succ left =>
      cases hqueue : s.shared.queue with
      | nil => exact hinv.advances_of_empty hphase hqueue hworkers hdepth hpool
      | cons m queue =>
        cases m with
        | entry e =>
          refine ⟨_, _, .getEntry hphase hqueue, ?_⟩
          simp [ArchiveState.todo, hphase, hqueue, Phase.todo]
          omega
        | err =>
          refine ⟨_, _, .getErr hphase hqueue, ?_⟩
          simp [ArchiveState.todo, hphase, hqueue, Phase.todo]
          omega
  | holding e left =>
    cases hadd : s.writer.addSegments e.name e.crc.toNat e.size e.header (e.read s.shared.mem) with
    | some z =>
      refine ⟨_, _, .written hphase hadd, ?_⟩
      simp [ArchiveState.todo, hphase, Phase.todo]
    | none =>
      refine ⟨_, _, .writeFailed hphase, ?_⟩
      simp [ArchiveState.todo, hphase, Phase.todo]
  | finishing =>
    cases hfinish : s.writer.finish with
    | some sink =>
      refine ⟨_, _, .completed hphase hfinish, ?_⟩
      simp [ArchiveState.todo, hphase, Phase.todo]
    | none =>
      refine ⟨_, _, .finishFailed hphase, ?_⟩
      simp [ArchiveState.todo, hphase, Phase.todo]
  | raising =>
    refine ⟨_, _, .aborted hphase, ?_⟩
    simp [ArchiveState.todo, hphase, Phase.todo]
  | raised => exact absurd hphase hraised
  | returned => exact absurd hphase hreturned

theorem ArchiveRun.inv (h : ArchiveRun crc32 cfg.queueDepth keys.length (.start cfg keys) evs s) :
    ArchiveInv cfg keys evs s := by
  generalize hstart : ArchiveState.start cfg keys = s₀ at h
  induction h with
  | refl =>
    subst hstart
    exact .start cfg keys
  | step _ hlast ih => exact ih.step hlast

/-- In every state of every run: each slab has exactly one owner, filled bytes are what is
written, the archive is not stuck, and after an error item it aborts. -/
theorem archive_safe (h : ArchiveRun crc32 cfg.queueDepth keys.length (.start cfg keys) evs s)
    (hworkers : 1 ≤ cfg.nDownload) (hdepth : 1 ≤ cfg.queueDepth) (hpool : 1 ≤ cfg.poolSize) :
    s.owners.Perm (List.range cfg.poolSize) ∧
    (∀ e ∈ s.entries, e.read s.shared.mem = e.filled) ∧
    (∀ p ∈ s.written, p.2 = p.1.filled) ∧
    (s.phase ≠ .raised → s.phase ≠ .returned → s.Advances crc32 cfg.queueDepth keys.length) ∧
    (.getErr ∈ evs → s.phase = .raising ∧ s.upload = .inProgress ∨
      s.phase = .raised ∧ s.upload = .aborted) := by
  have hinv := h.inv
  refine ⟨hinv.owned, hinv.intact, hinv.written, hinv.progress hworkers hdepth hpool, fun herr => ?_⟩
  rcases hinv.failed herr with hraising | hraised
  · exact .inl ⟨hraising, hinv.pending (by simp [hraising]) (by simp [hraising])⟩
  · exact .inr ⟨hraised, hinv.raised hraised⟩

end

/-- The CRC-32 of the contents `[1, 2, 3]` and `[4, 5]`. -/
def crcOfTwo (data : Bytes) : UInt32 := if data = [1, 2, 3] then 0x55BC801D else 0x55DF2374

/-- What a worker makes of the slab `0` with an object in it. -/
def slabEntry (key : String) (data : Bytes) : Entry where
  name := baseName key
  crc := crcOfTwo data
  size := data.length
  header := (localFileHeader (utf8 (baseName key)) (crcOfTwo data).toNat data.length).getD []
  body := .view data.length
  slab := 0
  filled := data

/-- Two workers share a slab: the first object is written before the second one is read into it, and
then the second download fails. -/
theorem archive_safe_two :
    ∃ s, ArchiveRun crcOfTwo 1 2 (.start ⟨2, 1, 1, 4, 64⟩ ["a", "b"])
      [.opened, .worker, .worker, .worker, .worker, .worker, .worker, .getEntry, .written, .worker,
        .worker, .worker, .worker, .getErr, .aborted] s ∧
      s.written = [(slabEntry "a" [1, 2, 3], [1, 2, 3])] ∧ s.shared.mem 0 = [4, 5, 3, 0] ∧
      (∀ p ∈ s.written, p.2 = p.1.filled) ∧
      (s.phase = .raising ∧ s.upload = .inProgress ∨ s.phase = .raised ∧ s.upload = .aborted) := by
  have he : makeEntry crcOfTwo "a" 0 (.view 3) [1, 2, 3] = some (slabEntry "a" [1, 2, 3]) := by
    decide +kernel
  have h₁ := (@Run.refl _ _ (ArchiveStep crcOfTwo 1 2)
    (.start ⟨2, 1, 1, 4, 64⟩ ["a", "b"])).step (.opened rfl)
  have h₂ := h₁.step (@ArchiveStep.worker _ _ _ _ _ _ _ [] [_] rfl (.take rfl))
  have h₃ := h₂.step (@ArchiveStep.worker _ _ _ _ _ _ _ [_] [] rfl (.take rfl))
  have h₄ := h₃.step (@ArchiveStep.worker _ _ _ _ _ _ _ [] [_] rfl (.borrow rfl))
  have h₅ := h₄.step (@ArchiveStep.worker _ _ _ _ _ _ _ [] [_] rfl
    (@WorkerStep.readInto _ _ _ _ _ 0 [1, 2, 3] (by decide)))
  have h₆ := h₅.step (@ArchiveStep.worker _ _ _ _ _ _ _ [] [_] rfl (.filled (by decide) he))
  have h₇ := h₆.step (@ArchiveStep.worker _ _ _ _ _ _ _ [] [_] rfl (.put (by decide)))
  have h₈ := h₇.step (.getEntry rfl rfl)
  have h₉ := h₈.step (.written rfl rfl)
  -- the slab again
  have h₁₀ := h₉.step (@ArchiveStep.worker _ _ _ _ _ _ _ [_] [] rfl (.borrow rfl))
  have h₁₁ := h₁₀.step (@ArchiveStep.worker _ _ _ _ _ _ _ [_] [] rfl
    (@WorkerStep.readInto _ _ _ _ _ 0 [4, 5] (by decide)))
  have h₁₂ := h₁₁.step (@ArchiveStep.worker _ _ _ _ _ _ _ [_] [] rfl .failed)
  have h₁₃ := h₁₂.step (@ArchiveStep.worker _ _ _ _ _ _ _ [_] [] rfl (.putErr (by decide)))
  have h₁₄ := h₁₃.step (.getErr rfl rfl)
  have h₁₅ := h₁₄.step (.aborted rfl)
  have hsafe := @archive_safe crcOfTwo ⟨2, 1, 1, 4, 64⟩ ["a", "b"] _ _ h₁₅ (by decide) (by decide)
    (by decide)
  exact ⟨_, h₁₅, rfl, rfl, hsafe.2.2.1, hsafe.2.2.2.2 (by decide)⟩

end S3Archive.JNicholson
