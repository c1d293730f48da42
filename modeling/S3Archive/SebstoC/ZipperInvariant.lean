import S3Archive.SebstoC.UploadBatch
import S3Archive.SebstoC.RoundTrip
import Mathlib.Data.UInt
import Mathlib.Algebra.BigOperators.Group.List.Basic

/-!
# sebsto C: the invariant of the zipper thread

`Ledger` accounts for every object that was started: it is in flight or was fed to
the encoder, and the counters say how many there are. `Zipper.Inv` adds what the
phase of the thread says and what the encoder holds: the entries fed so far, each
with the whole body that its callbacks have delivered (`bodyOf`).
-/

namespace S3Archive.SebstoC

open Zip (StoredFile)

/-! ## What was delivered -/

/-- What an event delivers to download `i`. -/
def recvOf (i : Nat) : Event → Bytes
  | .recv j data => if j = i then data else []
  | _ => []

@[simp] theorem recvOf_zipper (i : Nat) : recvOf i .zipper = [] := rfl

@[simp] theorem recvOf_start (i : Nat) (key : Bytes) (ok : Bool) :
    recvOf i (.start key ok) = [] := rfl

@[simp] theorem recvOf_finish (i j : Nat) (errorCode : Int) :
    recvOf i (.finish j errorCode) = [] := rfl

/-- The body that the events have delivered to download `i`. -/
def bodyOf (evs : List Event) (i : Nat) : Bytes := evs.flatMap (recvOf i)

@[simp] theorem bodyOf_nil (i : Nat) : bodyOf [] i = [] := rfl

@[simp] theorem bodyOf_snoc (evs : List Event) (ev : Event) (i : Nat) :
    bodyOf (evs ++ [ev]) i = bodyOf evs i ++ recvOf i ev := by
  simp [bodyOf]

def nameOf (objs : List Obj) (i : Nat) : Bytes := (objs[i]?.map Obj.name).getD []

def sizeOfObj (objs : List Obj) (i : Nat) : UInt64 := (objs[i]?.map Obj.size).getD 0

/-- Object `i` with its whole body. -/
def itemOf (objs : List Obj) (evs : List Event) (i : Nat) : Item := ⟨nameOf objs i, bodyOf evs i⟩

/-- A download that could not be started, or that ended with an error. -/
inductive Event.Failure : Event → Prop where
  | start (key : Bytes) : Failure (.start key false)
  | finish (i : Nat) {errorCode : Int} : errorCode ≠ 0 → Failure (.finish i errorCode)

/-- Some download failed. -/
def DownloadFailed (evs : List Event) : Prop := ∃ ev ∈ evs, ev.Failure

theorem DownloadFailed.snoc {evs : List Event} (h : DownloadFailed evs) (ev : Event) :
    DownloadFailed (evs ++ [ev]) := by
  obtain ⟨e, he, hf⟩ := h
  exact ⟨e, List.mem_append_left _ he, hf⟩

/-! ## The ledger -/

/-- The objects that were started are in flight (`going`) or were fed to the encoder (`fed`). -/
structure Ledger (objs : List Obj) (evs : List Event) (s : Zipper) (going fed : List Nat) :
    Prop where
  perm : (going ++ fed).Perm (List.range s.nextToStart)
  next_le : s.nextToStart ≤ objs.length
  mrs_iff : ∀ i, s.mrs i = true ↔ i ∈ going
  finished_iff : ∀ i, s.finishedOrder i = true ↔ i ∈ fed
  inflight_eq : s.inflight = going.length
  completed_eq : s.completed = fed.length
  bytes_eq : s.inflightBytes = (going.map (sizeOfObj objs)).sum
  body_eq : ∀ i, i ∉ fed → (s.dls i).body = bodyOf evs i
  error_of : ∀ i, (s.dls i).errorCode ≠ 0 → DownloadFailed evs

section

variable {objs : List Obj} {evs : List Event} {s : Zipper} {going fed : List Nat} {i : Nat}

theorem Ledger.start : Ledger objs [] {} [] [] := by
  refine ⟨.refl _, Nat.zero_le _, ?_, ?_, rfl, rfl, rfl, fun _ _ => rfl, ?_⟩ <;> simp

theorem Ledger.nodup (h : Ledger objs evs s going fed) : (going ++ fed).Nodup :=
  h.perm.nodup_iff.2 List.nodup_range

theorem Ledger.not_fed (h : Ledger objs evs s going fed) (hi : i ∈ going) : i ∉ fed :=
  fun hf => (List.nodup_append.1 h.nodup).2.2 i hi i hf rfl

theorem Ledger.lt_next (h : Ledger objs evs s going fed) (hi : i ∈ going ++ fed) :
    i < s.nextToStart := List.mem_range.1 (h.perm.mem_iff.1 hi)

theorem Ledger.going_iff (h : Ledger objs evs s going fed) : s.Going i ↔ i ∈ going := by
  constructor
  · exact fun hg => (h.mrs_iff i).1 hg.1
  · intro hi
    refine ⟨(h.mrs_iff i).2 hi, Bool.eq_false_of_not_eq_true fun hf => ?_⟩
    exact h.not_fed hi ((h.finished_iff i).1 hf)

theorem Ledger.length_eq (h : Ledger objs evs s going fed) :
    going.length + fed.length = s.nextToStart := by
  rw [← List.length_append, h.perm.length_eq, List.length_range]

/-- The ledger does not depend on the phase and the encoder. -/
theorem Ledger.frame {s' : Zipper} (h : Ledger objs evs s going fed)
    (hs : s' = { s with phase := s'.phase, z := s'.z }) : Ledger objs evs s' going fed := by
  rw [hs]
  exact ⟨h.perm, h.next_le, h.mrs_iff, h.finished_iff, h.inflight_eq, h.completed_eq, h.bytes_eq,
    h.body_eq, h.error_of⟩

/-- An event that delivers nothing. -/
theorem Ledger.quiet {ev : Event} (h : Ledger objs evs s going fed)
    (hev : ∀ i, recvOf i ev = []) : Ledger objs (evs ++ [ev]) s going fed := by
  refine ⟨h.perm, h.next_le, h.mrs_iff, h.finished_iff, h.inflight_eq, h.completed_eq, h.bytes_eq,
    fun i hi => ?_, fun i hi => (h.error_of i hi).snoc _⟩
  rw [bodyOf_snoc, hev, List.append_nil]
  exact h.body_eq i hi

theorem Ledger.started (h : Ledger objs evs s going fed) {o : Obj}
    (ho : objs[s.nextToStart]? = some o) :
    Ledger objs (evs ++ [.start o.key true]) (s.started o) (going ++ [s.nextToStart]) fed := by
  have hlt : s.nextToStart < objs.length := (List.getElem?_eq_some_iff.1 ho).1
  have hnot : s.nextToStart ∉ fed := fun hf =>
    absurd (h.lt_next (List.mem_append_right _ hf)) (Nat.lt_irrefl _)
  refine ⟨?_, hlt, fun i => ?_, h.finished_iff, ?_, h.completed_eq, ?_, fun i hi => ?_,
    fun i hi => (h.error_of i hi).snoc _⟩
  · have hswap : (going ++ [s.nextToStart] ++ fed).Perm (going ++ fed ++ [s.nextToStart]) := by
      rw [List.append_assoc, List.append_assoc]
      exact List.Perm.append_left _ List.perm_append_comm
    rw [Zipper.started]
    dsimp only
    rw [List.range_succ]
    exact hswap.trans (h.perm.append_right _)
  · rw [Zipper.started]
    dsimp only
    rw [Function.update_apply, List.mem_append, List.mem_singleton, ← h.mrs_iff i]
    split <;> simp_all
  · rw [Zipper.started, h.inflight_eq, List.length_append]
    rfl
  · have hsize : sizeOfObj objs s.nextToStart = o.size := by rw [sizeOfObj, ho]; rfl
    rw [Zipper.started, List.map_append, List.sum_append, h.bytes_eq]
    simp [hsize]
  · rw [bodyOf_snoc, recvOf_start, List.append_nil]
    exact h.body_eq i hi

theorem Ledger.feed (h : Ledger objs evs s going fed) (hi : i ∈ going) {o : Obj}
    (ho : objs[i]? = some o) (z : ZipWriter ZipperArgs) :
    Ledger objs (evs ++ [.zipper]) (s.fed i o z) (going.erase i) (fed ++ [i]) := by
  have herase : going.Perm (i :: going.erase i) := List.perm_cons_erase hi
  have hnodup : i ∉ going.erase i :=
    (List.nodup_cons.1 (herase.nodup_iff.1 (List.nodup_append.1 h.nodup).1)).1
  have hmem (j : Nat) : j ∈ going ↔ j = i ∨ j ∈ going.erase i := by
    rw [herase.mem_iff, List.mem_cons]
  refine ⟨?_, h.next_le, fun j => ?_, fun j => ?_, ?_, ?_, ?_, fun j hj => ?_, fun j hj => ?_⟩
  · refine List.Perm.trans ?_ h.perm
    have hmove : (going.erase i ++ (fed ++ [i])).Perm (i :: (going.erase i ++ fed)) := by
      rw [← List.append_assoc]
      exact List.perm_append_singleton _ _
    exact hmove.trans (herase.symm.append_right fed)
  · rw [Zipper.fed]
    dsimp only
    rw [Function.update_apply]
    split
    case isTrue hj => simp [hj, hnodup]
    case isFalse hj => rw [h.mrs_iff j, hmem j, or_iff_right hj]
  · rw [Zipper.fed]
    dsimp only
    rw [Function.update_apply, List.mem_append, List.mem_singleton, ← h.finished_iff j]
    split <;> simp_all
  · rw [Zipper.fed]
    dsimp only
    rw [h.inflight_eq, List.length_erase_of_mem hi]
  · rw [Zipper.fed, List.length_append, ← h.completed_eq]
    rfl
  · have hsum := (herase.map (sizeOfObj objs)).sum_eq
    have hsize : sizeOfObj objs i = o.size := by rw [sizeOfObj, ho]; rfl
    rw [Zipper.fed]
    dsimp only
    rw [h.bytes_eq, hsum, List.map_cons, List.sum_cons, hsize]
    exact add_sub_cancel_left _ _
  · rw [List.mem_append, List.mem_singleton, not_or] at hj
    rw [Zipper.fed, bodyOf_snoc, recvOf_zipper, List.append_nil]
    dsimp only
    rw [Function.update_of_ne hj.2]
    exact h.body_eq j hj.1
  · refine (h.error_of j ?_).snoc _
    rw [Zipper.fed] at hj
    dsimp only at hj
    rw [Function.update_apply] at hj
    split at hj
    case isTrue hij =>
      rw [hij]
      exact hj
    case isFalse => exact hj

theorem Ledger.recv (h : Ledger objs evs s going fed) (i : Nat) (data : Bytes) :
    Ledger objs (evs ++ [.recv i data])
      (s.update i { s.dls i with body := (s.dls i).body ++ data }) going fed := by
  refine ⟨h.perm, h.next_le, h.mrs_iff, h.finished_iff, h.inflight_eq, h.completed_eq, h.bytes_eq,
    fun j hj => ?_, fun j hj => ?_⟩
  · rw [Zipper.update, bodyOf_snoc, recvOf]
    dsimp only
    rw [Function.update_apply]
    by_cases hij : j = i
    · subst hij
      rw [if_pos rfl, if_pos rfl, h.body_eq j hj]
    · rw [if_neg hij, if_neg (Ne.symm hij), List.append_nil]
      exact h.body_eq j hj
  · refine (h.error_of j ?_).snoc _
    rw [Zipper.update] at hj
    dsimp only at hj
    rw [Function.update_apply] at hj
    split at hj
    case isTrue hij =>
      rw [hij]
      exact hj
    case isFalse => exact hj

theorem Ledger.done (h : Ledger objs evs s going fed) (i : Nat) (errorCode : Int) :
    Ledger objs (evs ++ [.finish i errorCode])
      (s.update i { s.dls i with errorCode, done := true }) going fed := by
  refine ⟨h.perm, h.next_le, h.mrs_iff, h.finished_iff, h.inflight_eq, h.completed_eq, h.bytes_eq,
    fun j hj => ?_, fun j hj => ?_⟩
  · rw [Zipper.update, bodyOf_snoc, recvOf_finish, List.append_nil]
    dsimp only
    rw [Function.update_apply]
    split
    case isTrue hij =>
      rw [← hij]
      exact h.body_eq j hj
    case isFalse => exact h.body_eq j hj
  · rw [Zipper.update] at hj
    dsimp only at hj
    rw [Function.update_apply] at hj
    split at hj
    case isTrue => exact ⟨_, List.mem_append_right _ List.mem_cons_self, .finish i hj⟩
    case isFalse => exact (h.error_of j hj).snoc _

end

/-- A run of the encoder that returns `code`. -/
theorem eq_of_code {σ : Type} {x : Int × σ} {code : Int} (h : x.1 = code) : x = (code, x.2) :=
  Prod.ext h rfl

/-! ## The invariant -/

/-- The entries of the archive so far. -/
def filesOf (objs : List Obj) (crc32 : Bytes → UInt32) (evs : List Event) (fed : List Nat) :
    List StoredFile := fed.map fun i => stored crc32 (itemOf objs evs i)

/-- What the phase of the thread says of the downloads. -/
def PhaseInv (objs : List Obj) (s : Zipper) : Phase → Prop
  | .admitting => s.completed < objs.length
  | .awaiting i => ∀ j < i, ¬ s.Going j
  | .feeding i => s.Going i
  | _ => True

/-- What the encoder holds of the entries `files`, and what the upload has accepted. -/
def EncoderInv (s : Zipper) (failed : Prop) (files : List StoredFile) : Phase → Prop
  | .ending => s.z.user.ok = false ∧ s.z.user.Open ∧ (s.z.user.writeFailed = true ∨ failed)
  | .cleanup =>
    s.z.user.ok = true ∧ s.z.user.Sealed ∧ s.z.user.uploaded = archive files ∨
      s.z.user.ok = false ∧ (s.z.user.Open ∨ s.z.user.Sealed ∧ failed)
  | _ => Holds ZipperArgs.sent s.z files ∧ s.z.user.Open

structure Zipper.Inv (objs : List Obj) (crc32 : Bytes → UInt32) (evs : List Event) (s : Zipper)
    (going fed : List Nat) : Prop where
  ledger : Ledger objs evs s going fed
  phase : PhaseInv objs s s.phase
  encoder : EncoderInv s (DownloadFailed evs) (filesOf objs crc32 evs fed) s.phase

section

variable {accepts : Nat → Bool} {objs : List Obj} {crc32 : Bytes → UInt32} {evs : List Event}
  {ev : Event} {s s' : Zipper} {going fed : List Nat} {i : Nat}

theorem Zipper.Inv.start : Zipper.Inv objs crc32 [] {} [] [] :=
  ⟨.start, trivial, .init rfl, by simp [ZipperArgs.Open]⟩

theorem filesOf_snoc (hev : ∀ i ∈ fed, recvOf i ev = []) :
    filesOf objs crc32 (evs ++ [ev]) fed = filesOf objs crc32 evs fed := by
  refine List.map_congr_left fun i hi => ?_
  rw [itemOf, bodyOf_snoc, hev i hi, List.append_nil]
  rfl

theorem EncoderInv.mono {failed failed' : Prop} {files : List StoredFile} {p : Phase}
    (h : EncoderInv s failed files p) (hf : failed → failed') : EncoderInv s failed' files p := by
  cases p with
  | ending => exact ⟨h.1, h.2.1, h.2.2.imp_right hf⟩
  | cleanup => exact h.imp_right fun h => ⟨h.1, h.2.imp_right fun h => ⟨h.1, hf h.2⟩⟩
  | _ => exact h

/-- The thread moves to another phase. -/
theorem Zipper.Inv.move (h : s.Inv objs crc32 evs going fed) (p : Phase)
    (hphase : PhaseInv objs s p)
    (henc : EncoderInv s (DownloadFailed evs) (filesOf objs crc32 evs fed) p) :
    Zipper.Inv objs crc32 (evs ++ [.zipper]) { s with phase := p } going fed := by
  have hfiles : filesOf objs crc32 (evs ++ [.zipper]) fed = filesOf objs crc32 evs fed :=
    filesOf_snoc fun i _ => rfl
  have henc' : EncoderInv { s with phase := p } (DownloadFailed evs)
      (filesOf objs crc32 evs fed) p := by
    cases p <;> exact henc
  have hphase' : PhaseInv objs { s with phase := p } p := by
    cases p <;> exact hphase
  refine ⟨(h.ledger.quiet fun _ => rfl).frame rfl, hphase', ?_⟩
  rw [hfiles]
  exact henc'.mono fun h => h.snoc _

/-- A callback of the CRT changes one download only. -/
theorem Zipper.Inv.callback (h : s.Inv objs crc32 evs going fed) {d : Download}
    (hledger : Ledger objs (evs ++ [ev]) (s.update i d) going fed)
    (hev : ∀ j ∈ fed, recvOf j ev = []) :
    (s.update i d).Inv objs crc32 (evs ++ [ev]) going fed := by
  have hphase : ∀ p, PhaseInv objs s p → PhaseInv objs (s.update i d) p := by
    intro p hp
    cases p <;> exact hp
  have henc : ∀ p, EncoderInv s (DownloadFailed evs) (filesOf objs crc32 evs fed) p →
      EncoderInv (s.update i d) (DownloadFailed evs) (filesOf objs crc32 evs fed) p := by
    intro p hp
    cases p <;> exact hp
  refine ⟨hledger, hphase _ h.phase, ?_⟩
  rw [filesOf_snoc hev]
  exact (henc _ h.encoder).mono fun h => h.snoc _

/-- The label `end`. -/
theorem Zipper.Inv.abort (h : s.Inv objs crc32 evs going fed) (hp : s.phase = .ending) :
    Zipper.Inv objs crc32 (evs ++ [.zipper]) { signalEnd accepts s with phase := .cleanup }
      going fed := by
  obtain ⟨hok, hopen, hwhy⟩ : EncoderInv s (DownloadFailed evs) (filesOf objs crc32 evs fed)
      .ending := hp ▸ h.encoder
  have hframe : ({ signalEnd accepts s with phase := .cleanup } : Zipper) =
      { s with phase := .cleanup, z := (signalEnd accepts s).z } := by
    unfold signalEnd
    split <;> rfl
  refine ⟨(h.ledger.quiet fun _ => rfl).frame hframe, trivial, .inr ?_⟩
  unfold signalEnd
  by_cases hw : s.z.user.writeFailed = true
  · rw [if_pos hw]
    exact ⟨hok, .inl hopen⟩
  · rw [if_neg hw]
    refine ⟨(ok_uploadWriteSync_eof _ _).trans hok, ?_⟩
    by_cases hrc : (uploadWriteSync accepts s.z.user [] true).1 = 0
    · refine .inr ⟨(ZipperArgs.Open.sealed hopen (Prod.ext hrc rfl)).1, ?_⟩
      exact (hwhy.resolve_left hw).snoc _
    · refine .inl fun w hmem => hopen w ?_
      rwa [← accepted_of_uploadWriteSync_eof hrc]

/-- `zip_writer_finish`, whose code is the outcome. -/
theorem Zipper.Inv.finish (h : s.Inv objs crc32 evs going fed) (hp : s.phase = .finishing)
    {rc : Int} {z : ZipWriter ZipperArgs}
    (hrun : (zipWriterFinish (uploadWriteSync accepts)).run s.z = (rc, z)) :
    Zipper.Inv objs crc32 (evs ++ [.zipper])
      { ({ s with z } : Zipper).setOk (decide (rc = 0)) with phase := .cleanup } going fed := by
  obtain ⟨hz, hopen⟩ : EncoderInv s (DownloadFailed evs) (filesOf objs crc32 evs fed)
      .finishing := hp ▸ h.encoder
  refine ⟨(h.ledger.quiet fun _ => rfl).frame rfl, trivial, ?_⟩
  rw [filesOf_snoc fun i _ => rfl]
  by_cases hrc : rc = 0
  · subst hrc
    obtain ⟨hsealed, huploaded⟩ := hz.finish_sealed hopen hrun
    exact .inl ⟨rfl, hsealed, huploaded⟩
  · have hstill := hz.finish_open hopen hrun hrc
    exact .inr ⟨decide_eq_false hrc, .inl hstill⟩

section Feeding

variable (h : s.Inv objs crc32 evs going fed) (hp : s.phase = .feeding i) {o : Obj}
  (ho : objs[i]? = some o) {rc : Int} {z : ZipWriter ZipperArgs}
  (hrun : (zipWriterAdd (uploadWriteSync accepts) crc32 o.name (s.dls i).body).run s.z = (rc, z))

include h hp

theorem Zipper.Inv.mem_going : i ∈ going := by
  have hgoing : PhaseInv objs s (.feeding i) := hp ▸ h.phase
  exact h.ledger.going_iff.1 hgoing

theorem Zipper.Inv.holds : Holds ZipperArgs.sent s.z (filesOf objs crc32 evs fed) ∧
    s.z.user.Open := by
  have hz : EncoderInv s (DownloadFailed evs) (filesOf objs crc32 evs fed) (.feeding i) :=
    hp ▸ h.encoder
  exact hz

include ho hrun

/-- The body of download `i` becomes an entry. -/
theorem Zipper.Inv.feed (hrc : rc = 0) :
    Zipper.Inv objs crc32 (evs ++ [.zipper]) { s.fed i o z with phase := .looping }
      (going.erase i) (fed ++ [i]) := by
  obtain ⟨hz, hopen⟩ := h.holds hp
  have hi := h.mem_going hp
  have hitem : itemOf objs evs i = ⟨o.name, (s.dls i).body⟩ := by
    rw [itemOf, nameOf, ho, h.ledger.body_eq i (h.ledger.not_fed hi)]
    rfl
  refine ⟨(h.ledger.feed hi ho z).frame rfl, trivial, ?_⟩
  rw [filesOf_snoc fun i _ => rfl]
  have hadd := hz.add appends_uploadWriteSync (hrc ▸ hrun)
  have hcalls := hz.add_calls appends_uploadWriteSync hrun
  refine ⟨?_, hcalls.1.keeps.2 hopen⟩
  rw [filesOf, List.map_append, List.map_cons, List.map_nil, hitem]
  exact hadd

/-- A write that fails while download `i` is added. -/
theorem Zipper.Inv.addFails (hrc : rc ≠ 0) :
    Zipper.Inv objs crc32 (evs ++ [.zipper]) { (s.fed i o z).setOk false with phase := .ending }
      (going.erase i) (fed ++ [i]) := by
  obtain ⟨hz, hopen⟩ := h.holds hp
  obtain ⟨hplain, hfails⟩ := hz.add_calls appends_uploadWriteSync hrun
  have hstill := hplain.keeps.2 hopen
  refine ⟨(h.ledger.feed (h.mem_going hp) ho z).frame rfl, trivial, ?_⟩
  exact ⟨rfl, hstill, .inl (hfails hrc).writeFailed⟩

end Feeding

theorem Zipper.Inv.step (h : s.Inv objs crc32 evs going fed)
    (hstep : Step accepts crc32 objs s ev s') :
    ∃ going' fed', s'.Inv objs crc32 (evs ++ [ev]) going' fed' := by
  have hphase {p : Phase} (hp : s.phase = p) : PhaseInv objs s p := hp ▸ h.phase
  have hold {p : Phase} (hp : s.phase = p) (h₁ : p ≠ .ending) (h₂ : p ≠ .cleanup) :
      Holds ZipperArgs.sent s.z (filesOf objs crc32 evs fed) ∧ s.z.user.Open := by
    have henc : EncoderInv s (DownloadFailed evs) (filesOf objs crc32 evs fed) p := hp ▸ h.encoder
    cases p with
    | ending => exact absurd rfl h₁
    | cleanup => exact absurd rfl h₂
    | _ => exact henc
  cases hstep with
  | again hp hlt => exact ⟨going, fed, h.move _ hlt (hold hp nofun nofun)⟩
  | leave hp => exact ⟨going, fed, h.move _ trivial (hold hp nofun nofun)⟩
  | start hp ho =>
    have hlt := hphase hp
    have hz := hold hp nofun nofun
    refine ⟨_, fed, h.ledger.started ho, ?_, ?_⟩
    · rw [Zipper.started, hp]
      exact hlt
    · rw [filesOf_snoc fun i _ => rfl, Zipper.started, hp]
      exact hz
  | @startFails o hp =>
    have hopen := (hold hp nofun nofun).2
    have hfailed : DownloadFailed (evs ++ [.start o.key false]) :=
      ⟨_, List.mem_append_right _ List.mem_cons_self, .start o.key⟩
    exact ⟨going, fed, (h.ledger.quiet fun _ => rfl).frame rfl, trivial, rfl, hopen, .inr hfailed⟩
  | saturated hp => exact ⟨going, fed, h.move _ trivial (hold hp nofun nofun)⟩
  | scanHit hp _ hg => exact ⟨going, fed, h.move _ hg (hold hp nofun nofun)⟩
  | scanMiss hp => exact ⟨going, fed, h.move _ trivial (hold hp nofun nofun)⟩
  | scanEnd hp =>
    refine ⟨going, fed, h.move _ (fun j hj => ?_) (hold hp nofun nofun)⟩
    exact absurd hj (Nat.not_lt_zero j)
  | awaitHit hp _ hg => exact ⟨going, fed, h.move _ hg (hold hp nofun nofun)⟩
  | @awaitMiss i hp _ hg =>
    refine ⟨going, fed, h.move _ (fun j hj => ?_) (hold hp nofun nofun)⟩
    rcases Nat.lt_succ_iff_lt_or_eq.1 hj with hj | rfl
    · exact hphase hp j hj
    · exact hg
  | giveUp hp => exact ⟨going, fed, h.move _ trivial (hold hp nofun nofun)⟩
  | failed hp herr =>
    have hopen := (h.holds hp).2
    have hfailed := (h.ledger.error_of _ herr).snoc .zipper
    exact ⟨going, fed, (h.ledger.quiet fun _ => rfl).frame rfl, trivial, rfl, hopen, .inr hfailed⟩
  | feed hp _ ho hrun => exact ⟨_, _, h.feed hp ho hrun rfl⟩
  | addFails hp _ ho hrun hrc => exact ⟨_, _, h.addFails hp ho hrun hrc⟩
  | finish hp hrun => exact ⟨going, fed, h.finish hp hrun⟩
  | abort hp => exact ⟨going, fed, h.abort hp⟩
  | @recv i data hi =>
    refine ⟨going, fed, h.callback (h.ledger.recv i data) fun j hj => ?_⟩
    have hne : i ≠ j := fun heq => h.ledger.not_fed ((h.ledger.mrs_iff i).1 hi) (heq ▸ hj)
    exact if_neg hne
  | @done i errorCode => exact ⟨going, fed, h.callback (h.ledger.done i errorCode) fun _ _ => rfl⟩

/-- The invariant holds in every state that a run reaches. -/
theorem Zipper.Inv.run (h : Run (Step accepts crc32 objs) {} evs s) :
    ∃ going fed, s.Inv objs crc32 evs going fed := by
  induction h with
  | refl => exact ⟨[], [], .start⟩
  | step _ hlast ih =>
    obtain ⟨going, fed, h⟩ := ih
    exact h.step hlast

end

/-! ## Two objects -/

/-- Objects `a` of three bytes and `b` of two, below `p/`. -/
def twoObjects : List Obj := [⟨[0x70, 0x2F, 0x61], [0x61], 3⟩, ⟨[0x70, 0x2F, 0x62], [0x62], 2⟩]

theorem twoObjects_started {s : Zipper} (h : s.nextToStart = 2) (o : Obj)
    (ho : twoObjects[s.nextToStart]? = some o) : ¬ s.Admits o := by
  rw [h] at ho
  cases ho

/-- Both are in flight together; `b` is done first and added first, and `a` comes in two pieces. -/
theorem twoObjects_run : ∃ evs s, Run (Step (fun _ => true) crcOfTwo twoObjects) {} evs s ∧
    s.phase = .cleanup ∧ s.z.user.ok = true ∧ bodyOf evs 0 = [1, 2, 3] ∧ bodyOf evs 1 = [4, 5] ∧
      (∃ w ∈ s.z.user.accepted, w.2 = true) ∧ s.z.user.uploaded.length < 2 ^ 63 := by
  have h₁ := (@Run.refl _ _ (Step (fun _ => true) crcOfTwo twoObjects) {}).step
    (.again rfl (by decide))
  have h₂ := h₁.step (.start rfl rfl (by decide))
  have h₃ := h₂.step (.start rfl rfl (by decide))
  have h₄ := h₃.step (.saturated rfl (twoObjects_started rfl))
  have h₅ := h₄.step (@Step.recv _ _ _ _ 0 [1, 2] rfl rfl)
  have h₆ := h₅.step (@Step.recv _ _ _ _ 1 [4, 5] rfl rfl)
  have h₇ := h₆.step (@Step.done _ _ _ _ 1 0 rfl rfl)
  have h₈ := h₇.step (.scanMiss rfl (by decide) (by decide))
  have h₉ := h₈.step (.scanHit rfl (by decide) (by decide) rfl)
  have h₁₀ := h₉.step (.feed rfl rfl rfl (eq_of_code (by decide +kernel)))
  have h₁₁ := h₁₀.step (@Step.recv _ _ _ _ 0 [3] rfl rfl)
  have h₁₂ := h₁₁.step (@Step.done _ _ _ _ 0 0 rfl rfl)
  have h₁₃ := h₁₂.step (.again rfl (by decide))
  have h₁₄ := h₁₃.step (.saturated rfl (twoObjects_started rfl))
  have h₁₅ := h₁₄.step (.scanHit rfl (by decide) (by decide) rfl)
  have h₁₆ := h₁₅.step (.feed rfl rfl rfl (eq_of_code (by decide +kernel)))
  have h₁₇ := h₁₆.step (.leave rfl (by decide))
  have h₁₈ := h₁₇.step (@Step.finish _ _ _ _ 0 _ rfl (eq_of_code (by decide +kernel)))
  exact ⟨_, _, h₁₈, rfl, rfl, rfl, rfl, by decide +kernel, by decide +kernel⟩

end S3Archive.SebstoC
