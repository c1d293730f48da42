import S3Archive.SebstoTs.ChunkProducer
import S3Archive.Base.Run
import Mathlib.Data.List.Sort
import Mathlib.Data.List.Range

/-!
# sebsto TypeScript: the upload stage

`UploadStep` is `runUploadStage` as a step relation over the chunk producer and the
stage. An `UploadPart` call that settles is one step: its `finally` releases the
slot and its `cleanup` takes it out of `inflight` before the stage goes on, so only
a race or a join that is already waiting sees how it settled.
`runUploadStage_iff` says in which runs the stage's result can be trusted.
-/

namespace S3Archive.SebstoTs

def maxConcurrentUploads : Nat := 6

structure CompletedPart where
  etag : String
  partNumber : Nat
  deriving DecidableEq

/-- Where the stage is. The verdict is how `Promise.race` or `Promise.all` has settled. -/
inductive UploadPhase where
  | receiving
  | racing (chunk : UploadChunk) (verdict : Option Bool)
  | joining (verdict : Option Bool)
  | resolved (parts : List CompletedPart)
  | rejected
  deriving DecidableEq

structure UploadStage where
  phase : UploadPhase := .receiving
  /-- The chunks whose `UploadPart` call has not settled. -/
  inflight : List UploadChunk := []
  completed : List CompletedPart := []
  deriving DecidableEq

namespace UploadPhase

/-- The stage is in `Promise.race` or `Promise.all`, and that is not decided. -/
def waiting : UploadPhase → Bool
  | racing _ none => true
  | joining none => true
  | _ => false

/-- A promise of `inflight` settles; `rest` are those that have not. -/
def settle (phase : UploadPhase) (ok : Bool) (rest : List UploadChunk) : UploadPhase :=
  match phase with
  | racing chunk none => racing chunk (some ok)
  | joining none => if ok && !rest.isEmpty then joining none else joining (some ok)
  | phase => phase

end UploadPhase

namespace UploadStage

/-- The stage starts the upload of `chunk` and turns to the next one. -/
def upload (u : UploadStage) (chunk : UploadChunk) : UploadStage :=
  { u with phase := .receiving, inflight := u.inflight ++ [chunk] }

/-- `completed.sort`. -/
def parts (u : UploadStage) : List CompletedPart :=
  u.completed.mergeSort fun a b => a.partNumber ≤ b.partNumber

end UploadStage

inductive UploadEvent where
  | emit
  | close
  | recv
  | recvEnd
  | raced
  | joined
  | rejected
  | uploaded (partNumber : Nat) (etag : String)
  /-- `UploadPart` throws, or its response has no ETag; was the stage waiting for it? -/
  | failed (partNumber : Nat) (waiting : Bool)
  deriving DecidableEq

inductive UploadStep :
    ChunkProducer → UploadStage → UploadEvent → ChunkProducer → UploadStage → Prop where
  | recv {p : ChunkProducer} {u : UploadStage} {chunk : UploadChunk} {chunkQueue : List UploadChunk}
      (hphase : u.phase = .receiving) (hqueue : p.chunkQueue = chunk :: chunkQueue)
      (hroom : u.inflight.length < maxConcurrentUploads) :
    UploadStep p u .recv { p with chunkQueue } (u.upload chunk)
  | recvFull {p : ChunkProducer} {u : UploadStage} {chunk : UploadChunk}
      {chunkQueue : List UploadChunk} (hphase : u.phase = .receiving)
      (hqueue : p.chunkQueue = chunk :: chunkQueue)
      (hfull : maxConcurrentUploads ≤ u.inflight.length) :
    UploadStep p u .recv { p with chunkQueue } { u with phase := .racing chunk none }
  | recvEnd {p : ChunkProducer} {u : UploadStage} (hphase : u.phase = .receiving)
      (hqueue : p.chunkQueue = []) (hclosed : p.closed = true) :
    UploadStep p u .recvEnd p
      { u with phase := .joining (if u.inflight.isEmpty then some true else none) }
  | raced {p : ChunkProducer} {u : UploadStage} {chunk : UploadChunk}
      (hphase : u.phase = .racing chunk (some true)) :
    UploadStep p u .raced p (u.upload chunk)
  | raceRejected {p : ChunkProducer} {u : UploadStage} {chunk : UploadChunk}
      (hphase : u.phase = .racing chunk (some false)) :
    UploadStep p u .rejected p { u with phase := .rejected }
  | joined {p : ChunkProducer} {u : UploadStage} (hphase : u.phase = .joining (some true)) :
    UploadStep p u .joined p { u with phase := .resolved u.parts }
  | joinRejected {p : ChunkProducer} {u : UploadStage} (hphase : u.phase = .joining (some false)) :
    UploadStep p u .rejected p { u with phase := .rejected }
  | uploaded {p : ChunkProducer} {u : UploadStage} {chunk : UploadChunk} {etag : String}
      {cs₁ cs₂ : List UploadChunk} (hinflight : u.inflight = cs₁ ++ chunk :: cs₂)
      (hetag : etag ≠ "") :
    UploadStep p u (.uploaded chunk.partNumber etag) p.releaseSlot
      { phase := u.phase.settle true (cs₁ ++ cs₂)
        inflight := cs₁ ++ cs₂
        completed := u.completed ++ [⟨etag, chunk.partNumber⟩] }
  | failed {p : ChunkProducer} {u : UploadStage} {chunk : UploadChunk} {cs₁ cs₂ : List UploadChunk}
      (hinflight : u.inflight = cs₁ ++ chunk :: cs₂) :
    UploadStep p u (.failed chunk.partNumber u.phase.waiting) p.releaseSlot
      { u with phase := u.phase.settle false (cs₁ ++ cs₂), inflight := cs₁ ++ cs₂ }

/-- The stage beside a producer that emits any chunks. -/
inductive UploadRunStep : ChunkProducer × UploadStage → UploadEvent → ChunkProducer × UploadStage →
    Prop where
  | emit {p : ChunkProducer} {u : UploadStage} (data : Bytes) (hopen : p.closed = false)
      (hslot : p.hasSlot = true) :
    UploadRunStep (p, u) .emit ({ p with buffer := data }.emitFullChunk, u)
  | close {p : ChunkProducer} {u : UploadStage} : UploadRunStep (p, u) .close (p.close, u)
  | stage {p p' : ChunkProducer} {u u' : UploadStage} {ev : UploadEvent}
      (h : UploadStep p u ev p' u') : UploadRunStep (p, u) ev (p', u')

abbrev UploadRun := Run UploadRunStep

/-! ## What a run keeps -/

/-- The part whose upload the event reports as failed. -/
def UploadEvent.lost : UploadEvent → Option Nat
  | failed n _ => some n
  | _ => none

namespace UploadPhase

def held : UploadPhase → List UploadChunk
  | racing chunk _ => [chunk]
  | _ => []

/-- The stage has seen a failure. -/
def refused : UploadPhase → Bool
  | racing _ verdict => verdict == some false
  | joining verdict => verdict == some false
  | resolved _ => false
  | receiving => false
  | rejected => true

/-- The stage has received all chunks. -/
def ended : UploadPhase → Bool
  | joining _ => true
  | resolved _ => true
  | _ => false

@[simp] theorem held_settle (phase : UploadPhase) (ok : Bool) (rest : List UploadChunk) :
    (phase.settle ok rest).held = phase.held := by
  unfold settle
  split
  · rfl
  · split <;> rfl
  · rfl

@[simp] theorem ended_settle (phase : UploadPhase) (ok : Bool) (rest : List UploadChunk) :
    (phase.settle ok rest).ended = phase.ended := by
  unfold settle
  split
  · rfl
  · split <;> rfl
  · rfl

theorem settle_eq_rejected {phase : UploadPhase} {ok : Bool} {rest : List UploadChunk} :
    phase.settle ok rest = .rejected ↔ phase = .rejected := by
  unfold settle
  split
  · simp
  · split <;> simp
  · rfl

theorem settle_eq_resolved {phase : UploadPhase} {ok : Bool} {rest : List UploadChunk}
    {parts : List CompletedPart} :
    phase.settle ok rest = .resolved parts ↔ phase = .resolved parts := by
  unfold settle
  split
  · simp
  · split <;> simp
  · rfl

/-- The join is won by the last promise. -/
theorem joined_of_settle {phase : UploadPhase} {ok : Bool} {rest : List UploadChunk}
    (h : phase.settle ok rest = .joining (some true)) :
    rest = [] ∨ phase = .joining (some true) := by
  unfold settle at h
  split at h
  · cases h
  · split at h
    · cases h
    · rename_i hrest
      cases h
      exact .inl (by simpa using hrest)
  · exact .inr h

/-- The join goes on only while a promise is left. -/
theorem joining_of_settle {phase : UploadPhase} {ok : Bool} {rest : List UploadChunk}
    (h : phase.settle ok rest = .joining none) : rest ≠ [] := by
  unfold settle at h
  split at h
  · cases h
  · split at h
    · rename_i hrest
      simp only [Bool.and_eq_true, Bool.not_eq_true', List.isEmpty_eq_false_iff] at hrest
      exact hrest.2
    · cases h
  · rename_i hjoin
    exact absurd h hjoin

/-- A success refuses nothing; a failure is refused by a stage that waits. -/
@[simp] theorem refused_settle (phase : UploadPhase) (ok : Bool) (rest : List UploadChunk) :
    (phase.settle ok rest).refused = (phase.refused || (!ok && phase.waiting)) := by
  unfold settle
  split
  · cases ok <;> rfl
  · cases ok
    · rfl
    · by_cases hrest : rest.isEmpty <;> simp [hrest, refused]
  · rename_i hrace hjoin
    have hwait : phase.waiting = false := by
      unfold waiting
      split
      · exact absurd rfl (hrace _)
      · exact absurd rfl hjoin
      · rfl
    simp [hwait]

end UploadPhase

/-- How many chunks the producer has emitted. -/
def emitted (evs : List UploadEvent) : Nat := evs.count .emit

def lostParts (evs : List UploadEvent) : List Nat := evs.filterMap UploadEvent.lost

/-- The part numbers of the emitted chunks, by where each one is. -/
def partNumbers (evs : List UploadEvent) (p : ChunkProducer) (u : UploadStage) : List Nat :=
  u.completed.map CompletedPart.partNumber ++ lostParts evs ++
    (u.inflight ++ u.phase.held ++ p.chunkQueue).map UploadChunk.partNumber

structure UploadInv (evs : List UploadEvent) (p : ChunkProducer) (u : UploadStage) : Prop where
  next : p.nextPartNumber = emitted evs + 1
  numbers : u.phase ≠ .rejected → (partNumbers evs p u).Perm (List.range' 1 (emitted evs))
  etags : ∀ part ∈ u.completed, .uploaded part.partNumber part.etag ∈ evs
  drained : u.phase.ended = true → p.closed = true ∧ p.chunkQueue = []
  settled : u.phase = .joining (some true) → u.inflight = []
  resolved : ∀ parts, u.phase = .resolved parts → parts = u.parts ∧ u.inflight = []
  seen : u.phase.refused = true ↔ ∃ n, .failed n true ∈ evs

section

variable {evs : List UploadEvent} {ev : UploadEvent} {p p' : ChunkProducer} {u u' : UploadStage}

theorem emitted_append (evs : List UploadEvent) (ev : UploadEvent) :
    emitted (evs ++ [ev]) = emitted evs + if ev = .emit then 1 else 0 := by
  unfold emitted
  rw [List.count_append, List.count_singleton]
  simp

theorem lostParts_append (evs : List UploadEvent) (ev : UploadEvent) :
    lostParts (evs ++ [ev]) = lostParts evs ++ ev.lost.toList := by
  unfold lostParts
  rw [List.filterMap_append]
  cases hlost : ev.lost <;> simp [hlost]

theorem UploadStep.ne_emit (h : UploadStep p u ev p' u') : ev ≠ .emit := by
  cases h <;> simp

theorem UploadInv.start (chunkSize maxInFlight : Nat) :
    UploadInv [] (.new chunkSize maxInFlight) {} := by
  refine ⟨rfl, fun _ => .refl _, ?_, ?_, ?_, ?_, ?_⟩
  · simp
  · simp [UploadPhase.ended]
  · simp
  · simp
  · simp [UploadPhase.refused]

theorem UploadInv.emit (hinv : UploadInv evs p u) (data : Bytes) (hopen : p.closed = false) :
    UploadInv (evs ++ [.emit]) { p with buffer := data }.emitFullChunk u := by
  obtain ⟨hnext, hnumbers, hetags, hdrained, hsettled, hresolved, hseen⟩ := hinv
  have hcount := emitted_append evs .emit
  rw [if_pos rfl] at hcount
  refine ⟨?_, fun hrej => ?_, ?_, fun hended => ?_, hsettled, hresolved, ?_⟩
  · rw [hcount]
    simp [ChunkProducer.emitFullChunk, hnext]
  · rw [hcount, List.range'_concat]
    refine List.Perm.trans ?_ ((hnumbers hrej).append_right _)
    simp [partNumbers, lostParts_append, UploadEvent.lost, ChunkProducer.emitFullChunk, hnext, Nat.add_comm]
  · intro part hpart
    exact List.mem_append_left _ (hetags part hpart)
  · rw [(hdrained hended).1] at hopen
    cases hopen
  · simpa using hseen

theorem UploadInv.close (hinv : UploadInv evs p u) : UploadInv (evs ++ [.close]) p.close u := by
  obtain ⟨hnext, hnumbers, hetags, hdrained, hsettled, hresolved, hseen⟩ := hinv
  have hcount : emitted (evs ++ [.close]) = emitted evs := emitted_append evs .close
  refine ⟨?_, fun hrej => ?_, ?_, fun hended => ⟨rfl, (hdrained hended).2⟩, hsettled, hresolved, ?_⟩
  · rw [hcount]
    exact hnext
  · rw [hcount]
    simpa [partNumbers, lostParts_append, UploadEvent.lost, ChunkProducer.close] using hnumbers hrej
  · intro part hpart
    exact List.mem_append_left _ (hetags part hpart)
  · simpa using hseen

/-- A step moves the part numbers about; only a rejection may drop one. -/
theorem UploadStep.numbers (h : UploadStep p u ev p' u') (evs : List UploadEvent) :
    u.phase = .rejected ∨ u'.phase = .rejected ∨
      (partNumbers (evs ++ [ev]) p' u').Perm (partNumbers evs p u) := by
  cases h with
  | recv hphase hqueue hroom =>
    right
    right
    rw [List.perm_iff_count]
    intro x
    simp [partNumbers, lostParts_append, UploadEvent.lost, UploadStage.upload, UploadPhase.held, hphase, hqueue,
      List.count_cons]
  | recvFull hphase hqueue hfull =>
    right
    right
    simp [partNumbers, lostParts_append, UploadEvent.lost, UploadPhase.held, hphase, hqueue]
  | recvEnd hphase hqueue hclosed =>
    right
    right
    simp [partNumbers, lostParts_append, UploadEvent.lost, UploadPhase.held, hphase, hqueue]
  | raced hphase =>
    right
    right
    simp [partNumbers, lostParts_append, UploadEvent.lost, UploadStage.upload, UploadPhase.held, hphase]
  | raceRejected hphase => exact .inr (.inl rfl)
  | joined hphase =>
    right
    right
    simp [partNumbers, lostParts_append, UploadEvent.lost, UploadPhase.held, hphase]
  | joinRejected hphase => exact .inr (.inl rfl)
  | uploaded hinflight hetag =>
    right
    right
    rw [List.perm_iff_count]
    intro x
    simp [partNumbers, lostParts_append, UploadEvent.lost, hinflight, ChunkProducer.releaseSlot, List.count_cons]
    omega
  | failed hinflight =>
    right
    right
    rw [List.perm_iff_count]
    intro x
    simp [partNumbers, lostParts_append, UploadEvent.lost, hinflight, ChunkProducer.releaseSlot, List.count_cons]
    omega

theorem UploadStep.rejected (h : UploadStep p u ev p' u') (hrej : u.phase = .rejected) :
    u'.phase = .rejected := by
  cases h with
  | uploaded hinflight hetag => exact UploadPhase.settle_eq_rejected.2 hrej
  | failed hinflight => exact UploadPhase.settle_eq_rejected.2 hrej
  | _ => simp_all

/-- A failure is seen exactly when the stage waits for it. -/
theorem UploadStep.seen (h : UploadStep p u ev p' u') :
    u'.phase.refused = true ↔ u.phase.refused = true ∨ ∃ n, ev = .failed n true := by
  cases h with
  | recv hphase hqueue hroom => simp [UploadStage.upload, UploadPhase.refused, hphase]
  | recvFull hphase hqueue hfull => simp [UploadPhase.refused, hphase]
  | @recvEnd hphase hqueue hclosed =>
    by_cases hempty : u.inflight.isEmpty <;> simp [UploadPhase.refused, hphase, hempty]
  | raced hphase => simp [UploadStage.upload, UploadPhase.refused, hphase]
  | raceRejected hphase => simp [UploadPhase.refused, hphase]
  | joined hphase => simp [UploadPhase.refused, hphase]
  | joinRejected hphase => simp [UploadPhase.refused, hphase]
  | uploaded hinflight hetag => simp
  | failed hinflight => simp

theorem UploadInv.stage (hinv : UploadInv evs p u) (h : UploadStep p u ev p' u') :
    UploadInv (evs ++ [ev]) p' u' := by
  obtain ⟨hnext, hnumbers, hetags, hdrained, hsettled, hresolved, hseen⟩ := hinv
  have hcount : emitted (evs ++ [ev]) = emitted evs := by
    rw [emitted_append, if_neg h.ne_emit, Nat.add_zero]
  refine ⟨?_, fun hrej => ?_, ?_, ?_, ?_, ?_, ?_⟩
  · rw [hcount, ← hnext]
    cases h <;> rfl
  · have hrej' : u.phase ≠ .rejected := fun hphase => hrej (h.rejected hphase)
    rw [hcount]
    rcases h.numbers evs with hphase | hphase | hperm
    · exact absurd hphase hrej'
    · exact absurd hphase hrej
    · exact hperm.trans (hnumbers hrej')
  · have hold : ∀ part ∈ u.completed, .uploaded part.partNumber part.etag ∈ evs ++ [ev] :=
      fun part hpart => List.mem_append_left _ (hetags part hpart)
    cases h with
    | uploaded hinflight hetag =>
      intro part hpart
      rcases List.mem_append.1 hpart with hpart | hpart
      · exact hold part hpart
      · rw [List.mem_singleton.1 hpart]
        exact List.mem_append_right _ List.mem_cons_self
    | _ => exact hold
  · cases h with
    | recv hphase hqueue hroom => simp [UploadStage.upload, UploadPhase.ended]
    | recvFull hphase hqueue hfull => simp [UploadPhase.ended]
    | recvEnd hphase hqueue hclosed => exact fun _ => ⟨hclosed, hqueue⟩
    | raced hphase => simp [UploadStage.upload, UploadPhase.ended]
    | raceRejected hphase => simp [UploadPhase.ended]
    | joined hphase =>
      rw [hphase] at hdrained
      exact hdrained
    | joinRejected hphase => simp [UploadPhase.ended]
    | uploaded hinflight hetag =>
      rw [UploadPhase.ended_settle]
      exact hdrained
    | failed hinflight =>
      rw [UploadPhase.ended_settle]
      exact hdrained
  · have hsplit {cs₁ cs₂ : List UploadChunk} {chunk : UploadChunk} {ok : Bool}
        (hinflight : u.inflight = cs₁ ++ chunk :: cs₂)
        (hphase : u.phase.settle ok (cs₁ ++ cs₂) = .joining (some true)) : cs₁ ++ cs₂ = [] := by
      rcases UploadPhase.joined_of_settle hphase with hrest | hphase
      · exact hrest
      · simp [hsettled hphase] at hinflight
    cases h with
    | recv hphase hqueue hroom => simp [UploadStage.upload]
    | recvFull hphase hqueue hfull => simp
    | recvEnd hphase hqueue hclosed => simp
    | raced hphase => simp [UploadStage.upload]
    | raceRejected hphase => simp
    | joined hphase => simp
    | joinRejected hphase => simp
    | uploaded hinflight hetag => exact hsplit hinflight
    | failed hinflight => exact hsplit hinflight
  · have hnone {cs₁ cs₂ : List UploadChunk} {chunk : UploadChunk} {ok : Bool}
        {parts : List CompletedPart} (hinflight : u.inflight = cs₁ ++ chunk :: cs₂) :
        u.phase.settle ok (cs₁ ++ cs₂) ≠ .resolved parts := by
      intro hphase
      simp [(hresolved parts (UploadPhase.settle_eq_resolved.1 hphase)).2] at hinflight
    cases h with
    | recv hphase hqueue hroom => simp [UploadStage.upload]
    | recvFull hphase hqueue hfull => simp
    | recvEnd hphase hqueue hclosed => simp
    | raced hphase => simp [UploadStage.upload]
    | raceRejected hphase => simp
    | joined hphase =>
      intro parts hparts
      cases hparts
      exact ⟨rfl, hsettled hphase⟩
    | joinRejected hphase => simp
    | uploaded hinflight hetag => exact fun parts hphase => absurd hphase (hnone hinflight)
    | failed hinflight => exact fun parts hphase => absurd hphase (hnone hinflight)
  · rw [h.seen, hseen]
    simp only [List.mem_append, List.mem_singleton, exists_or, eq_comm]

theorem UploadRun.inv {chunkSize maxInFlight : Nat}
    (h : UploadRun (.new chunkSize maxInFlight, {}) evs (p, u)) : UploadInv evs p u := by
  generalize hstart : ((.new chunkSize maxInFlight, {}) : ChunkProducer × UploadStage) = start at h
  generalize hend : (p, u) = last at h
  induction h generalizing p u with
  | refl =>
    subst hstart
    cases hend
    exact .start chunkSize maxInFlight
  | @step mid _ _ _ _ hlast ih =>
    have hinv := ih (p := mid.1) (u := mid.2) rfl
    subst hend
    cases hlast with
    | emit data hopen hslot => exact hinv.emit data hopen
    | close => exact hinv.close
    | stage h => exact hinv.stage h

/-! ## What the stage's result says -/

/-- The stage has settled. -/
def UploadPhase.final : UploadPhase → Bool
  | resolved _ => true
  | rejected => true
  | _ => false

/-- What the stage's result should say: a completed part for each emitted chunk in order, with the
ETag of its upload, or a rejection if an upload has failed. -/
def UploadOutcome (evs : List UploadEvent) (u : UploadStage) : Prop :=
  (∀ parts, u.phase = .resolved parts →
    parts.map CompletedPart.partNumber = List.range' 1 (emitted evs) ∧
      ∀ part ∈ parts, .uploaded part.partNumber part.etag ∈ evs) ∧
  ((∃ n waiting, .failed n waiting ∈ evs) → u.phase = .rejected)

theorem UploadStage.parts_perm (u : UploadStage) : u.parts.Perm u.completed :=
  List.mergeSort_perm _ _

/-- With no failure, the parts are those of the emitted chunks. -/
theorem UploadInv.parts (hinv : UploadInv evs p u) {parts : List CompletedPart}
    (hphase : u.phase = .resolved parts) (hlost : lostParts evs = []) :
    parts.map CompletedPart.partNumber = List.range' 1 (emitted evs) := by
  obtain ⟨rfl, hinflight⟩ := hinv.resolved parts hphase
  have hnumbers := hinv.numbers (by simp [hphase])
  have hqueue := (hinv.drained (by rw [hphase, UploadPhase.ended])).2
  simp only [partNumbers, hlost, hinflight, hphase, UploadPhase.held, hqueue, List.append_nil,
    List.map_nil] at hnumbers
  have hperm := (u.parts_perm.map CompletedPart.partNumber).trans hnumbers
  have hsorted : (u.parts.map CompletedPart.partNumber).Pairwise (· ≤ ·) := by
    rw [List.pairwise_map]
    refine (List.pairwise_mergeSort (fun a b c hab hbc => ?_) (fun a b => ?_) u.completed).imp ?_
    · simp only [decide_eq_true_eq] at hab hbc ⊢
      omega
    · simp only [Bool.or_eq_true, decide_eq_true_eq]
      omega
    · simp
  exact hperm.eq_of_pairwise' hsorted List.pairwise_le_range'

/-- A stage that has settled tells the truth exactly when no upload has failed, or one did while
the stage was waiting for it. -/
theorem runUploadStage_iff {chunkSize maxInFlight : Nat}
    (h : UploadRun (.new chunkSize maxInFlight, {}) evs (p, u)) (hfinal : u.phase.final = true) :
    UploadOutcome evs u ↔
      (∀ n waiting, .failed n waiting ∉ evs) ∨ ∃ n, .failed n true ∈ evs := by
  have hinv := h.inv
  constructor
  · intro ⟨_, hfailed⟩
    by_cases hnone : ∃ n waiting, .failed n waiting ∈ evs
    · right
      rw [← hinv.seen, hfailed hnone]
      rfl
    · left
      intro n waiting hmem
      exact hnone ⟨n, waiting, hmem⟩
  · rintro (hnone | hseen)
    · refine ⟨fun parts hphase => ⟨hinv.parts hphase ?_, ?_⟩, fun ⟨n, waiting, hmem⟩ => ?_⟩
      · unfold lostParts
        rw [List.filterMap_eq_nil_iff]
        intro ev hev
        cases ev with
        | failed n waiting => exact absurd hev (hnone n waiting)
        | _ => rfl
      · obtain ⟨rfl, -⟩ := hinv.resolved parts hphase
        exact fun part hpart => hinv.etags part (u.parts_perm.mem_iff.1 hpart)
      · exact absurd hmem (hnone n waiting)
    · have hrefused := hinv.seen.2 hseen
      have hrejected : u.phase = .rejected := by
        cases hphase : u.phase with
        | rejected => rfl
        | resolved parts => simp [hphase, UploadPhase.refused] at hrefused
        | _ => simp [hphase, UploadPhase.final] at hfinal
      exact ⟨fun parts hphase => by simp [hrejected] at hphase, fun _ => hrejected⟩

end

theorem UploadStage.parts_singleton {u : UploadStage} {part : CompletedPart}
    (h : u.completed = [part]) : u.parts = [part] := by
  rw [UploadStage.parts, h, List.mergeSort_singleton]

/-- The upload of the first chunk fails while the stage waits for the second. -/
theorem runUploadStage_hole :
    ∃ p u evs, UploadRun (.new chunkSizeBytes bufferChunksCount, {}) evs (p, u) ∧
      .failed 1 false ∈ evs ∧ u.phase = .resolved [⟨"etag", 2⟩] ∧ ¬ UploadOutcome evs u := by
  have h₁ := (@Run.refl _ _ UploadRunStep (.new chunkSizeBytes bufferChunksCount, {})).step
    (.emit [1] rfl rfl)
  have h₂ := h₁.step (.stage (.recv rfl rfl (by decide)))
  have h₃ := h₂.step (.stage (@UploadStep.failed _ _ _ [] [] rfl))
  have h₄ := (h₃.step (.emit [2] rfl rfl)).step .close
  have h₅ := h₄.step (.stage (.recv rfl rfl (by decide)))
  have h₆ := h₅.step (.stage (.recvEnd rfl rfl rfl))
  have h₇ := h₆.step (.stage (@UploadStep.uploaded _ _ _ "etag" [] [] rfl (by decide)))
  have h₈ := h₇.step (.stage (.joined rfl))
  refine ⟨_, _, _, h₈, by decide, ?_, fun hout => ?_⟩
  · exact congrArg UploadPhase.resolved (UploadStage.parts_singleton rfl)
  · have hrej := hout.2 ⟨1, false, by decide⟩
    cases hrej

/-- Both uploads succeed. -/
theorem runUploadStage_iff_two :
    ∃ p u evs, UploadRun (.new chunkSizeBytes bufferChunksCount, {}) evs (p, u) ∧
      UploadOutcome evs u := by
  have h₁ := (@Run.refl _ _ UploadRunStep (.new chunkSizeBytes bufferChunksCount, {})).step
    (.emit [1] rfl rfl)
  have h₂ := h₁.step (.stage (.recv rfl rfl (by decide)))
  have h₃ := h₂.step (.stage (@UploadStep.uploaded _ _ _ "a" [] [] rfl (by decide)))
  have h₄ := (h₃.step (.emit [2] rfl rfl)).step .close
  have h₅ := h₄.step (.stage (.recv rfl rfl (by decide)))
  have h₆ := h₅.step (.stage (.recvEnd rfl rfl rfl))
  have h₇ := h₆.step (.stage (@UploadStep.uploaded _ _ _ "b" [] [] rfl (by decide)))
  have h₈ := h₇.step (.stage (.joined rfl))
  exact ⟨_, _, _, h₈, (runUploadStage_iff h₈ rfl).2 (.inl (by simp))⟩

end S3Archive.SebstoTs
