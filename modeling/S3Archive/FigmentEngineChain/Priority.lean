import S3Archive.Base.Notify
import S3Archive.Base.Run
import S3Archive.FigmentEngineChain.RateLimit

/-!
# figment-engine-chain: two tiers of priority

`acquire` lets the calls of low priority wait while calls of high priority are pending.
What a task does between two `await`s is one `turn`, and `AcquireStep` interleaves the
turns of any number of tasks. `turn_keeps` is what a turn does to the counter and to the
other tasks' subscriptions; `acquire_two_tier` is the result about whole runs.
-/

namespace S3Archive.FigmentEngineChain

inductive Priority where
  | high
  | low
  deriving DecidableEq, Repr

/-- What the tasks share. -/
structure Shared (ν : Type) where
  limiter : RateLimiter
  highWaiters : Nat
  notify : ν

/-- Where `acquire` is: in one of its two `await`s, or it has returned. -/
inductive AcquirePhase (τ : Type) where
  /-- `notified().await`: a call of high priority is pending. -/
  | gated (t : τ)
  /-- `timeout(2 ms, notified()).await`: there was no token. -/
  | timed (t : τ)
  | granted

def AcquirePhase.isGranted {τ : Type} : AcquirePhase τ → Bool
  | granted => true
  | _ => false

/-- A call of `acquire` that has been polled. -/
structure Acquire (τ : Type) where
  prio : Priority
  phase : AcquirePhase τ

namespace Acquire

variable {τ : Type}

/-- A call of high priority that has not returned. -/
def pendingHigh (a : Acquire τ) : Bool := a.prio = .high && !a.phase.isGranted

end Acquire

variable {ν τ : Type} (sem : NotifySemantics ν τ)

/-- A wake-up of the task is pending. The timer of a timed wait always is one. -/
def Acquire.Woken (a : Acquire τ) (n : ν) : Prop :=
  match a.phase with
  | .gated t => sem.ready n t
  | .timed _ => True
  | .granted => False

/-- Up to the first `await` a call of high priority also counts itself. -/
def Shared.arrive (h : Shared ν) (prio : Priority) : Shared ν :=
  if prio = .high then { h with highWaiters := h.highWaiters + 1 } else h

/-- The body of the loop, up to the next `await` or the return. -/
def turn (nowMs : Nat) (prio : Priority) (h : Shared ν) : Shared ν × AcquirePhase τ :=
  if prio = .low ∧ 0 < h.highWaiters then
    let t := sem.notified h.notify
    ({ h with notify := sem.park h.notify t }, .gated t)
  else
    match h.limiter.tryTake nowMs with
    | (true, limiter) =>
      if prio = .high then
        ({ limiter, highWaiters := h.highWaiters - 1, notify := sem.notifyWaiters h.notify },
          .granted)
      else ({ h with limiter }, .granted)
    | (false, limiter) =>
      let t := sem.notified h.notify
      ({ h with limiter, notify := sem.park h.notify t }, .timed t)

structure AcquireState (ν τ : Type) where
  shared : Shared ν
  /-- All calls so far. -/
  tasks : List (Acquire τ)

def AcquireState.start (limiter : RateLimiter) : AcquireState ν τ :=
  ⟨⟨limiter, 0, sem.init⟩, []⟩

inductive AcquireEvent where
  /-- A turn of a task of that priority; has it returned with a token? -/
  | turned (prio : Priority) (granted : Bool)
  | throttled
  deriving DecidableEq, Repr

inductive AcquireStep : AcquireState ν τ → AcquireEvent → AcquireState ν τ → Prop
  | acquire {s : AcquireState ν τ} {prio : Priority} {nowMs : Nat} {shared : Shared ν}
      {phase : AcquirePhase τ}
      (hturn : turn sem nowMs prio (s.shared.arrive prio) = (shared, phase)) :
    AcquireStep s (.turned prio phase.isGranted) ⟨shared, s.tasks ++ [⟨prio, phase⟩]⟩
  | resume {s : AcquireState ν τ} {a : Acquire τ} {ts₁ ts₂ : List (Acquire τ)} {nowMs : Nat}
      {shared : Shared ν} {phase : AcquirePhase τ} (htasks : s.tasks = ts₁ ++ a :: ts₂)
      (hwoken : a.Woken sem s.shared.notify)
      (hturn : turn sem nowMs a.prio s.shared = (shared, phase)) :
    AcquireStep s (.turned a.prio phase.isGranted) ⟨shared, ts₁ ++ ⟨a.prio, phase⟩ :: ts₂⟩
  | onThrottle {s : AcquireState ν τ} {nowMs : Nat} :
    AcquireStep s .throttled
      { s with shared := { s.shared with limiter := s.shared.limiter.onThrottle nowMs } }

abbrev AcquireRun := Run (AcquireStep sem)

/-! ## One turn -/

/-- A task behind the gate has a low priority, and cannot miss the last notification. -/
def Acquire.GateOk (h : Shared ν) (a : Acquire τ) : Prop :=
  ∀ t, a.phase = .gated t →
    a.prio = .low ∧ Gate.Ok sem (h.highWaiters = 0) h.notify (.parked t)

/-- One for a call of high priority that has not returned. -/
def Acquire.weight (a : Acquire τ) : Nat := if a.pendingHigh then 1 else 0

/-- What a turn leads to; `others` are the other tasks. -/
structure TurnKeeps (others : List (Acquire τ)) (h : Shared ν) (prio : Priority)
    (h' : Shared ν) (phase : AcquirePhase τ) : Prop where
  counter : h'.highWaiters =
    others.countP (·.pendingHigh) + (Acquire.weight ⟨prio, phase⟩)
  gates : ∀ a ∈ others, a.GateOk sem h'
  gate : Acquire.GateOk sem h' ⟨prio, phase⟩
  low : prio = .low → phase.isGranted = true → h.highWaiters = 0
  high : prio = .high → phase.isGranted = true →
    ∀ a ∈ others, ∀ t, a.phase = .gated t → sem.ready h'.notify t

variable {sem} {h : Shared ν} {a : Acquire τ} {others : List (Acquire τ)}

theorem Acquire.GateOk.park (hok : a.GateOk sem h) (u : τ) (limiter : RateLimiter) :
    a.GateOk sem ⟨limiter, h.highWaiters, sem.park h.notify u⟩ := by
  intro t ht
  obtain ⟨hlow, hcreated, hready⟩ := hok t ht
  exact ⟨hlow, sem.created_park _ _ _ hcreated, fun hzero => sem.ready_park _ _ _ (hready hzero)⟩

theorem Acquire.GateOk.notifyWaiters (hok : a.GateOk sem h) (limiter : RateLimiter) (k : Nat) :
    a.GateOk sem ⟨limiter, k, sem.notifyWaiters h.notify⟩ := by
  intro t ht
  obtain ⟨hlow, hgate⟩ := hok t ht
  exact ⟨hlow, hgate.notifyWaiters _⟩

/-- A new call of high priority only shuts the gate. -/
theorem Acquire.GateOk.arrive (hok : a.GateOk sem h) (prio : Priority) :
    a.GateOk sem (h.arrive prio) := by
  intro t ht
  obtain ⟨hlow, hcreated, hready⟩ := hok t ht
  cases prio with
  | high => exact ⟨hlow, hcreated, fun hzero => absurd hzero (Nat.succ_ne_zero _)⟩
  | low => exact ⟨hlow, hcreated, hready⟩

theorem Acquire.gateOk_of_not_gated (hgated : ∀ t, a.phase ≠ .gated t) : a.GateOk sem h :=
  fun t ht => absurd ht (hgated t)

/-- A turn counts its own call as long as it has a high priority and has not returned,
and leaves no other task without a wake-up that it needs. -/
theorem turn_keeps {prio : Priority} {nowMs : Nat} {h' : Shared ν} {phase : AcquirePhase τ}
    (hturn : turn sem nowMs prio h = (h', phase))
    (hcounter : h.highWaiters = others.countP (·.pendingHigh) + if prio = .high then 1 else 0)
    (hgates : ∀ a ∈ others, a.GateOk sem h) : TurnKeeps sem others h prio h' phase := by
  unfold turn at hturn
  by_cases hgate : prio = .low ∧ 0 < h.highWaiters
  · rw [if_pos hgate] at hturn
    cases hturn
    obtain ⟨rfl, hpos⟩ := hgate
    refine ⟨hcounter, fun a ha => (hgates a ha).park _ _, ?_, fun _ h => (by cases h),
      fun _ h => (by cases h)⟩
    intro t ht
    cases ht
    exact ⟨rfl, sem.created_park _ _ _ (sem.created_notified _),
      fun hzero => absurd hzero (Nat.ne_of_gt hpos)⟩
  · rw [if_neg hgate] at hturn
    generalize h.limiter.tryTake nowMs = taken at hturn
    obtain ⟨taken, limiter⟩ := taken
    cases taken with
    | false =>
      cases hturn
      refine ⟨?_, fun a ha => (hgates a ha).park _ _, ?_, fun _ h => (by cases h),
        fun _ h => (by cases h)⟩
      · cases prio <;> exact hcounter
      · exact Acquire.gateOk_of_not_gated fun t ht => by cases ht
    | true =>
      cases prio with
      | high =>
        cases hturn
        refine ⟨?_, fun a ha => (hgates a ha).notifyWaiters _ _, ?_, fun h => (by cases h), ?_⟩
        · show h.highWaiters - 1 = _ + 0
          rw [hcounter]
          rfl
        · exact Acquire.gateOk_of_not_gated fun t ht => by cases ht
        · intro _ _ a ha t ht
          exact sem.ready_notifyWaiters _ _ (hgates a ha t ht).2.1
      | low =>
        cases hturn
        refine ⟨hcounter, fun a ha => hgates a ha, ?_, fun _ _ => ?_, fun h => (by cases h)⟩
        · exact Acquire.gateOk_of_not_gated fun t ht => by cases ht
        · exact Nat.eq_zero_of_not_pos fun hpos => hgate ⟨rfl, hpos⟩

/-! ## Runs -/

variable (sem) in
/-- The counter is right, and the low priorities behind the gate cannot be forgotten. -/
structure AcquireInv (s : AcquireState ν τ) : Prop where
  counter : s.shared.highWaiters = s.tasks.countP (·.pendingHigh)
  gates : ∀ a ∈ s.tasks, a.GateOk sem s.shared

variable {s s' : AcquireState ν τ} {ev : AcquireEvent} {evs : List AcquireEvent}

variable (sem) in
/-- What a step that grants a token says of the others. -/
structure GrantsInTurn (s : AcquireState ν τ) (ev : AcquireEvent) (s' : AcquireState ν τ) :
    Prop where
  low : ev = .turned .low true → ∀ a ∈ s.tasks, a.pendingHigh = false
  high : ev = .turned .high true →
    ∀ a ∈ s'.tasks, a.phase.isGranted = false → a.Woken sem s'.shared.notify

theorem pendingHigh_of_zero {ts : List (Acquire τ)} (h : ts.countP (·.pendingHigh) = 0) :
    ∀ a ∈ ts, a.pendingHigh = false := fun a ha =>
  Bool.eq_false_of_not_eq_true (List.countP_eq_zero.1 h a ha)

/-- A task that has not returned is woken if its subscription is, in case it has one. -/
theorem Acquire.woken_of {n : ν} (hwaits : a.phase.isGranted = false)
    (hready : ∀ t, a.phase = .gated t → sem.ready n t) : a.Woken sem n := by
  unfold Acquire.Woken
  cases hphase : a.phase with
  | gated t => exact hready t hphase
  | timed t => trivial
  | granted => rw [hphase] at hwaits; cases hwaits

theorem Acquire.Woken.waits {n : ν} (h : a.Woken sem n) : a.phase.isGranted = false := by
  unfold Acquire.Woken at h
  cases hphase : a.phase with
  | gated t => rfl
  | timed t => rfl
  | granted => rw [hphase] at h; cases h

theorem forall_mem_insert {α : Type} {p : α → Prop} {x : α} {xs ys : List α} :
    (∀ y ∈ xs ++ x :: ys, p y) ↔ p x ∧ ∀ y ∈ xs ++ ys, p y := by
  rw [List.forall_mem_append, List.forall_mem_cons, List.forall_mem_append]
  exact and_left_comm

section

variable {prio : Priority} {h' : Shared ν} {phase : AcquirePhase τ}

/-- With low priority a token is granted only if nobody of high priority is pending. -/
theorem TurnKeeps.others_low (hkeeps : TurnKeeps sem others h prio h' phase)
    (hcounter : h.highWaiters = others.countP (·.pendingHigh) + if prio = .high then 1 else 0)
    (hlow : prio = .low) (hgranted : phase.isGranted = true) :
    ∀ a ∈ others, a.pendingHigh = false := by
  have hzero := hkeeps.low hlow hgranted
  exact pendingHigh_of_zero (by omega)

/-- With high priority the return wakes everybody. -/
theorem TurnKeeps.others_woken (hkeeps : TurnKeeps sem others h prio h' phase)
    (hhigh : prio = .high) (hgranted : phase.isGranted = true) :
    ∀ a ∈ others, a.phase.isGranted = false → a.Woken sem h'.notify := fun a ha hwaits =>
  Acquire.woken_of hwaits (hkeeps.high hhigh hgranted a ha)

end

theorem AcquireStep.keeps (h : AcquireStep sem s ev s') (hinv : AcquireInv sem s) :
    AcquireInv sem s' ∧ GrantsInTurn sem s ev s' := by
  cases h with
  | @acquire prio nowMs shared phase hturn =>
    have hcounter : (s.shared.arrive prio).highWaiters =
        s.tasks.countP (·.pendingHigh) + if prio = .high then 1 else 0 := by
      rw [← hinv.counter]
      cases prio <;> rfl
    have hkeeps := turn_keeps hturn hcounter fun a ha => (hinv.gates a ha).arrive prio
    refine ⟨⟨?_, ?_⟩, ?_, ?_⟩
    · rw [List.countP_append, List.countP_singleton]
      exact hkeeps.counter
    · exact List.forall_mem_append.2 ⟨hkeeps.gates, List.forall_mem_singleton.2 hkeeps.gate⟩
    · intro hev
      obtain ⟨hlow, hgranted⟩ := AcquireEvent.turned.inj hev
      exact hkeeps.others_low hcounter hlow hgranted
    · intro hev
      obtain ⟨hhigh, hgranted⟩ := AcquireEvent.turned.inj hev
      exact List.forall_mem_append.2 ⟨hkeeps.others_woken hhigh hgranted,
        List.forall_mem_singleton.2 fun hwaits => absurd hgranted (by simp [hwaits])⟩
  | @resume a ts₁ ts₂ nowMs shared phase htasks hwoken hturn =>
    have hwaits : a.phase.isGranted = false := hwoken.waits
    have hcounter : s.shared.highWaiters =
        (ts₁ ++ ts₂).countP (·.pendingHigh) + if a.prio = .high then 1 else 0 := by
      have hself : a.pendingHigh = decide (a.prio = .high) := by simp [Acquire.pendingHigh, hwaits]
      rw [hinv.counter, htasks, List.countP_append, List.countP_cons, List.countP_append, hself]
      simp only [decide_eq_true_eq]
      omega
    have hgates := hinv.gates
    rw [htasks, forall_mem_insert] at hgates
    have hkeeps := turn_keeps hturn hcounter hgates.2
    refine ⟨⟨?_, forall_mem_insert.2 ⟨hkeeps.gate, hkeeps.gates⟩⟩, ?_, ?_⟩
    · have hself := hkeeps.counter
      rw [List.countP_append] at hself
      rw [List.countP_append, List.countP_cons]
      show shared.highWaiters = _ + (_ + Acquire.weight ⟨a.prio, phase⟩)
      omega
    · intro hev
      obtain ⟨hlow, hgranted⟩ := AcquireEvent.turned.inj hev
      rw [htasks, forall_mem_insert]
      exact ⟨by simp [Acquire.pendingHigh, hlow], hkeeps.others_low hcounter hlow hgranted⟩
    · intro hev
      obtain ⟨hhigh, hgranted⟩ := AcquireEvent.turned.inj hev
      exact forall_mem_insert.2 ⟨fun hwaits => absurd hgranted (by simp [hwaits]),
        hkeeps.others_woken hhigh hgranted⟩
  | onThrottle => exact ⟨⟨hinv.counter, hinv.gates⟩, fun h => (by cases h), fun h => (by cases h)⟩

theorem AcquireRun.inv {limiter : RateLimiter} (h : AcquireRun sem (.start sem limiter) evs s) :
    AcquireInv sem s :=
  h.invariant ⟨rfl, fun _ ha => absurd ha List.not_mem_nil⟩ fun _ _ _ hinv hstep =>
    (hstep.keeps hinv).1

/-- The counter is the number of pending calls of high priority; a call of low priority is
granted only when there is none; a task that waits without a pending wake-up has such a
call beside it; and that call wakes everybody when it returns. -/
theorem acquire_two_tier {limiter : RateLimiter} (h : AcquireRun sem (.start sem limiter) evs s) :
    s.shared.highWaiters = s.tasks.countP (·.pendingHigh) ∧
    (∀ s', AcquireStep sem s (.turned .low true) s' → ∀ a ∈ s.tasks, a.pendingHigh = false) ∧
    (∀ a ∈ s.tasks, a.phase.isGranted = false → ¬ a.Woken sem s.shared.notify →
      a.prio = .low ∧ ∃ b ∈ s.tasks, b.pendingHigh = true) ∧
    ∀ s', AcquireStep sem s (.turned .high true) s' →
      ∀ a ∈ s'.tasks, a.phase.isGranted = false → a.Woken sem s'.shared.notify := by
  have hinv := h.inv
  refine ⟨hinv.counter, fun s' hstep => (hstep.keeps hinv).2.low rfl, ?_,
    fun s' hstep => (hstep.keeps hinv).2.high rfl⟩
  intro a ha hwaits hasleep
  cases hphase : a.phase with
  | gated t =>
    obtain ⟨hlow, hgate⟩ := hinv.gates a ha t hphase
    have hcount : s.shared.highWaiters ≠ 0 := fun hzero =>
      hasleep (Acquire.woken_of hwaits fun u hu => by
        rw [hphase] at hu
        cases hu
        exact hgate.ready_of_parked hzero)
    rw [hinv.counter] at hcount
    obtain ⟨b, hb, hpending⟩ := List.countP_pos_iff.1 (Nat.pos_of_ne_zero hcount)
    exact ⟨hlow, b, hb, hpending⟩
  | timed t => exact absurd (by unfold Acquire.Woken; rw [hphase]; trivial) hasleep
  | granted => rw [hphase] at hwaits; cases hwaits

/-- A call of high priority finds no token, and one of low priority waits for it. -/
theorem acquire_two_tier_gated :
    ∃ s, AcquireRun NotifySemantics.counter
      (.start NotifySemantics.counter { RateLimiter.new with tokensMilli := 0 })
      [.turned .high false, .turned .low false] s ∧ ∃ b ∈ s.tasks, b.pendingHigh = true := by
  have hrun : AcquireRun NotifySemantics.counter
      (.start NotifySemantics.counter { RateLimiter.new with tokensMilli := 0 })
      [.turned .high false, .turned .low false]
      ⟨⟨{ RateLimiter.new with tokensMilli := 0 }, 1, 0⟩,
        [⟨.high, .timed 0⟩, ⟨.low, .gated 0⟩]⟩ :=
    .step (.step (.refl _) (@AcquireStep.acquire _ _ _ _ .high 0 _ (.timed 0) rfl))
      (@AcquireStep.acquire _ _ _ _ .low 0 _ (.gated 0) rfl)
  refine ⟨_, hrun, ((acquire_two_tier hrun).2.2.1 ⟨.low, .gated 0⟩ ?_ rfl ?_).2⟩
  · exact List.mem_cons_of_mem _ List.mem_cons_self
  · exact Nat.lt_irrefl 0

end S3Archive.FigmentEngineChain
