import Mathlib.Data.Rat.Floor
import Mathlib.Tactic.NormNum
import S3Archive.Base.TokenBucket

/-!
# figment-engine-chain: the rate limiter

`RateLimiter` is the governor of the issue rate: a token bucket whose refill rate
is stepped down by throttle reports and up again after quiet intervals. Its
floating-point numbers are rationals, and `tryTake` and `onThrottle` are given
the milliseconds since the start. `steps` is a run of calls at given times.
-/

namespace S3Archive.FigmentEngineChain

/-! ## Constants -/

/-- `START_RATE`, in tokens per second. -/
def startRate : ℚ := 1800

def ceilRate : ℚ := 3200

def floorRate : ℚ := 200

/-- `STEP_DOWN`: the additive decrease of one throttle step. -/
def stepDown : ℚ := 100

/-- `DOWN_WINDOW`, in milliseconds. -/
def downWindow : Nat := 100

def stepUp : ℚ := 150

/-- `RECOVER_INTERVAL`, in milliseconds. -/
def recoverInterval : Nat := 500

/-- `MAX_BURST`, in tokens. -/
def maxBurst : ℚ := 4

/-! ## The limiter -/

structure RateLimiter where
  rate : ℚ
  /-- Available tokens, in thousandths. -/
  tokensMilli : Nat
  lastRefillMs : Nat
  lastDownMs : Nat
  lastUpMs : Nat
  lastThrottleMs : Nat
  acquires : Nat
  throttles : Nat
  downSteps : Nat
  upSteps : Nat
  minRateMilli : Nat
  deriving DecidableEq, Repr

namespace RateLimiter

def new : RateLimiter where
  rate := startRate
  tokensMilli := ⌊maxBurst * 1000⌋₊
  lastRefillMs := 0
  lastDownMs := 0
  lastUpMs := 0
  lastThrottleMs := 0
  acquires := 0
  throttles := 0
  downSteps := 0
  upSteps := 0
  minRateMilli := ⌊startRate * 1000⌋₊

/-- `f64::clamp`. -/
def clamp (r lo hi : ℚ) : ℚ := if r < lo then lo else if hi < r then hi else r

def setRate (s : RateLimiter) (r : ℚ) : RateLimiter :=
  let r := clamp r floorRate ceilRate
  { s with rate := r, minRateMilli := min s.minRateMilli ⌊r * 1000⌋₊ }

/-- The first half of `refill`: tokens for the time since the last refill. -/
def addTokens (s : RateLimiter) (nowMs : Nat) : RateLimiter :=
  let last := s.lastRefillMs
  let s := { s with lastRefillMs := nowMs }
  if nowMs > last then
    let elapsedS : ℚ := (nowMs - last : Nat) / 1000
    let add := elapsedS * s.rate * 1000
    { s with tokensMilli := min ⌊s.tokensMilli + add⌋₊ ⌊maxBurst * 1000⌋₊ }
  else s

/-- The second half of `refill`: the additive increase. -/
def recover (s : RateLimiter) (nowMs : Nat) : RateLimiter :=
  if nowMs - s.lastUpMs ≥ recoverInterval ∧ nowMs - s.lastThrottleMs ≥ recoverInterval then
    let s := { s with lastUpMs := nowMs }
    if s.rate < ceilRate then { s.setRate (s.rate + stepUp) with upSteps := s.upSteps + 1 } else s
  else s

def refill (s : RateLimiter) (nowMs : Nat) : RateLimiter := (s.addTokens nowMs).recover nowMs

def tryTake (s : RateLimiter) (nowMs : Nat) : Bool × RateLimiter :=
  let s := s.refill nowMs
  if s.tokensMilli < 1000 then (false, s)
  else (true, { s with tokensMilli := s.tokensMilli - 1000, acquires := s.acquires + 1 })

def onThrottle (s : RateLimiter) (nowMs : Nat) : RateLimiter :=
  let s := { s with throttles := s.throttles + 1, lastThrottleMs := nowMs }
  if nowMs - s.lastDownMs ≥ downWindow then
    let s := { s with lastDownMs := nowMs }
    { s.setRate (s.rate - stepDown) with downSteps := s.downSteps + 1 }
  else s

end RateLimiter

/-! ## Runs -/

inductive Call where
  | tryTake
  | onThrottle
  deriving DecidableEq, Repr

/-- A call with the states before and after it. -/
structure CallStep where
  nowMs : Nat
  call : Call
  pre : RateLimiter
  post : RateLimiter
  granted : Bool

namespace CallStep

/-- A down-step was applied. -/
def Down (x : CallStep) : Prop := x.post.downSteps ≠ x.pre.downSteps

/-- An up-step was applied. -/
def Up (x : CallStep) : Prop := x.post.upSteps ≠ x.pre.upSteps

end CallStep

namespace RateLimiter

def call (s : RateLimiter) (nowMs : Nat) : Call → Bool × RateLimiter
  | .tryTake => s.tryTake nowMs
  | .onThrottle => (false, s.onThrottle nowMs)

/-- The calls at the given times, one after the other. -/
def steps (s : RateLimiter) : List (Nat × Call) → List CallStep
  | [] => []
  | (nowMs, c) :: calls =>
    let r := s.call nowMs c
    ⟨nowMs, c, s, r.2, r.1⟩ :: r.2.steps calls

/-! ## What a call does -/

theorem clamp_bounds (r : ℚ) : floorRate ≤ clamp r floorRate ceilRate ∧
    clamp r floorRate ceilRate ≤ ceilRate := by
  have hle : floorRate ≤ ceilRate := by unfold floorRate ceilRate; norm_num
  unfold clamp
  split_ifs with hlo hhi
  · exact ⟨le_refl _, hle⟩
  · exact ⟨hle, le_refl _⟩
  · exact ⟨not_lt.1 hlo, not_lt.1 hhi⟩

/-- What every state satisfies. -/
structure Good (s : RateLimiter) : Prop where
  floor_le : floorRate ≤ s.rate
  le_ceil : s.rate ≤ ceilRate
  tokens_le : s.tokensMilli ≤ 4000

theorem maxBurst_milli : ⌊maxBurst * 1000⌋₊ = 4000 := by
  rw [show maxBurst * 1000 = ((4000 : Nat) : ℚ) by unfold maxBurst; norm_num, Nat.floor_natCast]

theorem good_new : new.Good := by
  refine ⟨?_, ?_, maxBurst_milli.le⟩
  · show floorRate ≤ startRate
    unfold floorRate startRate
    norm_num
  · show startRate ≤ ceilRate
    unfold ceilRate startRate
    norm_num

theorem Good.setRate {s : RateLimiter} (hs : s.Good) (r : ℚ) : (s.setRate r).Good :=
  ⟨(clamp_bounds r).1, (clamp_bounds r).2, hs.tokens_le⟩

/-- Tokens are added at the current rate, up to the burst. -/
theorem addTokens_spec {s : RateLimiter} (hs : s.Good) {nowMs : Nat}
    (hnow : s.lastRefillMs ≤ nowMs) :
    ∃ t : Nat, s.addTokens nowMs = { s with lastRefillMs := nowMs, tokensMilli := t } ∧ t ≤ 4000 ∧
      (t : ℚ) ≤ s.tokensMilli + ceilRate * (nowMs - s.lastRefillMs) := by
  unfold addTokens
  by_cases hlt : nowMs > s.lastRefillMs
  · have hcast : ((nowMs - s.lastRefillMs : Nat) : ℚ) = nowMs - s.lastRefillMs :=
      Nat.cast_sub hnow
    have helapsed : (0 : ℚ) ≤ nowMs - s.lastRefillMs := by
      rw [← hcast]
      exact Nat.cast_nonneg _
    have hrate : (0 : ℚ) ≤ s.rate := by
      have := hs.floor_le
      unfold floorRate at this
      linarith
    have hadd : ((nowMs - s.lastRefillMs : Nat) : ℚ) / 1000 * s.rate * 1000 =
        s.rate * (nowMs - s.lastRefillMs) := by
      rw [hcast]
      ring
    have hnonneg : (0 : ℚ) ≤ s.tokensMilli + s.rate * (nowMs - s.lastRefillMs) :=
      add_nonneg (Nat.cast_nonneg _) (mul_nonneg hrate helapsed)
    refine ⟨_, if_pos hlt, (min_le_right _ _).trans maxBurst_milli.le, ?_⟩
    rw [hadd]
    calc ((min ⌊(s.tokensMilli : ℚ) + s.rate * (nowMs - s.lastRefillMs)⌋₊
            ⌊maxBurst * 1000⌋₊ : Nat) : ℚ)
        ≤ (⌊(s.tokensMilli : ℚ) + s.rate * (nowMs - s.lastRefillMs)⌋₊ : Nat) :=
          Nat.cast_le.2 (min_le_left _ _)
      _ ≤ s.tokensMilli + s.rate * (nowMs - s.lastRefillMs) := Nat.floor_le hnonneg
      _ ≤ s.tokensMilli + ceilRate * (nowMs - s.lastRefillMs) := by
          have := mul_le_mul_of_nonneg_right hs.le_ceil helapsed
          linarith
  · obtain rfl : s.lastRefillMs = nowMs := by omega
    refine ⟨s.tokensMilli, if_neg hlt, hs.tokens_le, ?_⟩
    rw [sub_self, mul_zero, add_zero]

/-- The rate is stepped up only after quiet intervals. -/
theorem recover_spec (s : RateLimiter) (nowMs : Nat) :
    s.recover nowMs = s ∨
    (s.lastUpMs + recoverInterval ≤ nowMs ∧ s.lastThrottleMs + recoverInterval ≤ nowMs ∧
      (s.recover nowMs = { s with lastUpMs := nowMs } ∨
        s.recover nowMs = { s.setRate (s.rate + stepUp) with
          lastUpMs := nowMs, upSteps := s.upSteps + 1 })) := by
  have hinterval : 0 < recoverInterval := by decide
  unfold recover
  by_cases hquiet : nowMs - s.lastUpMs ≥ recoverInterval ∧
      nowMs - s.lastThrottleMs ≥ recoverInterval
  · rw [if_pos hquiet]
    refine .inr ⟨by omega, by omega, ?_⟩
    by_cases hceil : s.rate < ceilRate
    · exact .inr (if_pos hceil)
    · exact .inl (if_neg hceil)
  · rw [if_neg hquiet]
    exact .inl rfl

/-- A report steps the rate down at most once in a window. -/
theorem onThrottle_spec (s : RateLimiter) (nowMs : Nat) :
    s.onThrottle nowMs = { s with throttles := s.throttles + 1, lastThrottleMs := nowMs } ∨
    (s.lastDownMs + downWindow ≤ nowMs ∧
      s.onThrottle nowMs = { s.setRate (s.rate - stepDown) with
        throttles := s.throttles + 1
        lastThrottleMs := nowMs
        lastDownMs := nowMs
        downSteps := s.downSteps + 1 }) := by
  have hwindow : 0 < downWindow := by decide
  unfold onThrottle
  by_cases hquiet : nowMs - s.lastDownMs ≥ downWindow
  · exact .inr ⟨by omega, if_pos hquiet⟩
  · exact .inl (if_neg hquiet)

/-- What `refill` does to the fields that later calls depend on. -/
structure Refilled (s : RateLimiter) (nowMs : Nat) (s' : RateLimiter) : Prop where
  good : s'.Good
  lastRefill : s'.lastRefillMs = nowMs
  tokens : (s'.tokensMilli : ℚ) ≤ s.tokensMilli + ceilRate * (nowMs - s.lastRefillMs)
  lastDown : s'.lastDownMs = s.lastDownMs
  downSteps : s'.downSteps = s.downSteps
  lastThrottle : s'.lastThrottleMs = s.lastThrottleMs
  /-- The time of an up-step is kept, and it comes after a quiet interval. -/
  up : s'.upSteps = s.upSteps ∧ s'.lastUpMs = s.lastUpMs ∨
    s.lastUpMs + recoverInterval ≤ nowMs ∧ s.lastThrottleMs + recoverInterval ≤ nowMs ∧
      s'.lastUpMs = nowMs

theorem refilled_refill {s : RateLimiter} (hs : s.Good) {nowMs : Nat}
    (hnow : s.lastRefillMs ≤ nowMs) : Refilled s nowMs (s.refill nowMs) := by
  obtain ⟨t, hadd, hcap, htokens⟩ := addTokens_spec hs hnow
  unfold refill
  rw [hadd]
  generalize hs₁ : ({ s with lastRefillMs := nowMs, tokensMilli := t } : RateLimiter) = s₁
  have hgood : s₁.Good := by
    rw [← hs₁]
    exact ⟨hs.floor_le, hs.le_ceil, hcap⟩
  have hspec := recover_spec s₁ nowMs
  subst hs₁
  rcases hspec with heq | ⟨hup, hthrottle, heq | heq⟩
  · rw [heq]
    exact ⟨hgood, rfl, htokens, rfl, rfl, rfl, .inl ⟨rfl, rfl⟩⟩
  · rw [heq]
    exact ⟨⟨hs.floor_le, hs.le_ceil, hcap⟩, rfl, htokens, rfl, rfl, rfl, .inr ⟨hup, hthrottle, rfl⟩⟩
  · rw [heq]
    exact ⟨⟨(clamp_bounds _).1, (clamp_bounds _).2, hcap⟩, rfl, htokens, rfl, rfl, rfl,
      .inr ⟨hup, hthrottle, rfl⟩⟩

/-- What the later calls depend on after a call. -/
structure Called (s : RateLimiter) (nowMs : Nat) (c : Call) (s' : RateLimiter) : Prop where
  good : s'.Good
  lastRefill : s'.lastRefillMs = s.lastRefillMs ∨ s'.lastRefillMs = nowMs
  lastThrottle : s'.lastThrottleMs = if c = .onThrottle then nowMs else s.lastThrottleMs
  down : s'.downSteps = s.downSteps ∧ s'.lastDownMs = s.lastDownMs ∨
    s.lastDownMs + downWindow ≤ nowMs ∧ s'.lastDownMs = nowMs
  up : s'.upSteps = s.upSteps ∧ s'.lastUpMs = s.lastUpMs ∨
    s.lastUpMs + recoverInterval ≤ nowMs ∧ s.lastThrottleMs + recoverInterval ≤ nowMs ∧
      s'.lastUpMs = nowMs

/-- A grant takes a thousand of the refilled tokens, a refusal none. -/
theorem tryTake_spec (s : RateLimiter) (nowMs : Nat) :
    (s.tryTake nowMs).2 = { s.refill nowMs with
      tokensMilli := (s.refill nowMs).tokensMilli - if (s.tryTake nowMs).1 then 1000 else 0
      acquires := (s.refill nowMs).acquires + if (s.tryTake nowMs).1 then 1 else 0 } ∧
    ((s.tryTake nowMs).1 = true → 1000 ≤ (s.refill nowMs).tokensMilli) := by
  unfold tryTake
  dsimp only
  by_cases hlow : (s.refill nowMs).tokensMilli < 1000
  · rw [if_pos hlow]
    exact ⟨rfl, nofun⟩
  · rw [if_neg hlow]
    exact ⟨rfl, fun _ => not_lt.1 hlow⟩

theorem called_call {s : RateLimiter} (hs : s.Good) {nowMs : Nat} (hnow : s.lastRefillMs ≤ nowMs)
    (c : Call) : Called s nowMs c (s.call nowMs c).2 := by
  cases c with
  | tryTake =>
    have hrefill := refilled_refill hs hnow
    show Called s nowMs .tryTake (s.tryTake nowMs).2
    rw [(tryTake_spec s nowMs).1]
    refine ⟨⟨hrefill.good.floor_le, hrefill.good.le_ceil, ?_⟩, .inr hrefill.lastRefill,
      hrefill.lastThrottle, .inl ⟨hrefill.downSteps, hrefill.lastDown⟩, hrefill.up⟩
    exact (Nat.sub_le _ _).trans hrefill.good.tokens_le
  | onThrottle =>
    show Called s nowMs .onThrottle (s.onThrottle nowMs)
    rcases onThrottle_spec s nowMs with heq | ⟨hdown, heq⟩
    · rw [heq]
      exact ⟨⟨hs.floor_le, hs.le_ceil, hs.tokens_le⟩, .inl rfl, rfl, .inl ⟨rfl, rfl⟩,
        .inl ⟨rfl, rfl⟩⟩
    · rw [heq]
      have hgood := hs.setRate (s.rate - stepDown)
      exact ⟨⟨hgood.floor_le, hgood.le_ceil, hgood.tokens_le⟩, .inl rfl, rfl,
        .inr ⟨hdown, rfl⟩, .inl ⟨rfl, rfl⟩⟩

/-! ## Runs keep the bounds -/

/-- The calls come after the state, in the order of the clock. -/
structure Ready (s : RateLimiter) (calls : List (Nat × Call)) : Prop where
  good : s.Good
  later : ∀ c ∈ calls, s.lastRefillMs ≤ c.1 ∧ s.lastThrottleMs ≤ c.1
  clock : calls.Pairwise fun a b => a.1 ≤ b.1

theorem ready_new {calls : List (Nat × Call)} (hclock : calls.Pairwise fun a b => a.1 ≤ b.1) :
    new.Ready calls :=
  ⟨good_new, fun _ _ => ⟨Nat.zero_le _, Nat.zero_le _⟩, hclock⟩

section

variable {s : RateLimiter} {nowMs : Nat} {c : Call} {calls : List (Nat × Call)}

theorem Ready.called (h : s.Ready ((nowMs, c) :: calls)) : Called s nowMs c (s.call nowMs c).2 :=
  called_call h.good (h.later _ List.mem_cons_self).1 c

theorem Ready.tail (h : s.Ready ((nowMs, c) :: calls)) : (s.call nowMs c).2.Ready calls := by
  have hcalled := h.called
  obtain ⟨hnow, hclock⟩ := List.pairwise_cons.1 h.clock
  refine ⟨hcalled.good, fun c' hc' => ⟨?_, ?_⟩, hclock⟩
  · rcases hcalled.lastRefill with heq | heq
    · rw [heq]
      exact (h.later c' (List.mem_cons_of_mem _ hc')).1
    · rw [heq]
      exact hnow c' hc'
  · rw [hcalled.lastThrottle]
    split
    · exact hnow c' hc'
    · exact (h.later c' (List.mem_cons_of_mem _ hc')).2

theorem good_of_mem_steps (h : s.Ready calls) :
    ∀ x ∈ s.steps calls, x.pre.Good ∧ x.post.Good := by
  induction calls generalizing s with
  | nil => nofun
  | cons call calls ih =>
    intro x hx
    rcases List.mem_cons.1 hx with rfl | hx
    · exact ⟨h.good, h.called.good⟩
    · exact ih h.tail x hx

/-- The next down-step is a window after the last one. -/
theorem down_after (h : s.Ready calls) :
    ∀ y ∈ s.steps calls, y.Down → s.lastDownMs + downWindow ≤ y.nowMs := by
  induction calls generalizing s with
  | nil => nofun
  | cons call calls ih =>
    have hcalled := h.called
    intro y hy hdown
    rcases List.mem_cons.1 hy with rfl | hy
    · rcases hcalled.down with ⟨heq, _⟩ | ⟨hle, _⟩
      · exact absurd heq hdown
      · exact hle
    · have hrec := ih h.tail y hy hdown
      rcases hcalled.down with ⟨_, heq⟩ | ⟨hle, heq⟩ <;> omega

theorem pairwise_down (h : s.Ready calls) : (s.steps calls).Pairwise fun x y =>
    x.Down → y.Down → x.nowMs + downWindow ≤ y.nowMs := by
  induction calls generalizing s with
  | nil => exact .nil
  | cons call calls ih =>
    refine List.pairwise_cons.2 ⟨fun y hy hx hy' => ?_, ih h.tail⟩
    have hnext := down_after h.tail y hy hy'
    rcases h.called.down with ⟨heq, _⟩ | ⟨_, heq⟩
    · exact absurd heq hx
    · rwa [heq] at hnext

/-- The next up-step is an interval after the last one and after the last report. -/
theorem up_after (h : s.Ready calls) : ∀ y ∈ s.steps calls, y.Up →
    s.lastUpMs + recoverInterval ≤ y.nowMs ∧ s.lastThrottleMs + recoverInterval ≤ y.nowMs := by
  induction calls generalizing s with
  | nil => nofun
  | cons call calls ih =>
    have hcalled := h.called
    intro y hy hup
    rcases List.mem_cons.1 hy with rfl | hy
    · rcases hcalled.up with ⟨heq, _⟩ | ⟨hle, hle', _⟩
      · exact absurd heq hup
      · exact ⟨hle, hle'⟩
    · obtain ⟨hrec, hrec'⟩ := ih h.tail y hy hup
      have hthrottle := (h.later _ List.mem_cons_self).2
      rw [hcalled.lastThrottle] at hrec'
      constructor
      · rcases hcalled.up with ⟨_, heq⟩ | ⟨hle, _, heq⟩ <;> omega
      · split at hrec' <;> omega

theorem pairwise_up (h : s.Ready calls) : (s.steps calls).Pairwise fun x y =>
    x.Up ∨ x.call = .onThrottle → y.Up → x.nowMs + recoverInterval ≤ y.nowMs := by
  induction calls generalizing s with
  | nil => exact .nil
  | cons call calls ih =>
    refine List.pairwise_cons.2 ⟨fun y hy hx hy' => ?_, ih h.tail⟩
    obtain ⟨hnext, hnext'⟩ := up_after h.tail y hy hy'
    rcases hx with hx | hx
    · rcases h.called.up with ⟨heq, _⟩ | ⟨_, _, heq⟩
      · exact absurd heq hx
      · rwa [heq] at hnext
    · rw [h.called.lastThrottle, if_pos hx] at hnext'
      exact hnext'

end

/-! ## The window bound -/

/-- The times of the takes, with the thousandths taken. -/
def takes (xs : List CallStep) : List (ℚ × ℚ) :=
  xs.filterMap fun x =>
    match x.call with
    | .tryTake => some (x.nowMs, if x.granted then 1000 else 0)
    | .onThrottle => none

/-- The limiter is a token bucket that is filled at the ceiling rate at most. -/
theorem metered_steps {s : RateLimiter} {calls : List (Nat × Call)} (h : s.Ready calls) :
    Metered ceilRate 4000 s.lastRefillMs s.tokensMilli (takes (s.steps calls)) := by
  induction calls generalizing s with
  | nil => exact .nil
  | cons call calls ih =>
    obtain ⟨nowMs, c⟩ := call
    have hrest := ih h.tail
    cases c with
    | onThrottle =>
      have hsame : ((s.onThrottle nowMs).lastRefillMs, (s.onThrottle nowMs).tokensMilli) =
          (s.lastRefillMs, s.tokensMilli) := by
        rcases onThrottle_spec s nowMs with heq | ⟨_, heq⟩
        · rw [heq]
        · rw [heq]
          rfl
      obtain ⟨hlast, htokens⟩ := Prod.mk.inj hsame
      rw [← hlast, ← htokens]
      exact hrest
    | tryTake =>
      have hnow := (h.later _ List.mem_cons_self).1
      have hrefill := refilled_refill h.good hnow
      obtain ⟨hpost, henough⟩ := tryTake_spec s nowMs
      have hlast : (s.tryTake nowMs).2.lastRefillMs = nowMs := by
        rw [hpost]
        exact hrefill.lastRefill
      have htokens : ((s.tryTake nowMs).2.tokensMilli : ℚ) +
          (if (s.tryTake nowMs).1 then 1000 else 0) = (s.refill nowMs).tokensMilli := by
        rw [hpost]
        by_cases hgrant : (s.tryTake nowMs).1 = true
        · have hsub : ((s.refill nowMs).tokensMilli - 1000 : Nat) + 1000 =
              (s.refill nowMs).tokensMilli := Nat.sub_add_cancel (henough hgrant)
          simp only [if_pos hgrant]
          exact_mod_cast hsub
        · simp only [if_neg hgrant]
          rw [Nat.sub_zero, add_zero]
      change Metered ceilRate 4000 (s.tryTake nowMs).2.lastRefillMs
        (s.tryTake nowMs).2.tokensMilli (takes ((s.tryTake nowMs).2.steps calls)) at hrest
      rw [hlast] at hrest
      refine .cons (Nat.cast_le.2 hnow) ?_ ?_ (Nat.cast_nonneg _) hrest
      · refine htokens.trans_le ?_
        exact_mod_cast hrefill.good.tokens_le
      · exact htokens.trans_le hrefill.tokens

/-- The grants in the closed window of `d` milliseconds from `start`. -/
def grantsIn (start d : ℚ) (xs : List CallStep) : List CallStep :=
  xs.filter fun x => x.granted && (decide (start ≤ x.nowMs) && decide (x.nowMs ≤ start + d))

/-- Only takes are granted. -/
theorem call_of_granted {s : RateLimiter} {calls : List (Nat × Call)} :
    ∀ x ∈ s.steps calls, x.granted = true → x.call = .tryTake := by
  induction calls generalizing s with
  | nil => nofun
  | cons call calls ih =>
    obtain ⟨nowMs, c⟩ := call
    intro x hx hgrant
    rcases List.mem_cons.1 hx with rfl | hx
    · cases c with
      | tryTake => rfl
      | onThrottle => cases hgrant
    · exact ih x hx hgrant

theorem takenIn_takes {xs : List CallStep} (h : ∀ x ∈ xs, x.granted = true → x.call = .tryTake)
    (start d : ℚ) : takenIn start d (takes xs) = 1000 * (grantsIn start d xs).length := by
  induction xs with
  | nil => simp [takes, takenIn, takenAt, grantsIn]
  | cons x xs ih =>
    have hrest := ih fun y hy => h y (List.mem_cons_of_mem _ hy)
    have hx := h x List.mem_cons_self
    unfold takenIn at hrest ⊢
    unfold grantsIn at hrest ⊢
    cases hcall : x.call with
    | onThrottle =>
      have hgrant : x.granted = false := by
        cases hg : x.granted with
        | false => rfl
        | true => cases hcall.symm.trans (hx hg)
      have htake : takes (x :: xs) = takes xs := by simp [takes, hcall]
      rw [htake, hrest, List.filter_cons_of_neg (by rw [hgrant]; exact Bool.false_ne_true)]
    | tryTake =>
      have htake : takes (x :: xs) =
          ((x.nowMs : ℚ), if x.granted then 1000 else 0) :: takes xs := by simp [takes, hcall]
      rw [htake, takenAt_cons, hrest]
      generalize hwindow : (decide (start ≤ (x.nowMs : ℚ)) && decide ((x.nowMs : ℚ) ≤ start + d)) = w
      cases hgrant : x.granted <;> cases w
      · simp [hgrant]
      · simp [hgrant]
      · simp [hgrant, hwindow]
      · simp [hgrant, hwindow]
        ring

end RateLimiter

/-- The limiter keeps its window bound and its rate bounds, and its steps keep their distances. -/
theorem rateLimiter_bounds {calls : List (Nat × Call)}
    (hclock : calls.Pairwise fun a b => a.1 ≤ b.1) :
    (∀ start d : ℚ, 0 ≤ d →
      ((RateLimiter.grantsIn start d (RateLimiter.new.steps calls)).length : ℚ) ≤
        maxBurst + d / 1000 * ceilRate) ∧
    (∀ s ∈ RateLimiter.new :: (RateLimiter.new.steps calls).map CallStep.post,
      floorRate ≤ s.rate ∧ s.rate ≤ ceilRate) ∧
    ((RateLimiter.new.steps calls).Pairwise fun x y =>
      x.Down → y.Down → x.nowMs + downWindow ≤ y.nowMs) ∧
    (RateLimiter.new.steps calls).Pairwise fun x y =>
      x.Up ∨ x.call = .onThrottle → y.Up → x.nowMs + recoverInterval ≤ y.nowMs := by
  have hready := RateLimiter.ready_new hclock
  refine ⟨fun start d hd => ?_, fun s hs => ?_, RateLimiter.pairwise_down hready,
    RateLimiter.pairwise_up hready⟩
  · have hR : (0 : ℚ) ≤ ceilRate := by unfold ceilRate; norm_num
    have hbound : takenIn start d _ ≤ _ :=
      (RateLimiter.metered_steps hready).takenIn_le hR (by norm_num) hd
    rw [RateLimiter.takenIn_takes RateLimiter.call_of_granted] at hbound
    have hmax : maxBurst = 4 := rfl
    rw [hmax]
    linarith
  · rcases List.mem_cons.1 hs with rfl | hs
    · exact ⟨RateLimiter.good_new.floor_le, RateLimiter.good_new.le_ceil⟩
    · obtain ⟨x, hx, rfl⟩ := List.mem_map.1 hs
      have hgood := (RateLimiter.good_of_mem_steps hready x hx).2
      exact ⟨hgood.floor_le, hgood.le_ceil⟩

/-- Two takes, a report and a take. -/
theorem rateLimiter_bounds_four :
    ((RateLimiter.grantsIn 0 150 (RateLimiter.new.steps
      [(0, .tryTake), (0, .tryTake), (100, .onThrottle), (150, .tryTake)])).length : ℚ) ≤
        maxBurst + 150 / 1000 * ceilRate ∧
    (RateLimiter.new.steps
      [(0, .tryTake), (0, .tryTake), (100, .onThrottle), (150, .tryTake)]).Pairwise fun x y =>
        x.Down → y.Down → x.nowMs + downWindow ≤ y.nowMs := by
  have h := @rateLimiter_bounds
    [(0, .tryTake), (0, .tryTake), (100, .onThrottle), (150, .tryTake)] (by decide)
  exact ⟨h.1 0 150 (by norm_num), h.2.2.1⟩

end S3Archive.FigmentEngineChain
