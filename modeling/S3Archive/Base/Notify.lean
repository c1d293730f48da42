/-!
# Waiting loops on a notifier

A task waits for a condition in a loop: subscribe, check, and await the
subscription when the check fails (`Gate`, `GateStep`). `NotifySemantics` is what
the loop relies on in the notifier. A gate is `Ok` when it cannot miss a wake-up:
each of its steps, the steps of other gates and every notification keep it so,
and an `Ok` gate that is parked although its condition holds has a wake-up
pending (`Gate.Ok.ready_of_parked`).
-/

namespace S3Archive

variable {ν τ : Type}

/-- A notifier with states `ν` whose subscriptions are `τ`. -/
structure NotifySemantics (ν τ : Type) where
  init : ν
  /-- A new subscription. -/
  notified : ν → τ
  /-- A poll that finds the subscription pending registers it. -/
  park : ν → τ → ν
  notifyWaiters : ν → ν
  /-- The subscription has been made. -/
  created : ν → τ → Prop
  /-- The subscription has been woken: awaiting it goes on. -/
  ready : ν → τ → Prop
  created_notified : ∀ n, created n (notified n)
  created_park : ∀ n t u, created n t → created (park n u) t
  created_notifyWaiters : ∀ n t, created n t → created (notifyWaiters n) t
  ready_park : ∀ n t u, ready n t → ready (park n u) t
  /-- A subscription is woken by every notification after it was made, polled or not. -/
  ready_notifyWaiters : ∀ n t, created n t → ready (notifyWaiters n) t

/-- The notifications are counted, and a subscription keeps the count at which it was made. -/
def NotifySemantics.counter : NotifySemantics Nat Nat where
  init := 0
  notified n := n
  park n _ := n
  notifyWaiters n := n + 1
  created n t := t ≤ n
  ready n t := t < n
  created_notified := Nat.le_refl
  created_park _ _ _ h := h
  created_notifyWaiters _ _ h := Nat.le_succ_of_le h
  ready_park _ _ _ h := h
  ready_notifyWaiters _ _ h := Nat.lt_succ_of_le h

/-- Where the loop is. -/
inductive Gate (τ : Type) where
  | looping
  | subscribed (t : τ)
  /-- The check has failed. -/
  | missing (t : τ)
  /-- The subscription has been polled and is pending. -/
  | parked (t : τ)

/-- A step of a loop that waits for `cond`, except that it leaves the loop. -/
inductive GateStep (sem : NotifySemantics ν τ) (cond : Prop) : ν → Gate τ → ν → Gate τ → Prop
  | subscribe {n : ν} : GateStep sem cond n .looping n (.subscribed (sem.notified n))
  | miss {n : ν} {t : τ} (hmiss : ¬ cond) : GateStep sem cond n (.subscribed t) n (.missing t)
  | park {n : ν} {t : τ} (hpending : ¬ sem.ready n t) :
    GateStep sem cond n (.missing t) (sem.park n t) (.parked t)
  | pass {n : ν} {t : τ} (hready : sem.ready n t) : GateStep sem cond n (.missing t) n .looping
  | wake {n : ν} {t : τ} (hready : sem.ready n t) : GateStep sem cond n (.parked t) n .looping

namespace Gate

variable {sem : NotifySemantics ν τ} {cond : Prop} {n n' : ν} {g g' : Gate τ}

/-- After a failed check, the condition still fails or a wake-up is pending. -/
def Ok (sem : NotifySemantics ν τ) (cond : Prop) (n : ν) : Gate τ → Prop
  | looping => True
  | subscribed t => sem.created n t
  | missing t => sem.created n t ∧ (cond → sem.ready n t)
  | parked t => sem.created n t ∧ (cond → sem.ready n t)

theorem Ok.ready_of_parked {t : τ} (h : Ok sem cond n (.parked t)) (hcond : cond) :
    sem.ready n t := h.2 hcond

/-- A step keeps its own gate. -/
theorem Ok.step (h : Ok sem cond n g) (hstep : GateStep sem cond n g n' g') :
    Ok sem cond n' g' := by
  cases hstep with
  | subscribe => exact sem.created_notified n
  | miss hmiss => exact ⟨h, fun hcond => absurd hcond hmiss⟩
  | park => exact ⟨sem.created_park _ _ _ h.1, fun hcond => sem.ready_park _ _ _ (h.2 hcond)⟩
  | pass => trivial
  | wake => trivial

/-- A step of another gate does not matter. -/
theorem Ok.other {cond' : Prop} {g₁ g₁' : Gate τ} (h : Ok sem cond n g)
    (hstep : GateStep sem cond' n g₁ n' g₁') : Ok sem cond n' g := by
  cases hstep with
  | @park u hpending =>
    cases g with
    | looping => trivial
    | subscribed t => exact sem.created_park _ _ _ h
    | missing t => exact ⟨sem.created_park _ _ _ h.1, fun hc => sem.ready_park _ _ _ (h.2 hc)⟩
    | parked t => exact ⟨sem.created_park _ _ _ h.1, fun hc => sem.ready_park _ _ _ (h.2 hc)⟩
  | subscribe => exact h
  | miss => exact h
  | pass => exact h
  | wake => exact h

/-- After a notification the condition may have become any other. -/
theorem Ok.notifyWaiters (cond' : Prop) (h : Ok sem cond n g) :
    Ok sem cond' (sem.notifyWaiters n) g := by
  cases g with
  | looping => trivial
  | subscribed t => exact sem.created_notifyWaiters _ _ h
  | missing t =>
    exact ⟨sem.created_notifyWaiters _ _ h.1, fun _ => sem.ready_notifyWaiters _ _ h.1⟩
  | parked t =>
    exact ⟨sem.created_notifyWaiters _ _ h.1, fun _ => sem.ready_notifyWaiters _ _ h.1⟩

end Gate

end S3Archive
