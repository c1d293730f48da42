import Mathlib.Algebra.GroupWithZero.Nat
import Mathlib.Data.List.Range
import S3Archive.Base.Run

/-!
# sebsto Typescript and Swift: a byte semaphore with many parties

Both programs have the same `ByteSemaphore`. `release` wakes waiters and leaves it to
them to take their bytes once they run on (`SemaphoreStep.resume`); until then the bytes
are promised to nobody. `semaphore_sound_iff` says in which runs no more than the
capacity is granted, in the order of arrival: those in which the bytes of woken waiters
are left alone (`StepOk`). Promise reactions run in the order in which they were
scheduled, tasks of an actor in any order: the model lets any woken waiter go on.
-/

namespace S3Archive.Sebsto

structure Waiter where
  /-- How many waited before it. -/
  ticket : Nat
  needed : Nat
  deriving DecidableEq

structure Semaphore where
  capacity : Nat
  available : Int
  waiters : List Waiter := []
  /-- The waiters that were woken and have not gone on. -/
  woken : List Waiter := []
  /-- What was granted and has not been released. -/
  held : List Nat := []
  tickets : Nat := 0
  deriving DecidableEq

inductive SemaphoreEvent where
  | granted (needed : Nat)
  | queued (ticket : Nat)
  | resumed (ticket : Nat)
  | released (amount : Nat)
  deriving DecidableEq

namespace Semaphore

def new (capacity : Nat) : Semaphore := { capacity, available := capacity }

def needed (s : Semaphore) (amount : Nat) : Nat := min amount s.capacity

def take (s : Semaphore) (needed : Nat) : Semaphore :=
  { s with available := s.available - needed, held := s.held ++ [needed] }

def wait (s : Semaphore) (needed : Nat) : Semaphore :=
  { s with waiters := s.waiters ++ [⟨s.tickets, needed⟩], tickets := s.tickets + 1 }

/-- The loop over the waiters does not lower `available`. -/
def release (s : Semaphore) (amount : Nat) : Semaphore :=
  let available := s.available + s.needed amount
  { s with
    available
    waiters := s.waiters.dropWhile fun w : Waiter => (w.needed : Int) ≤ available
    woken := s.woken ++ s.waiters.takeWhile fun w : Waiter => (w.needed : Int) ≤ available }

/-- What the woken waiters will take. -/
def promised (s : Semaphore) : Nat := (s.woken.map (·.needed)).sum

end Semaphore

/-- A step of one of the parties, each up to its next suspension point. -/
inductive SemaphoreStep : Semaphore → SemaphoreEvent → Semaphore → Prop where
  | acquire {s : Semaphore} {amount : Nat} (hroom : (s.needed amount : Int) ≤ s.available) :
    SemaphoreStep s (.granted (s.needed amount)) (s.take (s.needed amount))
  | wait {s : Semaphore} {amount : Nat} (hfull : s.available < s.needed amount) :
    SemaphoreStep s (.queued s.tickets) (s.wait (s.needed amount))
  | resume {s : Semaphore} {w : Waiter} {ws₁ ws₂ : List Waiter}
      (hwoken : s.woken = ws₁ ++ w :: ws₂) :
    SemaphoreStep s (.resumed w.ticket) ({ s with woken := ws₁ ++ ws₂ }.take w.needed)
  | release {s : Semaphore} {amount : Nat} {held₁ held₂ : List Nat}
      (hheld : s.held = held₁ ++ s.needed amount :: held₂) :
    SemaphoreStep s (.released amount) ({ s with held := held₁ ++ held₂ }.release amount)

abbrev SemaphoreRun := Run SemaphoreStep

/-- The waiters that were granted, in that order. -/
def resumedTickets (evs : List SemaphoreEvent) : List Nat :=
  evs.filterMap fun
    | .resumed ticket => some ticket
    | _ => none

/-- A step leaves the bytes of the woken waiters to them: nobody is granted bytes at once
that they need, the waiters that a release wakes find their bytes together with those
woken before, and they go on in turn. -/
def StepOk (s : Semaphore) : SemaphoreEvent → Prop
  | .granted needed => (needed + s.promised : Int) ≤ s.available
  | .queued _ => True
  | .resumed ticket => s.woken.head?.map (·.ticket) = some ticket
  | .released amount => ((s.release amount).promised : Int) ≤ s.available + s.needed amount

/-! ## The accounts -/

theorem resumedTickets_append (evs evs' : List SemaphoreEvent) :
    resumedTickets (evs ++ evs') = resumedTickets evs ++ resumedTickets evs' :=
  List.filterMap_append

variable {evs : List SemaphoreEvent} {s s' : Semaphore} {ev : SemaphoreEvent}

/-- Bytes are never lost, whoever goes on. -/
theorem SemaphoreStep.balance (h : SemaphoreStep s ev s')
    (hbalance : s.available + (s.held.sum : Int) = s.capacity) :
    s'.available + (s'.held.sum : Int) = s'.capacity := by
  cases h with
  | acquire hroom =>
    simp only [Semaphore.take, List.sum_append, List.sum_singleton]
    omega
  | wait hfull => exact hbalance
  | resume hwoken =>
    simp only [Semaphore.take, List.sum_append, List.sum_singleton]
    omega
  | release hheld =>
    rw [hheld, List.sum_append, List.sum_cons] at hbalance
    simp only [Semaphore.release, List.sum_append]
    simp only [Semaphore.needed] at hbalance ⊢
    omega

theorem SemaphoreStep.capacity_eq (h : SemaphoreStep s ev s') : s'.capacity = s.capacity := by
  cases h <;> rfl

/-- Waiters go on in the order of their tickets if each is the first of the woken ones. -/
theorem SemaphoreStep.order (h : SemaphoreStep s ev s') (hok : StepOk s ev)
    (horder : resumedTickets evs ++ s.woken.map (·.ticket) ++ s.waiters.map (·.ticket) =
      List.range s.tickets) :
    resumedTickets (evs ++ [ev]) ++ s'.woken.map (·.ticket) ++ s'.waiters.map (·.ticket) =
      List.range s'.tickets := by
  rw [resumedTickets_append]
  cases h with
  | acquire hroom => simpa [resumedTickets, Semaphore.take] using horder
  | wait hfull =>
    simp only [Semaphore.wait, List.map_append, List.range_succ, ← horder]
    simp [resumedTickets]
  | @resume w ws₁ ws₂ hwoken =>
    cases ws₁ with
    | nil =>
      rw [hwoken] at horder
      simpa [resumedTickets, Semaphore.take] using horder
    | cons v ws₁ =>
      -- two waiters cannot have the ticket of the first
      have hsame : v.ticket = w.ticket := by simpa [StepOk, hwoken] using hok
      have hnodup : (resumedTickets evs ++ s.woken.map (·.ticket) ++
          s.waiters.map (·.ticket)).Nodup := horder ▸ List.nodup_range
      rw [hwoken, List.nodup_append, List.nodup_append] at hnodup
      simp [hsame] at hnodup
  | @release amount held₁ held₂ hheld =>
    simp only [Semaphore.release, List.map_append, List.append_assoc, ← horder]
    rw [← List.map_append, List.takeWhile_append_dropWhile]
    simp [resumedTickets]

theorem SemaphoreStep.promised (h : SemaphoreStep s ev s') (hok : StepOk s ev)
    (hpromised : (s.promised : Int) ≤ s.available) : (s'.promised : Int) ≤ s'.available := by
  cases h with
  | acquire hroom =>
    simp only [StepOk] at hok
    simp only [Semaphore.take, Semaphore.promised] at hok ⊢
    omega
  | wait hfull => exact hpromised
  | @resume w ws₁ ws₂ hwoken =>
    simp only [Semaphore.promised, hwoken, List.map_append, List.map_cons, List.sum_append,
      List.sum_cons] at hpromised
    simp only [Semaphore.take, Semaphore.promised, List.map_append, List.sum_append]
    omega
  | release hheld => exact hok

/-! ## Runs -/

/-- A step that leaves the bytes of the woken waiters to them. -/
def OkStep (s : Semaphore) (ev : SemaphoreEvent) (s' : Semaphore) : Prop :=
  SemaphoreStep s ev s' ∧ StepOk s ev

/-- Where the steps so far have led: nothing is lost, nobody is out of turn, and there
are bytes for those that were woken. -/
structure SemaphoreInv (capacity : Nat) (evs : List SemaphoreEvent) (s : Semaphore) : Prop where
  capacity_eq : s.capacity = capacity
  balance : s.available + (s.held.sum : Int) = s.capacity
  order : resumedTickets evs ++ s.woken.map (·.ticket) ++ s.waiters.map (·.ticket) =
    List.range s.tickets
  promised : (s.promised : Int) ≤ s.available

theorem OkStep.inv {capacity : Nat} (h : Run OkStep (.new capacity) evs s) :
    SemaphoreInv capacity evs s := by
  induction h with
  | refl => exact ⟨rfl, by simp [Semaphore.new], rfl, by simp [Semaphore.promised, Semaphore.new]⟩
  | step _ hlast ih =>
    obtain ⟨hstep, hok⟩ := hlast
    exact ⟨hstep.capacity_eq.trans ih.capacity_eq, hstep.balance ih.balance,
      hstep.order hok ih.order, hstep.promised hok ih.promised⟩

/-- Granted in turn: the tickets of those that went on are `0, 1, 2, …`. -/
def InTurn (evs : List SemaphoreEvent) : Prop :=
  resumedTickets evs = List.range (resumedTickets evs).length

theorem SemaphoreInv.inTurn {capacity : Nat} (h : SemaphoreInv capacity evs s) : InTurn evs := by
  have hprefix : resumedTickets evs <+: List.range s.tickets := by
    rw [← h.order, List.append_assoc]
    exact List.prefix_append _ _
  have hle : (resumedTickets evs).length ≤ s.tickets := by
    simpa using hprefix.length_le
  have htake := List.prefix_iff_eq_take.1 hprefix
  rwa [List.take_range, Nat.min_eq_left hle] at htake

/-- Too few bytes for the woken waiters: once they have gone on, more than the capacity
is granted. -/
theorem exists_overGrant (hbalance : s.available + (s.held.sum : Int) = s.capacity)
    (hshort : s.available < s.promised) :
    ∃ evs' t, SemaphoreRun s evs' t ∧ t.capacity < t.held.sum := by
  obtain ⟨ws, hws⟩ : ∃ ws, s.woken = ws := ⟨_, rfl⟩
  induction ws generalizing s with
  | nil =>
    refine ⟨[], s, .refl s, ?_⟩
    simp only [Semaphore.promised, hws, List.map_nil, List.sum_nil] at hshort
    omega
  | cons w ws ih =>
    have hstep : SemaphoreStep s (.resumed w.ticket) ({ s with woken := ws }.take w.needed) :=
      @SemaphoreStep.resume s w [] ws hws
    have hrest : ({ s with woken := ws }.take w.needed).available <
        ({ s with woken := ws }.take w.needed).promised := by
      simp only [Semaphore.promised, hws, List.map_cons, List.sum_cons] at hshort
      simp only [Semaphore.take, Semaphore.promised]
      omega
    obtain ⟨evs', t, hrun, hover⟩ := ih (hstep.balance hbalance) hrest rfl
    exact ⟨_, t, hrun.cons hstep, hover⟩

theorem not_inTurn_of_resumed {capacity : Nat} (h : SemaphoreInv capacity evs s) {w : Waiter}
    (hw : w ∈ s.woken) (hok : ¬ StepOk s (.resumed w.ticket)) :
    ¬ InTurn (evs ++ [.resumed w.ticket]) := by
  intro hturn
  obtain ⟨v, ws, hwoken⟩ := List.exists_cons_of_ne_nil (List.ne_nil_of_mem hw)
  have hw' : w.ticket = (resumedTickets evs).length := by
    have hevs : resumedTickets evs = List.range (resumedTickets evs).length := h.inTurn
    have hone : resumedTickets (evs ++ [.resumed w.ticket]) = resumedTickets evs ++ [w.ticket] :=
      resumedTickets_append ..
    rw [InTurn, hone, List.length_append, List.length_singleton, List.range_succ,
      ← hevs] at hturn
    simpa using hturn
  have hv : v.ticket = (resumedTickets evs).length := by
    have horder := h.order
    rw [hwoken, List.map_cons, List.append_assoc] at horder
    have hat : (List.range s.tickets)[(resumedTickets evs).length]? = some v.ticket := by
      rw [← horder, List.getElem?_append_right (Nat.le_refl _), Nat.sub_self]
      rfl
    have hlt : (resumedTickets evs).length < s.tickets := by
      simpa using (List.getElem?_eq_some_iff.1 hat).1
    rw [List.getElem?_range hlt] at hat
    exact (Option.some.inj hat).symm
  exact hok (by simp [StepOk, hwoken, hv, hw'])

/-- In the runs that leave the bytes of the woken waiters to them no more than the capacity
is granted, and waiters are granted in turn; and any step that does not can be followed
by steps after which one of the two fails. -/
theorem semaphore_sound_iff (capacity : Nat) :
    (∀ evs s, Run OkStep (.new capacity) evs s →
      s.held.sum ≤ capacity ∧ 0 ≤ s.available ∧ InTurn evs) ∧
    ∀ evs s ev s', Run OkStep (.new capacity) evs s → SemaphoreStep s ev s' → ¬ StepOk s ev →
      ∃ evs' t, SemaphoreRun s' evs' t ∧
        (capacity < t.held.sum ∨ ¬ InTurn (evs ++ ev :: evs')) := by
  refine ⟨fun evs s hrun => ?_, fun evs s ev s' hrun hstep hok => ?_⟩
  · obtain ⟨hcapacity, hbalance, -, hpromised⟩ := OkStep.inv hrun
    refine ⟨?_, ?_, (OkStep.inv hrun).inTurn⟩
    · omega
    · omega
  · have hinv := OkStep.inv hrun
    have hcapacity := hstep.capacity_eq.trans hinv.capacity_eq
    have hover : s'.available < s'.promised → ∃ evs' t, SemaphoreRun s' evs' t ∧
        (capacity < t.held.sum ∨ ¬ InTurn (evs ++ ev :: evs')) := by
      intro hshort
      obtain ⟨evs', t, hrun', hgrant⟩ := exists_overGrant (hstep.balance hinv.balance) hshort
      have ht : t.capacity = s'.capacity :=
        @Run.invariant _ _ _ _ _ _ (fun u => u.capacity = s'.capacity) hrun' rfl
          fun a ev b ha hab => hab.capacity_eq.trans ha
      exact ⟨evs', t, hrun', .inl (by omega)⟩
    cases hstep with
    | acquire hroom =>
      apply hover
      simp only [StepOk] at hok
      simp only [Semaphore.take, Semaphore.promised] at hok ⊢
      omega
    | wait hfull => exact absurd trivial hok
    | @resume w ws₁ ws₂ hwoken =>
      refine ⟨[], _, .refl _, .inr (not_inTurn_of_resumed hinv ?_ hok)⟩
      rw [hwoken]
      exact List.mem_append_right _ List.mem_cons_self
    | release hheld => exact hover (Int.not_le.1 hok)

/-- Two waiters of 10 bytes and a release of 10 bytes: both are woken. -/
theorem semaphore_overGrants : ¬ ∀ (capacity : Nat) (evs : List SemaphoreEvent) (s : Semaphore),
    SemaphoreRun (.new capacity) evs s → s.held.sum ≤ capacity := by
  intro h
  have hrun : SemaphoreRun (.new 10) _ _ :=
    (((((Run.refl _).step (@SemaphoreStep.acquire _ 10 (by decide))).step
      (@SemaphoreStep.wait _ 10 (by decide))).step
      (@SemaphoreStep.wait _ 10 (by decide))).step
      (@SemaphoreStep.release _ 10 [] [] rfl)).step
      (@SemaphoreStep.resume _ _ [] _ rfl)
  have hheld := h 10 _ _ (hrun.step (@SemaphoreStep.resume _ _ [] _ rfl))
  revert hheld
  decide

end S3Archive.Sebsto
