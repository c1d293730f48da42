import Mathlib.Algebra.GroupWithZero.Nat
import Mathlib.Algebra.BigOperators.Group.List.Basic
import Mathlib.Data.List.Nodup

/-!
# Pools of retried calls

A `Call` is repeated until it succeeds, fails in a way that is not worth another
attempt, or has failed `limit` times. A `Pool` runs one call per job, at most
`slots` of them at a time, and `completed` lists what they returned in the order
of completion. `Pool.Step` is one reply. Every reply lowers the attempts that are
left (`Step.attemptsLeft_lt`), and as long as a call is trying some reply can come
(`exists_step`).
-/

namespace S3Archive

/-! ## One call -/

inductive Call (limit : Nat) (ε α : Type) where
  /-- It has failed `failures` times. -/
  | trying (failures : Fin limit)
  | done (result : Except ε α)

namespace Call

variable {limit : Nat} {ε α : Type} {retryable : ε → Bool}

/-- What an attempt's reply makes of the call. -/
def receive (retryable : ε → Bool) (failures : Fin limit) : Except ε α → Call limit ε α
  | .ok a => .done (.ok a)
  | .error e =>
    if h : failures + 1 < limit ∧ retryable e = true then .trying ⟨failures + 1, h.1⟩
    else .done (.error e)

def isTrying : Call limit ε α → Bool
  | .trying _ => true
  | .done _ => false

def result : Call limit ε α → Option (Except ε α)
  | .trying _ => none
  | .done r => some r

def attemptsLeft : Call limit ε α → Nat
  | .trying failures => limit - failures
  | .done _ => 0

theorem receive_error (failures : Fin limit) (e : ε) :
    (receive retryable failures (.error e) : Call limit ε α) =
      if h : failures + 1 < limit ∧ retryable e = true then .trying ⟨failures + 1, h.1⟩
      else .done (.error e) := rfl

/-- A transient error with attempts left is retried. -/
theorem receive_retry {failures : Fin limit} {e : ε} (he : retryable e = true)
    (hlt : failures + 1 < limit) :
    (receive retryable failures (.error e) : Call limit ε α) = .trying ⟨failures + 1, hlt⟩ := by
  rw [receive_error, dif_pos ⟨hlt, he⟩]

theorem attemptsLeft_receive (retryable : ε → Bool) (failures : Fin limit) (r : Except ε α) :
    (receive retryable failures r).attemptsLeft < limit - failures := by
  have hlt := failures.isLt
  cases r with
  | ok a =>
    show 0 < limit - failures.val
    omega
  | error e =>
    rw [receive_error]
    split
    · show limit - (failures.val + 1) < limit - failures.val
      omega
    · show 0 < limit - failures.val
      omega

theorem eq_ok_of_result_receive {failures : Fin limit} {r : Except ε α} {a : α}
    (h : (receive retryable failures r).result = some (.ok a)) : r = .ok a := by
  cases r with
  | ok b => exact congrArg Except.ok (Except.ok.inj (Option.some.inj h))
  | error e =>
    rw [receive_error] at h
    split at h
    · cases h
    · cases Option.some.inj h

end Call

/-! ## The calls of a pool -/

structure Task (limit : Nat) (ι ε α : Type) where
  job : ι
  call : Call limit ε α

namespace Task

variable {limit : Nat} {ι ε α : Type}

def isTrying (t : Task limit ι ε α) : Bool := t.call.isTrying

/-- What a finished task returned. -/
def finished (t : Task limit ι ε α) : Option (ι × Except ε α) :=
  t.call.result.map fun r => (t.job, r)

end Task

/-- The calls, with what the finished ones returned in the order of completion. -/
structure Pool (limit : Nat) (ι ε α : Type) where
  tasks : List (Task limit ι ε α)
  completed : List (ι × Except ε α)
  perm : completed.Perm (tasks.filterMap Task.finished)

namespace Pool

variable {limit slots : Nat} {ι ε α : Type} {retryable : ε → Bool}

def start (hlimit : 0 < limit) (jobs : List ι) : Pool limit ι ε α where
  tasks := jobs.map fun job => ⟨job, .trying ⟨0, hlimit⟩⟩
  completed := []
  perm := by
    have hnone : (jobs.map fun job => (⟨job, .trying ⟨0, hlimit⟩⟩ : Task limit ι ε α)).filterMap
        Task.finished = [] := by
      rw [List.filterMap_map]
      exact List.filterMap_eq_nil_iff.2 fun _ _ => rfl
    rw [hnone]

def jobs (p : Pool limit ι ε α) : List ι := p.tasks.map Task.job

/-- No call is trying any more. -/
def isDone (p : Pool limit ι ε α) : Bool := p.tasks.all fun t => !t.isTrying

def attemptsLeft (p : Pool limit ι ε α) : Nat := (p.tasks.map fun t => t.call.attemptsLeft).sum

/-- One reply to the call of `job`, which is among the first `slots` that are trying; `out` is
what the call returns, if it is over. -/
inductive Step (slots : Nat) (retryable : ε → Bool) (p : Pool limit ι ε α) :
    ι → Except ε α → Option (Except ε α) → Pool limit ι ε α → Prop where
  | reply {p' : Pool limit ι ε α} {ts₁ ts₂ : List (Task limit ι ε α)} {job : ι}
      {failures : Fin limit} {r : Except ε α} {out : Option (Except ε α)}
      (htasks : p.tasks = ts₁ ++ ⟨job, .trying failures⟩ :: ts₂)
      (hslot : (ts₁.filter Task.isTrying).length < slots)
      (hout : out = (Call.receive retryable failures r).result)
      (htasks' : p'.tasks = ts₁ ++ ⟨job, .receive retryable failures r⟩ :: ts₂)
      (hcompleted : p'.completed = p.completed ++ (out.map fun r => (job, r)).toList) :
    Step slots retryable p job r out p'

section

variable {p p' : Pool limit ι ε α} {job : ι} {r : Except ε α} {out : Option (Except ε α)}

theorem Step.jobs_eq (h : Step slots retryable p job r out p') : p'.jobs = p.jobs := by
  cases h with
  | reply htasks hslot hout htasks' hcompleted =>
    unfold Pool.jobs
    rw [htasks, htasks', List.map_append, List.map_append, List.map_cons, List.map_cons]

theorem Step.mem_jobs (h : Step slots retryable p job r out p') : job ∈ p.jobs := by
  cases h with
  | reply htasks hslot hout htasks' hcompleted =>
    unfold Pool.jobs
    rw [htasks, List.map_append, List.map_cons]
    exact List.mem_append_right _ List.mem_cons_self

theorem Step.completed_eq (h : Step slots retryable p job r out p') :
    p'.completed = p.completed ++ (out.map fun r => (job, r)).toList := by
  cases h with
  | reply htasks hslot hout htasks' hcompleted => exact hcompleted

theorem Step.eq_ok (h : Step slots retryable p job r out p') {a : α} (hout : out = some (.ok a)) :
    r = .ok a := by
  cases h with
  | reply htasks hslot hreceive htasks' hcompleted =>
    exact Call.eq_ok_of_result_receive (hreceive.symm.trans hout)

/-- Every reply uses up an attempt. -/
theorem Step.attemptsLeft_lt (h : Step slots retryable p job r out p') :
    p'.attemptsLeft < p.attemptsLeft := by
  cases h with
  | @reply _ ts₁ ts₂ _ failures _ _ htasks hslot hout htasks' hcompleted =>
    have hlt := Call.attemptsLeft_receive retryable failures r
    unfold Pool.attemptsLeft
    rw [htasks, htasks', List.map_append, List.map_append, List.map_cons, List.map_cons,
      List.sum_append, List.sum_append, List.sum_cons, List.sum_cons]
    show _ + ((Call.receive retryable failures r).attemptsLeft + _) < _ + (limit - failures.val + _)
    omega

theorem attemptsLeft_start (hlimit : 0 < limit) (jobs : List ι) :
    (start hlimit jobs : Pool limit ι ε α).attemptsLeft = limit * jobs.length := by
  unfold attemptsLeft start
  rw [List.map_map]
  induction jobs with
  | nil => rfl
  | cons job jobs ih =>
    rw [List.map_cons, List.sum_cons, ih, List.length_cons, Nat.mul_succ]
    show limit - 0 + _ = _
    omega

theorem jobs_start (hlimit : 0 < limit) (jobs : List ι) :
    (start hlimit jobs : Pool limit ι ε α).jobs = jobs := by
  unfold Pool.jobs start
  rw [List.map_map]
  exact List.map_id _

/-- As long as a call is trying, some call can get a reply, whatever it is. -/
theorem exists_step (retryable : ε → Bool) (hslots : 0 < slots) (hdone : p.isDone = false) :
    ∃ job ∈ p.jobs, ∀ r, ∃ out p', Step slots retryable p job r out p' := by
  have hex : ∃ t ∈ p.tasks, t.isTrying = true := by
    simpa [isDone] using hdone
  obtain ⟨t, hfind⟩ := Option.isSome_iff_exists.1 (List.find?_isSome.2 hex)
  obtain ⟨ht, ts₁, ts₂, htasks, hbefore⟩ := List.find?_eq_some_iff_append.1 hfind
  obtain ⟨job, call⟩ := t
  cases call with
  | done result => cases ht
  | trying failures =>
    have hnone : ts₁.filter Task.isTrying = [] :=
      List.filter_eq_nil_iff.2 fun t ht => by simpa using hbefore t ht
    refine ⟨job, ?_, fun r => ?_⟩
    · unfold jobs
      rw [htasks, List.map_append, List.map_cons]
      exact List.mem_append_right _ List.mem_cons_self
    · refine ⟨_, ⟨ts₁ ++ ⟨job, .receive retryable failures r⟩ :: ts₂, _, ?_⟩,
        .reply htasks ?_ rfl rfl rfl⟩
      · -- the finished call is added to those that were finished
        have hperm := p.perm
        rw [htasks, List.filterMap_append, List.filterMap_cons_none rfl] at hperm
        rw [List.filterMap_append, List.filterMap_cons]
        unfold Task.finished at hperm ⊢
        cases (Call.receive retryable failures r).result with
        | none => simpa using hperm
        | some result =>
          refine (hperm.append_right _).trans ?_
          rw [List.append_assoc]
          exact (List.perm_append_singleton _ _).append_left _
      · rw [hnone]
        exact hslots

/-- A pool that is done has returned once for each job. -/
theorem completed_jobs (hdone : p.isDone = true) : (p.completed.map Prod.fst).Perm p.jobs := by
  refine (p.perm.map Prod.fst).trans (.of_eq ?_)
  unfold Pool.jobs
  have hall : ∀ t ∈ p.tasks, t.isTrying = false := by
    simpa [isDone] using hdone
  generalize p.tasks = tasks at hall
  induction tasks with
  | nil => rfl
  | cons t tasks ih =>
    obtain ⟨job, call⟩ := t
    have htail := ih fun t ht => hall t (List.mem_cons_of_mem _ ht)
    cases call with
    | trying failures => cases hall _ List.mem_cons_self
    | done result =>
      have hhead : (⟨job, .done result⟩ : Task limit ι ε α).finished = some (job, result) := rfl
      rw [List.filterMap_cons_some hhead, List.map_cons, List.map_cons, htail]

end

/-! ## How often a call has failed -/

/-- The job whose attempt failed, if it did. -/
def failedJob (job : ι) : Except ε α → List ι
  | .ok _ => []
  | .error _ => [job]

section

variable [DecidableEq ι] {p p' : Pool limit ι ε α} {job : ι} {r : Except ε α}
  {out : Option (Except ε α)} {log : List ι}

/-- A call that is trying has failed as often as its job is in the log. -/
def Tracks (p : Pool limit ι ε α) (log : List ι) : Prop :=
  ∀ t ∈ p.tasks, ∀ k, t.call = .trying k → k.val = log.count t.job

theorem tracks_start (hlimit : 0 < limit) (jobs : List ι) :
    Tracks (start hlimit jobs : Pool limit ι ε α) [] := by
  intro t ht k hk
  obtain ⟨job, _, rfl⟩ := List.mem_map.1 ht
  cases hk
  rfl

theorem Tracks.step (h : Tracks p log) (hnodup : p.jobs.Nodup)
    (hstep : Step slots retryable p job r out p') : Tracks p' (log ++ failedJob job r) := by
  cases hstep with
  | @reply _ ts₁ ts₂ _ failures _ _ htasks hslot hout htasks' hcompleted =>
    unfold Pool.jobs at hnodup
    rw [htasks, List.map_append, List.map_cons, List.nodup_append, List.nodup_cons] at hnodup
    obtain ⟨_, ⟨hlater, _⟩, hdisjoint⟩ := hnodup
    -- the tasks of other jobs keep their counts
    have hother : ∀ t, t ∈ p.tasks → t.job ≠ job → ∀ k, t.call = .trying k →
        k.val = (log ++ failedJob job r).count t.job := by
      intro t ht hne k hk
      have hcount : (failedJob job r).count t.job = 0 := by
        cases r with
        | ok a => rfl
        | error e => exact List.count_eq_zero.2 fun hmem => hne (List.mem_singleton.1 hmem)
      rw [List.count_append, hcount, Nat.add_zero]
      exact h t ht k hk
    intro t ht k hk
    rw [htasks'] at ht
    rcases List.mem_append.1 ht with ht | ht
    · refine hother t (htasks ▸ List.mem_append_left _ ht) ?_ k hk
      exact hdisjoint _ (List.mem_map_of_mem ht) _ List.mem_cons_self
    · rcases List.mem_cons.1 ht with rfl | hlast
      · have hbefore : failures.val = log.count job :=
          h _ (htasks ▸ List.mem_append_right _ List.mem_cons_self) _ rfl
        cases r with
        | ok a => cases hk
        | error e =>
          rw [Call.receive_error] at hk
          split at hk
          · obtain rfl := Call.trying.inj hk
            show failures.val + 1 = (log ++ [job]).count job
            rw [List.count_append, List.count_singleton_self, hbefore]
          · cases hk
      · refine hother t (htasks ▸ List.mem_append_right _ (List.mem_cons_of_mem _ hlast)) ?_ k hk
        exact fun heq => hlater (List.mem_map.2 ⟨t, hlast, heq⟩)

/-- Failures of other jobs do not count. -/
theorem Tracks.append (h : Tracks p log) {js : List ι} (hjs : ∀ job ∈ js, job ∉ p.jobs) :
    Tracks p (log ++ js) := by
  intro t ht k hk
  have hcount : js.count t.job = 0 :=
    List.count_eq_zero.2 fun hmem => hjs _ hmem (List.mem_map_of_mem ht)
  rw [List.count_append, hcount, Nat.add_zero]
  exact h t ht k hk

/-- A call goes on after a transient error when its job has attempts left. -/
theorem Tracks.retries (h : Tracks p log) {e : ε}
    (hstep : Step slots retryable p job (.error e) out p') (he : retryable e = true)
    (hlt : log.count job + 1 < limit) : out = none := by
  cases hstep with
  | @reply _ ts₁ ts₂ _ failures _ _ htasks hslot hout htasks' hcompleted =>
    have hbefore : failures.val = log.count job :=
      h _ (htasks ▸ List.mem_append_right _ List.mem_cons_self) _ rfl
    rw [hout, Call.receive_retry he (by omega)]
    rfl

end

end Pool

end S3Archive
