import Mathlib.Data.List.Perm.Basic

/-!
# jrodon-v3: dealing the jobs to the workers

The nested loops of the dispatch task that group the jobs into batches. The jobs
are a list in the order in which `pop` takes them. `deal` is one pass of the
inner `for`, `fillRound` one round of lists, one list for each worker, and
`rounds` all rounds; `batches` are the lists in the order in which they are sent.
-/

namespace S3Archive.JrodonV3

variable {α : Type}

/-- `LAMBDA_WORKER_PART_JOB_MAX_CHUNK_SIZE`. -/
def lambdaWorkerPartJobMaxChunkSize : Nat := 500

/-- The lists of a round, the jobs left, and whether `pop` has found no job. -/
structure Dealt (α : Type) where
  lists : List (List α)
  rest : List α
  exhausted : Bool

/-- Each list gets one job. -/
def deal : List (List α) → List α → Dealt α
  | [], jobs => ⟨[], jobs, false⟩
  | lists, [] => ⟨lists, [], true⟩
  | list :: lists, job :: jobs =>
    let d := deal lists jobs
    ⟨(list ++ [job]) :: d.lists, d.rest, d.exhausted⟩

theorem length_rest_deal (lists : List (List α)) (jobs : List α) :
    (deal lists jobs).rest.length = jobs.length - lists.length := by
  induction lists generalizing jobs with
  | nil => rfl
  | cons list lists ih =>
    cases jobs with
    | nil => exact (Nat.zero_sub _).symm
    | cons job jobs =>
      refine (ih jobs).trans ?_
      rw [List.length_cons, List.length_cons, Nat.add_sub_add_right]

theorem exhausted_deal (lists : List (List α)) (jobs : List α) :
    (deal lists jobs).exhausted = decide (jobs.length < lists.length) := by
  induction lists generalizing jobs with
  | nil => exact (decide_eq_false (Nat.not_lt_zero _)).symm
  | cons list lists ih =>
    cases jobs with
    | nil => exact (decide_eq_true (Nat.succ_pos _)).symm
    | cons job jobs =>
      refine (ih jobs).trans ?_
      simp only [List.length_cons, Nat.add_lt_add_iff_right]

/-- The inner `loop`: deal until the jobs are used up or the first list is full. Without a worker
the source panics here (`expect`). -/
def fillRound (chunk : Nat) (lists : List (List α)) (jobs : List α) : Dealt α :=
  if _hnone : lists = [] then ⟨[], [], true⟩
  else if _hout : (deal lists jobs).exhausted then deal lists jobs
  else if chunk ≤ ((deal lists jobs).lists.head?.getD []).length then deal lists jobs
  else fillRound chunk (deal lists jobs).lists (deal lists jobs).rest
termination_by jobs.length
decreasing_by
  have hpos := List.length_pos_iff.2 _hnone
  have hlt : ¬ jobs.length < lists.length := by simpa [exhausted_deal] using _hout
  rw [length_rest_deal]
  omega

theorem length_lists_deal (lists : List (List α)) (jobs : List α) :
    (deal lists jobs).lists.length = lists.length := by
  induction lists generalizing jobs with
  | nil => rfl
  | cons list lists ih =>
    cases jobs with
    | nil => rfl
    | cons job jobs => exact congrArg (· + 1) (ih jobs)

/-- The rest of a round that goes on is shorter. -/
theorem length_rest_fillRound (chunk : Nat) {lists : List (List α)} {jobs : List α}
    (h : ¬ (fillRound chunk lists jobs).exhausted) :
    (fillRound chunk lists jobs).rest.length < jobs.length := by
  fun_induction fillRound chunk lists jobs with
  | case1 jobs => exact absurd rfl h
  | case2 lists jobs hnone hout => exact absurd hout h
  | case3 lists jobs hnone hout hfull =>
    have hpos := List.length_pos_iff.2 hnone
    have hlt : ¬ jobs.length < lists.length := by simpa [exhausted_deal] using hout
    rw [length_rest_deal]
    omega
  | case4 lists jobs hnone hout hfull ih =>
    have hrest := length_rest_deal lists jobs
    have hlt := ih h
    omega

/-- The loop `'outer`: one round of lists after the other. -/
def rounds (chunk workerCount : Nat) (jobs : List α) : List (List (List α)) :=
  let d := fillRound chunk (List.replicate workerCount []) jobs
  if _hout : d.exhausted then [d.lists]
  else d.lists :: rounds chunk workerCount d.rest
termination_by jobs.length
decreasing_by exact length_rest_fillRound chunk _hout

/-- The batches in the order in which they are sent; batch `k` goes to worker
`k % workerCount`. -/
def batches (workerCount : Nat) (delegatedPartJobs : List α) : List (List α) :=
  (rounds lambdaWorkerPartJobMaxChunkSize workerCount delegatedPartJobs.reverse).flatten

/-! ## Every job is in one batch -/

theorem deal_perm (lists : List (List α)) (jobs : List α) :
    ((deal lists jobs).lists.flatten ++ (deal lists jobs).rest).Perm (lists.flatten ++ jobs) := by
  induction lists generalizing jobs with
  | nil => exact .refl _
  | cons list lists ih =>
    cases jobs with
    | nil => exact .refl _
    | cons job jobs =>
      show ((list ++ [job]) ++ (deal lists jobs).lists.flatten ++ (deal lists jobs).rest).Perm
        (list ++ lists.flatten ++ job :: jobs)
      simp only [List.append_assoc]
      refine List.Perm.append_left list ?_
      exact ((ih jobs).cons job).trans List.perm_middle.symm

theorem fillRound_perm (chunk : Nat) {lists : List (List α)} (hne : lists ≠ []) (jobs : List α) :
    ((fillRound chunk lists jobs).lists.flatten ++ (fillRound chunk lists jobs).rest).Perm
      (lists.flatten ++ jobs) := by
  fun_induction fillRound chunk lists jobs with
  | case1 jobs => exact absurd rfl hne
  | case2 lists jobs hnone hout => exact deal_perm lists jobs
  | case3 lists jobs hnone hout hfull => exact deal_perm lists jobs
  | case4 lists jobs hnone hout hfull ih =>
    have hne' : (deal lists jobs).lists ≠ [] := by
      rw [← List.length_pos_iff, length_lists_deal]
      exact List.length_pos_iff.2 hnone
    exact (ih hne').trans (deal_perm lists jobs)

/-- A round ends early only when no job is left. -/
theorem rest_fillRound_eq_nil (chunk : Nat) {lists : List (List α)} {jobs : List α}
    (h : (fillRound chunk lists jobs).exhausted) : (fillRound chunk lists jobs).rest = [] := by
  fun_induction fillRound chunk lists jobs with
  | case1 jobs => rfl
  | case2 lists jobs hnone hout =>
    have hrest := length_rest_deal lists jobs
    rw [exhausted_deal, decide_eq_true_eq] at hout
    exact List.length_eq_zero_iff.1 (by omega)
  | case3 lists jobs hnone hout hfull => exact absurd h hout
  | case4 lists jobs hnone hout hfull ih => exact ih h

theorem rounds_perm (chunk : Nat) {workerCount : Nat} (hw : 0 < workerCount) (jobs : List α) :
    (rounds chunk workerCount jobs).flatten.flatten.Perm jobs := by
  have hne : List.replicate workerCount ([] : List α) ≠ [] := by
    rw [← List.length_pos_iff, List.length_replicate]
    exact hw
  fun_induction rounds chunk workerCount jobs with
  | case1 jobs d hout =>
    have hperm := fillRound_perm chunk hne jobs
    rw [List.flatten_replicate_nil, List.nil_append, rest_fillRound_eq_nil chunk hout,
      List.append_nil] at hperm
    rw [List.flatten_singleton]
    exact hperm
  | case2 jobs d hout ih =>
    have hperm := fillRound_perm chunk hne jobs
    rw [List.flatten_replicate_nil, List.nil_append] at hperm
    rw [List.flatten_cons, List.flatten_append]
    exact (ih.append_left _).trans hperm

theorem batches_perm {workerCount : Nat} (hw : 0 < workerCount) (jobs : List α) :
    (batches workerCount jobs).flatten.Perm jobs :=
  (rounds_perm _ hw _).trans (List.reverse_perm jobs)

end S3Archive.JrodonV3
