import Mathlib.Algebra.GroupWithZero.Nat
import S3Archive.JrodonV3.Batching

/-!
# jrodon-v3: what each worker is given

The rounds are level: after a deal each list of a round has `c` or `c + 1` jobs,
the longer ones first. Every round but the last is full (`rounds_level`). `sends`
pairs the batches with the workers in a cycle, and `jobsOf` is what one worker
gets over the whole run.
-/

namespace S3Archive.JrodonV3

variable {α β ω : Type}

/-! ## Level rounds -/

/-- The first `m` lists have `c + 1` jobs, the others `c`. -/
def Level (c m : Nat) (lists : List (List α)) : Prop :=
  ∀ i b, lists[i]? = some b → b.length = if i < m then c + 1 else c

theorem Level.bounds {c m : Nat} {lists : List (List α)} (h : Level c m lists) :
    ∀ b ∈ lists, c ≤ b.length ∧ b.length ≤ c + 1 := by
  intro b hb
  obtain ⟨i, hi⟩ := List.mem_iff_getElem?.1 hb
  have := h i b hi
  split at this <;> omega

/-- One deal to lists of equal lengths. -/
theorem level_deal {c : Nat} {lists : List (List α)} (h : ∀ b ∈ lists, b.length = c)
    (jobs : List α) : Level c jobs.length (deal lists jobs).lists := by
  induction lists generalizing jobs with
  | nil => exact fun i b hi => by cases hi
  | cons list lists ih =>
    have hlist := h list List.mem_cons_self
    have hlists : ∀ b ∈ lists, b.length = c := fun b hb => h b (List.mem_cons_of_mem _ hb)
    cases jobs with
    | nil =>
      intro i b hi
      exact (h b (List.mem_of_getElem? hi)).trans (if_neg (Nat.not_lt_zero i)).symm
    | cons job jobs =>
      intro i b hi
      cases i with
      | zero =>
        obtain rfl : list ++ [job] = b := Option.some.inj hi
        rw [if_pos (by simp), List.length_append, hlist]
        rfl
      | succ i =>
        have := ih hlists jobs i b hi
        simpa only [List.length_cons, Nat.add_lt_add_iff_right] using this

/-- A deal that does not run out gives every list one job. -/
theorem length_of_deal {c : Nat} {lists : List (List α)} {jobs : List α}
    (h : ∀ b ∈ lists, b.length = c) (hout : ¬ (deal lists jobs).exhausted) :
    ∀ b ∈ (deal lists jobs).lists, b.length = c + 1 := by
  intro b hb
  obtain ⟨i, hi⟩ := List.mem_iff_getElem?.1 hb
  have hlen := level_deal h jobs i b hi
  have hlt := (List.getElem?_eq_some_iff.1 hi).1
  rw [length_lists_deal] at hlt
  rw [exhausted_deal, decide_eq_true_eq] at hout
  rwa [if_pos (by omega)] at hlen

theorem length_lists_fillRound (chunk : Nat) {lists : List (List α)} (hne : lists ≠ [])
    (jobs : List α) : (fillRound chunk lists jobs).lists.length = lists.length := by
  fun_induction fillRound chunk lists jobs with
  | case1 jobs => exact absurd rfl hne
  | case2 lists jobs hnone hout => exact length_lists_deal lists jobs
  | case3 lists jobs hnone hout hfull => exact length_lists_deal lists jobs
  | case4 lists jobs hnone hout hfull ih =>
    have hlen := length_lists_deal lists jobs
    have hpos := List.length_pos_iff.2 hnone
    rw [ih (List.length_pos_iff.1 (by omega)), hlen]

/-- A round goes on until its lists are full, unless the jobs run out. -/
theorem level_fillRound {chunk c : Nat} {lists : List (List α)} (hne : lists ≠ [])
    (hc : c < chunk) (h : ∀ b ∈ lists, b.length = c) (jobs : List α) :
    if (fillRound chunk lists jobs).exhausted then
      ∃ c' m, c' < chunk ∧ Level c' m (fillRound chunk lists jobs).lists
    else ∀ b ∈ (fillRound chunk lists jobs).lists, b.length = chunk := by
  fun_induction fillRound chunk lists jobs generalizing c with
  | case1 jobs => exact absurd rfl hne
  | case2 lists jobs hnone hout =>
    rw [if_pos hout]
    exact ⟨c, jobs.length, hc, level_deal h jobs⟩
  | case3 lists jobs hnone hout hfull =>
    rw [if_neg hout]
    have hlen := length_of_deal h hout
    -- the first list decides
    have hhead : ((deal lists jobs).lists.head?.getD []).length = c + 1 := by
      have hpos : 0 < (deal lists jobs).lists.length := by
        rw [length_lists_deal]
        exact List.length_pos_iff.2 hnone
      rw [List.head?_eq_getElem?, List.getElem?_eq_getElem hpos]
      exact hlen _ (List.getElem_mem hpos)
    intro b hb
    have := hlen b hb
    omega
  | case4 lists jobs hnone hout hfull ih =>
    have hlen := length_of_deal h hout
    have hpos : 0 < (deal lists jobs).lists.length := by
      rw [length_lists_deal]
      exact List.length_pos_iff.2 hnone
    refine ih (List.length_pos_iff.1 hpos) ?_ hlen
    rw [List.head?_eq_getElem?, List.getElem?_eq_getElem hpos, Option.getD_some,
      hlen _ (List.getElem_mem hpos)] at hfull
    omega

/-- All rounds have a list for each worker, the last one is level and the others are full. -/
theorem rounds_level {chunk workerCount : Nat} (hchunk : 0 < chunk) (hw : 0 < workerCount)
    (jobs : List α) :
    ∃ pre last c m, rounds chunk workerCount jobs = pre ++ [last] ∧
      (∀ r ∈ pre, r.length = workerCount ∧ ∀ b ∈ r, b.length = chunk) ∧
      last.length = workerCount ∧ c < chunk ∧ Level c m last := by
  have hne : List.replicate workerCount ([] : List α) ≠ [] := by
    rw [← List.length_pos_iff, List.length_replicate]
    exact hw
  have hnil : ∀ b ∈ List.replicate workerCount ([] : List α), b.length = 0 := by
    intro b hb
    rw [List.eq_of_mem_replicate hb, List.length_nil]
  fun_induction rounds chunk workerCount jobs with
  | case1 jobs d hout =>
    have hlen := length_lists_fillRound chunk hne jobs
    have hlevel := level_fillRound hne hchunk hnil jobs
    rw [List.length_replicate] at hlen
    rw [if_pos hout] at hlevel
    obtain ⟨c, m, hc, hm⟩ := hlevel
    exact ⟨[], _, c, m, rfl, fun r hr => absurd hr List.not_mem_nil, hlen, hc, hm⟩
  | case2 jobs d hout ih =>
    have hlen := length_lists_fillRound chunk hne jobs
    have hlevel := level_fillRound hne hchunk hnil jobs
    rw [List.length_replicate] at hlen
    rw [if_neg hout] at hlevel
    obtain ⟨pre, last, c, m, heq, hpre, hrest⟩ := ih
    refine ⟨d.lists :: pre, last, c, m, by rw [heq]; rfl, ?_, hrest⟩
    intro r hr
    rcases List.mem_cons.1 hr with rfl | hr
    · exact ⟨hlen, hlevel⟩
    · exact hpre r hr

/-! ## The cycle of workers -/

/-- `zip(workers.iter().cycle())`: the second list holds the workers left of this turn. -/
def zipCycle (workers : List ω) : List ω → List β → List (β × ω)
  | _, [] => []
  | w :: ws, b :: bs => (b, w) :: zipCycle workers ws bs
  | [], b :: bs =>
    match workers with
    | [] => []
    | w :: ws => (b, w) :: zipCycle workers ws bs

/-- The batches and the number of the worker that each is sent to. -/
def sends (workerCount : Nat) (bs : List β) : List (β × Nat) :=
  zipCycle (List.range workerCount) (List.range workerCount) bs

/-- The jobs that worker `w` gets. -/
def jobsOf (w : Nat) (sent : List (List α × Nat)) : List α :=
  (sent.filter (·.2 = w)).flatMap (·.1)

theorem zipCycle_turn (workers : List ω) (bs : List β) :
    zipCycle workers [] bs = zipCycle workers workers bs := by
  cases bs with
  | nil => cases workers <;> rfl
  | cons b bs => cases workers <;> rfl

theorem getElem?_zipCycle {n j : Nat} (hj : j ≤ n) (bs : List β) (k : Nat) (hn : 0 < n) :
    (zipCycle (List.range n) ((List.range n).drop j) bs)[k]? =
      bs[k]?.map fun b => (b, (j + k) % n) := by
  induction bs generalizing j k with
  | nil => cases hd : (List.range n).drop j <;> rfl
  | cons b bs ih =>
    have hstep : ∀ i, i < n → (zipCycle (List.range n) ((List.range n).drop i) (b :: bs))[k]? =
        (b :: bs)[k]?.map fun b => (b, (i + k) % n) := by
      intro i hi
      rw [List.drop_eq_getElem_cons (by rwa [List.length_range]), List.getElem_range]
      cases k with
      | zero =>
        show some (b, i) = some (b, (i + 0) % n)
        rw [Nat.add_zero, Nat.mod_eq_of_lt hi]
      | succ k =>
        have := @ih (i + 1) hi k
        rw [Nat.add_assoc, Nat.add_comm 1 k] at this
        exact this
    rcases Nat.lt_or_eq_of_le hj with hj | rfl
    · exact hstep j hj
    · -- the turn is over
      have hturn := hstep 0 hn
      rw [List.drop_zero, Nat.zero_add] at hturn
      rw [List.drop_eq_nil_of_le (by simp), zipCycle_turn, hturn,
        Nat.add_mod_left]

/-- Batch `k` goes to worker `k % workerCount`. -/
theorem getElem?_sends {workerCount : Nat} (hw : 0 < workerCount) (bs : List β) (k : Nat) :
    (sends workerCount bs)[k]? = bs[k]?.map fun b => (b, k % workerCount) := by
  have := getElem?_zipCycle (Nat.zero_le workerCount) bs k hw
  rwa [List.drop_zero, Nat.zero_add] at this

theorem zipCycle_append (workers : List ω) {ws : List ω} {r : List β}
    (h : r.length = ws.length) (bs : List β) :
    zipCycle workers ws (r ++ bs) = r.zip ws ++ zipCycle workers workers bs := by
  induction ws generalizing r with
  | nil =>
    rw [List.length_eq_zero_iff.1 h]
    exact zipCycle_turn workers bs
  | cons w ws ih =>
    cases r with
    | nil => cases h
    | cons b r => exact congrArg ((b, w) :: ·) (ih (Nat.succ.inj h))

/-- A round is one turn of the cycle. -/
theorem sends_flatten {workerCount : Nat} {rs : List (List β)}
    (h : ∀ r ∈ rs, r.length = workerCount) :
    sends workerCount rs.flatten = rs.flatMap (·.zip (List.range workerCount)) := by
  induction rs with
  | nil => unfold sends zipCycle; cases List.range workerCount <;> rfl
  | cons r rs ih =>
    rw [List.flatten_cons, List.flatMap_cons, ← ih fun r hr => h r (List.mem_cons_of_mem _ hr)]
    refine zipCycle_append _ ?_ _
    rw [List.length_range]
    exact h r List.mem_cons_self

theorem jobsOf_append (w : Nat) (s t : List (List α × Nat)) :
    jobsOf w (s ++ t) = jobsOf w s ++ jobsOf w t := by
  unfold jobsOf
  rw [List.filter_append, List.flatMap_append]

theorem jobsOf_zip_range' (r : List (List α)) (start w : Nat) :
    jobsOf (start + w) (r.zip (List.range' start r.length)) = r[w]?.getD [] := by
  induction r generalizing start w with
  | nil => rfl
  | cons b r ih =>
    rw [List.length_cons, List.range'_succ, List.zip_cons_cons]
    cases w with
    | zero =>
      have hrest : jobsOf start (r.zip (List.range' (start + 1) r.length)) = [] := by
        unfold jobsOf
        rw [List.filter_eq_nil_iff.2]
        · rfl
        · intro p hp
          have := List.left_le_of_mem_range' (List.of_mem_zip hp).2
          simp only [decide_eq_true_eq]
          omega
      unfold jobsOf at hrest ⊢
      rw [Nat.add_zero, List.filter_cons_of_pos (by simp), List.flatMap_cons, hrest,
        List.append_nil]
      rfl
    | succ w =>
      have := ih (start + 1) w
      unfold jobsOf at this ⊢
      rw [List.filter_cons_of_neg (by simp), List.getElem?_cons_succ, ← this,
        Nat.add_right_comm start 1 w, Nat.add_assoc]

/-- A worker gets its list of each round. -/
theorem length_jobsOf_sends {workerCount : Nat} {rs : List (List (List α))}
    (h : ∀ r ∈ rs, r.length = workerCount) (w : Nat) :
    (jobsOf w (sends workerCount rs.flatten)).length =
      (rs.map fun r => (r[w]?.getD []).length).sum := by
  rw [sends_flatten h]
  induction rs with
  | nil => rfl
  | cons r rs ih =>
    have hr := jobsOf_zip_range' r 0 w
    rw [Nat.zero_add, h r List.mem_cons_self, ← List.range_eq_range'] at hr
    rw [List.flatMap_cons, jobsOf_append, List.length_append, hr,
      ih fun r hr => h r (List.mem_cons_of_mem _ hr), List.map_cons, List.sum_cons]

/-! ## The dispatch -/

section

variable {workerCount : Nat} (hw : 0 < workerCount) (jobs : List α)

include hw

theorem length_of_mem_rounds {chunk : Nat} (hchunk : 0 < chunk) :
    ∀ r ∈ rounds chunk workerCount jobs, r.length = workerCount ∧
      (∀ b ∈ r, b.length ≤ chunk) ∧ ∀ a ∈ r, ∀ b ∈ r, a.length ≤ b.length + 1 := by
  obtain ⟨pre, last, c, m, heq, hpre, hlast, hc, hlevel⟩ := rounds_level hchunk hw jobs
  intro r hr
  rw [heq] at hr
  rcases List.mem_append.1 hr with hr | hr
  · obtain ⟨hlen, hfull⟩ := hpre r hr
    refine ⟨hlen, fun b hb => Nat.le_of_eq (hfull b hb), fun a ha b hb => ?_⟩
    rw [hfull a ha, hfull b hb]
    omega
  · obtain rfl := List.mem_singleton.1 hr
    refine ⟨hlast, fun b hb => ?_, fun a ha b hb => ?_⟩
    · have := hlevel.bounds b hb
      omega
    · have hab := hlevel.bounds a ha
      have hbb := hlevel.bounds b hb
      omega

/-- A round is full when a later round holds a job. -/
theorem full_of_later_jobs {chunk : Nat} (hchunk : 0 < chunk) {rs₁ rs₂ : List (List (List α))}
    {r : List (List α)} (h : rounds chunk workerCount jobs = rs₁ ++ r :: rs₂)
    (hlater : rs₂ ≠ []) : ∀ b ∈ r, b.length = chunk := by
  obtain ⟨pre, last, _, _, heq, hpre, _⟩ := rounds_level hchunk hw jobs
  obtain ⟨rs₃, last', rfl⟩ := (List.eq_nil_or_concat' rs₂).resolve_left hlater
  rw [heq, ← List.cons_append, ← List.append_assoc] at h
  have hmem : r ∈ pre := by
    rw [(List.append_inj' h rfl).1]
    simp
  exact (hpre r hmem).2

/-- The loads of two workers differ by at most one job. -/
theorem length_jobsOf_batches_le {v w : Nat} (hv : v < workerCount) (hw' : w < workerCount) :
    (jobsOf v (sends workerCount (batches workerCount jobs))).length ≤
      (jobsOf w (sends workerCount (batches workerCount jobs))).length + 1 := by
  have hchunk : 0 < lambdaWorkerPartJobMaxChunkSize := by decide
  obtain ⟨pre, last, c, m, heq, hpre, hlast, _, hlevel⟩ := rounds_level hchunk hw jobs.reverse
  have hlen := fun r hr => (length_of_mem_rounds hw jobs.reverse hchunk r hr).1
  -- the full rounds give each worker the same
  have hfull : ∀ u, u < workerCount → pre.map (fun r => (r[u]?.getD []).length) =
      pre.map fun _ => lambdaWorkerPartJobMaxChunkSize := by
    intro u hu
    refine List.map_congr_left fun r hr => ?_
    obtain ⟨hr, hb⟩ := hpre r hr
    rw [List.getElem?_eq_getElem (hr ▸ hu)]
    exact hb _ (List.getElem_mem _)
  have hbounds : ∀ u, u < workerCount →
      c ≤ (last[u]?.getD []).length ∧ (last[u]?.getD []).length ≤ c + 1 := by
    intro u hu
    rw [List.getElem?_eq_getElem (hlast ▸ hu)]
    exact hlevel.bounds _ (List.getElem_mem _)
  unfold batches
  rw [length_jobsOf_sends hlen, length_jobsOf_sends hlen, heq]
  simp only [List.map_append, List.sum_append, hfull v hv, hfull w hw', List.map_cons,
    List.map_nil, List.sum_cons, List.sum_nil]
  have := hbounds v hv
  have := hbounds w hw'
  omega

end

/-- The dispatch gives every job to one worker, in batches below the cap that go around the
workers, with full rounds before the last one and level loads. -/
theorem batches_fair {workerCount : Nat} (hw : 0 < workerCount) (jobs : List α) :
    (batches workerCount jobs).flatten.Perm jobs ∧
    (∀ b ∈ batches workerCount jobs, b.length ≤ lambdaWorkerPartJobMaxChunkSize) ∧
    (∀ k, (sends workerCount (batches workerCount jobs))[k]? =
      (batches workerCount jobs)[k]?.map fun b => (b, k % workerCount)) ∧
    (∀ rs₁ r rs₂, rounds lambdaWorkerPartJobMaxChunkSize workerCount jobs.reverse =
        rs₁ ++ r :: rs₂ → (∃ r' ∈ rs₂, ∃ b ∈ r', b ≠ []) →
      ∀ b ∈ r, b.length = lambdaWorkerPartJobMaxChunkSize) ∧
    (∀ r ∈ rounds lambdaWorkerPartJobMaxChunkSize workerCount jobs.reverse,
      r.length = workerCount ∧ ∀ a ∈ r, ∀ b ∈ r, a.length ≤ b.length + 1) ∧
    ∀ v < workerCount, ∀ w < workerCount,
      (jobsOf v (sends workerCount (batches workerCount jobs))).length ≤
        (jobsOf w (sends workerCount (batches workerCount jobs))).length + 1 := by
  have hchunk : 0 < lambdaWorkerPartJobMaxChunkSize := by decide
  have hround := length_of_mem_rounds hw jobs.reverse hchunk
  refine ⟨batches_perm hw jobs, ?_, getElem?_sends hw _, ?_, ?_, ?_⟩
  · intro b hb
    obtain ⟨r, hr, hb⟩ := List.mem_flatten.1 hb
    exact (hround r hr).2.1 b hb
  · rintro rs₁ r rs₂ h ⟨r', hr', _⟩
    exact full_of_later_jobs hw _ hchunk h (List.ne_nil_of_mem hr')
  · exact fun r hr => ⟨(hround r hr).1, (hround r hr).2.2⟩
  · exact fun v hv w hw' => length_jobsOf_batches_le hw jobs hv hw'

/-- Three jobs for two workers. -/
theorem batches_fair_three :
    0 < 2 ∧ (batches 2 [10, 20, 30]).flatten.Perm [10, 20, 30] ∧
      (jobsOf 0 (sends 2 (batches 2 [10, 20, 30]))).length ≤
        (jobsOf 1 (sends 2 (batches 2 [10, 20, 30]))).length + 1 := by
  have h := batches_fair (by decide : 0 < 2) [10, 20, 30]
  exact ⟨by decide, h.1, h.2.2.2.2.2 0 (by decide) 1 (by decide)⟩

end S3Archive.JrodonV3
