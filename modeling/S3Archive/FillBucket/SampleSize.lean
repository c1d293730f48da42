import Mathlib.Algebra.GroupWithZero.Nat
import S3Archive.Base.Run

/-!
# fill-bucket: sampling the object sizes

`fill` hands out a total of bytes to objects: `sampleSize` draws every size but the
last around the mean of what remains, and the last object gets the rest. A turn of the
loop goes right on the states of `TurnOk` (`exists_turn_iff`), and so the whole loop
does on the runs that stay in them (`fill_sound_iff`). `fill_sound_of_largest` says
which draws are the worst.
-/

namespace S3Archive.FillBucket

def sizeStddev : Nat := 1024 * 1024
def maxDeviation : Nat := 3 * sizeStddev
def minFileSize : Nat := 512 * 1024

inductive Panic where
  | subtractOverflow
  | clampBounds
  deriving DecidableEq

/-- `a - b`. Without overflow checks the difference wraps, and it is the `clamp` or the
allocation after it that panics. -/
def checkedSub (a b : Nat) : Except Panic Nat :=
  if b ≤ a then .ok (a - b) else .error .subtractOverflow

def clamp (v lo hi : Nat) : Except Panic Nat :=
  if lo ≤ hi then .ok (if v < lo then lo else if hi < v then hi else v) else .error .clampBounds

/-- `(budget / objects).round()`: halves go up. -/
def targetMeanSize (remainingSizeBudget remainingObjects : Nat) : Nat :=
  (2 * remainingSizeBudget + remainingObjects) / (2 * remainingObjects)

/-- `v` is the rounded draw. -/
def sampleSize (v remainingSizeBudget remainingObjects : Nat) : Except Panic Nat := do
  let targetMeanSize := targetMeanSize remainingSizeBudget remainingObjects
  let minimumSize := max (← checkedSub targetMeanSize maxDeviation) minFileSize
  let maximumSize := targetMeanSize + maxDeviation
  clamp v minimumSize maximumSize

/-- The loop variables at the start of a turn. -/
structure FillState where
  remainingObjects : Nat
  remainingSizeBudget : Nat
  deriving DecidableEq

/-- One turn: the size of the object, and the state of the next turn. -/
def turn (v : Nat) (s : FillState) : Except Panic (Nat × FillState) := do
  let size ← if 1 < s.remainingObjects then
      sampleSize v s.remainingSizeBudget s.remainingObjects
    else pure s.remainingSizeBudget
  let remainingSizeBudget ← checkedSub s.remainingSizeBudget size
  return (size, ⟨s.remainingObjects - 1, remainingSizeBudget⟩)

/-- The loop with `n` objects to go; `draws` has the draw of every turn. -/
def uploads (draws : Nat → Nat) : Nat → Nat → Except Panic (List Nat)
  | 0, _ => return []
  | n + 1, budget => do
    let (size, s) ← turn (draws (n + 1)) ⟨n + 1, budget⟩
    return size :: (← uploads draws n s.remainingSizeBudget)

/-- The sizes of the objects that `fill` uploads. -/
def fill (draws : Nat → Nat) (objectCount objectSizeMb : Nat) : Except Panic (List Nat) :=
  uploads draws objectCount (objectCount * (objectSizeMb * 1024 * 1024))

/-- No panic, no object below the floor, and the objects add up to the total. -/
def Sound (total : Nat) (r : Except Panic (List Nat)) : Prop :=
  ∃ sizes, r = .ok sizes ∧ (∀ size ∈ sizes, minFileSize ≤ size) ∧ sizes.sum = total

/-- The states before a turn that goes right. Below `maxDeviation` the subtraction in
`sampleSize` overflows; with two objects and a mean half a byte below it, the mean is
rounded up, and the largest size is a byte more than what remains; and nothing but the
budget itself keeps the last object above the floor. -/
def TurnOk (v : Nat) (s : FillState) : Prop :=
  if 1 < s.remainingObjects then
    maxDeviation ≤ targetMeanSize s.remainingSizeBudget s.remainingObjects ∧
      (s.remainingObjects = 2 → s.remainingSizeBudget + 1 = 2 * maxDeviation →
        v ≤ s.remainingSizeBudget)
  else minFileSize ≤ s.remainingSizeBudget

/-! ## One turn -/

/-- The size if the bounds of the draw are all right. -/
def clampedSize (v b n : Nat) : Nat :=
  max (max (targetMeanSize b n - maxDeviation) minFileSize)
    (min v (targetMeanSize b n + maxDeviation))

theorem minFileSize_le_clampedSize (v b n : Nat) : minFileSize ≤ clampedSize v b n :=
  Nat.le_trans (Nat.le_max_right ..) (Nat.le_max_left ..)

theorem sampleSize_eq_ok {v b n size : Nat} : sampleSize v b n = .ok size ↔
    maxDeviation ≤ targetMeanSize b n ∧ clampedSize v b n = size := by
  have hle : max (targetMeanSize b n - maxDeviation) minFileSize ≤
      targetMeanSize b n + maxDeviation := by
    simp only [maxDeviation, minFileSize, sizeStddev]
    omega
  by_cases hlow : maxDeviation ≤ targetMeanSize b n
  · simp only [sampleSize, checkedSub, clamp, hlow, if_true, bind, Except.bind, if_pos hle,
      Except.ok.injEq, true_and, clampedSize]
    split
    · omega
    · split <;> omega
  · simp [sampleSize, checkedSub, hlow, bind, Except.bind]

/-- With three objects or more a size cannot take more than what remains, and with two
it can only where the mean was rounded up to `maxDeviation`. -/
theorem clampedSize_le_iff {v b n : Nat} (hn : 1 < n) (hlow : maxDeviation ≤ targetMeanSize b n) :
    clampedSize v b n ≤ b ↔ (n = 2 → b + 1 = 2 * maxDeviation → v ≤ b) := by
  unfold clampedSize
  have hmean : targetMeanSize b n * (2 * n) ≤ 2 * b + n := Nat.div_mul_le_self ..
  generalize targetMeanSize b n = t at hlow hmean ⊢
  have hfloor : minFileSize < maxDeviation := by decide
  generalize maxDeviation = d at *
  generalize minFileSize = m at *
  rcases (by omega : n = 2 ∨ 3 ≤ n) with rfl | hthree
  · omega
  · have hprod : (2 * t - 1) * 3 ≤ (2 * t - 1) * n := Nat.mul_le_mul_left _ hthree
    have hexpand : (2 * t - 1) * n = t * (2 * n) - n := by
      rw [Nat.sub_mul, Nat.one_mul, Nat.mul_comm 2 t, Nat.mul_assoc]
    omega

theorem turn_eq_ok {v size : Nat} {s s' : FillState} (h : 1 < s.remainingObjects) :
    turn v s = .ok (size, s') ↔
      sampleSize v s.remainingSizeBudget s.remainingObjects = .ok size ∧
        size ≤ s.remainingSizeBudget ∧
        s' = ⟨s.remainingObjects - 1, s.remainingSizeBudget - size⟩ := by
  unfold turn
  rw [if_pos h]
  cases sampleSize v s.remainingSizeBudget s.remainingObjects with
  | error e => simp [bind, Except.bind]
  | ok drawn =>
    simp only [bind, Except.bind, Except.ok.injEq]
    by_cases hle : drawn ≤ s.remainingSizeBudget
    · simp only [checkedSub, if_pos hle, pure, Except.pure, Except.ok.injEq, Prod.mk.injEq]
      constructor
      · rintro ⟨rfl, rfl⟩
        exact ⟨rfl, hle, rfl⟩
      · rintro ⟨rfl, -, rfl⟩
        exact ⟨rfl, rfl⟩
    · simp only [checkedSub, if_neg hle, reduceCtorEq, false_iff]
      rintro ⟨rfl, h, -⟩
      exact hle h

theorem turn_last {v : Nat} {s : FillState} (h : ¬ 1 < s.remainingObjects) :
    turn v s = .ok (s.remainingSizeBudget, ⟨s.remainingObjects - 1, 0⟩) := by
  simp [turn, checkedSub, h, bind, Except.bind, pure, Except.pure]

/-- The turn goes right exactly from the states of `TurnOk`. -/
theorem exists_turn_iff {v : Nat} {s : FillState} :
    (∃ size s', turn v s = .ok (size, s') ∧ minFileSize ≤ size) ↔ TurnOk v s := by
  by_cases h : 1 < s.remainingObjects
  · simp only [TurnOk, if_pos h, turn_eq_ok h, sampleSize_eq_ok]
    constructor
    · rintro ⟨size, s', ⟨⟨hlow, rfl⟩, hle, -⟩, -⟩
      exact ⟨hlow, (clampedSize_le_iff h hlow).1 hle⟩
    · rintro ⟨hlow, hedge⟩
      refine ⟨_, _, ⟨⟨hlow, rfl⟩, (clampedSize_le_iff h hlow).2 hedge, rfl⟩, ?_⟩
      exact minFileSize_le_clampedSize ..
  · simp only [TurnOk, if_neg h, turn_last h, Except.ok.injEq, Prod.mk.injEq]
    constructor
    · rintro ⟨size, s', ⟨rfl, -⟩, hsize⟩
      exact hsize
    · intro hsize
      exact ⟨_, _, ⟨rfl, rfl⟩, hsize⟩

/-! ## The loop -/

/-- The turns of `fill`, each with the size of its object. -/
def FillStep (draws : Nat → Nat) (s : FillState) (size : Nat) (s' : FillState) : Prop :=
  0 < s.remainingObjects ∧ turn (draws s.remainingObjects) s = .ok (size, s')

def FillState.start (objectCount objectSizeMb : Nat) : FillState :=
  ⟨objectCount, objectCount * (objectSizeMb * 1024 * 1024)⟩

/-- A turn moves bytes from the budget to its object; the last object takes them all. -/
theorem turn_budget {v size : Nat} {s s' : FillState} (h : turn v s = .ok (size, s')) :
    s'.remainingObjects = s.remainingObjects - 1 ∧
      size + s'.remainingSizeBudget = s.remainingSizeBudget ∧
      (s'.remainingObjects = 0 → s'.remainingSizeBudget = 0) := by
  by_cases hn : 1 < s.remainingObjects
  · obtain ⟨-, hle, rfl⟩ := (turn_eq_ok hn).1 h
    refine ⟨rfl, Nat.add_sub_cancel' hle, fun hzero => ?_⟩
    dsimp only at hzero
    omega
  · rw [turn_last hn] at h
    simp only [Except.ok.injEq, Prod.mk.injEq] at h
    obtain ⟨rfl, rfl⟩ := h
    exact ⟨rfl, rfl, fun _ => rfl⟩

theorem uploads_succ {draws : Nat → Nat} {n budget : Nat} {sizes : List Nat} :
    uploads draws (n + 1) budget = .ok sizes ↔
      ∃ size rest s', sizes = size :: rest ∧ turn (draws (n + 1)) ⟨n + 1, budget⟩ = .ok (size, s') ∧
        uploads draws n s'.remainingSizeBudget = .ok rest := by
  constructor
  · intro h
    cases hturn : turn (draws (n + 1)) ⟨n + 1, budget⟩ with
    | error e => simp [uploads, hturn, bind, Except.bind] at h
    | ok r =>
      cases hrest : uploads draws n r.2.remainingSizeBudget with
      | error e => simp [uploads, hturn, hrest, bind, Except.bind] at h
      | ok rest =>
        simp only [uploads, hturn, hrest, bind, Except.bind, pure, Except.pure,
          Except.ok.injEq] at h
        exact ⟨r.1, rest, r.2, h.symm, rfl, hrest⟩
  · rintro ⟨size, rest, s', rfl, hturn, hrest⟩
    simp [uploads, hturn, hrest, bind, Except.bind, pure, Except.pure]

/-- A loop is sound if its first turn goes right and the rest is sound. -/
theorem sound_uploads_succ {draws : Nat → Nat} {n budget : Nat} :
    Sound budget (uploads draws (n + 1) budget) ↔
      ∃ size s', turn (draws (n + 1)) ⟨n + 1, budget⟩ = .ok (size, s') ∧ minFileSize ≤ size ∧
        Sound s'.remainingSizeBudget (uploads draws n s'.remainingSizeBudget) := by
  constructor
  · rintro ⟨sizes, hok, hfloor, hsum⟩
    obtain ⟨size, rest, s', rfl, hturn, hrest⟩ := uploads_succ.1 hok
    obtain ⟨-, hbudget, -⟩ := turn_budget hturn
    rw [List.sum_cons] at hsum
    refine ⟨size, s', hturn, hfloor size List.mem_cons_self, rest, hrest, ?_, ?_⟩
    · exact fun x hx => hfloor x (List.mem_cons_of_mem _ hx)
    · dsimp only at hbudget
      omega
  · rintro ⟨size, s', hturn, hsize, rest, hrest, hfloor, hsum⟩
    obtain ⟨-, hbudget, -⟩ := turn_budget hturn
    refine ⟨size :: rest, uploads_succ.2 ⟨size, rest, s', rfl, hturn, hrest⟩, ?_, ?_⟩
    · exact List.forall_mem_cons.2 ⟨hsize, hfloor⟩
    · rw [List.sum_cons, hsum, hbudget]

/-- The loop from a state of its own. -/
theorem sound_uploads_iff {draws : Nat → Nat} {n budget : Nat} (hn : n = 0 → budget = 0) :
    Sound budget (uploads draws n budget) ↔
      ∀ sizes s, Run (FillStep draws) ⟨n, budget⟩ sizes s →
        0 < s.remainingObjects → TurnOk (draws s.remainingObjects) s := by
  induction n generalizing budget with
  | zero =>
    obtain rfl := hn rfl
    constructor
    · intro _ sizes s hrun hpos
      obtain ⟨-, rfl⟩ := hrun.eq_nil_of_stuck fun _ _ hstep => absurd hstep.1 (by decide)
      exact absurd hpos (Nat.lt_irrefl 0)
    · intro _
      exact ⟨[], rfl, by simp, rfl⟩
  | succ n ih =>
    rw [sound_uploads_succ, Run.forall_iff]
    have hrest : ∀ size s', turn (draws (n + 1)) ⟨n + 1, budget⟩ = .ok (size, s') →
        (Sound s'.remainingSizeBudget (uploads draws n s'.remainingSizeBudget) ↔
          ∀ sizes s, Run (FillStep draws) s' sizes s →
            0 < s.remainingObjects → TurnOk (draws s.remainingObjects) s) := by
      rintro size ⟨m, budget'⟩ hturn
      obtain ⟨rfl, -, hzero⟩ := turn_budget hturn
      exact ih hzero
    constructor
    · rintro ⟨size, s', hturn, hsize, hsound⟩
      refine ⟨fun _ => exists_turn_iff.1 ⟨size, s', hturn, hsize⟩, ?_⟩
      rintro size' t ⟨-, hstep⟩
      rw [hturn] at hstep
      cases hstep
      exact (hrest size s' hturn).1 hsound
    · rintro ⟨hok, hruns⟩
      obtain ⟨size, s', hturn, hsize⟩ := exists_turn_iff.2 (hok (Nat.succ_pos n))
      refine ⟨size, s', hturn, hsize, (hrest size s' hturn).2 ?_⟩
      exact hruns size s' ⟨Nat.succ_pos n, hturn⟩

/-- `fill` is sound exactly when all its turns start in a state of `TurnOk`. -/
theorem fill_sound_iff (draws : Nat → Nat) (objectCount objectSizeMb : Nat) :
    Sound (objectCount * (objectSizeMb * 1024 * 1024)) (fill draws objectCount objectSizeMb) ↔
      ∀ sizes s, Run (FillStep draws) (.start objectCount objectSizeMb) sizes s →
        0 < s.remainingObjects → TurnOk (draws s.remainingObjects) s := by
  apply sound_uploads_iff
  rintro rfl
  exact Nat.zero_mul _

/-- Two objects of 1 MiB, whatever is drawn: the mean is below the deviation. -/
theorem fill_not_sound : ¬ ∀ (draws : Nat → Nat) (objectCount objectSizeMb : Nat),
    1 ≤ objectCount → 1 ≤ objectSizeMb →
    objectCount * (objectSizeMb * 1024 * 1024) < 2 ^ 64 →
    Sound (objectCount * (objectSizeMb * 1024 * 1024))
      (fill draws objectCount objectSizeMb) := by
  intro h
  obtain ⟨sizes, hok, -⟩ := h (fun _ => 0) 2 1 (by decide) (by decide) (by decide)
  have hpanic : fill (fun _ => 0) 2 1 = .error .subtractOverflow := by
    rfl
  rw [hpanic] at hok
  cases hok

/-! ## The worst draws -/

/-- A byte more in the budget is at most a byte more in the mean. -/
theorem targetMeanSize_add_le (b k : Nat) {n : Nat} (hn : 0 < n) :
    targetMeanSize (b + k) n ≤ targetMeanSize b n + k := by
  have hk : 2 * k ≤ 2 * n * k := Nat.mul_le_mul_right k (by omega)
  calc (2 * (b + k) + n) / (2 * n)
      ≤ (2 * b + n + 2 * n * k) / (2 * n) := Nat.div_le_div_right (by omega)
    _ = (2 * b + n) / (2 * n) + k := Nat.add_mul_div_left _ _ (by omega)

theorem targetMeanSize_le (b : Nat) {n : Nat} (hn : 0 < n) : targetMeanSize b n ≤ b := by
  have hzero : targetMeanSize 0 n = 0 := Nat.div_eq_of_lt (by omega)
  have hadd := targetMeanSize_add_le 0 b hn
  rwa [hzero, Nat.zero_add] at hadd

theorem targetMeanSize_mono {b b' : Nat} (h : b ≤ b') (n : Nat) :
    targetMeanSize b n ≤ targetMeanSize b' n :=
  Nat.div_le_div_right (by omega)

/-- The largest draw leaves the least to the objects after it. -/
theorem turn_of_largest {large v n b b' size : Nat} {t : FillState} (hle : b ≤ b')
    (hlarge : targetMeanSize b n + maxDeviation ≤ large)
    (hturn : turn large ⟨n, b⟩ = .ok (size, t)) (hsize : minFileSize ≤ size) :
    ∃ size' t', turn v ⟨n, b'⟩ = .ok (size', t') ∧ minFileSize ≤ size' ∧
      t.remainingSizeBudget ≤ t'.remainingSizeBudget := by
  by_cases hn : 1 < n
  · obtain ⟨hsample, hbudget, rfl⟩ := (turn_eq_ok hn).1 hturn
    obtain ⟨hlow, hmax⟩ := sampleSize_eq_ok.1 hsample
    have hmono := targetMeanSize_mono hle n
    have hslow := targetMeanSize_add_le b (b' - b) (Nat.zero_lt_of_lt hn)
    rw [Nat.add_sub_cancel' hle] at hslow
    have hsum : clampedSize v b' n + (b - size) ≤ b' := by
      have hfloor : minFileSize < maxDeviation := by decide
      dsimp only [clampedSize] at hlow hbudget hmax ⊢
      generalize maxDeviation = d at *
      generalize minFileSize = m at *
      omega
    refine ⟨_, _, (turn_eq_ok hn).2 ⟨sampleSize_eq_ok.2 ⟨Nat.le_trans hlow hmono, rfl⟩, ?_, rfl⟩,
      minFileSize_le_clampedSize .., ?_⟩
    · exact Nat.le_trans (Nat.le_add_right ..) hsum
    · exact Nat.le_sub_of_add_le (by rwa [Nat.add_comm])
  · rw [turn_last hn] at hturn
    cases hturn
    exact ⟨b', _, turn_last hn, Nat.le_trans hsize hle, Nat.zero_le _⟩

/-- If the loop is sound for draws that are always the largest, it is for all draws. -/
theorem uploads_sound_of_largest {large n b b' : Nat} (draws : Nat → Nat) (hle : b ≤ b')
    (hzero : n = 0 → b' = 0) (hlarge : b + maxDeviation ≤ large)
    (h : Sound b (uploads (fun _ => large) n b)) : Sound b' (uploads draws n b') := by
  induction n generalizing b b' with
  | zero =>
    obtain rfl := hzero rfl
    exact ⟨[], rfl, by simp, rfl⟩
  | succ n ih =>
    obtain ⟨size, t, hturn, hsize, hrest⟩ := sound_uploads_succ.1 h
    have hmean : targetMeanSize b (n + 1) ≤ b := targetMeanSize_le b (Nat.succ_pos n)
    obtain ⟨size', t', hturn', hsize', hle'⟩ :=
      @turn_of_largest large (draws (n + 1)) (n + 1) b b' size t hle (by omega) hturn hsize
    obtain ⟨hobjects, -, hlast⟩ := turn_budget hturn'
    obtain ⟨-, hbudget, -⟩ := turn_budget hturn
    refine sound_uploads_succ.2 ⟨size', t', hturn', hsize', ih hle' ?_ ?_ hrest⟩
    · rintro rfl
      exact hlast hobjects
    · dsimp only at hbudget
      omega

/-- The draws that are always the largest decide about all others. -/
theorem fill_sound_of_largest (objectCount objectSizeMb : Nat) :
    let total := objectCount * (objectSizeMb * 1024 * 1024)
    (∀ draws, Sound total (fill draws objectCount objectSizeMb)) ↔
      Sound total (fill (fun _ => total + maxDeviation) objectCount objectSizeMb) := by
  refine ⟨fun h => h _, fun h draws => ?_⟩
  refine uploads_sound_of_largest draws (Nat.le_refl _) ?_ (Nat.le_refl _) h
  rintro rfl
  exact Nat.zero_mul _

end S3Archive.FillBucket
