import Mathlib.Algebra.Order.Field.Basic
import Mathlib.Algebra.BigOperators.Group.List.Basic
import Mathlib.Tactic.Linarith
import Mathlib.Tactic.Ring

/-!
# Token buckets

A bucket of capacity `C` that is filled at a rate of at most `R`. `Metered` lists
what is taken from it at which times; `takenIn` is what is taken in a closed
window. However the level moves below the two bounds, a window of length `d`
takes no more than `C + R * d` (`Metered.takenIn_le`).
-/

namespace S3Archive

variable {K : Type} [Field K]

/-- What is taken at the times that satisfy `p`. -/
def takenAt (p : K → Bool) (events : List (K × K)) : K :=
  ((events.filter fun e => p e.1).map Prod.snd).sum

theorem takenAt_cons (p : K → Bool) (t taken : K) (events : List (K × K)) :
    takenAt p ((t, taken) :: events) = (if p t then taken else 0) + takenAt p events := by
  unfold takenAt
  by_cases hp : p t <;> simp [hp]

theorem takenAt_congr {p q : K → Bool} {events : List (K × K)}
    (h : ∀ e ∈ events, p e.1 = q e.1) : takenAt p events = takenAt q events := by
  unfold takenAt
  rw [List.filter_congr h]

theorem takenAt_eq_zero {p : K → Bool} {events : List (K × K)}
    (h : ∀ e ∈ events, p e.1 = false) : takenAt p events = 0 := by
  unfold takenAt
  rw [List.filter_eq_nil_iff.2 fun e he => by rw [h e he]; exact Bool.false_ne_true]
  rfl

variable [LinearOrder K]

/-- What is taken in the closed window of length `d` from `start`. -/
def takenIn (start d : K) : List (K × K) → K :=
  takenAt fun t => decide (start ≤ t) && decide (t ≤ start + d)

/-- The bucket had `level` at time `last`. Each entry is a time and the amount taken then; before,
the level was raised by at most `R` for each unit of time and to at most `C`. -/
inductive Metered (R C : K) : K → K → List (K × K) → Prop
  | nil {last level : K} : Metered R C last level []
  | cons {last level level' t taken : K} {rest : List (K × K)} (htime : last ≤ t)
      (hcap : level' + taken ≤ C) (hrate : level' + taken ≤ level + R * (t - last))
      (hlevel : 0 ≤ level') (hrest : Metered R C t level' rest) :
      Metered R C last level ((t, taken) :: rest)

namespace Metered

variable {R C last level : K} {events : List (K × K)}

theorem le_time (h : Metered R C last level events) : ∀ e ∈ events, last ≤ e.1 := by
  induction h with
  | nil => nofun
  | cons htime _ _ _ _ ih =>
    intro e he
    rcases List.mem_cons.1 he with rfl | he
    · exact htime
    · exact htime.trans (ih e he)

variable [IsStrictOrderedRing K]

/-- Up to time `stop`, the level and the inflow are taken at most. -/
theorem takenAt_le (hR : 0 ≤ R) {stop : K} (h : Metered R C last level events)
    (hlevel : 0 ≤ level) (hstop : last ≤ stop) :
    takenAt (fun t => decide (t ≤ stop)) events ≤ level + R * (stop - last) := by
  induction h with
  | nil => exact add_nonneg hlevel (mul_nonneg hR (sub_nonneg.2 hstop))
  | @cons last level level' t taken rest htime hcap hrate hlevel' hrest ih =>
    by_cases ht : t ≤ stop
    · have hrec := ih hlevel' ht
      rw [takenAt_cons, if_pos (decide_eq_true ht)]
      calc taken + takenAt (fun t => decide (t ≤ stop)) rest
          ≤ taken + (level' + R * (stop - t)) := by linarith
        _ ≤ level + R * (t - last) + R * (stop - t) := by linarith
        _ = level + R * (stop - last) := by ring
    · -- the window is over
      have hzero : takenAt (fun t => decide (t ≤ stop)) ((t, taken) :: rest) = 0 := by
        refine takenAt_eq_zero fun e he => decide_eq_false fun hle => ht ?_
        rcases List.mem_cons.1 he with rfl | he
        · exact hle
        · exact (hrest.le_time e he).trans hle
      rw [hzero]
      exact add_nonneg hlevel (mul_nonneg hR (sub_nonneg.2 hstop))

/-- A window takes at most the capacity and the inflow over its length. -/
theorem takenIn_le (hR : 0 ≤ R) (hC : 0 ≤ C) {start d : K} (hd : 0 ≤ d)
    (h : Metered R C last level events) : takenIn start d events ≤ C + R * d := by
  have hbound : 0 ≤ C + R * d := add_nonneg hC (mul_nonneg hR hd)
  unfold takenIn
  induction h with
  | nil => exact hbound
  | @cons last level level' t taken rest htime hcap hrate hlevel' hrest ih =>
    rw [takenAt_cons]
    by_cases hstart : start ≤ t
    · by_cases ht : t ≤ start + d
      · -- from here on the window is all times up to its end
        have hcongr : takenAt (fun t => decide (start ≤ t) && decide (t ≤ start + d)) rest =
            takenAt (fun t => decide (t ≤ start + d)) rest := by
          refine takenAt_congr fun e he => ?_
          rw [decide_eq_true (hstart.trans (hrest.le_time e he)), Bool.true_and]
        have hrec := hrest.takenAt_le hR hlevel' ht
        have hle : R * (start + d - t) ≤ R * d :=
          mul_le_mul_of_nonneg_left (by linarith) hR
        rw [if_pos (by rw [decide_eq_true hstart, decide_eq_true ht]; rfl), hcongr]
        linarith
      · have hzero : takenAt (fun t => decide (start ≤ t) && decide (t ≤ start + d)) rest = 0 := by
          refine takenAt_eq_zero fun e he => ?_
          have hlt : ¬ e.1 ≤ start + d := fun hle => ht ((hrest.le_time e he).trans hle)
          rw [decide_eq_false hlt, Bool.and_false]
        rw [if_neg (by rw [decide_eq_false ht, Bool.and_false]; exact Bool.false_ne_true), hzero,
          add_zero]
        exact hbound
    · rw [if_neg (by rw [decide_eq_false hstart]; exact Bool.false_ne_true), zero_add]
      exact ih

end Metered

end S3Archive
