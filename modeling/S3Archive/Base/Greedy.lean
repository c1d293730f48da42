import Mathlib.Data.List.Basic
import Mathlib.Algebra.BigOperators.Group.List.Basic
import Mathlib.Algebra.GroupWithZero.Nat

/-!
# Greedy filling

`drain w need xs` is the loop that takes elements off the front of a queue until
their weights have brought a missing amount down to zero, or the queue is empty.
The lemmas say what such a loop takes: a prefix, with no element to spare.
-/

namespace S3Archive

variable {α : Type}

/-- Where a `drain` loop stops. -/
structure Drained (α : Type) where
  /-- The amount that is still missing. -/
  need : Nat
  taken : List α
  rest : List α
  deriving DecidableEq

def drain (w : α → Nat) : Nat → List α → Drained α
  | need, [] => ⟨need, [], []⟩
  | need, x :: xs =>
    if need > 0 then
      let r := drain w (need - w x) xs
      ⟨r.need, x :: r.taken, r.rest⟩
    else ⟨need, [], x :: xs⟩

section

variable {w : α → Nat} {need : Nat} {xs : List α}

@[simp] theorem drain_nil (w : α → Nat) (need : Nat) : drain w need [] = ⟨need, [], []⟩ := rfl

@[simp] theorem drain_zero (w : α → Nat) (xs : List α) : drain w 0 xs = ⟨0, [], xs⟩ := by
  cases xs <;> rfl

theorem drain_cons (h : 0 < need) (x : α) :
    drain w need (x :: xs) = ⟨(drain w (need - w x) xs).need,
      x :: (drain w (need - w x) xs).taken, (drain w (need - w x) xs).rest⟩ := by
  rw [drain, if_pos h]

/-- The loop takes a prefix. -/
theorem drain_append (w : α → Nat) (need : Nat) (xs : List α) :
    (drain w need xs).taken ++ (drain w need xs).rest = xs := by
  induction xs generalizing need with
  | nil => rfl
  | cons x xs ih =>
    by_cases h : 0 < need
    · rw [drain_cons h]
      simp [ih]
    · obtain rfl : need = 0 := by omega
      simp

theorem drain_need (w : α → Nat) (need : Nat) (xs : List α) :
    (drain w need xs).need = need - ((drain w need xs).taken.map w).sum := by
  induction xs generalizing need with
  | nil => rfl
  | cons x xs ih =>
    by_cases h : 0 < need
    · rw [drain_cons h]
      simp only [List.map_cons, List.sum_cons]
      rw [ih]
      omega
    · obtain rfl : need = 0 := by omega
      simp

/-- Something stays missing only when the queue has run out. -/
theorem drain_rest_eq_nil (h : 0 < (drain w need xs).need) : (drain w need xs).rest = [] := by
  induction xs generalizing need with
  | nil => rfl
  | cons x xs ih =>
    by_cases hn : 0 < need
    · rw [drain_cons hn] at h ⊢
      exact ih h
    · obtain rfl : need = 0 := by omega
      simp at h

/-- The last element taken overshoots by at most its own weight. -/
theorem drain_sum_le {b : Nat} (hb : ∀ x ∈ (drain w need xs).taken, w x ≤ b) :
    ((drain w need xs).taken.map w).sum ≤ need + b := by
  induction xs generalizing need with
  | nil => simp
  | cons x xs ih =>
    by_cases h : 0 < need
    · rw [drain_cons h] at hb ⊢
      simp only [List.map_cons, List.sum_cons]
      have hx := hb x List.mem_cons_self
      have hrest := ih fun y hy => hb y (List.mem_cons_of_mem x hy)
      rcases Nat.le_total need (w x) with hle | hle
      · rw [Nat.sub_eq_zero_of_le hle] at hrest ⊢
        simp only [drain_zero, List.map_nil, List.sum_nil]
        omega
      · omega
    · obtain rfl : need = 0 := by omega
      simp

theorem drain_taken_ne_nil (h : 0 < need) (hx : xs ≠ []) : (drain w need xs).taken ≠ [] := by
  cases xs with
  | nil => exact absurd rfl hx
  | cons x xs => rw [drain_cons h]; exact List.cons_ne_nil _ _

theorem drain_taken_subset (w : α → Nat) (need : Nat) (xs : List α) :
    (drain w need xs).taken ⊆ xs := by
  intro x hx
  rw [← drain_append w need xs]
  exact List.mem_append_left _ hx

theorem drain_rest_subset (w : α → Nat) (need : Nat) (xs : List α) :
    (drain w need xs).rest ⊆ xs := by
  intro x hx
  rw [← drain_append w need xs]
  exact List.mem_append_right _ hx

theorem drain_rest_sublist (w : α → Nat) (need : Nat) (xs : List α) :
    (drain w need xs).rest.Sublist xs := by
  conv_rhs => rw [← drain_append w need xs]
  exact List.sublist_append_right _ _

theorem drain_rest_length_lt (h : 0 < need) (hx : xs ≠ []) :
    (drain w need xs).rest.length < xs.length := by
  have hlen := congrArg List.length (drain_append w need xs)
  have hpos := List.length_pos_iff.2 (drain_taken_ne_nil (w := w) h hx)
  rw [List.length_append] at hlen
  omega

end

end S3Archive
