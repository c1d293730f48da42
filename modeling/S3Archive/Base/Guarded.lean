import Mathlib.Data.List.Basic

/-!
# Guarded functions

`Guards f P g`: the partial function `f` is defined exactly where `P` holds, and
is `g` there. Mapping a guarded function over a list is guarded by `P` for all
elements.
-/

namespace S3Archive

variable {α β : Type}

/-- `f` gives `g x` when `P x` holds and nothing otherwise. -/
def Guards (f : α → Option β) (P : α → Prop) (g : α → β) : Prop :=
  ∀ x y, f x = some y ↔ P x ∧ y = g x

theorem Guards.mapM {f : α → Option β} {P : α → Prop} {g : α → β} (h : Guards f P g)
    (xs : List α) (ys : List β) : xs.mapM f = some ys ↔ (∀ x ∈ xs, P x) ∧ ys = xs.map g := by
  induction xs generalizing ys with
  | nil => simp [eq_comm]
  | cons x xs ih =>
    rw [List.mapM_cons]
    simp only [Option.bind_eq_bind, Option.bind_eq_some_iff, h x, ih, Option.pure_def,
      Option.some.injEq, List.forall_mem_cons, List.map_cons]
    constructor
    · rintro ⟨y, ⟨hx, rfl⟩, zs, ⟨hxs, rfl⟩, rfl⟩
      exact ⟨⟨hx, hxs⟩, rfl⟩
    · rintro ⟨⟨hx, hxs⟩, rfl⟩
      exact ⟨_, ⟨hx, rfl⟩, _, ⟨hxs, rfl⟩, rfl⟩

/-- A function that is defined on all elements of a list. -/
theorem mapM_eq_some {f : α → Option β} {g : α → β} {xs : List α} (h : ∀ x ∈ xs, f x = some (g x)) :
    xs.mapM f = some (xs.map g) := by
  induction xs with
  | nil => rfl
  | cons x xs ih =>
    have htail := ih fun y hy => h y (List.mem_cons_of_mem x hy)
    rw [List.mapM_cons, h x List.mem_cons_self, htail]
    rfl

/-- The values are `g x` exactly when each of them is. -/
theorem mapM_eq_map_iff {f : α → Option β} {g : α → β} {xs : List α} :
    xs.mapM f = some (xs.map g) ↔ ∀ x ∈ xs, f x = some (g x) := by
  refine ⟨fun h => ?_, mapM_eq_some⟩
  induction xs with
  | nil => exact fun x hx => absurd hx List.not_mem_nil
  | cons x xs ih =>
    rw [List.mapM_cons] at h
    simp only [Option.bind_eq_bind, Option.bind_eq_some_iff, Option.pure_def, Option.some.injEq,
      List.map_cons, List.cons.injEq] at h
    obtain ⟨y, hy, ys, hys, rfl, rfl⟩ := h
    exact List.forall_mem_cons.2 ⟨hy, ih hys⟩

end S3Archive
