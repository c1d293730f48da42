import Mathlib.Data.List.Basic
import Mathlib.Algebra.BigOperators.Group.List.Basic
import Mathlib.Algebra.GroupWithZero.Nat

/-!
# Offsets in a concatenation

`offsetsFrom w off xs` puts before each element of `xs` the offset at which it
starts when the elements are laid out one after the other from `off` on, `w`
being their widths. `At s off b` says that `b` is found in `s` at `off`.
-/

namespace S3Archive

variable {α β : Type}

def offsetsFrom (w : α → Nat) : Nat → List α → List (Nat × α)
  | _, [] => []
  | off, x :: xs => (off, x) :: offsetsFrom w (off + w x) xs

section

variable (w : α → Nat)

@[simp] theorem offsetsFrom_nil (off : Nat) : offsetsFrom w off [] = [] := rfl

@[simp] theorem offsetsFrom_cons (off : Nat) (x : α) (xs : List α) :
    offsetsFrom w off (x :: xs) = (off, x) :: offsetsFrom w (off + w x) xs := rfl

theorem offsetsFrom_append (off : Nat) (xs ys : List α) :
    offsetsFrom w off (xs ++ ys) =
      offsetsFrom w off xs ++ offsetsFrom w (off + (xs.map w).sum) ys := by
  induction xs generalizing off with
  | nil => simp
  | cons x xs ih => simp [ih, Nat.add_assoc]

@[simp] theorem length_offsetsFrom (off : Nat) (xs : List α) :
    (offsetsFrom w off xs).length = xs.length := by
  induction xs generalizing off with
  | nil => rfl
  | cons x xs ih => simp [ih]

theorem map_snd_offsetsFrom (off : Nat) (xs : List α) :
    (offsetsFrom w off xs).map Prod.snd = xs := by
  induction xs generalizing off with
  | nil => rfl
  | cons x xs ih => simp [ih]

theorem offsetsFrom_map {γ : Type} (f : γ → α) (off : Nat) (xs : List γ) :
    offsetsFrom w off (xs.map f) =
      (offsetsFrom (fun x => w (f x)) off xs).map (Prod.map id f) := by
  induction xs generalizing off with
  | nil => rfl
  | cons x xs ih => simp [ih]

theorem offsetsFrom_congr {w' : α → Nat} {xs : List α} (h : ∀ x ∈ xs, w x = w' x) (off : Nat) :
    offsetsFrom w off xs = offsetsFrom w' off xs := by
  induction xs generalizing off with
  | nil => rfl
  | cons x xs ih =>
    rw [offsetsFrom_cons, offsetsFrom_cons, h x List.mem_cons_self,
      ih fun y hy => h y (List.mem_cons_of_mem x hy)]

theorem snd_mem_of_mem_offsetsFrom {off : Nat} {xs : List α} {p : Nat × α}
    (h : p ∈ offsetsFrom w off xs) : p.2 ∈ xs := by
  rw [← map_snd_offsetsFrom w off xs]
  exact List.mem_map_of_mem h

theorem le_of_mem_offsetsFrom {off : Nat} {xs : List α} {p : Nat × α}
    (h : p ∈ offsetsFrom w off xs) : off ≤ p.1 := by
  induction xs generalizing off with
  | nil => cases h
  | cons x xs ih =>
    rcases List.mem_cons.1 h with rfl | h
    · exact Nat.le_refl _
    · exact Nat.le_trans (Nat.le_add_right _ _) (ih h)

/-- Each element ends before the end of the whole. -/
theorem end_le_of_mem_offsetsFrom {off : Nat} {xs : List α} {p : Nat × α}
    (h : p ∈ offsetsFrom w off xs) : p.1 + w p.2 ≤ off + (xs.map w).sum := by
  induction xs generalizing off with
  | nil => cases h
  | cons x xs ih =>
    rw [List.map_cons, List.sum_cons]
    rcases List.mem_cons.1 h with rfl | h
    · exact Nat.add_le_add_left (Nat.le_add_right _ _) _
    · have := ih h
      omega

/-- Elements of positive width start at increasing offsets. -/
theorem pairwise_offsetsFrom (hw : ∀ x, 0 < w x) (off : Nat) (xs : List α) :
    ((offsetsFrom w off xs).map Prod.fst).Pairwise (· < ·) := by
  induction xs generalizing off with
  | nil => exact .nil
  | cons x xs ih =>
    refine .cons ?_ (ih _)
    intro n hn
    obtain ⟨p, hp, rfl⟩ := List.mem_map.1 hn
    have := le_of_mem_offsetsFrom w hp
    have := hw x
    omega

end

/-! ## Positions -/

/-- `b` is found in `s` at `off`. -/
def At (s : List β) (off : Nat) (b : List β) : Prop :=
  ∃ pre post, s = pre ++ b ++ post ∧ pre.length = off

theorem At.append_right {s b t : List β} {off : Nat} (h : At s off b) : At (s ++ t) off b := by
  obtain ⟨pre, post, rfl, hpre⟩ := h
  exact ⟨pre, post ++ t, by simp, hpre⟩

theorem At.left {s b c : List β} {off : Nat} (h : At s off (b ++ c)) : At s off b := by
  obtain ⟨pre, post, rfl, hpre⟩ := h
  exact ⟨pre, c ++ post, by simp, hpre⟩

theorem At.take_drop {s b : List β} {off : Nat} (h : At s off b) :
    (s.drop off).take b.length = b := by
  obtain ⟨pre, post, rfl, rfl⟩ := h
  rw [List.append_assoc, List.drop_left, List.take_left]

/-- In a concatenation of encodings of the given widths each element is found at its offset. -/
theorem at_flatMap {w : α → Nat} {enc : Nat × α → List β} {off : Nat} {xs : List α}
    (hw : ∀ p ∈ offsetsFrom w off xs, (enc p).length = w p.2) {pre : List β}
    (hpre : pre.length = off) {p : Nat × α} (hp : p ∈ offsetsFrom w off xs) :
    At (pre ++ (offsetsFrom w off xs).flatMap enc) p.1 (enc p) := by
  induction xs generalizing off pre with
  | nil => cases hp
  | cons x xs ih =>
    rw [offsetsFrom_cons] at hw hp ⊢
    have hx := hw _ List.mem_cons_self
    rcases List.mem_cons.1 hp with rfl | hp
    · exact ⟨pre, (offsetsFrom w (off + w x) xs).flatMap enc, by simp, hpre⟩
    · have hlen : (pre ++ enc (off, x)).length = off + w x := by
        rw [List.length_append, hpre, hx]
      have := ih (fun q hq => hw q (List.mem_cons_of_mem _ hq)) hlen hp
      simpa using this

end S3Archive
