import Mathlib.Data.List.Flatten

/-!
# Cutting a stream into pieces of one size

`Chunked P parts rest all`: `all` was written, the full pieces `parts` of `P`
elements each were cut off its front, and `rest` is left. `Chunked.append` writes
more, `Chunked.cut` cuts off one more piece, and `IsChunking` is what the pieces
are once the rest has become the last one.
-/

namespace S3Archive

variable {α : Type} {P : Nat} {parts : List (List α)} {rest all : List α}

structure Chunked (P : Nat) (parts : List (List α)) (rest all : List α) : Prop where
  flatten_append : parts.flatten ++ rest = all
  length_eq : ∀ p ∈ parts, p.length = P

namespace Chunked

theorem nil (P : Nat) : Chunked P [] [] ([] : List α) := ⟨rfl, by simp⟩

theorem append (h : Chunked P parts rest all) (bs : List α) :
    Chunked P parts (rest ++ bs) (all ++ bs) :=
  ⟨by rw [← List.append_assoc, h.flatten_append], h.length_eq⟩

theorem cut (h : Chunked P parts rest all) (hle : P ≤ rest.length) :
    Chunked P (parts ++ [rest.take P]) (rest.drop P) all := by
  refine ⟨?_, fun p hp => ?_⟩
  · simp [h.flatten_append]
  · rcases List.mem_append.1 hp with hp | hp
    · exact h.length_eq p hp
    · rw [List.mem_singleton.1 hp, List.length_take, Nat.min_eq_left hle]

/-- A full piece at the front is cut off. -/
theorem cutPiece {piece : List α} (h : Chunked P parts (piece ++ rest) all)
    (hlen : piece.length = P) : Chunked P (parts ++ [piece]) rest all := by
  have hcut := h.cut (by rw [List.length_append]; omega)
  rwa [List.take_left' hlen, List.drop_left' hlen] at hcut

end Chunked

/-- `parts` cut `all` into pieces of `P` elements, the last one not longer. -/
structure IsChunking (P : Nat) (parts : List (List α)) (all : List α) : Prop where
  flatten_eq : parts.flatten = all
  length_dropLast : ∀ p ∈ parts.dropLast, p.length = P
  length_le : ∀ p ∈ parts, p.length ≤ P

/-- The rest becomes the last piece. -/
theorem Chunked.last (h : Chunked P parts rest all) (hle : rest.length ≤ P) :
    IsChunking P (parts ++ [rest]) all := by
  refine ⟨by simpa using h.flatten_append, fun p hp => ?_, fun p hp => ?_⟩
  · rw [List.dropLast_concat] at hp
    exact h.length_eq p hp
  · rcases List.mem_append.1 hp with hp | hp
    · exact Nat.le_of_eq (h.length_eq p hp)
    · rwa [List.mem_singleton.1 hp]

/-- Nothing is left. -/
theorem Chunked.done (h : Chunked P parts [] all) : IsChunking P parts all := by
  refine ⟨by simpa using h.flatten_append, fun p hp => ?_, fun p hp => ?_⟩
  · exact h.length_eq p (List.dropLast_subset parts hp)
  · exact Nat.le_of_eq (h.length_eq p hp)

theorem IsChunking.length_le_mul (h : IsChunking P parts all) : all.length ≤ parts.length * P := by
  have hle := h.length_le
  rw [← h.flatten_eq]
  clear h
  induction parts with
  | nil => exact Nat.zero_le _
  | cons p parts ih =>
    obtain ⟨hp, hparts⟩ := List.forall_mem_cons.1 hle
    have hrest := ih hparts
    rw [List.flatten_cons, List.length_append, List.length_cons, Nat.succ_mul]
    omega

/-- Without some of the pieces it is another stream. -/
theorem flatten_filter_eq_iff {β : Type} {piece : β → List α} {keep : β → Bool} {xs : List β}
    (hne : ∀ x ∈ xs, piece x ≠ []) :
    ((xs.filter keep).map piece).flatten = (xs.map piece).flatten ↔ ∀ x ∈ xs, keep x = true := by
  constructor
  · intro h
    induction xs with
    | nil => exact fun x hx => (by cases hx)
    | cons y xs ih =>
      have hrest := ih fun x hx => hne x (List.mem_cons_of_mem y hx)
      have hpos := List.length_pos_iff.2 (hne y List.mem_cons_self)
      by_cases hy : keep y = true
      · rw [List.filter_cons_of_pos hy, List.map_cons, List.map_cons, List.flatten_cons,
          List.flatten_cons] at h
        exact List.forall_mem_cons.2 ⟨hy, hrest (List.append_cancel_left h)⟩
      · have hlen := congrArg List.length h
        have hle := ((List.filter_sublist (p := keep) (l := xs)).map piece).flatten.length_le
        rw [List.filter_cons_of_neg hy, List.map_cons, List.flatten_cons, List.length_append] at hlen
        omega
  · intro h
    rw [List.filter_eq_self.2 h]

end S3Archive
