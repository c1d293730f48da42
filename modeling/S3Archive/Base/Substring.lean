import Mathlib.Data.List.Basic

/-!
# Substring search

`memmem hay needle` is where `needle` first occurs in `hay`. `memmem_append_self`
finds a needle in front, and `memmem_skip` passes over what cannot contain the
needle's first element.
-/

namespace S3Archive

section

variable {α : Type}

/-- A separator ends one part of a text only. -/
theorem append_sep_inj {c : α} {a b r s : List α} (ha : c ∉ a) (hb : c ∉ b)
    (h : a ++ c :: r = b ++ c :: s) : a = b ∧ r = s := by
  induction a generalizing b with
  | nil =>
    cases b with
    | nil => exact ⟨rfl, (List.cons.inj h).2⟩
    | cons d b => exact absurd ((List.cons.inj h).1 ▸ List.mem_cons_self) hb
  | cons d a ih =>
    rw [List.mem_cons, not_or] at ha
    cases b with
    | nil => exact absurd (List.cons.inj h).1.symm ha.1
    | cons e b =>
      rw [List.mem_cons, not_or] at hb
      obtain ⟨hde, htail⟩ := List.cons.inj h
      obtain ⟨hab, hrs⟩ := ih ha.2 hb.2 htail
      exact ⟨by rw [hde, hab], hrs⟩

end

variable {α : Type} [DecidableEq α]

/-- The index of the first occurrence of `needle`. -/
def memmem : List α → List α → Option Nat
  | [], needle => if needle = [] then some 0 else none
  | c :: hay, needle => if needle <+: c :: hay then some 0 else (memmem hay needle).map (· + 1)

theorem memmem_of_prefix {hay needle : List α} (h : needle <+: hay) :
    memmem hay needle = some 0 := by
  cases hay with
  | nil => exact if_pos (List.prefix_nil.1 h)
  | cons c hay => exact if_pos h

theorem memmem_append_self (needle rest : List α) : memmem (needle ++ rest) needle = some 0 :=
  memmem_of_prefix (List.prefix_append needle rest)

theorem memmem_cons_of_not_prefix {c : α} {hay needle : List α} (h : ¬ needle <+: c :: hay) :
    memmem (c :: hay) needle = (memmem hay needle).map (· + 1) := if_neg h

/-- What does not contain the needle's first element is passed over. -/
theorem memmem_skip {c : α} {skipped : List α} (hc : c ∉ skipped) (hay needle : List α) :
    memmem (skipped ++ hay) (c :: needle) =
      (memmem hay (c :: needle)).map (skipped.length + ·) := by
  induction skipped with
  | nil => simp
  | cons d skipped ih =>
    rw [List.mem_cons, not_or] at hc
    have hno : ¬ c :: needle <+: d :: (skipped ++ hay) :=
      fun h => hc.1 (List.cons_prefix_cons.1 h).1
    rw [List.cons_append, memmem_cons_of_not_prefix hno, ih hc.2, Option.map_map]
    congr 1
    funext i
    simp only [Function.comp_apply, List.length_cons]
    omega

theorem memmem_eq_none_of_not_mem {c : α} {hay : List α} (hc : c ∉ hay) (needle : List α) :
    memmem hay (c :: needle) = none := by
  have hskip := memmem_skip hc [] needle
  rw [List.append_nil] at hskip
  rw [hskip]
  exact Option.map_eq_none_iff.2 (if_neg (List.cons_ne_nil _ _))

/-- An occurrence, and the first one. -/
theorem memmem_eq_some {hay needle : List α} {i : Nat} (h : memmem hay needle = some i) :
    needle <+: hay.drop i ∧ ∀ j < i, ¬ needle <+: hay.drop j := by
  induction hay generalizing i with
  | nil =>
    unfold memmem at h
    split_ifs at h with hnil
    cases h
    exact ⟨by rw [hnil]; exact List.nil_prefix, fun j hj => absurd hj (Nat.not_lt_zero j)⟩
  | cons c hay ih =>
    unfold memmem at h
    split_ifs at h with hpre
    · cases h
      exact ⟨hpre, fun j hj => absurd hj (Nat.not_lt_zero j)⟩
    · obtain ⟨k, hk, rfl⟩ := Option.map_eq_some_iff.1 h
      obtain ⟨hfound, hfirst⟩ := ih hk
      refine ⟨hfound, fun j hj => ?_⟩
      cases j with
      | zero => exact hpre
      | succ j => exact hfirst j (by omega)

/-- An occurrence lies inside of the text. -/
theorem memmem_add_length_le {hay needle : List α} {i : Nat} (h : memmem hay needle = some i)
    (hne : needle ≠ []) : i + needle.length ≤ hay.length := by
  have hle := (memmem_eq_some h).1.length_le
  have hpos := List.length_pos_iff.2 hne
  rw [List.length_drop] at hle
  omega

end S3Archive
