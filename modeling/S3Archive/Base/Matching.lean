import Mathlib.Data.List.Perm.Basic

/-!
# Matching two lists up to order

`Matched R xs ys`: some reordering of `xs` is related to `ys` element by element.
When each `x` has at most one `y`, what is matched with the same list is the same
up to order (`Matched.perm`).
-/

namespace S3Archive

variable {α β γ : Type} {R : α → β → Prop}

def Matched (R : α → β → Prop) (xs : List α) (ys : List β) : Prop :=
  ∃ zs : List α, zs.Perm xs ∧ List.Forall₂ R zs ys

namespace Matched

variable {xs xs' : List α} {ys ys' : List β}

theorem of_forall₂ (h : List.Forall₂ R xs ys) : Matched R xs ys := ⟨xs, .refl _, h⟩

theorem nil : Matched R [] [] := of_forall₂ .nil

theorem of_perm (h : Matched R xs ys) (hperm : xs.Perm xs') : Matched R xs' ys := by
  obtain ⟨zs, hzs, hR⟩ := h
  exact ⟨zs, hzs.trans hperm, hR⟩

theorem append (h : Matched R xs ys) (h' : Matched R xs' ys') :
    Matched R (xs ++ xs') (ys ++ ys') := by
  obtain ⟨zs, hzs, hR⟩ := h
  obtain ⟨zs', hzs', hR'⟩ := h'
  exact ⟨zs ++ zs', hzs.append hzs', List.rel_append hR hR'⟩

theorem imp_of_mem {S : α → β → Prop} (h : Matched R xs ys)
    (himp : ∀ x y, x ∈ xs → R x y → S x y) : Matched S xs ys := by
  obtain ⟨zs, hzs, hR⟩ := h
  refine ⟨zs, hzs, ?_⟩
  have hmem : ∀ x ∈ zs, x ∈ xs := fun x hx => hzs.subset hx
  clear hzs
  induction hR with
  | nil => exact .nil
  | cons hhead _ ih =>
    exact .cons (himp _ _ (hmem _ List.mem_cons_self) hhead)
      (ih fun x hx => hmem x (List.mem_cons_of_mem _ hx))

theorem imp {S : α → β → Prop} (h : Matched R xs ys) (himp : ∀ x y, R x y → S x y) :
    Matched S xs ys :=
  h.imp_of_mem fun x y _ => himp x y

/-- Elements of the first list that are images. -/
theorem of_map {f : γ → α} {cs : List γ} (h : Matched R (cs.map f) ys) :
    Matched (fun c y => R (f c) y) cs ys := by
  obtain ⟨zs, hzs, hR⟩ := h
  have hmap : List.Forall₂ (fun z c => z = f c) (cs.map f) cs :=
    List.forall₂_map_left_iff.2 (List.forall₂_same.2 fun _ _ => rfl)
  obtain ⟨cs', hcs', hperm⟩ := List.perm_comp_forall₂ hzs hmap
  obtain rfl : zs = cs'.map f := by
    rw [← List.forall₂_eq_eq_eq, List.forall₂_map_right_iff]
    exact hcs'
  exact ⟨cs', hperm, List.forall₂_map_left_iff.1 hR⟩

theorem map {f : γ → α} {cs : List γ} (h : Matched (fun c y => R (f c) y) cs ys) :
    Matched R (cs.map f) ys := by
  obtain ⟨zs, hzs, hR⟩ := h
  exact ⟨zs.map f, hzs.map f, List.forall₂_map_left_iff.2 hR⟩

theorem exists_of_mem (h : Matched R xs ys) {x : α} (hx : x ∈ xs) : ∃ y ∈ ys, R x y := by
  obtain ⟨zs, hzs, hR⟩ := h
  replace hx := hzs.mem_iff.2 hx
  clear hzs
  induction hR with
  | nil => cases hx
  | cons hhead _ ih =>
    rcases List.mem_cons.1 hx with rfl | hx
    · exact ⟨_, List.mem_cons_self, hhead⟩
    · obtain ⟨y, hy, hxy⟩ := ih hx
      exact ⟨y, List.mem_cons_of_mem _ hy, hxy⟩

/-- What the relation keeps is the same on both sides up to order. -/
theorem map_perm {f : α → γ} {g : β → γ} (h : Matched R xs ys) (hR : ∀ x y, R x y → g y = f x) :
    (ys.map g).Perm (xs.map f) := by
  obtain ⟨zs, hzs, hall⟩ := h
  have heq : ys.map g = zs.map f := by
    clear hzs
    induction hall with
    | nil => rfl
    | cons hhead _ ih => rw [List.map_cons, List.map_cons, ih, hR _ _ hhead]
  rw [heq]
  exact hzs.map f

/-- A functional relation matches a list with one list only, up to order. -/
theorem perm (h : Matched R xs ys) (h' : Matched R xs ys')
    (hR : ∀ x y y', R x y → R x y' → y = y') : ys.Perm ys' := by
  obtain ⟨zs, hzs, hall⟩ := h
  obtain ⟨zs', hzs', hall'⟩ := h'
  obtain ⟨ws, hws, hperm⟩ := List.perm_comp_forall₂ (hzs.trans hzs'.symm) hall'
  have heq : ys = ws := by
    clear hzs hperm
    induction hall generalizing ws with
    | nil => cases hws; rfl
    | cons hhead _ ih =>
      cases hws with
      | cons hhead' htail => rw [hR _ _ _ hhead hhead', ih _ htail]
  rw [heq]
  exact hperm

end Matched

end S3Archive
