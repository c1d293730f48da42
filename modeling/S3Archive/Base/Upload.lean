import Mathlib.Data.List.Nodup
import Mathlib.Data.List.Perm.Subperm

/-!
# Multipart uploads

The two rules that a store checks when a multipart upload is completed:
`NumberedFrom`, the part numbers are consecutive, and `Floored`, every part but
the last has a minimum size. `completeUpload` is the object that the upload then
makes; `completeListed` is that of an upload of which only some parts are listed.
-/

namespace S3Archive

variable {α : Type}

/-- The numbers of the parts count up from `k`. -/
def NumberedFrom (number : α → Nat) (k : Nat) (parts : List α) : Prop :=
  parts.map number = List.range' k parts.length

theorem NumberedFrom.nil (number : α → Nat) (k : Nat) : NumberedFrom number k [] := rfl

theorem NumberedFrom.cons {number : α → Nat} {k : Nat} {p : α} {parts : List α}
    (hp : number p = k) (h : NumberedFrom number (k + 1) parts) :
    NumberedFrom number k (p :: parts) := by
  unfold NumberedFrom at *
  rw [List.map_cons, List.length_cons, List.range'_succ, hp, h]

theorem NumberedFrom.append {number : α → Nat} {k : Nat} {ps qs : List α}
    (hp : NumberedFrom number k ps) (hq : NumberedFrom number (k + ps.length) qs) :
    NumberedFrom number k (ps ++ qs) := by
  unfold NumberedFrom at *
  rw [List.map_append, List.length_append, hp, hq, ← List.range'_append, Nat.one_mul]

theorem NumberedFrom.snoc {number : α → Nat} {k : Nat} {parts : List α} {p : α}
    (h : NumberedFrom number k parts) (hp : number p = k + parts.length) :
    NumberedFrom number k (parts ++ [p]) := h.append (.cons hp (.nil _ _))

theorem NumberedFrom.left {number : α → Nat} {k : Nat} {ps qs : List α}
    (h : NumberedFrom number k (ps ++ qs)) : NumberedFrom number k ps := by
  unfold NumberedFrom at *
  rw [List.map_append, List.length_append, ← List.range'_append] at h
  exact List.append_inj_left h (by simp)

/-- Every part but the last has at least `floor` bytes. -/
def Floored (size : α → Nat) (floor : Nat) (parts : List α) : Prop :=
  ∀ p ∈ parts.dropLast, floor ≤ size p

theorem Floored.append_singleton {size : α → Nat} {floor : Nat} {parts : List α}
    (h : ∀ p ∈ parts, floor ≤ size p) (last : α) : Floored size floor (parts ++ [last]) := by
  unfold Floored
  rwa [List.dropLast_concat]

/-! ## Making the parts -/

section

variable {β ε : Type} {f : α → Except ε β}

/-- Every part is made. -/
theorem mapM_eq_ok {g : α → β} {xs : List α} (h : ∀ x ∈ xs, f x = .ok (g x)) :
    xs.mapM f = .ok (xs.map g) := by
  induction xs with
  | nil => rfl
  | cons x xs ih =>
    have hrest := ih fun y hy => h y (List.mem_cons_of_mem x hy)
    rw [List.mapM_cons, h x List.mem_cons_self, hrest]
    rfl

theorem mapM_append_ok {xs ys : List α} {bs cs : List β} (hx : xs.mapM f = .ok bs)
    (hy : ys.mapM f = .ok cs) : (xs ++ ys).mapM f = .ok (bs ++ cs) := by
  rw [List.mapM_append, hx, hy]
  rfl

/-- What is kept of each part is kept of all. -/
theorem map_eq_of_mapM {γ : Type} {a : α → γ} {b : β → γ} {xs : List α} {bs : List β}
    (h : ∀ x y, f x = .ok y → b y = a x) (hbs : xs.mapM f = .ok bs) : bs.map b = xs.map a := by
  induction xs generalizing bs with
  | nil =>
    cases hbs
    rfl
  | cons x xs ih =>
    rw [List.mapM_cons] at hbs
    cases hx : f x with
    | error e =>
      rw [hx] at hbs
      cases hbs
    | ok y =>
      cases hxs : xs.mapM f with
      | error e =>
        rw [hx, hxs] at hbs
        cases hbs
      | ok ys =>
        rw [hx, hxs] at hbs
        cases hbs
        rw [List.map_cons, List.map_cons, h x y hx, ih hxs]

theorem exists_of_mapM {xs : List α} {ys : List β} (hys : xs.mapM f = .ok ys) {x : α}
    (hx : x ∈ xs) : ∃ y, f x = .ok y := by
  induction xs generalizing ys with
  | nil => cases hx
  | cons z xs ih =>
    rw [List.mapM_cons] at hys
    cases hz : f z with
    | error e =>
      rw [hz] at hys
      cases hys
    | ok w =>
      cases hxs : xs.mapM f with
      | error e =>
        rw [hz, hxs] at hys
        cases hys
      | ok ws =>
        rcases List.mem_cons.1 hx with rfl | hx
        · exact ⟨w, hz⟩
        · exact ih hxs hx

/-- What one element gives is among what all give. -/
theorem mem_of_mapM {xs : List α} {ys : List β} (hys : xs.mapM f = .ok ys) {x : α} {y : β}
    (hx : x ∈ xs) (hy : f x = .ok y) : y ∈ ys := by
  induction xs generalizing ys with
  | nil => cases hx
  | cons z xs ih =>
    rw [List.mapM_cons] at hys
    cases hz : f z with
    | error e =>
      rw [hz] at hys
      cases hys
    | ok w =>
      cases hxs : xs.mapM f with
      | error e =>
        rw [hz, hxs] at hys
        cases hys
      | ok ws =>
        rw [hz, hxs] at hys
        cases hys
        rcases List.mem_cons.1 hx with rfl | hx
        · rw [hz] at hy
          rw [← Except.ok.inj hy]
          exact List.mem_cons_self
        · exact List.mem_cons_of_mem _ (ih hxs hx)

/-- What each element gives when it gives something. -/
theorem eq_map_of_mapM {g : α → β} {xs : List α} {ys : List β}
    (h : ∀ x ∈ xs, ∀ y, f x = .ok y → y = g x) (hys : xs.mapM f = .ok ys) : ys = xs.map g := by
  induction xs generalizing ys with
  | nil =>
    cases hys
    rfl
  | cons x xs ih =>
    rw [List.mapM_cons] at hys
    cases hx : f x with
    | error e =>
      rw [hx] at hys
      cases hys
    | ok y =>
      cases hxs : xs.mapM f with
      | error e =>
        rw [hx, hxs] at hys
        cases hys
      | ok zs =>
        rw [hx, hxs] at hys
        cases hys
        rw [List.map_cons, h x List.mem_cons_self y hx,
          ih (fun z hz => h z (List.mem_cons_of_mem x hz)) hxs]

end

/-! ## Completion -/

/-- The numbered parts, sorted and joined. -/
def completeUpload (parts : List (Nat × List α)) : List α :=
  ((parts.mergeSort fun p q => decide (p.1 ≤ q.1)).map Prod.snd).flatten

/-- Parts with the right numbers, each of them made, are the parts that were made. -/
theorem perm_of_numbers {completed parts : List (Nat × List α)} {k : Nat}
    (hnum : NumberedFrom Prod.fst k parts) (hnumbers : (completed.map Prod.fst).Perm (parts.map Prod.fst))
    (hmade : completed ⊆ parts) : completed.Perm parts := by
  have hnodup : (parts.map Prod.fst).Nodup := by
    rw [hnum]
    exact List.nodup_range'
  have hcompleted : completed.Nodup := .of_map _ (hnumbers.nodup_iff.2 hnodup)
  have hlen := hnumbers.length_eq
  rw [List.length_map, List.length_map] at hlen
  exact (hcompleted.subperm hmade).perm_of_length_le (Nat.le_of_eq hlen.symm)

/-- The parts are sorted by their numbers. -/
theorem completeUpload_of_sorted {completed parts : List (Nat × List α)}
    (hlt : (parts.map Prod.fst).Pairwise (· < ·)) (hperm : completed.Perm parts) :
    completeUpload completed = (parts.map Prod.snd).flatten := by
  have hsorted : (completed.mergeSort fun p q => decide (p.1 ≤ q.1)).Pairwise
      fun p q => p.1 ≤ q.1 := by
    refine (List.pairwise_mergeSort ?_ ?_ completed).imp (by simp)
    · intro a b c hab hbc
      simp only [decide_eq_true_eq] at *
      omega
    · intro a b
      simpa using Nat.le_total a.1 b.1
  have hle : parts.Pairwise fun p q => p.1 ≤ q.1 :=
    (List.pairwise_map.1 hlt).imp Nat.le_of_lt
  have hinj := List.inj_on_of_nodup_map (hlt.imp Nat.ne_of_lt)
  have hsort := (List.mergeSort_perm completed fun p q => decide (p.1 ≤ q.1)).trans hperm
  unfold completeUpload
  rw [hsort.eq_of_pairwise (fun p q hp hq hpq hqp =>
    hinj (hsort.subset hp) hq (Nat.le_antisymm hpq hqp)) hsorted hle]

theorem NumberedFrom.pairwise {number : α → Nat} {k : Nat} {parts : List α}
    (h : NumberedFrom number k parts) : (parts.map number).Pairwise (· < ·) := by
  rw [h]
  exact List.pairwise_lt_range'

/-- The parts may have been completed in any order. -/
theorem completeUpload_of_perm {completed parts : List (Nat × List α)} {k : Nat}
    (hnum : NumberedFrom Prod.fst k parts) (hperm : completed.Perm parts) :
    completeUpload completed = (parts.map Prod.snd).flatten :=
  completeUpload_of_sorted hnum.pairwise hperm

/-- The object of an upload that is completed with the parts of these numbers. -/
def completeListed (numbers : List Nat) (stored : List (Nat × List α)) : List α :=
  completeUpload (stored.filter fun p => p.1 ∈ numbers)

/-- All stored parts are listed. -/
theorem completeListed_of_all {numbers : List Nat} {stored : List (Nat × List α)}
    (hlisted : numbers.Perm (stored.map Prod.fst)) :
    completeListed numbers stored = completeUpload stored := by
  have hall : stored.filter (fun p => p.1 ∈ numbers) = stored := by
    refine List.filter_eq_self.2 fun p hp => ?_
    rw [decide_eq_true_eq]
    exact hlisted.symm.subset (List.mem_map_of_mem hp)
  unfold completeListed
  rw [hall]

/-- All parts are stored, and all are listed. -/
theorem completeListed_of_perm {numbers : List Nat} {stored parts : List (Nat × List α)} {k : Nat}
    (hnum : NumberedFrom Prod.fst k parts) (hperm : stored.Perm parts)
    (hlisted : numbers.Perm (stored.map Prod.fst)) :
    completeListed numbers stored = (parts.map Prod.snd).flatten := by
  rw [completeListed_of_all hlisted]
  exact completeUpload_of_perm hnum hperm

/-- Parts are missing: the others are joined. -/
theorem completeUpload_of_missing [DecidableEq α] {stored missing parts : List (Nat × List α)}
    (hlt : (parts.map Prod.fst).Pairwise (· < ·)) (hperm : (stored ++ missing).Perm parts) :
    completeUpload stored =
      ((parts.filter fun p => p ∉ missing).map Prod.snd).flatten := by
  have hnodup : (stored ++ missing).Nodup :=
    hperm.nodup_iff.2 (.of_map _ (hlt.imp Nat.ne_of_lt))
  have hdisjoint := List.disjoint_of_nodup_append hnodup
  refine completeUpload_of_sorted (hlt.sublist (List.filter_sublist.map _)) ?_
  refine List.Perm.trans (List.Perm.of_eq ?_) (hperm.filter fun p => p ∉ missing)
  rw [List.filter_append, List.filter_eq_self.2, List.filter_eq_nil_iff.2, List.append_nil]
  · simp
  · exact fun p hp => by simpa using hdisjoint hp

end S3Archive
