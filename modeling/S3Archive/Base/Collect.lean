import Mathlib.Data.List.Sort

/-!
# Collecting keyed values in order

`collect key count` inserts the values it receives into an ordered map until the
map has `count` keys. Once it has received a permutation of values with distinct
keys, it holds them in the order of their keys (`collect_values`).
-/

namespace S3Archive

variable {β : Type}

/-- The values of an ordered map, in the order of the keys. -/
def intoValues (m : Std.TreeMap Nat β) : List β := m.toList.map Prod.snd

/-- The receive loop: stop when there are `count` keys, or when nothing more arrives. -/
def collect (key : β → Nat) (count : Nat) (m : Std.TreeMap Nat β) : List β → Std.TreeMap Nat β
  | [] => m
  | x :: xs =>
    let m := m.insert (key x) x
    if m.size = count then m else collect key count m xs

/-- Insert all values, one after the other. -/
def insertAll (key : β → Nat) (m : Std.TreeMap Nat β) : List β → Std.TreeMap Nat β
  | [] => m
  | x :: xs => insertAll key (m.insert (key x) x) xs

theorem insertAll_append (key : β → Nat) (m : Std.TreeMap Nat β) (xs ys : List β) :
    insertAll key m (xs ++ ys) = insertAll key (insertAll key m xs) ys := by
  induction xs generalizing m with
  | nil => rfl
  | cons x xs ih => exact ih _

theorem size_insertAll_le (key : β → Nat) (m : Std.TreeMap Nat β) (xs : List β) :
    (insertAll key m xs).size ≤ m.size + xs.length := by
  induction xs generalizing m with
  | nil => exact Nat.le_refl _
  | cons x xs ih =>
    have hins : (m.insert (key x) x).size ≤ m.size + 1 := Std.TreeMap.size_insert_le
    have hrest := ih (m.insert (key x) x)
    rw [List.length_cons]
    show (insertAll key (m.insert (key x) x) xs).size ≤ _
    omega

theorem length_intoValues (m : Std.TreeMap Nat β) : (intoValues m).length = m.size := by
  unfold intoValues
  rw [List.length_map, Std.TreeMap.length_toList]

section

variable {key : β → Nat} {count : Nat}

/-- The map holds the values `done`. -/
def Holds (key : β → Nat) (m : Std.TreeMap Nat β) (done : List β) : Prop :=
  m.toList.Perm (done.map fun x => (key x, x))

theorem Holds.size {m : Std.TreeMap Nat β} {done : List β} (h : Holds key m done) :
    m.size = done.length := by
  rw [← Std.TreeMap.length_toList, h.length_eq, List.length_map]

theorem Holds.empty : Holds key (∅ : Std.TreeMap Nat β) [] := by
  have hlen : (∅ : Std.TreeMap Nat β).toList.length = 0 := Std.TreeMap.length_toList
  unfold Holds
  rw [List.length_eq_zero_iff.1 hlen]
  exact .refl _

/-- A new key is added and replaces nothing. -/
theorem Holds.insert {m : Std.TreeMap Nat β} {done : List β} {x : β} (h : Holds key m done)
    (hx : key x ∉ done.map key) : Holds key (m.insert (key x) x) (done ++ [x]) := by
  have hins : (m.insert (key x) x).toList.Perm _ := Std.TreeMap.toList_insert_perm
  have hkeep : m.toList.filter (fun p => ¬(key x == p.1)) = m.toList := by
    rw [List.filter_eq_self]
    intro p hp
    obtain ⟨y, hy, rfl⟩ := List.mem_map.1 (h.subset hp)
    have hne : key x ≠ key y := fun heq => hx (heq ▸ List.mem_map_of_mem hy)
    simpa using hne
  rw [hkeep] at hins
  unfold Holds
  rw [List.map_append]
  exact hins.trans ((h.cons _).trans (List.perm_append_singleton _ _).symm)

/-- Distinct keys are all kept. -/
theorem Holds.insertAll {m : Std.TreeMap Nat β} {done xs : List β} (h : Holds key m done)
    (hnodup : ((done ++ xs).map key).Nodup) :
    Holds key (insertAll key m xs) (done ++ xs) := by
  induction xs generalizing m done with
  | nil => simpa [S3Archive.insertAll] using h
  | cons x xs ih =>
    have hsplit : done ++ x :: xs = done ++ [x] ++ xs := by simp
    have hx : key x ∉ done.map key := by
      rw [List.map_append, List.nodup_append] at hnodup
      intro hmem
      exact hnodup.2.2 _ hmem _ (List.mem_map_of_mem List.mem_cons_self) rfl
    rw [hsplit] at hnodup ⊢
    exact ih (h.insert hx) hnodup

/-- A map that holds a permutation of sorted values yields them in order. -/
theorem Holds.values {m : Std.TreeMap Nat β} {xs sorted : List β} (h : Holds key m xs)
    (hperm : xs.Perm sorted) (hsorted : (sorted.map key).Pairwise (· < ·)) :
    intoValues m = sorted := by
  have hpairs : m.toList.Perm (sorted.map fun x => (key x, x)) := h.trans (hperm.map _)
  have hord : m.toList.Pairwise fun a b => a.1 < b.1 := by
    simpa only [Nat.compare_eq_lt] using (Std.TreeMap.ordered_keys_toList (t := m))
  have hord' : (sorted.map fun x => (key x, x)).Pairwise fun a b => a.1 < b.1 :=
    List.pairwise_map.2 (List.pairwise_map.1 hsorted)
  have heq := hpairs.eq_of_pairwise
    (fun a b _ _ hab hba => absurd (Nat.lt_trans hab hba) (Nat.lt_irrefl _)) hord hord'
  unfold intoValues
  rw [heq, List.map_map]
  exact List.map_id _

theorem insertAll_values {xs sorted : List β} (hperm : xs.Perm sorted)
    (hsorted : (sorted.map key).Pairwise (· < ·)) :
    intoValues (insertAll key ∅ xs) = sorted := by
  have hnodup : (([] ++ xs).map key).Nodup :=
    (hperm.map key).nodup_iff.2 (hsorted.imp Nat.ne_of_lt)
  exact (Holds.empty.insertAll hnodup).values hperm hsorted

/-- The loop stops early only when it has `count` keys. -/
theorem collect_eq_insertAll {m : Std.TreeMap Nat β} {done xs : List β} (h : Holds key m done)
    (hnodup : ((done ++ xs).map key).Nodup) (hcount : count = (done ++ xs).length) :
    collect key count m xs = insertAll key m xs := by
  induction xs generalizing m done with
  | nil => rfl
  | cons x xs ih =>
    have hsplit : done ++ x :: xs = done ++ [x] ++ xs := by simp
    have hins : Holds key (m.insert (key x) x) (done ++ [x]) := by
      have hfirst : ((done ++ [x]).map key).Nodup := by
        refine hnodup.sublist ?_
        rw [hsplit]
        exact (List.sublist_append_left _ _).map key
      exact h.insertAll hfirst
    rw [hsplit] at hnodup hcount
    unfold collect
    dsimp only
    by_cases hdone : (m.insert (key x) x).size = count
    · -- everything has been received
      have hlen : (done ++ [x] ++ xs).length = (done ++ [x]).length + xs.length :=
        List.length_append
      have hxs : xs.length = 0 := by
        rw [hins.size, hcount, hlen] at hdone
        omega
      obtain rfl := List.length_eq_zero_iff.1 hxs
      rw [if_pos hdone]
      rfl
    · rw [if_neg hdone]
      exact ih hins hnodup hcount

/-- The values are received in any order and stored in the order of their keys. -/
theorem collect_values {xs sorted : List β} (hperm : xs.Perm sorted)
    (hsorted : (sorted.map key).Pairwise (· < ·)) (hcount : count = sorted.length) :
    intoValues (collect key count ∅ xs) = sorted := by
  have hnodup : (([] ++ xs).map key).Nodup :=
    (hperm.map key).nodup_iff.2 (hsorted.imp Nat.ne_of_lt)
  rw [collect_eq_insertAll .empty hnodup (hcount.trans hperm.length_eq.symm)]
  exact insertAll_values hperm hsorted

end

end S3Archive
