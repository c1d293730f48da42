import Mathlib.Data.List.Sort

/-!
# Hash maps built by insertion

What a hash map holds after the elements of a list have been inserted under
their keys (`insertEach`) or have changed the values there (`modifyEach`), one
after the other.
-/

namespace S3Archive

section

variable {κ ν α : Type} [BEq κ] [Hashable κ] [LawfulBEq κ] {key : α → κ} {val : α → ν}

/-- Insert all elements, one after the other. -/
def insertEach (key : α → κ) (val : α → ν) (m : Std.HashMap κ ν) (xs : List α) :
    Std.HashMap κ ν :=
  xs.foldl (fun m x => m.insert (key x) (val x)) m

theorem getElem?_insertEach_of_notMem {m : Std.HashMap κ ν} {xs : List α} {k : κ}
    (hk : k ∉ xs.map key) : (insertEach key val m xs)[k]? = m[k]? := by
  induction xs generalizing m with
  | nil => rfl
  | cons x xs ih =>
    rw [List.map_cons, List.mem_cons, not_or] at hk
    have hrest := ih (m := m.insert (key x) (val x)) hk.2
    have hne : (key x == k) = false := beq_false_of_ne (Ne.symm hk.1)
    rw [Std.HashMap.getElem?_insert, hne] at hrest
    exact hrest

/-- Distinct keys are all kept. -/
theorem getElem?_insertEach {m : Std.HashMap κ ν} {xs : List α} (hnodup : (xs.map key).Nodup)
    {x : α} (hx : x ∈ xs) : (insertEach key val m xs)[key x]? = some (val x) := by
  induction xs generalizing m with
  | nil => cases hx
  | cons y xs ih =>
    rw [List.map_cons, List.nodup_cons] at hnodup
    rcases List.mem_cons.1 hx with rfl | hx
    · have hrest : (insertEach key val (m.insert (key x) (val x)) xs)[key x]? =
          (m.insert (key x) (val x))[key x]? := getElem?_insertEach_of_notMem hnodup.1
      rw [Std.HashMap.getElem?_insert_self] at hrest
      exact hrest
    · exact ih hnodup.2 hx

/-- Change the value of each key, one after the other. -/
def modifyEach (change : α → ν → ν) (key : α → κ) (m : Std.HashMap κ ν) (xs : List α) :
    Std.HashMap κ ν :=
  xs.foldl (fun m x => m.modify (key x) (change x)) m

theorem getElem?_modifyEach_of_notMem {change : α → ν → ν} {m : Std.HashMap κ ν} {xs : List α}
    {k : κ} (hk : k ∉ xs.map key) : (modifyEach change key m xs)[k]? = m[k]? := by
  induction xs generalizing m with
  | nil => rfl
  | cons x xs ih =>
    rw [List.map_cons, List.mem_cons, not_or] at hk
    have hrest := ih (m := m.modify (key x) (change x)) hk.2
    have hne : (key x == k) = false := beq_false_of_ne (Ne.symm hk.1)
    rw [Std.HashMap.getElem?_modify, hne] at hrest
    exact hrest

/-- Each value is changed once. -/
theorem getElem?_modifyEach {change : α → ν → ν} {m : Std.HashMap κ ν} {xs : List α}
    (hnodup : (xs.map key).Nodup) {x : α} (hx : x ∈ xs) :
    (modifyEach change key m xs)[key x]? = m[key x]?.map (change x) := by
  induction xs generalizing m with
  | nil => cases hx
  | cons y xs ih =>
    rw [List.map_cons, List.nodup_cons] at hnodup
    rcases List.mem_cons.1 hx with rfl | hx
    · have hrest : (modifyEach change key (m.modify (key x) (change x)) xs)[key x]? =
          (m.modify (key x) (change x))[key x]? := getElem?_modifyEach_of_notMem hnodup.1
      rw [Std.HashMap.getElem?_modify_self] at hrest
      exact hrest
    · have hrest := ih (m := m.modify (key y) (change y)) hnodup.2 hx
      have hne : (key y == key x) = false :=
        beq_false_of_ne fun heq => hnodup.1 (heq ▸ List.mem_map_of_mem hx)
      rw [Std.HashMap.getElem?_modify, hne] at hrest
      exact hrest

end

end S3Archive
