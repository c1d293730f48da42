import S3Archive.Base.Bytes

/-!
# Readers of byte strings

A `Reader` consumes a prefix of a byte string or fails. `Reads r enc x` says
that `r` consumes exactly `enc`, whatever follows it, and returns `x`. The rules
follow the reader's `do` block: one `Reads.bind` per line.
-/

namespace S3Archive

abbrev Reader (α : Type) := StateT Bytes Option α

namespace Reader

/-- The next `n` bytes. -/
def bytes (n : Nat) : Reader Bytes := fun s =>
  if n ≤ s.length then some (s.take n, s.drop n) else none

/-- A little-endian unsigned integer of `w` bytes. -/
def uint (w : Nat) : Reader Nat := do return leNat (← bytes w)

/-- The literal bytes `bs`. -/
def expect (bs : Bytes) : Reader Unit := do
  if (← bytes bs.length) = bs then return () else failure

/-- `n` records in a row. -/
def many {α : Type} (r : Reader α) : Nat → Reader (List α)
  | 0 => return []
  | n + 1 => do
    let x ← r
    let xs ← many r n
    return x :: xs

end Reader

/-- `r` consumes exactly `enc` and returns `x`. -/
def Reads {α : Type} (r : Reader α) (enc : Bytes) (x : α) : Prop :=
  ∀ rest, r.run (enc ++ rest) = some (x, rest)

namespace Reads

variable {α β : Type} {r : Reader α} {f : α → Reader β} {e₁ e₂ : Bytes} {x : α} {y : β}

theorem pure (x : α) : Reads (Pure.pure x) [] x := fun _ => rfl

theorem bind (h₁ : Reads r e₁ x) (h₂ : Reads (f x) e₂ y) : Reads (r >>= f) (e₁ ++ e₂) y := by
  intro rest
  rw [List.append_assoc, StateT.run_bind, h₁]
  exact h₂ rest

/-- A last line that consumes nothing. -/
theorem bind_nil (h₁ : Reads r e₁ x) (h₂ : Reads (f x) [] y) : Reads (r >>= f) e₁ y := by
  simpa using h₁.bind h₂

theorem bytes {bs : Bytes} {n : Nat} (h : bs.length = n) : Reads (Reader.bytes n) bs bs := by
  intro rest
  subst h
  simp [Reader.bytes, StateT.run]

/-- A field of `w` bytes holds the value modulo its width. -/
theorem uint {w n : Nat} : Reads (Reader.uint w) (leBytes w n) (n % 256 ^ w) := by
  intro rest
  simp only [Reader.uint, StateT.run_bind, bytes (leBytes_length w n) rest]
  rw [Option.bind_eq_bind, Option.bind_some, leNat_leBytes]
  rfl

theorem uint_of_lt {w n : Nat} (h : n < 256 ^ w) : Reads (Reader.uint w) (leBytes w n) n := by
  simpa only [Nat.mod_eq_of_lt h] using uint (w := w) (n := n)

theorem expect (bs : Bytes) : Reads (Reader.expect bs) bs () := by
  intro rest
  simp only [Reader.expect, StateT.run_bind, bytes rfl rest]
  simp

/-- Encoded records in a row are read one after the other. -/
theorem many {ι : Type} {enc : ι → Bytes} {val : ι → α} {is : List ι}
    (h : ∀ i ∈ is, Reads r (enc i) (val i)) :
    Reads (Reader.many r is.length) (is.flatMap enc) (is.map val) := by
  induction is with
  | nil => exact .pure []
  | cons i is ih =>
    have htail := ih fun j hj => h j (List.mem_cons_of_mem i hj)
    exact .bind (h i List.mem_cons_self) (.bind_nil htail (.pure _))

/-- If each record is read or fails and one fails, the row fails. -/
theorem many_none {ι : Type} {enc : ι → Bytes} {val : ι → α} {is : List ι} {bad : ι → Prop}
    (hgood : ∀ i ∈ is, ¬ bad i → Reads r (enc i) (val i))
    (hbad : ∀ i ∈ is, bad i → ∀ rest, r.run (enc i ++ rest) = none) (hex : ∃ i ∈ is, bad i)
    (rest : Bytes) : (Reader.many r is.length).run (is.flatMap enc ++ rest) = none := by
  induction is generalizing rest with
  | nil =>
    obtain ⟨i, hi, _⟩ := hex
    cases hi
  | cons i is ih =>
    rw [List.length_cons, Reader.many, List.flatMap_cons, List.append_assoc, StateT.run_bind]
    by_cases hi : bad i
    · rw [hbad i List.mem_cons_self hi]
      rfl
    · have hex' : ∃ j ∈ is, bad j := by
        obtain ⟨j, hj, hb⟩ := hex
        rcases List.mem_cons.1 hj with rfl | hj
        · exact absurd hb hi
        · exact ⟨j, hj, hb⟩
      have htail := ih (fun j hj => hgood j (List.mem_cons_of_mem i hj))
        (fun j hj => hbad j (List.mem_cons_of_mem i hj)) hex' rest
      rw [hgood i List.mem_cons_self hi, Option.bind_eq_bind, Option.bind_some, StateT.run_bind,
        htail]
      rfl

/-- If each record is read as its value, when it has one, so is the row. -/
theorem run_many {ι : Type} {enc : ι → Bytes} {val : ι → Option α} {is : List ι}
    (h : ∀ i ∈ is, ∀ rest, r.run (enc i ++ rest) = (val i).map fun x => (x, rest)) (rest : Bytes) :
    (Reader.many r is.length).run (is.flatMap enc ++ rest) =
      (is.mapM val).map fun xs => (xs, rest) := by
  induction is with
  | nil => rfl
  | cons i is ih =>
    have htail := ih fun j hj => h j (List.mem_cons_of_mem i hj)
    rw [List.length_cons, Reader.many, List.flatMap_cons, List.append_assoc, StateT.run_bind,
      h i List.mem_cons_self, List.mapM_cons]
    cases val i with
    | none => rfl
    | some x =>
      simp only [Option.map_some, Option.bind_eq_bind, Option.bind_some, StateT.run_bind, htail]
      cases is.mapM val <;> rfl

/-- A reader that consumes `enc` consumes all of `enc`. -/
theorem run_eq (h : Reads r e₁ x) : r.run e₁ = some (x, []) := by
  simpa using h []

end Reads

end S3Archive
