import Mathlib.Data.List.Basic

/-!
# Reading and writing ranges of a buffer

`readAt` and `writeAt` are a slice of a buffer and a copy into it. A read sees
the bytes of a write inside its range and nothing of a write outside of it.
-/

namespace S3Archive

variable {α : Type}

/-- The `len` elements from `start`. -/
def readAt (buf : List α) (start len : Nat) : List α := (buf.drop start).take len

/-- Copy `xs` to `start`. -/
def writeAt (buf : List α) (start : Nat) (xs : List α) : List α :=
  buf.take start ++ xs ++ buf.drop (start + xs.length)

theorem length_readAt {buf : List α} {start len : Nat} (h : start + len ≤ buf.length) :
    (readAt buf start len).length = len := by
  unfold readAt
  rw [List.length_take, List.length_drop]
  omega

@[simp] theorem readAt_zero (buf : List α) (start : Nat) : readAt buf start 0 = [] := rfl

@[simp] theorem length_writeAt {buf : List α} {start : Nat} {xs : List α}
    (h : start + xs.length ≤ buf.length) : (writeAt buf start xs).length = buf.length := by
  unfold writeAt
  rw [List.length_append, List.length_append, List.length_take, List.length_drop]
  omega

/-- A read of another range does not see the write. -/
theorem readAt_writeAt_of_disjoint {buf : List α} {start start' len : Nat} {xs : List α}
    (hxs : start + xs.length ≤ buf.length)
    (h : start' + len ≤ start ∨ start + xs.length ≤ start') :
    readAt (writeAt buf start xs) start' len = readAt buf start' len := by
  have hstart : (buf.take start).length = start := by
    rw [List.length_take]
    omega
  unfold readAt writeAt
  rcases h with h | h
  · have hdrop : (buf.take start).drop start' = (buf.drop start').take (start - start') :=
      List.drop_take
    have hlen : ((buf.take start).drop start').length = start - start' := by
      rw [List.length_drop, hstart]
    rw [List.append_assoc, List.drop_append_of_le_length (by omega),
      List.take_append_of_le_length (by omega), hdrop, List.take_take]
    congr 1
    omega
  · have hpre : (buf.take start ++ xs).length = start + xs.length := by
      rw [List.length_append, hstart]
    rw [List.drop_append, hpre, List.drop_eq_nil_of_le (by omega), List.nil_append,
      List.drop_drop]
    congr 2
    omega

/-- A read up to the end of the write sees what was before it, then the write. -/
theorem readAt_writeAt_append {buf : List α} {start len : Nat} {xs : List α}
    (h : start + len + xs.length ≤ buf.length) :
    readAt (writeAt buf (start + len) xs) start (len + xs.length) = readAt buf start len ++ xs := by
  have hlen : (readAt buf start len ++ xs).length = len + xs.length := by
    rw [List.length_append, length_readAt (by omega)]
  have htake : buf.take (start + len) = buf.take start ++ readAt buf start len := List.take_add
  have hstart : (buf.take start).length = start := by
    rw [List.length_take]
    omega
  unfold writeAt
  rw [htake, List.append_assoc (buf.take start), List.append_assoc (buf.take start)]
  show List.take _ (List.drop start _) = _
  rw [List.drop_left' hstart, List.take_left' hlen]

@[simp] theorem writeAt_nil (buf : List α) (start : Nat) : writeAt buf start [] = buf := by
  simp [writeAt]

/-- A write inside one piece of a buffer changes that piece only. -/
theorem writeAt_append_of_le {pre mid post xs : List α} {off : Nat}
    (h : off + xs.length ≤ mid.length) :
    writeAt (pre ++ (mid ++ post)) (pre.length + off) xs = pre ++ (writeAt mid off xs ++ post) := by
  unfold writeAt
  rw [List.take_length_add_append, Nat.add_assoc, List.drop_length_add_append,
    List.take_append_of_le_length (by omega), List.drop_append_of_le_length h]
  simp only [List.append_assoc]

/-- A write right behind a write is one write of both. -/
theorem writeAt_writeAt_append {buf : List α} {start : Nat} {xs ys : List α}
    (h : start + xs.length ≤ buf.length) :
    writeAt (writeAt buf start xs) (start + xs.length) ys = writeAt buf start (xs ++ ys) := by
  have hfront : (buf.take start ++ xs).length = start + xs.length := by
    rw [List.length_append, List.length_take]
    omega
  have htake : (writeAt buf start xs).take (start + xs.length) = buf.take start ++ xs := by
    unfold writeAt
    rw [← hfront, List.take_left]
  have hdrop : (writeAt buf start xs).drop (start + xs.length) = buf.drop (start + xs.length) := by
    unfold writeAt
    rw [← hfront, List.drop_left]
  rw [writeAt.eq_1 (writeAt buf start xs), htake, ← List.drop_drop, hdrop, List.drop_drop]
  unfold writeAt
  rw [List.length_append, List.append_assoc (buf.take start), Nat.add_assoc]

end S3Archive
