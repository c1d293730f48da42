import S3Archive.Base.Bytes
import S3Archive.Base.Memory

/-!
# Write targets

A `Write` target takes a byte string and answers how many of its bytes it took.
`dumpAll` adds up what a list of writes took, `writeVec` and `writeSlice` are the
growing vector and the slice that shrinks from the front. `dumpAt` writes into
the part of a buffer that begins at an offset.
-/

namespace S3Archive

/-- A `write` that returns the bytes taken and the target after it, or fails. -/
abbrev Write (σ : Type) := Bytes → σ → Option (Nat × σ)

/-- The running total over a list of writes; it stops at the first error. -/
def dumpAll {σ : Type} (write : Write σ) : List Bytes → σ → Option (Nat × σ)
  | [], target => some (0, target)
  | data :: rest, target => do
    let (n, target) ← write data target
    let (m, target) ← dumpAll write rest target
    return (n + m, target)

/-- `Vec<u8>` takes every byte. -/
def writeVec : Write Bytes := fun data vec => some (data.length, vec ++ data)

/-- What was written through a slice, and the bytes it still covers. -/
structure SliceWriter where
  written : Bytes
  rest : Bytes
  deriving DecidableEq, Repr

/-- `&mut [u8]` takes as many bytes as it still covers, without an error. -/
def writeSlice : Write SliceWriter := fun data s =>
  let amt := min data.length s.rest.length
  some (amt, ⟨s.written ++ data.take amt, s.rest.drop amt⟩)

/-- The writes into `&mut buf[offset..]`, and the buffer after them. -/
def dumpAt (writes : List Bytes) (offset : Nat) (buf : Bytes) : Option (Nat × Bytes) :=
  if offset ≤ buf.length then
    (dumpAll writeSlice writes ⟨[], buf.drop offset⟩).map fun (n, s) =>
      (n, buf.take offset ++ s.written ++ s.rest)
  else none

/-- `offset += dump(&mut buf[offset..])?` for one value after the other. -/
def dumpSeq : List (List Bytes) → Nat → Bytes → Option (Nat × Bytes)
  | [], offset, buf => some (offset, buf)
  | writes :: rest, offset, buf => do
    let (n, buf) ← dumpAt writes offset buf
    dumpSeq rest (offset + n) buf

/-! ## Totals -/

theorem dumpAll_cons {σ : Type} {write : Write σ} {data : Bytes} {rest : List Bytes}
    {s s' s'' : σ} {n m : Nat} (hwrite : write data s = some (n, s'))
    (hrest : dumpAll write rest s' = some (m, s'')) :
    dumpAll write (data :: rest) s = some (n + m, s'') := by
  unfold dumpAll
  rw [hwrite]
  simp only [Option.bind_eq_bind, Option.bind_some]
  rw [hrest]
  rfl

/-- A vector takes all of it. -/
theorem dumpAll_vec (writes : List Bytes) (vec : Bytes) :
    dumpAll writeVec writes vec = some (writes.flatten.length, vec ++ writes.flatten) := by
  induction writes generalizing vec with
  | nil => simp [dumpAll]
  | cons data rest ih =>
    have hwrite : writeVec data vec = some (data.length, vec ++ data) := rfl
    rw [dumpAll_cons hwrite (ih _), List.flatten_cons, List.length_append, List.append_assoc]

/-- A slice takes what it covers: the total is the smaller of the two lengths, and what does not
fit is lost. -/
theorem dumpAll_slice (writes : List Bytes) (s : SliceWriter) :
    dumpAll writeSlice writes s =
      some (min writes.flatten.length s.rest.length,
        ⟨s.written ++ writes.flatten.take s.rest.length, s.rest.drop writes.flatten.length⟩) := by
  induction writes generalizing s with
  | nil => simp [dumpAll]
  | cons data rest ih =>
    have hwrite : writeSlice data s = some (min data.length s.rest.length,
        ⟨s.written ++ data.take (min data.length s.rest.length),
          s.rest.drop (min data.length s.rest.length)⟩) := rfl
    rw [dumpAll_cons hwrite (ih _), List.flatten_cons, List.length_append]
    simp only [List.length_drop, List.drop_drop, List.append_assoc]
    by_cases hfit : data.length ≤ s.rest.length
    · rw [min_eq_left hfit, List.take_of_length_le (le_refl data.length), List.take_append,
        List.take_of_length_le hfit]
      congr 2
      omega
    · have hle : s.rest.length ≤ data.length := by omega
      rw [min_eq_right hle, Nat.sub_self, List.take_zero, List.append_nil,
        List.take_append_of_le_length hle, List.drop_eq_nil_of_le (by omega),
        List.drop_eq_nil_of_le (by omega)]
      congr 2
      omega

/-! ## Buffers -/

/-- The buffer with the bytes stored from the offset on, as far as they fit. -/
def overwrite (buf : Bytes) (offset : Nat) (bytes : Bytes) : Bytes :=
  writeAt buf offset (bytes.take (buf.length - offset))

theorem overwrite_of_le {buf bytes : Bytes} {offset : Nat}
    (h : offset + bytes.length ≤ buf.length) :
    overwrite buf offset bytes = writeAt buf offset bytes := by
  have hbytes : bytes.length ≤ buf.length - offset := by omega
  unfold overwrite
  rw [List.take_of_length_le hbytes]

/-- Bytes as long as the buffer replace it. -/
theorem overwrite_exact {buf bytes : Bytes} (h : bytes.length = buf.length) :
    overwrite buf 0 bytes = bytes := by
  rw [overwrite_of_le (by omega)]
  unfold writeAt
  rw [List.drop_eq_nil_of_le (by omega), List.take_zero, List.nil_append, List.append_nil]

theorem length_overwrite {buf : Bytes} {offset : Nat} (bytes : Bytes) (h : offset ≤ buf.length) :
    (overwrite buf offset bytes).length = buf.length := by
  unfold overwrite
  refine length_writeAt ?_
  rw [List.length_take]
  omega

/-- Storing behind what was stored is storing both. -/
theorem overwrite_overwrite {buf : Bytes} {offset : Nat} (xs ys : Bytes)
    (h : offset ≤ buf.length) :
    overwrite (overwrite buf offset xs) (min (offset + xs.length) buf.length) ys =
      overwrite buf offset (xs ++ ys) := by
  have hlen := length_overwrite xs h
  by_cases hfit : offset + xs.length ≤ buf.length
  · have hxs : xs.length ≤ buf.length - offset := by omega
    rw [min_eq_left hfit, overwrite.eq_1 (overwrite buf offset xs), hlen, overwrite_of_le hfit,
      writeAt_writeAt_append hfit]
    unfold overwrite
    rw [List.take_append, List.take_of_length_le hxs, Nat.sub_sub]
  · rw [min_eq_right (by omega), overwrite.eq_1 (overwrite buf offset xs), hlen, Nat.sub_self,
      List.take_zero, writeAt_nil]
    unfold overwrite
    rw [List.take_append_of_le_length (by omega)]

theorem dumpAt_eq (writes : List Bytes) {offset : Nat} {buf : Bytes} (h : offset ≤ buf.length) :
    dumpAt writes offset buf =
      some (min writes.flatten.length (buf.length - offset),
        overwrite buf offset writes.flatten) := by
  have hdrop : buf.drop (offset + writes.flatten.length) =
      buf.drop (offset + (writes.flatten.take (buf.length - offset)).length) := by
    rw [List.length_take]
    by_cases hfit : writes.flatten.length ≤ buf.length - offset
    · rw [min_eq_right hfit]
    · rw [List.drop_eq_nil_of_le (by omega), List.drop_eq_nil_of_le (by omega)]
  unfold dumpAt
  rw [if_pos h, dumpAll_slice, Option.map_some]
  simp only [List.nil_append, List.length_drop, List.drop_drop]
  rw [hdrop]
  rfl

/-- Values dumped one behind the other are stored as one byte string. -/
theorem dumpSeq_eq (dumps : List (List Bytes)) {offset : Nat} {buf : Bytes}
    (h : offset ≤ buf.length) :
    dumpSeq dumps offset buf =
      some (min (offset + (dumps.flatMap List.flatten).length) buf.length,
        overwrite buf offset (dumps.flatMap List.flatten)) := by
  induction dumps generalizing offset buf with
  | nil =>
    simp only [dumpSeq, List.flatMap_nil, List.length_nil, Nat.add_zero, min_eq_left h]
    rw [overwrite_of_le h, writeAt_nil]
  | cons writes rest ih =>
    have hoff : offset + min writes.flatten.length (buf.length - offset) =
        min (offset + writes.flatten.length) buf.length := by omega
    have hlen := length_overwrite writes.flatten h
    unfold dumpSeq
    rw [dumpAt_eq writes h]
    simp only [Option.bind_eq_bind, Option.bind_some]
    rw [hoff, ih (by omega), hlen, overwrite_overwrite _ _ h, List.flatMap_cons,
      List.length_append]
    congr 2
    omega

end S3Archive
