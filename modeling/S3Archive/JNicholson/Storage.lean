import S3Archive.Base.Bytes
import S3Archive.Base.Chunks

/-!
# j-nicholson98: the part chunker

`PartChunker` of `storage.py` over an upload that records the parts it is given.
`PartChunker.Filled` says what it holds between any writes, `Filled.write` and
`Filled.flushFinal` what a write and the final flush do.
-/

namespace S3Archive.JNicholson

/-- The chunker's fields, with the `upload_part` calls made so far. -/
structure PartChunker where
  partSize : Nat
  buf : Bytes := []
  partNo : Nat := 0
  total : Nat := 0
  uploaded : List (Nat × Bytes) := []
  deriving DecidableEq, Repr

namespace PartChunker

/-- `self._mp.upload_part(self._part_no, data)` with the next part number. -/
def uploadNext (c : PartChunker) (data rest : Bytes) : PartChunker :=
  { c with buf := rest, partNo := c.partNo + 1, uploaded := c.uploaded ++ [(c.partNo + 1, data)] }

/-- The loop of `write`. Each turn takes at least a byte, so the buffer's length bounds the turns. -/
def flushFull : Nat → PartChunker → PartChunker
  | 0, c => c
  | fuel + 1, c =>
    if c.partSize ≤ c.buf.length then
      flushFull fuel (c.uploadNext (c.buf.take c.partSize) (c.buf.drop c.partSize))
    else c

/-- `self._buf += data` and `self._total += len(data)`. -/
def extend (c : PartChunker) (data : Bytes) : PartChunker :=
  { c with buf := c.buf ++ data, total := c.total + data.length }

def write (c : PartChunker) (data : Bytes) : PartChunker :=
  flushFull (c.extend data).buf.length (c.extend data)

def tell (c : PartChunker) : Nat := c.total

/-- At least one part is always emitted. -/
def flushFinal (c : PartChunker) : PartChunker :=
  if c.buf ≠ [] ∨ c.partNo = 0 then c.uploadNext c.buf [] else c

/-! ## What it holds -/

def parts (c : PartChunker) : List Bytes := c.uploaded.map Prod.snd

/-- After `all` was written: full parts, numbered from 1, and less than a part in the buffer. -/
structure Inv (c : PartChunker) (all : Bytes) : Prop where
  chunked : Chunked c.partSize c.parts c.buf all
  numbers : c.uploaded.map Prod.fst = List.range' 1 c.partNo
  tell_eq : c.tell = all.length

@[simp] theorem parts_uploadNext (c : PartChunker) (data rest : Bytes) :
    (c.uploadNext data rest).parts = c.parts ++ [data] := by
  simp [parts, uploadNext]

@[simp] theorem partSize_uploadNext (c : PartChunker) (data rest : Bytes) :
    (c.uploadNext data rest).partSize = c.partSize := rfl

theorem numbers_uploadNext {c : PartChunker} (h : c.uploaded.map Prod.fst = List.range' 1 c.partNo)
    (data rest : Bytes) : (c.uploadNext data rest).uploaded.map Prod.fst =
      List.range' 1 (c.uploadNext data rest).partNo := by
  simp only [uploadNext, List.map_append, h, List.map_cons, List.map_nil, List.range'_concat]
  congr 2
  omega

/-- One turn of the loop. -/
theorem Inv.cut {c : PartChunker} {all : Bytes} (h : c.Inv all) (hle : c.partSize ≤ c.buf.length) :
    (c.uploadNext (c.buf.take c.partSize) (c.buf.drop c.partSize)).Inv all := by
  refine ⟨?_, numbers_uploadNext h.numbers _ _, h.tell_eq⟩
  rw [parts_uploadNext]
  exact h.chunked.cut hle

@[simp] theorem partSize_flushFull (fuel : Nat) (c : PartChunker) :
    (flushFull fuel c).partSize = c.partSize := by
  induction fuel generalizing c with
  | zero => rfl
  | succ fuel ih =>
    unfold flushFull
    split
    · rw [ih, partSize_uploadNext]
    · rfl

theorem flushFull_inv {c : PartChunker} {all : Bytes} (h : c.Inv all) (fuel : Nat) :
    (flushFull fuel c).Inv all := by
  induction fuel generalizing c with
  | zero => exact h
  | succ fuel ih =>
    unfold flushFull
    split
    case isTrue hle => exact ih (h.cut hle)
    case isFalse => exact h

/-- The loop ends with less than a part in the buffer. -/
theorem length_buf_flushFull {c : PartChunker} (hP : 0 < c.partSize) {fuel : Nat}
    (hfuel : c.buf.length ≤ fuel) : (flushFull fuel c).buf.length < c.partSize := by
  induction fuel generalizing c with
  | zero =>
    unfold flushFull
    omega
  | succ fuel ih =>
    unfold flushFull
    split
    case isTrue hle =>
      refine ih (c := c.uploadNext _ (c.buf.drop c.partSize)) hP ?_
      show (c.buf.drop c.partSize).length ≤ fuel
      rw [List.length_drop]
      omega
    case isFalse hlt => omega

@[simp] theorem partSize_write (c : PartChunker) (data : Bytes) :
    (c.write data).partSize = c.partSize := by
  unfold write
  rw [partSize_flushFull]
  rfl

theorem new_inv (partSize : Nat) : Inv { partSize } [] := ⟨.nil partSize, rfl, rfl⟩

theorem write_inv {c : PartChunker} {all : Bytes} (h : c.Inv all) (data : Bytes) :
    (c.write data).Inv (all ++ data) := by
  have hextend : (c.extend data).Inv (all ++ data) := by
    refine ⟨h.chunked.append data, h.numbers, ?_⟩
    rw [List.length_append, ← h.tell_eq]
    rfl
  exact flushFull_inv hextend _

theorem length_buf_write {c : PartChunker} (hP : 0 < c.partSize) (data : Bytes) :
    (c.write data).buf.length < c.partSize := by
  exact length_buf_flushFull (c := c.extend data) hP (Nat.le_refl _)

/-- Between two writes less than a part is in the buffer. -/
structure Filled (partSize : Nat) (c : PartChunker) (all : Bytes) : Prop where
  inv : c.Inv all
  partSize_eq : c.partSize = partSize
  short : c.buf.length < partSize

namespace Filled

variable {partSize : Nat} {c : PartChunker} {all : Bytes}

theorem new (hP : 0 < partSize) : Filled partSize { partSize } [] := ⟨new_inv partSize, rfl, hP⟩

theorem tell (h : Filled partSize c all) : c.tell = all.length := h.inv.tell_eq

theorem write (h : Filled partSize c all) (data : Bytes) :
    Filled partSize (c.write data) (all ++ data) := by
  have hsize := h.partSize_eq
  have hshort := h.short
  refine ⟨write_inv h.inv data, by rw [partSize_write, hsize], ?_⟩
  have hlt : (c.write data).buf.length < c.partSize := by
    apply length_buf_write
    omega
  rwa [hsize] at hlt

/-- Several writes in a row. -/
theorem writes (h : Filled partSize c all) (datas : List Bytes) :
    Filled partSize (datas.foldl PartChunker.write c) (all ++ datas.flatten) := by
  induction datas generalizing c all with
  | nil => simpa using h
  | cons data datas ih =>
    have hrest := ih (h.write data)
    rwa [List.append_assoc] at hrest

/-- The final flush leaves all parts full but the last, numbered from 1, and at least one. -/
theorem flushFinal (h : Filled partSize c all) :
    IsChunking partSize c.flushFinal.parts all ∧
      c.flushFinal.uploaded.map Prod.fst = List.range' 1 c.flushFinal.uploaded.length ∧
      c.flushFinal.uploaded ≠ [] := by
  have hchunked := h.inv.chunked
  rw [h.partSize_eq] at hchunked
  have hlen : c.uploaded.length = c.partNo := by
    have := congrArg List.length h.inv.numbers
    simpa using this
  unfold PartChunker.flushFinal
  split
  case isTrue =>
    refine ⟨?_, ?_, by simp [uploadNext]⟩
    · rw [parts_uploadNext]
      exact hchunked.last (Nat.le_of_lt h.short)
    · rw [numbers_uploadNext h.inv.numbers]
      simp [uploadNext, hlen]
  case isFalse hno =>
    rw [not_or, not_not] at hno
    rw [hno.1] at hchunked
    refine ⟨hchunked.done, by rw [h.inv.numbers, hlen], fun hnil => hno.2 ?_⟩
    rw [← hlen, hnil]
    rfl

end Filled

end PartChunker

end S3Archive.JNicholson
