import Mathlib.Data.List.Basic
import Mathlib.Logic.Function.Iterate

/-!
# Reflected cyclic redundancy checks

`bitStep poly` shifts one bit out of the remainder, `shift poly n` shifts out `n` of
them, and `byteStep poly` takes in a byte. All of them are linear for `^^^`
(`shift_xor`), and bits that are zero cost nothing (`shift_of_low`). From these two
facts come the byte table (`shift_low_byte`), and the form of a fold over several bytes
in which the remainder and every byte are shifted on their own (`foldl_byteStep`): a
table for every distance to the end replaces the loop over the bytes.
-/

namespace S3Archive.ReflectedCrc

variable {w : Nat} {poly c d : BitVec w}

def bitStep (poly c : BitVec w) : BitVec w :=
  if c.getLsbD 0 then poly ^^^ (c >>> 1) else c >>> 1

def shift (poly : BitVec w) (n : Nat) (c : BitVec w) : BitVec w := (bitStep poly)^[n] c

def byteStep (poly c : BitVec w) (b : BitVec 8) : BitVec w := shift poly 8 (c ^^^ b.setWidth w)

theorem xor_cancel (c d : BitVec w) : c ^^^ (c ^^^ d) = d := by
  rw [← BitVec.xor_assoc, BitVec.xor_self, BitVec.zero_xor]

theorem bitStep_xor : bitStep poly (c ^^^ d) = bitStep poly c ^^^ bitStep poly d := by
  have hshift : (c ^^^ d) >>> 1 = (c >>> 1) ^^^ (d >>> 1) := BitVec.ushiftRight_xor_distrib ..
  simp only [bitStep, BitVec.getLsbD_xor, hshift]
  cases c.getLsbD 0 <;> cases d.getLsbD 0
  · simp
  · simp only [Bool.false_xor, if_true, Bool.false_eq_true, if_false]
    ac_rfl
  · simp only [Bool.xor_false, if_true, Bool.false_eq_true, if_false]
    ac_rfl
  · simp only [bne_self_eq_false, Bool.false_eq_true, if_false, if_true]
    rw [show poly ^^^ (c >>> 1) ^^^ (poly ^^^ (d >>> 1)) =
      poly ^^^ (poly ^^^ ((c >>> 1) ^^^ (d >>> 1))) by ac_rfl, xor_cancel]

@[simp] theorem shift_zero : shift poly 0 c = c := rfl

theorem shift_add (m n : Nat) : shift poly (m + n) c = shift poly m (shift poly n c) :=
  Function.iterate_add_apply ..

theorem shift_xor (n : Nat) : shift poly n (c ^^^ d) = shift poly n c ^^^ shift poly n d := by
  induction n generalizing c d with
  | zero => rfl
  | succ n ih =>
    simp only [shift, Function.iterate_succ_apply, bitStep_xor] at ih ⊢
    exact ih

/-- As long as only zeros leave the remainder the polynomial plays no part. -/
theorem shift_of_low {n : Nat} (h : ∀ i < n, c.getLsbD i = false) : shift poly n c = c >>> n := by
  induction n generalizing c with
  | zero => simp
  | succ n ih =>
    have hstep : bitStep poly c = c >>> 1 := by
      simp [bitStep, h 0 (by omega)]
    have hlow : ∀ i < n, (c >>> 1).getLsbD i = false := fun i hi => by
      rw [BitVec.getLsbD_ushiftRight]
      exact h (1 + i) (by omega)
    have hrest := ih hlow
    simp only [shift, Function.iterate_succ_apply, hstep] at hrest ⊢
    rw [hrest, ← BitVec.shiftRight_add, Nat.add_comm]

/-! ## The byte table -/

/-- The last eight bits. -/
def low (c : BitVec w) : BitVec w := (c.setWidth 8).setWidth w

theorem getLsbD_low (i : Nat) : (low c).getLsbD i = (decide (i < 8) && c.getLsbD i) := by
  by_cases hi : i < w
  · simp [low, hi]
  · simp [low, hi, BitVec.getLsbD_of_ge c i (by omega)]

/-- Shifting out a byte: the byte is looked up, the rest moves down. -/
theorem shift_low_byte (poly c : BitVec w) :
    shift poly 8 c = shift poly 8 (low c) ^^^ (c >>> 8) := by
  have hsplit : c = low c ^^^ (low c ^^^ c) := (xor_cancel (low c) c).symm
  have hhigh : shift poly 8 (low c ^^^ c) = c >>> 8 := by
    rw [shift_of_low fun i hi => by simp [getLsbD_low, hi]]
    apply BitVec.eq_of_getLsbD_eq
    intro i hi
    have hi' : ¬ 8 + i < 8 := by omega
    simp [getLsbD_low, hi']
  conv_lhs => rw [hsplit, shift_xor, hhigh]

/-- The same with more bytes to come. -/
theorem shift_succ_byte (poly c : BitVec w) (n : Nat) :
    shift poly (8 * (n + 1)) c = shift poly (8 * (n + 1)) (low c) ^^^ shift poly (8 * n) (c >>> 8) := by
  have hsum : 8 * (n + 1) = 8 * n + 8 := by omega
  rw [hsum, shift_add, shift_low_byte, shift_xor, ← shift_add]

/-! ## Several bytes at once -/

/-- What the bytes add to the remainder, each shifted by its distance to the end. -/
def sliced (poly : BitVec w) : List (BitVec 8) → BitVec w
  | [] => 0
  | b :: bs => shift poly (8 * (bs.length + 1)) (b.setWidth w) ^^^ sliced poly bs

theorem foldl_byteStep (bs : List (BitVec 8)) :
    bs.foldl (byteStep poly) c = shift poly (8 * bs.length) c ^^^ sliced poly bs := by
  induction bs generalizing c with
  | nil => simp [sliced]
  | cons b bs ih =>
    have hsum : 8 * (bs.length + 1) = 8 * bs.length + 8 := by omega
    rw [List.foldl_cons, ih, byteStep, ← shift_add, shift_xor, List.length_cons, sliced, hsum,
      BitVec.xor_assoc]

end S3Archive.ReflectedCrc
