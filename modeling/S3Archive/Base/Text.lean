import S3Archive.Base.Bytes
import Mathlib.Data.List.TakeWhile

/-!
# Text in bytes

When two ways to write a text agree (`flatMap_eq_flatMap_iff`), the UTF-8 encoding
of a text (`encodeText`), whose bytes below 128 are the text's ASCII characters,
decimal numerals (`decimal`, `decimalValue`), hexadecimal ones (`hexValue`), percent
encoding (`percentDecode`) and C strings (`cString`).
-/

namespace S3Archive

/-! ## Two ways to write a list -/

section

variable {α β : Type} {f g : α → List β}

theorem length_flatMap_le (hle : ∀ a, (g a).length ≤ (f a).length) (l : List α) :
    (l.flatMap g).length ≤ (l.flatMap f).length := by
  induction l with
  | nil => exact Nat.le_refl 0
  | cons a l ih =>
    have ha := hle a
    rw [List.flatMap_cons, List.flatMap_cons, List.length_append, List.length_append]
    omega

/-- Where one way never writes less, both write the same only element by element. -/
theorem flatMap_eq_flatMap_iff (hle : ∀ a, (g a).length ≤ (f a).length) (l : List α) :
    l.flatMap f = l.flatMap g ↔ ∀ a ∈ l, f a = g a := by
  constructor
  · intro h
    induction l with
    | nil => simp
    | cons a l ih =>
      rw [List.flatMap_cons, List.flatMap_cons] at h
      have ha := hle a
      have hrest := length_flatMap_le hle l
      have hlen := congrArg List.length h
      rw [List.length_append, List.length_append] at hlen
      obtain ⟨hhead, htail⟩ := List.append_inj h (by omega)
      exact List.forall_mem_cons.2 ⟨hhead, ih htail⟩
  · intro h
    exact List.flatMap_congr h

end

/-! ## UTF-8 -/

/-- The UTF-8 bytes of a text. -/
def encodeText (t : List Char) : Bytes := t.flatMap String.utf8EncodeChar

/-- A byte below 128 is a character of its own. -/
theorem toNat_of_mem_utf8EncodeChar {c : Char} {b : UInt8} (h : b ∈ String.utf8EncodeChar c)
    (hb : b.toNat < 128) : c.toNat = b.toNat := by
  unfold String.utf8EncodeChar at h
  have hc : c.val.toNat = c.toNat := rfl
  rw [hc] at h
  dsimp only at h
  split_ifs at h with h1 h2 h3
  all_goals
    simp only [List.mem_cons, List.not_mem_nil, or_false] at h
  · rw [h, UInt8.toNat_ofNat']
    omega
  · rcases h with rfl | rfl <;> rw [UInt8.toNat_ofNat'] at hb <;> omega
  · rcases h with rfl | rfl | rfl <;> rw [UInt8.toNat_ofNat'] at hb <;> omega
  · rcases h with rfl | rfl | rfl | rfl <;> rw [UInt8.toNat_ofNat'] at hb <;> omega

/-! ## Decimal numerals -/

def IsDigit (b : UInt8) : Prop := 48 ≤ b ∧ b ≤ 57

instance (b : UInt8) : Decidable (IsDigit b) := inferInstanceAs (Decidable (_ ∧ _))

/-- The value of a row of digits. -/
def decimalValue (ds : Bytes) : Nat := ds.foldl (fun v d => 10 * v + (d.toNat - 48)) 0

/-- The digits of a number. -/
def decimal (n : Nat) : Bytes :=
  if n < 10 then [UInt8.ofNat (48 + n)] else decimal (n / 10) ++ [UInt8.ofNat (48 + n % 10)]

theorem isDigit_ofNat {d : Nat} (hd : d < 10) : IsDigit (UInt8.ofNat (48 + d)) := by
  have hval : (UInt8.ofNat (48 + d)).toNat = 48 + d := by
    rw [UInt8.toNat_ofNat']
    omega
  exact ⟨UInt8.le_iff_toNat_le.2 (by rw [hval]; simp),
    UInt8.le_iff_toNat_le.2 (by rw [hval]; simp; omega)⟩

theorem isDigit_of_mem_decimal {n : Nat} {b : UInt8} (h : b ∈ decimal n) : IsDigit b := by
  fun_induction decimal n with
  | case1 n hn =>
    rw [List.mem_singleton.1 h]
    exact isDigit_ofNat hn
  | case2 n hn ih =>
    rcases List.mem_append.1 h with h | h
    · exact ih h
    · rw [List.mem_singleton.1 h]
      exact isDigit_ofNat (Nat.mod_lt _ (by omega))

theorem decimal_ne_nil (n : Nat) : decimal n ≠ [] := by
  unfold decimal
  split_ifs <;> simp

theorem decimalValue_decimal (n : Nat) : decimalValue (decimal n) = n := by
  fun_induction decimal n with
  | case1 n hn =>
    show 10 * 0 + ((UInt8.ofNat (48 + n)).toNat - 48) = n
    rw [UInt8.toNat_ofNat']
    omega
  | case2 n hn ih =>
    unfold decimalValue at ih ⊢
    rw [List.foldl_append, ih]
    show 10 * (n / 10) + ((UInt8.ofNat (48 + n % 10)).toNat - 48) = n
    rw [UInt8.toNat_ofNat']
    omega

/-! ## Hexadecimal numerals -/

def hexDigitValue (b : UInt8) : Option Nat :=
  if 48 ≤ b ∧ b ≤ 57 then some (b.toNat - 48)
  else if 65 ≤ b ∧ b ≤ 70 then some (b.toNat - 55)
  else if 97 ≤ b ∧ b ≤ 102 then some (b.toNat - 87)
  else none

def hexValue (ds : Bytes) : Option Nat :=
  ds.foldlM (fun v d => (hexDigitValue d).map (16 * v + ·)) 0

theorem isSome_of_hexValue {ds : Bytes} (h : (hexValue ds).isSome) :
    ∀ d ∈ ds, (hexDigitValue d).isSome := by
  unfold hexValue at h
  generalize 0 = v at h
  induction ds generalizing v with
  | nil => simp
  | cons d ds ih =>
    rw [List.foldlM_cons] at h
    cases hd : hexDigitValue d with
    | none =>
      rw [hd] at h
      cases h
    | some n =>
      rw [hd] at h
      exact List.forall_mem_cons.2 ⟨by rw [hd]; rfl, ih _ h⟩

/-- The upper case digit. -/
def hexUpper (n : Nat) : UInt8 := UInt8.ofNat (if n < 10 then 48 + n else 55 + n)

theorem hexDigitValue_hexUpper : ∀ n < 16, hexDigitValue (hexUpper n) = some n := by decide

/-! ## Percent encoding -/

/-- What a percent-encoded text stands for. -/
def percentDecode : Bytes → Bytes
  | 37 :: a :: b :: bs =>
    UInt8.ofNat (16 * (hexDigitValue a).getD 0 + (hexDigitValue b).getD 0) :: percentDecode bs
  | c :: bs => c :: percentDecode bs
  | [] => []

theorem percentDecode_cons_of_ne {c : UInt8} (hc : c ≠ 37) (bs : Bytes) :
    percentDecode (c :: bs) = c :: percentDecode bs := by
  rw [percentDecode]
  exact fun _ _ _ h _ => hc h

theorem percentDecode_hex (c : UInt8) (bs : Bytes) :
    percentDecode (37 :: hexUpper (c.toNat / 16) :: hexUpper (c.toNat % 16) :: bs) =
      c :: percentDecode bs := by
  have hc := c.toNat_lt
  rw [percentDecode, hexDigitValue_hexUpper _ (by omega), hexDigitValue_hexUpper _ (by omega)]
  congr 1
  rw [Option.getD_some, Option.getD_some, Nat.div_add_mod]
  exact UInt8.ofNat_toNat

/-! ## C strings -/

/-- The C string that the bytes hold: what is before their first zero. -/
def cString (bs : Bytes) : Bytes := bs.takeWhile (· ≠ 0)

theorem cString_of_not_mem {bs : Bytes} (h : 0 ∉ bs) : cString bs = bs := by
  refine List.takeWhile_eq_self_iff.2 fun b hb => decide_eq_true ?_
  rintro rfl
  exact h hb

end S3Archive
