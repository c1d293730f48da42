import S3Archive.Base.Base64

/-!
# figment-engine: the CRC of an object

`decodeS3Crc32` decodes the base64 text in which S3 returns a CRC32.
`base64Decode` is the decoder written for it, over the bytes of the text.
-/

namespace S3Archive.FigmentEngine

open Base64 (digit)

/-! ## Trimming -/

/-- `char::is_whitespace`, the Unicode property `White_Space`. -/
def isWhitespace (c : Char) : Bool :=
  let n := c.toNat
  (0x09 ≤ n && n ≤ 0x0d) || n == 0x20 || n == 0x85 || n == 0xa0 || n == 0x1680 ||
    (0x2000 ≤ n && n ≤ 0x200a) || n == 0x2028 || n == 0x2029 || n == 0x202f || n == 0x205f ||
    n == 0x3000

/-- `str::trim`. -/
def trim (s : String) : String :=
  String.ofList (((s.toList.dropWhile isWhitespace).reverse.dropWhile isWhitespace).reverse)

theorem trim_ofList {cs : List Char} (hhead : ∀ c ∈ cs.head?, isWhitespace c = false)
    (hlast : ∀ c ∈ cs.getLast?, isWhitespace c = false) :
    trim (String.ofList cs) = String.ofList cs := by
  have hdrop : ∀ cs : List Char, (∀ c ∈ cs.head?, isWhitespace c = false) →
      cs.dropWhile isWhitespace = cs := by
    intro cs h
    cases cs with
    | nil => rfl
    | cons c cs => exact List.dropWhile_cons_of_neg (by simp [h c rfl])
  unfold trim
  rw [String.toList_ofList, hdrop cs hhead, hdrop cs.reverse, List.reverse_reverse]
  rwa [List.head?_reverse]

/-! ## The decoder -/

/-- The value of a character of the alphabet. -/
def val (c : UInt8) : Option UInt8 :=
  if 'A'.toUInt8 ≤ c ∧ c ≤ 'Z'.toUInt8 then some (c - 'A'.toUInt8)
  else if 'a'.toUInt8 ≤ c ∧ c ≤ 'z'.toUInt8 then some (c - 'a'.toUInt8 + 26)
  else if '0'.toUInt8 ≤ c ∧ c ≤ '9'.toUInt8 then some (c - '0'.toUInt8 + 52)
  else if c = '+'.toUInt8 then some 62
  else if c = '/'.toUInt8 then some 63
  else none

/-- The padding character. -/
def pad : UInt8 := '='.toUInt8

/-- A value, and whether it is padding. -/
def valOrPad (c : UInt8) : Option (UInt8 × Bool) :=
  if c = pad then some (0, true) else (val c).map fun v => (v, false)

/-- The bytes of a group of four characters. -/
def decodeChunk (b0 b1 b2 b3 : UInt8) : Option Bytes := do
  let c0 ← val b0
  let c1 ← val b1
  let (c2, pad2) ← valOrPad b2
  let (c3, pad3) ← valOrPad b3
  let n := c0.toUInt32 <<< 18 ||| c1.toUInt32 <<< 12 ||| c2.toUInt32 <<< 6 ||| c3.toUInt32
  some ((n >>> 16).toUInt8 :: ((if pad2 then [] else [(n >>> 8).toUInt8]) ++
    if pad3 then [] else [n.toUInt8]))

/-- The loop over `bytes.chunks(4)`. The length is a multiple of four, so no group is short. -/
def decodeChunks : Bytes → Option Bytes
  | b0 :: b1 :: b2 :: b3 :: rest => do
    let out ← decodeChunk b0 b1 b2 b3
    let outs ← decodeChunks rest
    some (out ++ outs)
  | _ => some []

def base64Decode (s : String) : Option Bytes :=
  let bytes := utf8 (trim s)
  if bytes.length % 4 ≠ 0 then none else decodeChunks bytes

/-- `u32::from_be_bytes`. -/
def fromBeBytes (b0 b1 b2 b3 : UInt8) : UInt32 :=
  UInt32.ofNat (((b0.toNat * 256 + b1.toNat) * 256 + b2.toNat) * 256 + b3.toNat)

def decodeS3Crc32 (b64 : String) : Option UInt32 := do
  match ← base64Decode b64 with
  | [b0, b1, b2, b3] => some (fromBeBytes b0 b1 b2 b3)
  | _ => none

example : decodeS3Crc32 "ou5p3A==" = some 0xA2EE69DC := by decide +kernel

/-! ## Groups of four characters -/

/-- Two characters of the alphabet, then two that may be padding. -/
def GroupShaped (b0 b1 b2 b3 : UInt8) : Prop :=
  (val b0).isSome ∧ (val b1).isSome ∧ (valOrPad b2).isSome ∧ (valOrPad b3).isSome

/-- Only groups of that form. -/
def Shaped : Bytes → Prop
  | b0 :: b1 :: b2 :: b3 :: rest => GroupShaped b0 b1 b2 b3 ∧ Shaped rest
  | [] => True
  | _ => False

theorem val_pad : val pad = none := by decide

theorem val_ne_pad {b : UInt8} (h : (val b).isSome) : b ≠ pad := by
  rintro rfl
  rw [val_pad] at h
  cases h

/-- A character with a value is the digit of that value. -/
theorem val_eq_some {b v : UInt8} (h : val b = some v) :
    v.toNat < 64 ∧ String.utf8EncodeChar (digit v.toNat) = [b] := by
  have hall : ∀ n < 256, ∀ v, val (UInt8.ofNat n) = some v →
      v.toNat < 64 ∧ String.utf8EncodeChar (digit v.toNat) = [UInt8.ofNat n] := by
    have hdec : ∀ n < 256, (val (UInt8.ofNat n)).all fun v =>
        v.toNat < 64 ∧ String.utf8EncodeChar (digit v.toNat) = [UInt8.ofNat n] := by
      decide +kernel
    intro n hn v hv
    have := hdec n hn
    rw [hv] at this
    exact of_decide_eq_true this
  have hb : UInt8.ofNat b.toNat = b := UInt8.ofNat_toNat
  have := hall b.toNat b.toNat_lt v (by rw [hb, h])
  rwa [hb] at this

theorem val_digit {v : Nat} (h : v < 64) :
    ∃ b, String.utf8EncodeChar (digit v) = [b] ∧ val b = some (UInt8.ofNat v) := by
  have hdec : ∀ v < 64, String.utf8EncodeChar (digit v) = [(digit v).toUInt8] ∧
      val (digit v).toUInt8 = some (UInt8.ofNat v) := by
    decide +kernel
  exact ⟨(digit v).toUInt8, hdec v h⟩

theorem isSome_decodeChunk {b0 b1 b2 b3 : UInt8} :
    (decodeChunk b0 b1 b2 b3).isSome ↔ GroupShaped b0 b1 b2 b3 := by
  unfold decodeChunk GroupShaped
  cases val b0 <;> cases val b1 <;> cases valOrPad b2 <;> cases valOrPad b3 <;> simp

/-- Each padding character takes one byte from the three of a group. -/
theorem length_decodeChunk {b0 b1 b2 b3 : UInt8} {out : Bytes}
    (h : decodeChunk b0 b1 b2 b3 = some out) :
    out.length + [b0, b1, b2, b3].count pad = 3 := by
  obtain ⟨h0, h1, h2, h3⟩ := isSome_decodeChunk.1 (by rw [h]; rfl)
  obtain ⟨c0, hc0⟩ := Option.isSome_iff_exists.1 h0
  obtain ⟨c1, hc1⟩ := Option.isSome_iff_exists.1 h1
  obtain ⟨p2, hp2⟩ := Option.isSome_iff_exists.1 h2
  obtain ⟨p3, hp3⟩ := Option.isSome_iff_exists.1 h3
  have hpad : ∀ {b : UInt8} {p : UInt8 × Bool}, valOrPad b = some p → p.2 = (b == pad) := by
    intro b p hp
    unfold valOrPad at hp
    by_cases hb : b = pad
    · rw [if_pos hb] at hp
      cases hp
      simp [hb]
    · rw [if_neg hb] at hp
      obtain ⟨v, _, rfl⟩ := Option.map_eq_some_iff.1 hp
      simp [hb]
  unfold decodeChunk at h
  simp only [hc0, hc1, hp2, hp3, Option.bind_eq_bind, Option.bind_some, hpad hp2, hpad hp3,
    Option.some.injEq] at h
  rw [← h, List.count_cons_of_ne (val_ne_pad h0), List.count_cons_of_ne (val_ne_pad h1)]
  by_cases h2 : b2 = pad <;> by_cases h3 : b3 = pad <;> simp [h2, h3]

theorem exists_decodeChunks {bs : Bytes} (h : Shaped bs) :
    bs.length % 4 = 0 ∧
      ∃ out, decodeChunks bs = some out ∧ out.length + bs.count pad = 3 * (bs.length / 4) := by
  fun_induction Shaped bs with
  | case1 b0 b1 b2 b3 rest ih =>
    obtain ⟨hmod, out, hout, hlen⟩ := ih h.2
    obtain ⟨first, hfirst⟩ := Option.isSome_iff_exists.1 (isSome_decodeChunk.2 h.1)
    have hf := length_decodeChunk hfirst
    refine ⟨by simp only [List.length_cons]; omega, first ++ out, ?_, ?_⟩
    · unfold decodeChunks
      rw [hfirst, hout]
      rfl
    · have hcount : (b0 :: b1 :: b2 :: b3 :: rest).count pad =
          [b0, b1, b2, b3].count pad + rest.count pad :=
        @List.count_append _ _ pad [b0, b1, b2, b3] rest
      rw [hcount, List.length_append]
      simp only [List.length_cons]
      omega
  | case2 => exact ⟨rfl, [], rfl, rfl⟩
  | case3 => exact h.elim

theorem shaped_of_decodeChunks {bs out : Bytes} (hmod : bs.length % 4 = 0)
    (h : decodeChunks bs = some out) : Shaped bs := by
  fun_induction Shaped bs generalizing out with
  | case1 b0 b1 b2 b3 rest ih =>
    unfold decodeChunks at h
    cases hfirst : decodeChunk b0 b1 b2 b3 with
    | none => rw [hfirst] at h; cases h
    | some first =>
      cases hrest : decodeChunks rest with
      | none => rw [hfirst, hrest] at h; cases h
      | some outs =>
        simp only [List.length_cons] at hmod
        exact ⟨isSome_decodeChunk.1 (by rw [hfirst]; rfl), ih (by omega) hrest⟩
  | case2 => trivial
  | case3 bs hgroup hnil =>
    rcases bs with _ | ⟨b0, _ | ⟨b1, _ | ⟨b2, _ | ⟨b3, rest⟩⟩⟩⟩
    · exact hnil rfl
    · cases hmod
    · cases hmod
    · cases hmod
    · exact hgroup b0 b1 b2 b3 rest rfl

/-! ## What the decoder accepts -/

/-- A CRC is found just for groups with four bytes in all. -/
theorem isSome_decodeS3Crc32 (s : String) :
    (decodeS3Crc32 s).isSome ↔ Shaped (utf8 (trim s)) ∧
      (utf8 (trim s)).count pad + 4 = 3 * ((utf8 (trim s)).length / 4) := by
  unfold decodeS3Crc32 base64Decode
  generalize utf8 (trim s) = bs
  dsimp only
  constructor
  · intro h
    by_cases hmod : bs.length % 4 = 0
    swap
    · rw [if_pos hmod] at h
      cases h
    rw [if_neg (by omega)] at h
    cases hout : decodeChunks bs with
    | none => rw [hout] at h; cases h
    | some out =>
      have hshaped := shaped_of_decodeChunks hmod hout
      obtain ⟨_, out', hout', hlen⟩ := exists_decodeChunks hshaped
      obtain rfl : out = out' := Option.some.inj (hout.symm.trans hout')
      refine ⟨hshaped, ?_⟩
      rw [hout] at h
      rcases out with _ | ⟨b0, _ | ⟨b1, _ | ⟨b2, _ | ⟨b3, _ | ⟨b4, rest⟩⟩⟩⟩⟩
      · cases h
      · cases h
      · cases h
      · cases h
      · simp only [List.length_cons, List.length_nil] at hlen
        omega
      · cases h
  · rintro ⟨hshaped, hfour⟩
    obtain ⟨hmod, out, hout, hlen⟩ := exists_decodeChunks hshaped
    rw [if_neg (by omega), hout]
    have hlen : out.length = 4 := by omega
    obtain ⟨b0, b1, b2, b3, rfl⟩ := List.length_eq_four.1 hlen
    rfl

/-! ## The value of a text -/

/-- Six digits and `==`; the CRC is the first 32 of the 36 bits, most significant byte first. -/
def EncodesCrc (text : String) (crc : UInt32) : Prop :=
  ∃ vs : List Nat, vs.length = 6 ∧ (∀ v ∈ vs, v < 64) ∧
    text = String.ofList (vs.map digit ++ ['=', '=']) ∧
    crc.toNat = vs.foldl (· * 64 + ·) 0 / 16

/-- The accumulator of a group. -/
theorem toNat_group {c0 c1 c2 c3 : UInt8} (h0 : c0.toNat < 64) (h1 : c1.toNat < 64)
    (h2 : c2.toNat < 64) (h3 : c3.toNat < 64) :
    (c0.toUInt32 <<< 18 ||| c1.toUInt32 <<< 12 ||| c2.toUInt32 <<< 6 ||| c3.toUInt32).toNat =
      ((c0.toNat * 64 + c1.toNat) * 64 + c2.toNat) * 64 + c3.toNat := by
  have hor : ∀ {i a b : Nat}, b < 2 ^ i → 2 ^ i * a ||| b = 2 ^ i * a + b := fun h =>
    (Nat.two_pow_add_eq_or_of_lt h _).symm
  have hshift : ∀ (c : UInt8) (k : UInt32), c.toNat < 64 → k.toNat ≤ 18 →
      (c.toUInt32 <<< k).toNat = 2 ^ k.toNat * c.toNat := by
    intro c k hc hk
    have hpow : 2 ^ k.toNat ≤ 2 ^ 18 := Nat.pow_le_pow_right (by omega) hk
    have hlt : 2 ^ k.toNat * c.toNat < 2 ^ 32 :=
      Nat.lt_of_le_of_lt (Nat.mul_le_mul hpow (Nat.le_of_lt hc)) (by decide)
    rw [UInt32.toNat_shiftLeft, UInt8.toNat_toUInt32, Nat.mod_eq_of_lt (by omega : k.toNat < 32),
      Nat.shiftLeft_eq, Nat.mul_comm, Nat.mod_eq_of_lt hlt]
  rw [UInt32.toNat_or, UInt32.toNat_or, UInt32.toNat_or, UInt8.toNat_toUInt32,
    hshift c0 18 h0 (by decide), hshift c1 12 h1 (by decide), hshift c2 6 h2 (by decide)]
  simp only [UInt32.reduceToNat]
  rw [hor (by omega), show 2 ^ 18 * c0.toNat + 2 ^ 12 * c1.toNat =
    2 ^ 12 * (c0.toNat * 64 + c1.toNat) by omega, hor (by omega),
    show 2 ^ 12 * (c0.toNat * 64 + c1.toNat) + 2 ^ 6 * c2.toNat =
      2 ^ 6 * ((c0.toNat * 64 + c1.toNat) * 64 + c2.toNat) by omega, hor (by omega)]
  omega

/-- A group without padding. -/
theorem decodeChunk_digits {b0 b1 b2 b3 c0 c1 c2 c3 : UInt8} (h0 : val b0 = some c0)
    (h1 : val b1 = some c1) (h2 : val b2 = some c2) (h3 : val b3 = some c3) :
    ∃ x y z, decodeChunk b0 b1 b2 b3 = some [x, y, z] ∧
      (x.toNat * 256 + y.toNat) * 256 + z.toNat =
        ((c0.toNat * 64 + c1.toNat) * 64 + c2.toNat) * 64 + c3.toNat := by
  have hn := toNat_group (val_eq_some h0).1 (val_eq_some h1).1 (val_eq_some h2).1 (val_eq_some h3).1
  have hdigit : ∀ {b c : UInt8}, val b = some c → valOrPad b = some (c, false) := by
    intro b c h
    unfold valOrPad
    rw [if_neg (val_ne_pad (by rw [h]; rfl)), h]
    rfl
  have l0 := (val_eq_some h0).1
  have l1 := (val_eq_some h1).1
  have l2 := (val_eq_some h2).1
  have l3 := (val_eq_some h3).1
  unfold decodeChunk
  rw [h0, h1, hdigit h2, hdigit h3]
  refine ⟨_, _, _, rfl, ?_⟩
  rw [UInt32.toNat_toUInt8, UInt32.toNat_toUInt8, UInt32.toNat_toUInt8, UInt32.toNat_shiftRight,
    UInt32.toNat_shiftRight, hn]
  simp only [UInt32.reduceToNat, Nat.reduceMod, Nat.shiftRight_eq_div_pow]
  omega

/-- The last group, with two padding characters. -/
theorem decodeChunk_pad {b0 b1 c0 c1 : UInt8} (h0 : val b0 = some c0) (h1 : val b1 = some c1) :
    ∃ x, decodeChunk b0 b1 pad pad = some [x] ∧ x.toNat = (c0.toNat * 64 + c1.toNat) / 16 := by
  have hn := @toNat_group c0 c1 0 0 (val_eq_some h0).1 (val_eq_some h1).1 (by decide) (by decide)
  have l0 := (val_eq_some h0).1
  have l1 := (val_eq_some h1).1
  unfold decodeChunk
  rw [h0, h1]
  refine ⟨_, rfl, ?_⟩
  rw [UInt32.toNat_toUInt8, UInt32.toNat_shiftRight, hn]
  simp only [UInt32.reduceToNat, Nat.reduceMod, Nat.shiftRight_eq_div_pow, UInt8.reduceToNat]
  omega

theorem toNat_fromBeBytes (b0 b1 b2 b3 : UInt8) : (fromBeBytes b0 b1 b2 b3).toNat =
    ((b0.toNat * 256 + b1.toNat) * 256 + b2.toNat) * 256 + b3.toNat := by
  have := b0.toNat_lt
  have := b1.toNat_lt
  have := b2.toNat_lt
  have := b3.toNat_lt
  unfold fromBeBytes
  exact UInt32.toNat_ofNat_of_lt' (Nat.lt_of_lt_of_eq (by omega : _ < 2 ^ 32) rfl)

/-- The bytes of six digits and `==`. -/
theorem exists_utf8_digits {v0 v1 v2 v3 v4 v5 : Nat}
    (h : ∀ v ∈ [v0, v1, v2, v3, v4, v5], v < 64) :
    ∃ b0 b1 b2 b3 b4 b5, utf8 (String.ofList ([v0, v1, v2, v3, v4, v5].map digit ++ ['=', '='])) =
        [b0, b1, b2, b3, b4, b5, pad, pad] ∧
      val b0 = some (UInt8.ofNat v0) ∧ val b1 = some (UInt8.ofNat v1) ∧
      val b2 = some (UInt8.ofNat v2) ∧ val b3 = some (UInt8.ofNat v3) ∧
      val b4 = some (UInt8.ofNat v4) ∧ val b5 = some (UInt8.ofNat v5) := by
  obtain ⟨b0, e0, h0⟩ := val_digit (h v0 (by simp))
  obtain ⟨b1, e1, h1⟩ := val_digit (h v1 (by simp))
  obtain ⟨b2, e2, h2⟩ := val_digit (h v2 (by simp))
  obtain ⟨b3, e3, h3⟩ := val_digit (h v3 (by simp))
  obtain ⟨b4, e4, h4⟩ := val_digit (h v4 (by simp))
  obtain ⟨b5, e5, h5⟩ := val_digit (h v5 (by simp))
  have hpad : String.utf8EncodeChar '=' = [pad] := by decide
  refine ⟨b0, b1, b2, b3, b4, b5, ?_, h0, h1, h2, h3, h4, h5⟩
  rw [utf8_ofList]
  simp [e0, e1, e2, e3, e4, e5, hpad]

theorem exists_six {vs : List Nat} (h : vs.length = 6) :
    ∃ v0 v1 v2 v3 v4 v5, vs = [v0, v1, v2, v3, v4, v5] := by
  rcases vs with _ | ⟨v0, _ | ⟨v1, _ | ⟨v2, _ | ⟨v3, _ | ⟨v4, _ | ⟨v5, _ | ⟨v6, vs⟩⟩⟩⟩⟩⟩⟩ <;>
    simp only [List.length_cons, List.length_nil] at h <;> try omega
  exact ⟨v0, v1, v2, v3, v4, v5, rfl⟩

/-- The text of a CRC is decoded. -/
theorem decodeS3Crc32_of_encodesCrc {s : String} {crc : UInt32} (h : EncodesCrc (trim s) crc) :
    decodeS3Crc32 s = some crc := by
  obtain ⟨vs, hlen, hvs, htext, hcrc⟩ := h
  obtain ⟨v0, v1, v2, v3, v4, v5, rfl⟩ := exists_six hlen
  obtain ⟨b0, b1, b2, b3, b4, b5, hbytes, h0, h1, h2, h3, h4, h5⟩ := exists_utf8_digits hvs
  obtain ⟨x, y, z, hxyz, hnum⟩ := decodeChunk_digits h0 h1 h2 h3
  obtain ⟨w, hw, hwnum⟩ := decodeChunk_pad h4 h5
  have hdecode : base64Decode s = some [x, y, z, w] := by
    unfold base64Decode
    rw [htext, hbytes]
    simp only [List.length_cons, List.length_nil, decodeChunks, hxyz, hw]
    rfl
  have hsmall : ∀ {v : Nat}, v < 64 → (UInt8.ofNat v).toNat = v := by
    intro v hv
    rw [UInt8.toNat_ofNat']
    omega
  simp only [List.forall_mem_cons] at hvs
  obtain ⟨l0, l1, l2, l3, l4, l5, _⟩ := hvs
  rw [hsmall l0, hsmall l1, hsmall l2, hsmall l3] at hnum
  rw [hsmall l4, hsmall l5] at hwnum
  unfold decodeS3Crc32
  rw [hdecode]
  refine congrArg some (UInt32.toNat_inj.1 ?_)
  have harith : ∀ {xyz w v : Nat}, xyz = v → w = (v4 * 64 + v5) / 16 →
      xyz * 256 + w = ((v * 64 + v4) * 64 + v5) / 16 := by omega
  rw [toNat_fromBeBytes, hcrc, harith hnum hwnum]
  simp only [List.foldl_cons, List.foldl_nil, Nat.zero_mul, Nat.zero_add]

theorem count_pad_le {bs : Bytes} (h : Shaped bs) : bs.count pad ≤ 2 * (bs.length / 4) := by
  fun_induction Shaped bs with
  | case1 b0 b1 b2 b3 rest ih =>
    have hrest := ih h.2
    rw [List.count_cons_of_ne (val_ne_pad h.1.1), List.count_cons_of_ne (val_ne_pad h.1.2.1)]
    have := @List.count_le_length _ _ pad [b2, b3]
    have hcount : (b2 :: b3 :: rest).count pad = [b2, b3].count pad + rest.count pad :=
      @List.count_append _ _ pad [b2, b3] rest
    simp only [List.length_cons, List.length_nil] at this ⊢
    omega
  | case2 => exact Nat.zero_le _
  | case3 => exact h.elim

/-- Without padding in the first of the groups there are two, the second with one byte. -/
theorem eq_of_shaped {bs : Bytes}
    (h : Shaped bs ∧ bs.count pad + 4 = 3 * (bs.length / 4)) (hfirst : pad ∉ bs.take 4) :
    ∃ b0 b1 b2 b3 b4 b5, bs = [b0, b1, b2, b3, b4, b5, pad, pad] ∧
      ∀ b ∈ [b0, b1, b2, b3, b4, b5], ∃ v, val b = some v := by
  have hval : ∀ {b : UInt8}, (valOrPad b).isSome → b ≠ pad → ∃ v, val b = some v := by
    intro b hb hne
    unfold valOrPad at hb
    rw [if_neg hne, Option.isSome_map] at hb
    exact Option.isSome_iff_exists.1 hb
  obtain ⟨hshaped, hfour⟩ := h
  rcases bs with _ | ⟨b0, _ | ⟨b1, _ | ⟨b2, _ | ⟨b3, rest⟩⟩⟩⟩
  · cases hfour
  · exact hshaped.elim
  · exact hshaped.elim
  · exact hshaped.elim
  obtain ⟨⟨h0, h1, h2, h3⟩, hrest⟩ := hshaped
  simp only [List.take_succ_cons, List.take_zero, List.mem_cons, not_or] at hfirst
  obtain ⟨n0, n1, n2, n3, _⟩ := hfirst
  rw [List.count_cons_of_ne (Ne.symm n0), List.count_cons_of_ne (Ne.symm n1),
    List.count_cons_of_ne (Ne.symm n2), List.count_cons_of_ne (Ne.symm n3)] at hfour
  simp only [List.length_cons] at hfour
  have hcount := count_pad_le hrest
  have hmod := (exists_decodeChunks hrest).1
  have hlen : rest.length = 4 := by omega
  obtain ⟨b4, b5, b6, b7, rfl⟩ := List.length_eq_four.1 hlen
  obtain ⟨⟨h4, h5, h6, h7⟩, _⟩ := hrest
  rw [List.count_cons_of_ne (val_ne_pad h4), List.count_cons_of_ne (val_ne_pad h5)] at hfour
  have htwo : [b6, b7].count pad = [b6, b7].length := by
    simp only [List.length_cons, List.length_nil] at hfour ⊢
    omega
  have hall := List.count_eq_length.1 htwo
  obtain rfl : pad = b6 := hall b6 (by simp)
  obtain rfl : pad = b7 := hall b7 (by simp)
  refine ⟨b0, b1, b2, b3, b4, b5, rfl, ?_⟩
  simp only [List.forall_mem_cons]
  exact ⟨Option.isSome_iff_exists.1 h0, Option.isSome_iff_exists.1 h1, hval h2 (Ne.symm n2),
    hval h3 (Ne.symm n3), Option.isSome_iff_exists.1 h4, Option.isSome_iff_exists.1 h5, nofun⟩

/-- The text with those bytes is the one of the values. -/
theorem exists_encodesCrc {text : String} {b0 b1 b2 b3 b4 b5 : UInt8}
    (hbytes : utf8 text = [b0, b1, b2, b3, b4, b5, pad, pad])
    (hval : ∀ b ∈ [b0, b1, b2, b3, b4, b5], ∃ v, val b = some v) : ∃ crc, EncodesCrc text crc := by
  simp only [List.forall_mem_cons] at hval
  obtain ⟨⟨v0, e0⟩, ⟨v1, e1⟩, ⟨v2, e2⟩, ⟨v3, e3⟩, ⟨v4, e4⟩, ⟨v5, e5⟩, _⟩ := hval
  have hpad : String.utf8EncodeChar '=' = [pad] := by decide
  have htext : text = String.ofList
      ([v0.toNat, v1.toNat, v2.toNat, v3.toNat, v4.toNat, v5.toNat].map digit ++ ['=', '=']) := by
    refine utf8_injective ?_
    rw [hbytes, utf8_ofList]
    simp [(val_eq_some e0).2, (val_eq_some e1).2, (val_eq_some e2).2, (val_eq_some e3).2,
      (val_eq_some e4).2, (val_eq_some e5).2, hpad]
  have hsmall : ∀ v ∈ [v0.toNat, v1.toNat, v2.toNat, v3.toNat, v4.toNat, v5.toNat], v < 64 := by
    simp [(val_eq_some e0).1, (val_eq_some e1).1, (val_eq_some e2).1, (val_eq_some e3).1,
      (val_eq_some e4).1, (val_eq_some e5).1]
  refine ⟨UInt32.ofNat
    ([v0.toNat, v1.toNat, v2.toNat, v3.toNat, v4.toNat, v5.toNat].foldl (· * 64 + ·) 0 / 16),
    _, rfl, hsmall, htext, UInt32.toNat_ofNat_of_lt' ?_⟩
  simp only [List.forall_mem_cons] at hsmall
  obtain ⟨l0, l1, l2, l3, l4, l5, _⟩ := hsmall
  simp only [List.foldl_cons, List.foldl_nil]
  exact Nat.lt_of_lt_of_eq (by omega : _ < 2 ^ 32) rfl

/-- A text that is decoded and has no padding in its first group is the text of a CRC. -/
theorem encodesCrc_of_decodeS3Crc32 {s : String} {crc : UInt32} (h : decodeS3Crc32 s = some crc)
    (hfirst : pad ∉ (utf8 (trim s)).take 4) : EncodesCrc (trim s) crc := by
  obtain ⟨b0, b1, b2, b3, b4, b5, hbytes, hval⟩ :=
    eq_of_shaped ((isSome_decodeS3Crc32 s).1 (by rw [h]; rfl)) hfirst
  obtain ⟨crc', hcode⟩ := exists_encodesCrc hbytes hval
  rwa [Option.some.inj (h.symm.trans (decodeS3Crc32_of_encodesCrc hcode))]

/-! ## The decoder against base64 -/

/-- Groups with four bytes in all whose first group has padding: the decoder takes padding in any
group. -/
structure PaddedEarly (bytes : Bytes) : Prop where
  shaped : Shaped bytes
  four : bytes.count pad + 4 = 3 * (bytes.length / 4)
  first : pad ∈ bytes.take 4

theorem not_encodesCrc_of_padded {text : String} {crc : UInt32} (h : pad ∈ (utf8 text).take 4) :
    ¬ EncodesCrc text crc := by
  rintro ⟨vs, hlen, hvs, rfl, _⟩
  obtain ⟨v0, v1, v2, v3, v4, v5, rfl⟩ := exists_six hlen
  obtain ⟨b0, b1, b2, b3, b4, b5, hbytes, h0, h1, h2, h3, _⟩ := exists_utf8_digits hvs
  rw [hbytes] at h
  simp only [List.take_succ_cons, List.take_zero, List.mem_cons, List.not_mem_nil, or_false] at h
  rcases h with h | h | h | h
  · exact val_ne_pad (by rw [h0]; rfl) h.symm
  · exact val_ne_pad (by rw [h1]; rfl) h.symm
  · exact val_ne_pad (by rw [h2]; rfl) h.symm
  · exact val_ne_pad (by rw [h3]; rfl) h.symm

theorem paddedEarly_iff {bytes : Bytes} : PaddedEarly bytes ↔
    (Shaped bytes ∧ bytes.count pad + 4 = 3 * (bytes.length / 4)) ∧ pad ∈ bytes.take 4 :=
  ⟨fun h => ⟨⟨h.shaped, h.four⟩, h.first⟩, fun h => ⟨h.1.1, h.1.2, h.2⟩⟩

theorem decodeS3Crc32_iff (s : String) :
    (∀ crc, decodeS3Crc32 s = some crc ↔ EncodesCrc (trim s) crc) ↔
      ¬ PaddedEarly (utf8 (trim s)) := by
  rw [paddedEarly_iff, ← isSome_decodeS3Crc32]
  constructor
  · rintro hexact ⟨hsome, hfirst⟩
    obtain ⟨crc, hcrc⟩ := Option.isSome_iff_exists.1 hsome
    exact not_encodesCrc_of_padded hfirst ((hexact crc).1 hcrc)
  · intro hpadded crc
    refine ⟨fun h => encodesCrc_of_decodeS3Crc32 h fun hfirst => hpadded ⟨?_, hfirst⟩,
      decodeS3Crc32_of_encodesCrc⟩
    rw [h]
    rfl

/-! ## Encoding a CRC -/

/-- Four bytes are six digits and `==`. -/
theorem encode_beBytes (n : Nat) : ∃ vs : List Nat,
    Base64.encode (beBytes 4 n) = vs.map digit ++ ['=', '='] ∧ vs.length = 6 ∧
      (∀ v ∈ vs, v < 64) ∧ vs.foldl (· * 64 + ·) 0 / 16 = n % 2 ^ 32 := by
  have hbyte : ∀ m, (UInt8.ofNat (m % 256)).toNat = m % 256 := by
    intro m
    rw [UInt8.toNat_ofNat']
    omega
  have hbytes : beBytes 4 n = [UInt8.ofNat (n / 256 / 256 / 256 % 256),
    UInt8.ofNat (n / 256 / 256 % 256), UInt8.ofNat (n / 256 % 256), UInt8.ofNat (n % 256)] := rfl
  rw [hbytes]
  unfold Base64.encode
  unfold Base64.encode
  simp only [hbyte]
  generalize ha : n / 256 / 256 / 256 % 256 = a
  generalize hb : n / 256 / 256 % 256 = b
  generalize hc : n / 256 % 256 = c
  generalize hd : n % 256 = d
  refine ⟨[a / 4, a % 4 * 16 + b / 16, b % 16 * 4 + c / 64, c % 64, d / 4, d % 4 * 16], rfl, rfl,
    ?_, ?_⟩
  · simp only [List.forall_mem_cons, List.not_mem_nil, false_imp_iff, implies_true, and_true]
    omega
  · simp only [List.foldl_cons, List.foldl_nil]
    omega

theorem encodesCrc_encode (crc : UInt32) :
    EncodesCrc (String.ofList (Base64.encode (beBytes 4 crc.toNat))) crc := by
  obtain ⟨vs, htext, hlen, hvs, hnum⟩ := encode_beBytes crc.toNat
  refine ⟨vs, hlen, hvs, by rw [htext], ?_⟩
  rw [hnum, Nat.mod_eq_of_lt crc.toNat_lt]

theorem isWhitespace_digit {v : Nat} (h : v < 64) : isWhitespace (digit v) = false := by
  have hall : ∀ v < 64, isWhitespace (digit v) = false := by decide +kernel
  exact hall v h

/-- The encoding of a CRC is decoded to it. -/
theorem decodeS3Crc32_encode (crc : UInt32) :
    decodeS3Crc32 (String.ofList (Base64.encode (beBytes 4 crc.toNat))) = some crc := by
  refine decodeS3Crc32_of_encodesCrc ?_
  obtain ⟨vs, htext, hlen, hvs, _⟩ := encode_beBytes crc.toNat
  rw [trim_ofList]
  · exact encodesCrc_encode crc
  · intro c hc
    obtain ⟨v, vs, rfl⟩ := List.exists_cons_of_ne_nil (List.ne_nil_of_length_eq_add_one hlen)
    rw [htext] at hc
    obtain rfl : digit v = c := Option.some.inj hc
    exact isWhitespace_digit (hvs v List.mem_cons_self)
  · intro c hc
    rw [htext, List.getLast?_append_of_ne_nil _ (by simp)] at hc
    obtain rfl : '=' = c := Option.some.inj hc
    decide

/-- The decoder is right about a text unless it is padded early, and it decodes every encoding. -/
theorem decodeS3Crc32_exact (s : String) :
    ((∀ crc, decodeS3Crc32 s = some crc ↔ EncodesCrc (trim s) crc) ↔
      ¬ PaddedEarly (utf8 (trim s))) ∧
    ∀ crc : UInt32, decodeS3Crc32 (String.ofList (Base64.encode (beBytes 4 crc.toNat))) = some crc :=
  ⟨decodeS3Crc32_iff s, decodeS3Crc32_encode⟩

/-- The decoder accepts `AAA=AAA=`. -/
theorem decodeS3Crc32_not_exact :
    decodeS3Crc32 "AAA=AAA=" = some 0 ∧ ¬ EncodesCrc (trim "AAA=AAA=") 0 := by
  have hfirst : pad ∈ (utf8 (trim "AAA=AAA=")).take 4 := by decide +kernel
  exact ⟨by decide +kernel, not_encodesCrc_of_padded hfirst⟩

end S3Archive.FigmentEngine
