import S3Archive.Base.Bytes

/-!
# Base64

The standard alphabet (`alphabet`, `digit`), the padded encoding of a byte string
(`encode`), and the UTF-8 bytes of a text over the alphabet.
-/

namespace S3Archive

@[simp] theorem utf8_ofList (cs : List Char) :
    utf8 (String.ofList cs) = cs.flatMap String.utf8EncodeChar := by
  unfold utf8
  rw [String.toUTF8_eq_toByteArray, String.toByteArray_ofList]
  unfold List.utf8Encode
  rw [List.data_toByteArray]

theorem utf8_injective {s t : String} (h : utf8 s = utf8 t) : s = t := by
  unfold utf8 at h
  rw [String.toUTF8_eq_toByteArray, String.toUTF8_eq_toByteArray] at h
  exact String.toByteArray_inj.1 (ByteArray.ext (Array.toList_inj.1 h))

namespace Base64

def alphabet : List Char :=
  "ABCDEFGHIJKLMNOPQRSTUVWXYZabcdefghijklmnopqrstuvwxyz0123456789+/".toList

/-- The character of a 6-bit value. -/
def digit (v : Nat) : Char := alphabet.getD v '='

/-- Three bytes are four digits; one or two bytes at the end are padded. -/
def encode : Bytes → List Char
  | [] => []
  | [a] => [digit (a.toNat / 4), digit (a.toNat % 4 * 16), '=', '=']
  | [a, b] =>
    [digit (a.toNat / 4), digit (a.toNat % 4 * 16 + b.toNat / 16), digit (b.toNat % 16 * 4), '=']
  | a :: b :: c :: rest =>
    digit (a.toNat / 4) :: digit (a.toNat % 4 * 16 + b.toNat / 16) ::
      digit (b.toNat % 16 * 4 + c.toNat / 64) :: digit (c.toNat % 64) :: encode rest

example : String.ofList (encode (utf8 "foob")) = "Zm9vYg==" := by decide +kernel

end Base64

end S3Archive
