import S3Archive.Base.Text

/-!
# Flat JSON objects as they are written

A JSON string piece by piece (`Piece`), each piece a character together with the way
in which it is written, and an object of string members with its white space. What an
object says is `JsonString.chars` of its names and values; how it is written is
`JsonObject.text`.
-/

namespace S3Archive.Json

/-! ## Strings -/

/-- A character that a string may have as it is. -/
def Unescaped (c : Char) : Prop := 32 ≤ c.toNat ∧ c ≠ '\x22' ∧ c ≠ '\\'

instance (c : Char) : Decidable (Unescaped c) := inferInstanceAs (Decidable (_ ∧ _))

/-- The escapes of one letter. -/
inductive Short where
  | quote
  | backslash
  | slash
  | backspace
  | formFeed
  | lineFeed
  | carriageReturn
  | tab
  deriving DecidableEq, Repr

namespace Short

def letter : Short → UInt8
  | quote => 34
  | backslash => 92
  | slash => 47
  | backspace => 98
  | formFeed => 102
  | lineFeed => 110
  | carriageReturn => 114
  | tab => 116

def char : Short → Char
  | quote => '\x22'
  | backslash => '\\'
  | slash => '/'
  | backspace => '\x08'
  | formFeed => '\x0c'
  | lineFeed => '\n'
  | carriageReturn => '\r'
  | tab => '\t'

end Short

/-- A character of a string, written as it is, by a letter, by the four digits of its number, or
by those of its two surrogates. -/
inductive Piece where
  | plain (c : Char) (hc : Unescaped c)
  | short (e : Short)
  | unicode (c : Char) (ds : Bytes) (hlen : ds.length = 4) (hval : hexValue ds = some c.toNat)
  | surrogates (c : Char) (hi lo : Bytes) (hlen : hi.length = 4 ∧ lo.length = 4)
    (hc : 0x10000 ≤ c.toNat) (hhi : hexValue hi = some (0xD800 + (c.toNat - 0x10000) / 0x400))
    (hlo : hexValue lo = some (0xDC00 + (c.toNat - 0x10000) % 0x400))

namespace Piece

def char : Piece → Char
  | plain c _ => c
  | short e => e.char
  | unicode c _ _ _ => c
  | surrogates c _ _ _ _ _ _ => c

def written : Piece → Bytes
  | plain c _ => String.utf8EncodeChar c
  | short e => [92, e.letter]
  | unicode _ ds _ _ => 92 :: 117 :: ds
  | surrogates _ hi lo _ _ _ _ => 92 :: 117 :: hi ++ 92 :: 117 :: lo

end Piece

/-- A string as it is written between its quotes. -/
abbrev JsonString := List Piece

namespace JsonString

/-- What the string says. -/
def chars (s : JsonString) : List Char := s.map Piece.char

/-- What is between its quotes. -/
def raw (s : JsonString) : Bytes := s.flatMap Piece.written

end JsonString

/-! ## Objects -/

def isWs (b : UInt8) : Bool := b = 32 || b = 9 || b = 10 || b = 13

structure Ws where
  bytes : Bytes
  isWs : ∀ b ∈ bytes, isWs b = true

/-- A member with the white space before and behind its parts. -/
structure Member where
  name : JsonString
  value : JsonString
  beforeName : Ws
  beforeColon : Ws
  afterColon : Ws
  afterValue : Ws

namespace Member

/-- What is between the name and the value. -/
def colon (m : Member) : Bytes := m.beforeColon.bytes ++ 58 :: m.afterColon.bytes

/-- The member from its first quote to its last. -/
def quoted (m : Member) : Bytes :=
  34 :: (m.name.raw ++ 34 :: (m.colon ++ 34 :: (m.value.raw ++ [34])))

end Member

/-- A flat object with string members, each as it is written; `inside` is the white space of an
object without members. -/
structure JsonObject where
  leading : Ws
  inside : Ws
  members : List Member
  trailing : Ws

/-- What is behind a member's last quote, up to the next quote or to the end of the object. -/
def Member.gap (closing : Bytes) (m : Member) : List Member → Bytes
  | [] => m.afterValue.bytes ++ closing
  | next :: _ => m.afterValue.bytes ++ 44 :: next.beforeName.bytes

/-- The members from the first quote on, to the end of the object. -/
def membersText (closing : Bytes) : List Member → Bytes
  | [] => []
  | m :: ms => m.quoted ++ (m.gap closing ms ++ membersText closing ms)

namespace JsonObject

/-- What is before the first quote. -/
def opening (o : JsonObject) : Bytes :=
  match o.members with
  | [] => o.leading.bytes ++ 123 :: (o.inside.bytes ++ 125 :: o.trailing.bytes)
  | m :: _ => o.leading.bytes ++ 123 :: m.beforeName.bytes

def closing (o : JsonObject) : Bytes := 125 :: o.trailing.bytes

def text (o : JsonObject) : Bytes := o.opening ++ membersText o.closing o.members

/-- The first member with a name; the only one where names are unique. -/
def member? (o : JsonObject) (key : List Char) : Option Member :=
  o.members.find? fun m => m.name.chars = key

end JsonObject

/-! ## What the writing has in it -/

theorem not_mem_utf8EncodeChar {c : Char} {b : UInt8} (hb : b.toNat < 128)
    (hc : c.toNat ≠ b.toNat) : b ∉ String.utf8EncodeChar c :=
  fun h => hc (toNat_of_mem_utf8EncodeChar h hb)

/-- A character that is written as it is has no quote, no backslash and no zero. -/
theorem Unescaped.not_mem {c : Char} (hc : Unescaped c) :
    34 ∉ String.utf8EncodeChar c ∧ 92 ∉ String.utf8EncodeChar c ∧ 0 ∉ String.utf8EncodeChar c := by
  obtain ⟨hlow, hquote, hbackslash⟩ := hc
  refine ⟨not_mem_utf8EncodeChar (by decide) fun h => hquote ?_,
    not_mem_utf8EncodeChar (by decide) fun h => hbackslash ?_,
    not_mem_utf8EncodeChar (by decide) fun h => ?_⟩
  · exact Char.toNat_inj.1 h
  · exact Char.toNat_inj.1 h
  · rw [h] at hlow
    exact absurd hlow (by decide)

theorem not_mem_hex {ds : Bytes} {n : Nat} (h : hexValue ds = some n) {b : UInt8}
    (hb : hexDigitValue b = none) : b ∉ ds := by
  intro hmem
  have hdigit := isSome_of_hexValue (Option.isSome_of_eq_some h) b hmem
  rw [hb] at hdigit
  cases hdigit

/-- Every quote stands behind a backslash. -/
def QuotesEscaped (bs : Bytes) : Prop := ∀ u w, bs = u ++ 34 :: w → u.getLast? = some 92

theorem QuotesEscaped.of_not_mem {bs : Bytes} (h : 34 ∉ bs) : QuotesEscaped bs := by
  rintro u w rfl
  exact absurd (List.mem_append_right u List.mem_cons_self) h

/-- What follows a quote. -/
theorem QuotesEscaped.tail {u w : Bytes} (h : QuotesEscaped (u ++ 34 :: w)) : QuotesEscaped w := by
  rintro u' w' rfl
  have hlast := h (u ++ 34 :: u') w' (by simp)
  cases u' with
  | nil =>
    rw [List.getLast?_concat] at hlast
    cases hlast
  | cons b u' =>
    rwa [List.getLast?_append, List.getLast?_cons_cons, List.getLast?_cons, Option.some_or,
      ← List.getLast?_cons] at hlast

theorem QuotesEscaped.append {x y : Bytes} (hx : QuotesEscaped x) (hy : QuotesEscaped y) :
    QuotesEscaped (x ++ y) := by
  intro u w h
  rcases List.append_eq_append_iff.1 h with ⟨v, rfl, hv⟩ | ⟨v, rfl, hv⟩
  · have hlast := hy v w hv
    rw [List.getLast?_append, hlast]
    rfl
  · cases v with
    | nil => cases hy [] w hv.symm
    | cons b v =>
      obtain ⟨rfl, -⟩ := List.cons.inj hv
      exact hx u v rfl

/-- In a string, only a backslash can be before a quote. -/
theorem quotesEscaped_written (p : Piece) : QuotesEscaped p.written := by
  cases p with
  | plain c hc => exact .of_not_mem hc.not_mem.1
  | short e =>
    by_cases he : e = .quote
    · subst he
      intro u w h
      match u with
      | [] => cases (List.cons.inj h).1
      | [b] => rw [← (List.cons.inj h).1]; rfl
      | b :: b' :: u =>
        have hlen := congrArg List.length h
        simp [Piece.written] at hlen
    · refine .of_not_mem ?_
      cases e with
      | quote => exact absurd rfl he
      | _ => decide
  | unicode c ds hlen hval =>
    refine .of_not_mem ?_
    have hds : (34 : UInt8) ∉ ds := not_mem_hex hval (by decide)
    simp [Piece.written, hds]
  | surrogates c hi lo hlen hc hhi hlo =>
    refine .of_not_mem ?_
    have h1 : (34 : UInt8) ∉ hi := not_mem_hex hhi (by decide)
    have h2 : (34 : UInt8) ∉ lo := not_mem_hex hlo (by decide)
    simp [Piece.written, h1, h2]

theorem quotesEscaped_raw (s : JsonString) : QuotesEscaped s.raw := by
  induction s with
  | nil => exact .of_not_mem List.not_mem_nil
  | cons p s ih => exact (quotesEscaped_written p).append ih

theorem Ws.not_mem (ws : Ws) {b : UInt8} (hb : Json.isWs b = false) : b ∉ ws.bytes := by
  intro h
  rw [ws.isWs b h] at hb
  cases hb

end S3Archive.Json
