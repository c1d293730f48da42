import S3Archive.Base.Substring
import S3Archive.Base.Text

/-!
# Marked-up documents

A document as tags and text (`Token`), its text with the references of XML in place
of some characters (`Escaping`). `memmem_render_skip` is the rule by which a search
for a tag passes over a document that does not have the tag.
-/

namespace S3Archive

/-! ## Documents -/

/-- A tag `<name>`, where that of an end tag starts with a slash, or text as it is written. -/
inductive Token where
  | tag (name : Bytes)
  | text (data : Bytes)
  deriving DecidableEq, Repr

namespace Token

/-- A name has no angle brackets, and text does not open one. -/
def Valid : Token → Prop
  | tag name => 60 ∉ name ∧ 62 ∉ name
  | text data => 60 ∉ data

def render : Token → Bytes
  | tag name => 60 :: (name ++ [62])
  | text data => data

end Token

def render (ts : List Token) : Bytes := ts.flatMap Token.render

@[simp] theorem render_nil : render [] = [] := rfl

@[simp] theorem render_cons (t : Token) (ts : List Token) :
    render (t :: ts) = t.render ++ render ts := rfl

@[simp] theorem render_append (ts us : List Token) : render (ts ++ us) = render ts ++ render us :=
  List.flatMap_append

/-- A search for a tag, and what has to follow it, passes over a document without the tag. -/
theorem memmem_render_skip {ts : List Token} (hvalid : ∀ t ∈ ts, t.Valid) {name : Bytes}
    (hname : 62 ∉ name) (hnot : Token.tag name ∉ ts) (tail hay : Bytes) :
    memmem (render ts ++ hay) ((Token.tag name).render ++ tail) =
      (memmem hay ((Token.tag name).render ++ tail)).map ((render ts).length + ·) := by
  induction ts with
  | nil => simp
  | cons t ts ih =>
    obtain ⟨ht, hvalid⟩ := List.forall_mem_cons.1 hvalid
    rw [List.mem_cons, not_or] at hnot
    have hrest := ih hvalid hnot.2
    rw [render_cons, List.append_assoc, List.length_append]
    cases t with
    | text data =>
      -- text does not open a tag
      have hskip := memmem_skip ht (render ts ++ hay) (name ++ [62] ++ tail)
      simp only [Token.render, List.cons_append] at hrest hskip ⊢
      rw [hskip, hrest, Option.map_map]
      congr 1
      funext i
      simp only [Function.comp_apply]
      omega
    | tag other =>
      obtain ⟨hopen, hclose⟩ := ht
      have hother : name ≠ other := fun h => hnot.1 (h ▸ rfl)
      have hno : ¬ (Token.tag name).render ++ tail <+:
          60 :: (other ++ [62] ++ (render ts ++ hay)) := by
        rintro ⟨rest, hpre⟩
        simp only [Token.render, List.cons_append, List.append_assoc, List.nil_append,
          List.cons.injEq, true_and] at hpre
        exact hother (append_sep_inj hname hclose hpre).1
      have hinside : (60 : UInt8) ∉ other ++ [62] := by simp [hopen]
      have hskip := memmem_skip hinside (render ts ++ hay) (name ++ [62] ++ tail)
      have hhead := memmem_cons_of_not_prefix hno
      simp only [Token.render, List.cons_append] at hrest hskip hhead ⊢
      rw [hhead, hskip, hrest, Option.map_map, Option.map_map]
      congr 1
      funext i
      simp only [Function.comp_apply, List.length_cons]
      omega

/-! ## Escaped text -/

/-- A reference stands for a character. -/
inductive Reference : Char → Bytes → Prop where
  | amp : Reference '&' (utf8 "&amp;")
  | lt : Reference '<' (utf8 "&lt;")
  | gt : Reference '>' (utf8 "&gt;")
  | quot : Reference '\x22' (utf8 "&quot;")
  | apos : Reference '\x27' (utf8 "&apos;")
  | decimal {c : Char} {ds : Bytes} : ds ≠ [] → (∀ d ∈ ds, IsDigit d) →
      decimalValue ds = c.toNat → Reference c (utf8 "&#" ++ ds ++ utf8 ";")
  | hex {c : Char} {ds : Bytes} : ds ≠ [] → hexValue ds = some c.toNat →
      Reference c (utf8 "&#x" ++ ds ++ utf8 ";")

/-- A way to escape text: a character is written as it is, which no document allows for an
ampersand, an opening angle bracket or a zero, or as a reference. -/
structure Escaping where
  escape : Char → Bytes
  spec : ∀ c, (escape c = String.utf8EncodeChar c ∧ c ≠ '&' ∧ c ≠ '<' ∧ c ≠ '\x00') ∨
    Reference c (escape c)

theorem Reference.not_mem {c : Char} {bs : Bytes} (h : Reference c bs) : 60 ∉ bs ∧ 0 ∉ bs := by
  cases h with
  | amp | lt | gt | quot | apos => decide
  | @decimal _ ds _ hdigit =>
    have h60 : (60 : UInt8) ∉ ds := fun h => absurd (hdigit _ h) (by decide)
    have h0 : (0 : UInt8) ∉ ds := fun h => absurd (hdigit _ h) (by decide)
    simp only [List.mem_append, h60, h0, or_false]
    decide
  | @hex _ ds _ hval =>
    have hdigit := isSome_of_hexValue (Option.isSome_of_eq_some hval)
    have h60 : (60 : UInt8) ∉ ds := fun h => absurd (hdigit _ h) (by decide)
    have h0 : (0 : UInt8) ∉ ds := fun h => absurd (hdigit _ h) (by decide)
    simp only [List.mem_append, h60, h0, or_false]
    decide

/-- A reference is longer than the character. -/
theorem Reference.length_lt {c : Char} {bs : Bytes} (h : Reference c bs) :
    (String.utf8EncodeChar c).length < bs.length := by
  cases h with
  | amp | lt | gt | quot | apos => decide
  | @decimal _ ds hne hdigit hval =>
    have hlen : (utf8 "&#" ++ ds ++ utf8 ";").length = ds.length + 3 := by
      simp only [List.length_append, show (utf8 "&#").length = 2 by decide,
        show (utf8 ";").length = 1 by decide]
      omega
    have hfour := c.utf8Size_le_four
    have hpos := List.length_pos_iff.2 hne
    rw [hlen, String.length_utf8EncodeChar]
    by_cases hone : ds.length = 1
    · -- one digit is the number of an ASCII character
      obtain ⟨d, rfl⟩ := List.length_eq_one_iff.1 hone
      have hd := UInt8.le_iff_toNat_le.1 (hdigit d (List.mem_singleton.2 rfl)).2
      have hc : c.toNat = d.toNat - 48 := by rw [← hval]; exact Nat.zero_add _
      have hsize : c.utf8Size = 1 := by
        rw [Char.utf8Size_eq_one_iff, UInt32.le_iff_toNat_le]
        show c.toNat ≤ 127
        simp at hd
        omega
      omega
    · omega
  | @hex _ ds hne hval =>
    have hlen : (utf8 "&#x" ++ ds ++ utf8 ";").length = ds.length + 4 := by
      simp only [List.length_append, show (utf8 "&#x").length = 3 by decide,
        show (utf8 ";").length = 1 by decide]
      omega
    have hfour := c.utf8Size_le_four
    have hpos := List.length_pos_iff.2 hne
    rw [hlen, String.length_utf8EncodeChar]
    omega

namespace Escaping

variable (e : Escaping)

def text (t : List Char) : Bytes := t.flatMap e.escape

/-- The character is written as it is. -/
def Plain (c : Char) : Prop := e.escape c = String.utf8EncodeChar c

instance (c : Char) : Decidable (e.Plain c) := inferInstanceAs (Decidable (_ = _))

theorem not_mem_escape (c : Char) : 60 ∉ e.escape c ∧ 0 ∉ e.escape c := by
  rcases e.spec c with ⟨hplain, -, hlt, hnul⟩ | href
  · rw [hplain]
    constructor
    · intro h
      have hc : c.toNat = '<'.toNat := toNat_of_mem_utf8EncodeChar h (by decide)
      exact hlt (Char.toNat_inj.1 hc)
    · intro h
      have hc : c.toNat = '\x00'.toNat := toNat_of_mem_utf8EncodeChar h (by decide)
      exact hnul (Char.toNat_inj.1 hc)
  · exact href.not_mem

/-- Escaped text opens no tag and has no zero. -/
theorem not_mem_text (t : List Char) : 60 ∉ e.text t ∧ 0 ∉ e.text t := by
  constructor
  all_goals
    intro h
    obtain ⟨c, -, hc⟩ := List.mem_flatMap.1 h
  · exact (e.not_mem_escape c).1 hc
  · exact (e.not_mem_escape c).2 hc

theorem length_le_escape (c : Char) :
    (String.utf8EncodeChar c).length ≤ (e.escape c).length := by
  rcases e.spec c with ⟨hplain, -⟩ | href
  · rw [hplain]
  · exact Nat.le_of_lt href.length_lt

theorem length_le_text (t : List Char) : (encodeText t).length ≤ (e.text t).length :=
  length_flatMap_le e.length_le_escape t

/-- A text is written as it is exactly when all of its characters are. -/
theorem text_eq_encodeText_iff (t : List Char) :
    e.text t = encodeText t ↔ ∀ c ∈ t, e.Plain c :=
  flatMap_eq_flatMap_iff e.length_le_escape t

end Escaping

/-- References for the five characters of XML and for carriage returns. -/
def xmlEscaping : Escaping where
  escape c :=
    if c = '&' then utf8 "&amp;"
    else if c = '<' then utf8 "&lt;"
    else if c = '>' then utf8 "&gt;"
    else if c = '\x22' then utf8 "&quot;"
    else if c = '\x27' then utf8 "&apos;"
    else if c = '\r' then utf8 "&#13;"
    else if c = '\x00' then utf8 "&#0;"
    else String.utf8EncodeChar c
  spec c := by
    split_ifs with hamp hlt hgt hquot hapos hcr hnul
    · exact .inr (hamp ▸ .amp)
    · exact .inr (hlt ▸ .lt)
    · exact .inr (hgt ▸ .gt)
    · exact .inr (hquot ▸ .quot)
    · exact .inr (hapos ▸ .apos)
    · exact .inr (hcr ▸ .decimal (List.cons_ne_nil 49 [51]) (by simp [IsDigit]) (by decide))
    · exact .inr (hnul ▸ .decimal (List.cons_ne_nil 48 []) (by simp [IsDigit]) (by decide))
    · exact .inl ⟨rfl, hamp, hlt, hnul⟩

end S3Archive
