import S3Archive.Base.Markup
import S3Archive.SebstoC.Zipper

/-!
# sebsto C: listing the objects

`list_objects` with its substring search for XML tags. The responses to its requests
are given in order, `none` for a request that fails; a text between two pointers is
the list of its bytes. `xmlNext_skip` and `xmlNext_element` say what the search finds
in a rendered document.
-/

namespace S3Archive.SebstoC

/-! ## The query -/

/-- What `qs_encode` leaves as it is. -/
def unreserved (c : UInt8) : Bool :=
  (65 ≤ c && c ≤ 90) || (97 ≤ c && c ≤ 122) || (48 ≤ c && c ≤ 57) || c = 45 || c = 95 ||
    c = 46 || c = 126

def qsEncode (s : Bytes) : Bytes :=
  s.flatMap fun c =>
    if unreserved c then [c] else [37, hexUpper (c.toNat / 16), hexUpper (c.toNat % 16)]

/-- The server reads back what was encoded. -/
theorem percentDecode_qsEncode (s : Bytes) : percentDecode (qsEncode s) = s := by
  induction s with
  | nil => rfl
  | cons c s ih =>
    unfold qsEncode at ih ⊢
    rw [List.flatMap_cons]
    split_ifs with hc
    · have hne : c ≠ 37 := by
        rintro rfl
        exact absurd hc (by decide)
      rw [List.singleton_append, percentDecode_cons_of_ne hne, ih]
    · rw [List.cons_append, List.cons_append, List.cons_append, List.nil_append,
        percentDecode_hex, ih]

/-- The path of a request. -/
def requestPath (prefixSlash : Bytes) (contToken : Option Bytes) : Bytes :=
  utf8 "/?list-type=2&max-keys=1000&prefix=" ++ qsEncode prefixSlash ++
    match contToken with
    | none => []
    | some t => utf8 "&continuation-token=" ++ qsEncode t

/-! ## Searching -/

/-- `xml_next`: the text of the next `<tag>`, and what follows its end tag. -/
def xmlNext (cursor tag : Bytes) : Option (Bytes × Bytes) := do
  let opening := (Token.tag tag).render
  let closing := (Token.tag (47 :: tag)).render
  let i ← memmem cursor opening
  let p := cursor.drop (i + opening.length)
  let j ← memmem p closing
  return (cString (p.take j), p.drop (j + closing.length))

theorem length_lt_of_xmlNext {cursor tag text rest : Bytes}
    (h : xmlNext cursor tag = some (text, rest)) : rest.length < cursor.length := by
  unfold xmlNext at h
  obtain ⟨i, hi, h⟩ := Option.bind_eq_some_iff.1 h
  obtain ⟨j, -, h⟩ := Option.bind_eq_some_iff.1 h
  cases h
  have hle := memmem_add_length_le hi (List.cons_ne_nil _ _)
  simp only [Token.render, List.length_drop, List.length_cons] at hle ⊢
  omega

/-- A document without the tag is passed over. -/
theorem xmlNext_skip {ts : List Token} (hvalid : ∀ t ∈ ts, t.Valid) {tag : Bytes}
    (htag : 62 ∉ tag) (hnot : Token.tag tag ∉ ts) (hay : Bytes) :
    xmlNext (render ts ++ hay) tag = xmlNext hay tag := by
  have hskip := memmem_render_skip hvalid htag hnot [] hay
  rw [List.append_nil] at hskip
  unfold xmlNext
  simp only [hskip, Option.bind_eq_bind]
  cases memmem hay (Token.tag tag).render with
  | none => rfl
  | some i =>
    simp only [Option.map_some, Option.bind_some, Nat.add_assoc, List.drop_length_add_append]

/-- An element with text is what is found first. -/
theorem xmlNext_element {tag : Bytes} (htag : 62 ∉ tag) {text : Bytes} (htext : 60 ∉ text)
    (hay : Bytes) : xmlNext
      ((Token.tag tag).render ++ (text ++ ((Token.tag (47 :: tag)).render ++ hay))) tag =
        some (cString text, hay) := by
  have hclose : 62 ∉ 47 :: tag := by simp [htag]
  have hfind := @memmem_render_skip [Token.text text] (by simpa [Token.Valid] using htext) _ hclose
    (by simp) [] ((Token.tag (47 :: tag)).render ++ hay)
  have htext' : render [Token.text text] = text := List.append_nil text
  rw [List.append_nil, htext', memmem_append_self] at hfind
  unfold xmlNext
  simp only [Option.bind_eq_bind, memmem_append_self, Option.bind_some, Nat.zero_add,
    List.drop_left, hfind, Option.map_some, Nat.add_zero, List.take_left,
    List.drop_length_add_append]
  rfl

/-- `isspace`. -/
def isSpace (c : UInt8) : Bool := c = 32 || (9 ≤ c && c ≤ 13)

/-- Whether a numeral starts with a minus sign, and what follows its sign. -/
def splitSign (s : Bytes) : Bool × Bytes :=
  if s.head? = some 45 then (true, s.tail)
  else if s.head? = some 43 then (false, s.tail)
  else (false, s)

/-- `strtoull` in base 10. -/
def strtoull (s : Bytes) : UInt64 :=
  let (neg, s) := splitSign (s.dropWhile isSpace)
  let n := decimalValue (s.takeWhile fun c => decide (IsDigit c))
  if n ≥ 2 ^ 64 then UInt64.ofNat (2 ^ 64 - 1)
  else if neg then -UInt64.ofNat n
  else UInt64.ofNat n

/-! ## One page -/

/-- The object of one block, if the block has a key and a size. -/
def parseBlock (prefixSlash block : Bytes) : Option Obj :=
  let (key, p) :=
    match xmlNext block (utf8 "Key") with
    | some (key, p) => (some key, p)
    | none => (none, block)
  match key, xmlNext p (utf8 "Size") with
  | some key, some (size, _) =>
    let name := if prefixSlash <+: key then key.drop prefixSlash.length else key
    if name ≠ [] then some { key, name, size := strtoull size } else none
  | _, _ => none

/-- The objects of a page. -/
def parseContents (prefixSlash cur : Bytes) : List Obj :=
  match _ : memmem cur (Token.tag (utf8 "Contents")).render with
  | none => []
  | some i =>
    let inner := cur.drop (i + (Token.tag (utf8 "Contents")).render.length)
    match memmem inner (Token.tag (utf8 "/Contents")).render with
    | none => []
    | some j =>
      (parseBlock prefixSlash (inner.take j)).toList ++
        parseContents prefixSlash
          (inner.drop (j + (Token.tag (utf8 "/Contents")).render.length))
termination_by cur.length
decreasing_by
  have hle := memmem_add_length_le ‹memmem cur _ = some i› (List.cons_ne_nil _ _)
  simp only [Token.render, List.length_drop, List.length_cons] at hle ⊢
  omega

/-- The last continuation token of a page, `prevT` if there is none. -/
def lastToken (prevT : Option Bytes) (cur : Bytes) : Option Bytes :=
  match _ : xmlNext cur (utf8 "NextContinuationToken") with
  | none => prevT
  | some (t, rest) => lastToken (some t) rest
termination_by cur.length
decreasing_by exact length_lt_of_xmlNext ‹_›

/-- `<IsTruncated>true</IsTruncated>`. -/
def truncatedMark : Bytes :=
  (Token.tag (utf8 "IsTruncated")).render ++
    (utf8 "true" ++ (Token.tag (utf8 "/IsTruncated")).render)

def contToken (body : Bytes) : Option Bytes :=
  if (memmem body truncatedMark).isSome then lastToken none body else none

/-! ## All pages -/

/-- The loop: the paths that are requested, and the code and the list once it is left. -/
def listPages (prefixSlash : Bytes) :
    Option Bytes → List Obj → List (Option Bytes) → List Bytes × Option (Int × List Obj)
  | token, _, [] => ([requestPath prefixSlash token], none)
  | token, _, none :: _ => ([requestPath prefixSlash token], some (-1, []))
  | token, items, some body :: responses =>
    let items := items ++ parseContents prefixSlash body
    match contToken body with
    | none => ([requestPath prefixSlash token], some (0, items))
    | some t =>
      let (paths, outcome) := listPages prefixSlash (some t) items responses
      (requestPath prefixSlash token :: paths, outcome)

def listObjects (filesPrefix : Bytes) (responses : List (Option Bytes)) :
    List Bytes × Option (Int × List Obj) :=
  listPages (filesPrefix ++ [47]) none [] responses

end S3Archive.SebstoC
