import S3Archive.SebstoC.ObjectListing

/-!
# sebsto C: what the listing code reads off a listing

A listing as S3 renders it: pages with the elements that `list_objects` looks for,
and between them any others (`Fragment`). `listObjects_pages` is what the code makes
of the pages: keys and continuation tokens as they are written, with references left
in. So it is right exactly when none of their characters is escaped
(`listObjects_recovers_iff`).
-/

namespace S3Archive.SebstoC

/-! ## Pages -/

/-- The tags that `list_objects` looks for. -/
def searchedTags : List Bytes :=
  [utf8 "Contents", utf8 "/Contents", utf8 "Key", utf8 "/Key", utf8 "Size", utf8 "/Size",
    utf8 "IsTruncated", utf8 "/IsTruncated", utf8 "NextContinuationToken",
    utf8 "/NextContinuationToken"]

/-- A part of a page with tags of other elements only. -/
structure Fragment where
  tokens : List Token
  valid : ∀ t ∈ tokens, t.Valid
  other : ∀ name ∈ searchedTags, Token.tag name ∉ tokens

/-- An element with text. -/
def textElement (name data : Bytes) : List Token :=
  [.tag name, .text data, .tag (47 :: name)]

/-- An object whose key is longer than the listed prefix, with what else the page says of it. -/
structure ListedObject where
  name : List Char
  name_ne : name ≠ []
  size : UInt64
  front : Fragment
  middle : Fragment
  back : Fragment

namespace ListedObject

/-- The key of an object below `filesPrefix` and its slash. -/
def key (filesPrefix : List Char) (o : ListedObject) : List Char := filesPrefix ++ '/' :: o.name

def inner (e : Escaping) (filesPrefix : List Char) (o : ListedObject) : List Token :=
  o.front.tokens ++ (textElement (utf8 "Key") (e.text (o.key filesPrefix)) ++
    (o.middle.tokens ++ (textElement (utf8 "Size") (decimal o.size.toNat) ++ o.back.tokens)))

end ListedObject

/-- The children of `ListBucketResult`, in any order; the document around them is fragments. -/
inductive Child where
  | contents (o : ListedObject)
  | isTruncated (truncated : Bool)
  | nextToken (t : List Char)
  | other (f : Fragment)

namespace Child

def tokens (e : Escaping) (filesPrefix : List Char) : Child → List Token
  | contents o =>
    .tag (utf8 "Contents") :: (o.inner e filesPrefix ++ [.tag (utf8 "/Contents")])
  | isTruncated truncated =>
    textElement (utf8 "IsTruncated") (if truncated then utf8 "true" else utf8 "false")
  | nextToken t => textElement (utf8 "NextContinuationToken") (e.text t)
  | other f => f.tokens

def object? : Child → Option ListedObject
  | contents o => some o
  | _ => none

def token? : Child → Option (List Char)
  | nextToken t => some t
  | _ => none

end Child

/-- A page; it is truncated exactly when it has a continuation token, and then it has one. -/
structure Page where
  next : Option (List Char)
  children : List Child
  truncated_iff : (∃ c ∈ children, c = .isTruncated true) ↔ next.isSome = true
  tokens_eq : children.filterMap Child.token? = next.toList

namespace Page

def objects (p : Page) : List ListedObject := p.children.filterMap Child.object?

def body (e : Escaping) (filesPrefix : List Char) (p : Page) : Bytes :=
  render (p.children.flatMap (Child.tokens e filesPrefix))

end Page

/-- A listing in pages, all but the last one truncated. -/
structure Pages where
  init : List Page
  last : Page
  truncated : ∀ p ∈ init, p.next.isSome = true
  complete : last.next = none

namespace Pages

def objects (l : Pages) : List ListedObject := (l.init ++ [l.last]).flatMap Page.objects

/-- The tokens of the truncated pages. -/
def tokens (l : Pages) : List (List Char) := l.init.filterMap Page.next

/-- The responses to the requests for the pages. -/
def responses (e : Escaping) (filesPrefix : List Char) (l : Pages) : List (Option Bytes) :=
  (l.init ++ [l.last]).map fun p => some (p.body e filesPrefix)

end Pages

/-! ## Which tags a page has -/

variable {e : Escaping} {filesPrefix : List Char}

theorem valid_textElement {name data : Bytes} (hname : 60 ∉ name ∧ 62 ∉ name) (hdata : 60 ∉ data) :
    ∀ t ∈ textElement name data, t.Valid := by
  have hclose : (60 : UInt8) ∉ 47 :: name ∧ (62 : UInt8) ∉ 47 :: name := by simp [hname]
  intro t ht
  simp only [textElement, List.mem_cons, List.not_mem_nil, or_false] at ht
  rcases ht with rfl | rfl | rfl
  · exact hname
  · exact hdata
  · exact hclose

theorem not_mem_textElement {name other data : Bytes} (h : name ≠ other) (h' : name ≠ 47 :: other) :
    Token.tag name ∉ textElement other data := by
  simp [textElement, h, h']

theorem not_mem_decimal (n : Nat) : 60 ∉ decimal n ∧ 0 ∉ decimal n := by
  constructor
  all_goals
    intro h
    exact absurd (isDigit_of_mem_decimal h) (by decide)

namespace ListedObject

theorem valid_inner (o : ListedObject) : ∀ t ∈ o.inner e filesPrefix, t.Valid := by
  intro t ht
  simp only [inner, List.mem_append] at ht
  rcases ht with ht | ht | ht | ht | ht
  · exact o.front.valid t ht
  · exact valid_textElement (by decide) (e.not_mem_text _).1 t ht
  · exact o.middle.valid t ht
  · exact valid_textElement (by decide) (not_mem_decimal _).1 t ht
  · exact o.back.valid t ht

theorem not_mem_inner (o : ListedObject) {name : Bytes} (hname : name ∈ searchedTags)
    (hkey : name ≠ utf8 "Key" ∧ name ≠ 47 :: utf8 "Key")
    (hsize : name ≠ utf8 "Size" ∧ name ≠ 47 :: utf8 "Size") :
    Token.tag name ∉ o.inner e filesPrefix := by
  intro h
  simp only [inner, List.mem_append] at h
  rcases h with h | h | h | h | h
  · exact o.front.other name hname h
  · exact not_mem_textElement hkey.1 hkey.2 h
  · exact o.middle.other name hname h
  · exact not_mem_textElement hsize.1 hsize.2 h
  · exact o.back.other name hname h

end ListedObject

namespace Child

theorem valid_tokens (c : Child) : ∀ t ∈ c.tokens e filesPrefix, t.Valid := by
  cases c with
  | contents o =>
    intro t ht
    simp only [tokens, List.mem_cons, List.mem_append, List.not_mem_nil, or_false] at ht
    rcases ht with rfl | ht | rfl
    · unfold Token.Valid
      decide
    · exact o.valid_inner t ht
    · unfold Token.Valid
      decide
  | isTruncated truncated =>
    cases truncated with
    | true => exact valid_textElement (by decide) (by decide)
    | false => exact valid_textElement (by decide) (by decide)
  | nextToken t => exact valid_textElement (by decide) (e.not_mem_text t).1
  | other f => exact f.valid

theorem not_mem_contents {c : Child} (h : c.object? = none) :
    Token.tag (utf8 "Contents") ∉ c.tokens e filesPrefix := by
  cases c with
  | contents o => cases h
  | isTruncated truncated => exact not_mem_textElement (by decide) (by decide)
  | nextToken t => exact not_mem_textElement (by decide) (by decide)
  | other f => exact f.other _ (by decide)

theorem not_mem_contents_inner {o : ListedObject} {name : Bytes} (hname : name ∈ searchedTags)
    (h : name ≠ utf8 "Contents" ∧ name ≠ utf8 "/Contents")
    (hkey : name ≠ utf8 "Key" ∧ name ≠ 47 :: utf8 "Key")
    (hsize : name ≠ utf8 "Size" ∧ name ≠ 47 :: utf8 "Size") :
    Token.tag name ∉ (contents o).tokens e filesPrefix := by
  intro hmem
  simp only [tokens, List.mem_cons, List.mem_append, Token.tag.injEq, List.not_mem_nil,
    or_false] at hmem
  rcases hmem with hmem | hmem | hmem
  · exact h.1 hmem
  · exact o.not_mem_inner hname hkey hsize hmem
  · exact h.2 hmem

theorem not_mem_isTruncated {c : Child} (h : ∀ b, c ≠ isTruncated b) :
    Token.tag (utf8 "IsTruncated") ∉ c.tokens e filesPrefix := by
  cases c with
  | contents o => exact not_mem_contents_inner (by decide) (by decide) (by decide) (by decide)
  | isTruncated truncated => exact absurd rfl (h truncated)
  | nextToken t => exact not_mem_textElement (by decide) (by decide)
  | other f => exact f.other _ (by decide)

theorem not_mem_nextToken {c : Child} (h : c.token? = none) :
    Token.tag (utf8 "NextContinuationToken") ∉ c.tokens e filesPrefix := by
  cases c with
  | contents o => exact not_mem_contents_inner (by decide) (by decide) (by decide) (by decide)
  | isTruncated truncated => exact not_mem_textElement (by decide) (by decide)
  | nextToken t => cases h
  | other f => exact f.other _ (by decide)

end Child

/-! ## Numbers -/

theorem strtoull_decimal (n : UInt64) : strtoull (decimal n.toNat) = n := by
  have hdigits : ∀ c ∈ decimal n.toNat, IsDigit c := fun c hc => isDigit_of_mem_decimal hc
  have hvalue : decimalValue (decimal n.toNat) = n.toNat := decimalValue_decimal _
  have hlt : ¬ n.toNat ≥ 2 ^ 64 := not_le.2 n.toNat_lt
  cases hds : decimal n.toNat with
  | nil => exact absurd hds (decimal_ne_nil _)
  | cons d ds =>
    rw [hds] at hdigits hvalue
    have hd := hdigits d List.mem_cons_self
    have hspace : ¬ isSpace d = true := by
      intro h
      simp only [isSpace, Bool.or_eq_true, decide_eq_true_eq, Bool.and_eq_true] at h
      rcases h with rfl | ⟨-, h⟩
      · exact absurd hd (by decide)
      · have h1 := UInt8.le_iff_toNat_le.1 hd.1
        have h2 := UInt8.le_iff_toNat_le.1 h
        simp at h1 h2
        omega
    have hminus : d ≠ 45 := by
      rintro rfl
      exact absurd hd (by decide)
    have hplus : d ≠ 43 := by
      rintro rfl
      exact absurd hd (by decide)
    have hall : (d :: ds).takeWhile (fun c => decide (IsDigit c)) = d :: ds :=
      List.takeWhile_eq_self_iff.2 fun c hc => decide_eq_true (hdigits c hc)
    have hsign : splitSign (d :: ds) = (false, d :: ds) := by
      unfold splitSign
      rw [List.head?_cons, if_neg (by simp [hminus]), if_neg (by simp [hplus])]
    unfold strtoull
    rw [List.dropWhile_cons_of_neg hspace, hsign]
    dsimp only
    rw [hall, hvalue, if_neg hlt]
    exact UInt64.ofNat_toNat

/-! ## Objects -/

theorem encodeText_key (o : ListedObject) :
    encodeText (o.key filesPrefix) = encodeText filesPrefix ++ [47] ++ encodeText o.name := by
  have hslash : String.utf8EncodeChar '/' = [47] := by decide
  rw [encodeText, ListedObject.key, List.flatMap_append, List.flatMap_cons, hslash,
    List.append_assoc]
  rfl

/-- What the code records of an object. -/
def recovered (e : Escaping) (filesPrefix : List Char) (o : ListedObject) : Obj where
  key := e.text (o.key filesPrefix)
  name :=
    if encodeText filesPrefix ++ [47] <+: e.text (o.key filesPrefix) then
      (e.text (o.key filesPrefix)).drop (encodeText filesPrefix ++ [47]).length
    else e.text (o.key filesPrefix)
  size := o.size

/-- The name is not empty, even when a longer key is taken for the prefix. -/
theorem name_recovered_ne (o : ListedObject) : (recovered e filesPrefix o).name ≠ [] := by
  have hname : 0 < (encodeText o.name).length := by
    obtain ⟨c, t, hct⟩ := List.exists_cons_of_ne_nil o.name_ne
    have hc := List.length_pos_iff.2 (@String.utf8EncodeChar_ne_nil c)
    rw [hct, encodeText, List.flatMap_cons, List.length_append]
    omega
  have hlen := e.length_le_text (o.key filesPrefix)
  rw [encodeText_key, List.length_append] at hlen
  refine List.ne_nil_of_length_pos ?_
  unfold recovered
  dsimp only
  split_ifs
  · rw [List.length_drop]
    omega
  · omega

theorem parseBlock_inner (o : ListedObject) :
    parseBlock (encodeText filesPrefix ++ [47]) (render (o.inner e filesPrefix)) =
      some (recovered e filesPrefix o) := by
  have hkey : xmlNext (render (o.inner e filesPrefix)) (utf8 "Key") =
      some (e.text (o.key filesPrefix), render (o.middle.tokens ++
        (textElement (utf8 "Size") (decimal o.size.toNat) ++ o.back.tokens))) := by
    rw [ListedObject.inner, render_append, xmlNext_skip o.front.valid (by decide)
      (o.front.other _ (by decide)), render_append]
    simp only [textElement, render_cons, render_nil, List.append_nil, List.append_assoc]
    rw [Token.render.eq_2, xmlNext_element (by decide) (e.not_mem_text _).1,
      cString_of_not_mem (e.not_mem_text _).2]
  have hsize : ∃ rest, xmlNext (render (o.middle.tokens ++
      (textElement (utf8 "Size") (decimal o.size.toNat) ++ o.back.tokens))) (utf8 "Size") =
        some (decimal o.size.toNat, rest) := by
    refine ⟨render o.back.tokens, ?_⟩
    rw [render_append, xmlNext_skip o.middle.valid (by decide) (o.middle.other _ (by decide)),
      render_append]
    simp only [textElement, render_cons, render_nil, List.append_nil, List.append_assoc]
    rw [Token.render.eq_2, xmlNext_element (by decide) (not_mem_decimal _).1,
      cString_of_not_mem (not_mem_decimal _).2]
  obtain ⟨rest, hsize⟩ := hsize
  have hname := @name_recovered_ne e filesPrefix o
  unfold parseBlock
  rw [hkey]
  dsimp only
  rw [hsize]
  dsimp only
  rw [strtoull_decimal]
  exact if_pos hname

/-! ## Contents -/

theorem parseContents_of_none {prefixSlash cur : Bytes}
    (h : memmem cur (Token.tag (utf8 "Contents")).render = none) :
    parseContents prefixSlash cur = [] := by
  rw [parseContents]
  split
  · rfl
  · rename_i i hi
    rw [h] at hi
    cases hi

/-- From the first opening tag on, the closing tag decides. -/
theorem parseContents_of_tag {prefixSlash cur inner : Bytes} {i : Nat}
    (h : memmem cur (Token.tag (utf8 "Contents")).render = some i)
    (hinner : cur.drop (i + (Token.tag (utf8 "Contents")).render.length) = inner) :
    parseContents prefixSlash cur =
      match memmem inner (Token.tag (utf8 "/Contents")).render with
      | none => []
      | some j => (parseBlock prefixSlash (inner.take j)).toList ++
          parseContents prefixSlash
            (inner.drop (j + (Token.tag (utf8 "/Contents")).render.length)) := by
  rw [parseContents]
  split
  · rename_i hnone
    rw [h] at hnone
    cases hnone
  · rename_i k hk
    rw [h] at hk
    cases hk
    exact hinner ▸ rfl

theorem parseContents_of_some {prefixSlash cur inner : Bytes} {i j : Nat}
    (h : memmem cur (Token.tag (utf8 "Contents")).render = some i)
    (hinner : cur.drop (i + (Token.tag (utf8 "Contents")).render.length) = inner)
    (hclose : memmem inner (Token.tag (utf8 "/Contents")).render = some j) :
    parseContents prefixSlash cur = (parseBlock prefixSlash (inner.take j)).toList ++
      parseContents prefixSlash
        (inner.drop (j + (Token.tag (utf8 "/Contents")).render.length)) := by
  rw [parseContents_of_tag h hinner, hclose]

theorem parseContents_of_open {prefixSlash cur inner : Bytes} {i : Nat}
    (h : memmem cur (Token.tag (utf8 "Contents")).render = some i)
    (hinner : cur.drop (i + (Token.tag (utf8 "Contents")).render.length) = inner)
    (hclose : memmem inner (Token.tag (utf8 "/Contents")).render = none) :
    parseContents prefixSlash cur = [] := by
  rw [parseContents_of_tag h hinner, hclose]

/-- What has no object is passed over. -/
theorem parseContents_skip {prefixSlash : Bytes} {ts : List Token} (hvalid : ∀ t ∈ ts, t.Valid)
    (hnot : Token.tag (utf8 "Contents") ∉ ts) (hay : Bytes) :
    parseContents prefixSlash (render ts ++ hay) = parseContents prefixSlash hay := by
  have hskip := memmem_render_skip hvalid (by decide) hnot [] hay
  rw [List.append_nil] at hskip
  cases h : memmem hay (Token.tag (utf8 "Contents")).render with
  | none =>
    rw [h] at hskip
    rw [parseContents_of_none h, parseContents_of_none hskip]
  | some i =>
    rw [h] at hskip
    have hinner : (render ts ++ hay).drop
        ((render ts).length + i + (Token.tag (utf8 "Contents")).render.length) =
          hay.drop (i + (Token.tag (utf8 "Contents")).render.length) := by
      rw [Nat.add_assoc, List.drop_length_add_append]
    cases hclose : memmem (hay.drop (i + (Token.tag (utf8 "Contents")).render.length))
        (Token.tag (utf8 "/Contents")).render with
    | none => rw [parseContents_of_open h rfl hclose, parseContents_of_open hskip hinner hclose]
    | some j => rw [parseContents_of_some h rfl hclose, parseContents_of_some hskip hinner hclose]

/-- An object, and what follows it. -/
theorem parseContents_contents (o : ListedObject) (hay : Bytes) :
    parseContents (encodeText filesPrefix ++ [47])
        (render ((Child.contents o).tokens e filesPrefix) ++ hay) =
      recovered e filesPrefix o :: parseContents (encodeText filesPrefix ++ [47]) hay := by
  have hopen : render ((Child.contents o).tokens e filesPrefix) ++ hay =
      (Token.tag (utf8 "Contents")).render ++ (render (o.inner e filesPrefix) ++
        ((Token.tag (utf8 "/Contents")).render ++ hay)) := by
    simp only [Child.tokens, render_cons, render_append, render_nil, List.append_nil,
      List.append_assoc]
  have hinner : Token.tag (utf8 "/Contents") ∉ o.inner e filesPrefix :=
    o.not_mem_inner (by decide) (by decide) (by decide)
  have hclose := memmem_render_skip (@ListedObject.valid_inner e filesPrefix o) (by decide)
    hinner [] ((Token.tag (utf8 "/Contents")).render ++ hay)
  rw [List.append_nil, memmem_append_self, Option.map_some, Nat.add_zero] at hclose
  rw [hopen, parseContents_of_some (memmem_append_self _ _)
    (by rw [Nat.zero_add, List.drop_left]) hclose, List.take_left, parseBlock_inner,
    List.drop_length_add_append, List.drop_left]
  rfl

/-- A page gives its objects. -/
theorem parseContents_body (p : Page) :
    parseContents (encodeText filesPrefix ++ [47]) (p.body e filesPrefix) =
      p.objects.map (recovered e filesPrefix) := by
  unfold Page.body Page.objects
  induction p.children with
  | nil => exact parseContents_of_none rfl
  | cons c children ih =>
    rw [List.flatMap_cons, render_append]
    cases hc : c.object? with
    | none =>
      rw [parseContents_skip c.valid_tokens (Child.not_mem_contents hc), ih,
        List.filterMap_cons_none hc]
    | some o =>
      have hcontents : c = .contents o := by
        cases c with
        | contents o' => exact congrArg Child.contents (Option.some.inj hc)
        | isTruncated | nextToken | other => cases hc
      rw [hcontents, parseContents_contents, ih, List.filterMap_cons_some (by rfl), List.map_cons]

/-! ## Continuation tokens -/

theorem lastToken_of_none {prevT : Option Bytes} {cur : Bytes}
    (h : xmlNext cur (utf8 "NextContinuationToken") = none) : lastToken prevT cur = prevT := by
  rw [lastToken]
  split
  · rfl
  · rename_i hsome
    rw [h] at hsome
    cases hsome

theorem lastToken_of_some {prevT : Option Bytes} {cur t rest : Bytes}
    (h : xmlNext cur (utf8 "NextContinuationToken") = some (t, rest)) :
    lastToken prevT cur = lastToken (some t) rest := by
  rw [lastToken]
  split
  · rename_i hnone
    rw [h] at hnone
    cases hnone
  · rename_i hsome
    rw [h] at hsome
    cases hsome
    rfl

theorem lastToken_skip {prevT : Option Bytes} {ts : List Token} (hvalid : ∀ t ∈ ts, t.Valid)
    (hnot : Token.tag (utf8 "NextContinuationToken") ∉ ts) (hay : Bytes) :
    lastToken prevT (render ts ++ hay) = lastToken prevT hay := by
  have hskip := xmlNext_skip hvalid (by decide) hnot hay
  cases h : xmlNext hay (utf8 "NextContinuationToken") with
  | none => rw [lastToken_of_none h, lastToken_of_none (hskip.trans h)]
  | some r => rw [lastToken_of_some h, lastToken_of_some (hskip.trans h)]

/-- The last token of the page is taken. -/
theorem lastToken_children (children : List Child) (prevT : Option Bytes) :
    lastToken prevT (render (children.flatMap (Child.tokens e filesPrefix))) =
      ((children.filterMap Child.token?).map e.text).getLast?.or prevT := by
  induction children generalizing prevT with
  | nil => exact lastToken_of_none rfl
  | cons c children ih =>
    rw [List.flatMap_cons, render_append]
    cases hc : c.token? with
    | none =>
      rw [lastToken_skip c.valid_tokens (Child.not_mem_nextToken hc), ih,
        List.filterMap_cons_none hc]
    | some t =>
      have htoken : c = .nextToken t := by
        cases c with
        | nextToken t' => exact congrArg Child.nextToken (Option.some.inj hc)
        | contents | isTruncated | other => cases hc
      have hnext : xmlNext (render ((Child.nextToken t).tokens e filesPrefix) ++
          render (children.flatMap (Child.tokens e filesPrefix))) (utf8 "NextContinuationToken") =
            some (e.text t, render (children.flatMap (Child.tokens e filesPrefix))) := by
        simp only [Child.tokens, textElement, render_cons, render_nil, List.append_nil,
          List.append_assoc]
        rw [Token.render.eq_2, xmlNext_element (by decide) (e.not_mem_text t).1,
          cString_of_not_mem (e.not_mem_text t).2]
      rw [htoken, lastToken_of_some hnext, ih, List.filterMap_cons_some (by rfl), List.map_cons,
        List.getLast?_cons]
      cases ((children.filterMap Child.token?).map e.text).getLast? <;> rfl

/-- What is not truncated or complete does not have the mark. -/
theorem memmem_truncatedMark_skip {ts : List Token} (hvalid : ∀ t ∈ ts, t.Valid)
    (hnot : Token.tag (utf8 "IsTruncated") ∉ ts) (hay : Bytes) :
    (memmem (render ts ++ hay) truncatedMark).isSome = (memmem hay truncatedMark).isSome := by
  unfold truncatedMark
  rw [memmem_render_skip hvalid (by decide) hnot, Option.isSome_map]

/-- A complete page does not have it either. -/
theorem memmem_truncatedMark_complete (hay : Bytes) :
    (memmem (render ((Child.isTruncated false).tokens e filesPrefix) ++ hay)
      truncatedMark).isSome = (memmem hay truncatedMark).isSome := by
  have hparts : render ((Child.isTruncated false).tokens e filesPrefix) ++ hay =
      60 :: (utf8 "IsTruncated>false" ++ (render [Token.tag (utf8 "/IsTruncated")] ++ hay)) := rfl
  have hno : ¬ truncatedMark <+:
      60 :: (utf8 "IsTruncated>false" ++ (render [Token.tag (utf8 "/IsTruncated")] ++ hay)) := by
    rintro ⟨rest, hrest⟩
    have htake := congrArg (List.take 14) hrest
    rw [List.take_append_of_le_length (by decide), ← List.cons_append,
      List.take_append_of_le_length (by decide)] at htake
    exact absurd htake (by decide)
  -- the search goes on behind the start tag's first byte, then behind the end tag
  have hinside := @memmem_skip _ _ 60 (utf8 "IsTruncated>false") (by decide)
    (render [Token.tag (utf8 "/IsTruncated")] ++ hay) truncatedMark.tail
  rw [show (60 : UInt8) :: truncatedMark.tail = truncatedMark by decide] at hinside
  rw [hparts, memmem_cons_of_not_prefix hno, hinside, Option.isSome_map, Option.isSome_map]
  refine memmem_truncatedMark_skip ?_ (by decide) hay
  simp only [List.mem_singleton, forall_eq, Token.Valid]
  decide

/-- The mark of a truncated page is in the page only as such. -/
theorem memmem_truncatedMark_children (children : List Child) :
    (memmem (render (children.flatMap (Child.tokens e filesPrefix))) truncatedMark).isSome = true ↔
      ∃ c ∈ children, c = .isTruncated true := by
  induction children with
  | nil =>
    have hnone : memmem [] truncatedMark = none := if_neg (by decide)
    simp [hnone]
  | cons c children ih =>
    rw [List.flatMap_cons, render_append, List.exists_mem_cons_iff]
    by_cases hc : ∃ b, c = .isTruncated b
    · obtain ⟨b, rfl⟩ := hc
      cases b with
      | true =>
        have hfound : render ((Child.isTruncated true).tokens e filesPrefix) = truncatedMark := rfl
        rw [hfound, memmem_append_self]
        simp
      | false =>
        rw [memmem_truncatedMark_complete, ih]
        simp
    · rw [not_exists] at hc
      rw [memmem_truncatedMark_skip c.valid_tokens (Child.not_mem_isTruncated hc), ih]
      simp [hc true]

/-- The token of a page, as it is written. -/
theorem contToken_body (p : Page) : contToken (p.body e filesPrefix) = p.next.map e.text := by
  unfold contToken Page.body
  have hmark := (@memmem_truncatedMark_children e filesPrefix p.children).trans p.truncated_iff
  cases hnext : p.next with
  | none =>
    rw [hnext] at hmark
    exact if_neg fun h => by cases hmark.1 h
  | some t =>
    rw [hnext] at hmark
    rw [if_pos (hmark.2 rfl), lastToken_children, p.tokens_eq, hnext]
    rfl

/-! ## The listing -/

/-- What the requests ask for, after the first one with the given tokens. -/
def requestsFor (prefixSlash : Bytes) (tokens : List Bytes) : List Bytes :=
  (none :: tokens.map some).map (requestPath prefixSlash)

theorem listPages_pages (init : List Page) (last : Page)
    (htruncated : ∀ p ∈ init, p.next.isSome = true) (hlast : last.next = none)
    (token : Option Bytes) (items : List Obj) :
    listPages (encodeText filesPrefix ++ [47]) token items
        ((init ++ [last]).map fun p => some (p.body e filesPrefix)) =
      ((token :: (init.filterMap Page.next).map (some ∘ e.text)).map
          (requestPath (encodeText filesPrefix ++ [47])),
        some (0, items ++
          ((init ++ [last]).flatMap Page.objects).map (recovered e filesPrefix))) := by
  induction init generalizing token items with
  | nil =>
    simp only [List.nil_append, List.map_cons, List.map_nil, listPages, contToken_body, hlast,
      Option.map_none, parseContents_body, List.filterMap_nil, List.flatMap_cons,
      List.flatMap_nil, List.append_nil]
  | cons p init ih =>
    obtain ⟨hp, htruncated⟩ := List.forall_mem_cons.1 htruncated
    obtain ⟨t, ht⟩ := Option.isSome_iff_exists.1 hp
    rw [List.cons_append, List.map_cons, listPages, contToken_body, ht]
    dsimp only [Option.map_some]
    rw [ih htruncated, parseContents_body, List.filterMap_cons_some ht, List.flatMap_cons,
      List.map_append, List.append_assoc]
    rfl

/-- The requests name each token as it is written, and so are the keys. -/
theorem listObjects_pages (l : Pages) :
    listObjects (encodeText filesPrefix) (l.responses e filesPrefix) =
      (requestsFor (encodeText filesPrefix ++ [47]) (l.tokens.map e.text),
        some (0, l.objects.map (recovered e filesPrefix))) := by
  have hrun := @listPages_pages e filesPrefix l.init l.last l.truncated l.complete none []
  rw [List.nil_append] at hrun
  unfold listObjects requestsFor
  rw [Pages.responses, hrun, List.map_map]
  rfl

/-- Different tokens are asked for with different paths. -/
theorem requestPath_inj {prefixSlash s t : Bytes}
    (h : requestPath prefixSlash (some s) = requestPath prefixSlash (some t)) : s = t := by
  unfold requestPath at h
  have hs := congrArg percentDecode (List.append_cancel_left (List.append_cancel_left h))
  rwa [percentDecode_qsEncode, percentDecode_qsEncode] at hs

/-- The listing is recovered, and each of its continuation tokens is followed. -/
def Recovers (e : Escaping) (filesPrefix : List Char) (l : Pages) : Prop :=
  ∃ items : List Obj,
    listObjects (encodeText filesPrefix) (l.responses e filesPrefix) =
      (requestsFor (encodeText filesPrefix ++ [47]) (l.tokens.map encodeText), some (0, items)) ∧
    items.map (fun o => (o.key, o.size)) =
      l.objects.map fun o => (encodeText (o.key filesPrefix), o.size)

/-- The listing is recovered exactly when no character of its keys and tokens is escaped. -/
theorem listObjects_recovers_iff (e : Escaping) (filesPrefix : List Char) (l : Pages) :
    Recovers e filesPrefix l ↔
      (∀ o ∈ l.objects, ∀ c ∈ o.key filesPrefix, e.Plain c) ∧
        ∀ t ∈ l.tokens, ∀ c ∈ t, e.Plain c := by
  have hpages := @listObjects_pages e filesPrefix l
  constructor
  · rintro ⟨items, hrun, hitems⟩
    rw [hpages] at hrun
    obtain ⟨hrequests, houtcome⟩ := Prod.mk.inj hrun
    cases houtcome
    refine ⟨fun o ho => ?_, fun t ht => ?_⟩
    · rw [List.map_map, List.map_inj_left] at hitems
      exact (e.text_eq_encodeText_iff _).1 (Prod.mk.inj (hitems o ho)).1
    · simp only [requestsFor, List.map_cons, List.map_map, List.cons.injEq, true_and,
        List.map_inj_left] at hrequests
      exact (e.text_eq_encodeText_iff _).1 (requestPath_inj (hrequests t ht))
  · rintro ⟨hkeys, htokens⟩
    refine ⟨l.objects.map (recovered e filesPrefix), ?_, ?_⟩
    · rw [hpages]
      congr 2
      exact List.map_congr_left fun t ht => (e.text_eq_encodeText_iff t).2 (htokens t ht)
    · rw [List.map_map]
      refine List.map_congr_left fun o ho => ?_
      exact congrArg (·, o.size) ((e.text_eq_encodeText_iff _).2 (hkeys o ho))

/-- One page with an object whose name has an ampersand. -/
def ampersandPages : Pages where
  init := []
  last := {
    next := none
    children := [.contents {
      name := ['a', '&', 'b']
      name_ne := by decide
      size := 1
      front := ⟨[], by simp, by simp⟩
      middle := ⟨[], by simp, by simp⟩
      back := ⟨[], by simp, by simp⟩ }]
    truncated_iff := by simp
    tokens_eq := rfl }
  truncated := by simp
  complete := rfl

/-- Its key comes back with the reference in it. -/
theorem not_recovers_ampersand : ¬ ∀ (e : Escaping) (filesPrefix : List Char) (l : Pages),
    Recovers e filesPrefix l := by
  intro h
  obtain ⟨items, hrun, hitems⟩ := h xmlEscaping ['f', 'i', 'l', 'e', 's'] ampersandPages
  rw [listObjects_pages] at hrun
  cases (Prod.mk.inj hrun).2
  have hkey : xmlEscaping.text ['f', 'i', 'l', 'e', 's', '/', 'a', '&', 'b'] =
      encodeText ['f', 'i', 'l', 'e', 's', '/', 'a', '&', 'b'] :=
    (Prod.mk.inj (List.cons.inj hitems).1).1
  exact absurd hkey (by decide)

end S3Archive.SebstoC
