import S3Archive.Base.Json
import S3Archive.Base.Substring

/-!
# sebsto C: the JSON reader

`json_extract_string` over a text between two pointers, which is the list of its
bytes. `scan_eq` is one round of its search; `scan_string` says how the search goes
through a JSON string, `scan_gap` how it goes through what is between two of them.
-/

namespace S3Archive.SebstoC

open Json

/-! ## The code -/

def skipWs (p : Bytes) : Bytes := p.dropWhile isWs

/-- The key in quotes. -/
def quotedKey (key : Bytes) : Bytes := 34 :: (key ++ [34])

/-- The loop that looks for the quoted key with a colon behind it: where it ends, or `none` where
the code returns `NULL`. -/
def findKey (key p : Bytes) : Option Bytes :=
  if (quotedKey key).length ≤ p.length then
    match memmem p (quotedKey key) with
    | none => none
    | some m =>
      let p' := skipWs (p.drop (m + (quotedKey key).length))
      if p'.head? = some 58 then some p' else findKey key p'
  else some p
termination_by p.length
decreasing_by
  have hle : (skipWs (p.drop (m + (quotedKey key).length))).length ≤ _ :=
    (List.dropWhile_suffix isWs).length_le
  have hpos : 0 < (quotedKey key).length := Nat.succ_pos _
  rw [List.length_drop] at hle
  omega

/-- The byte for an escape. -/
def unescape (esc : UInt8) : UInt8 := if esc = 110 then 10 else if esc = 116 then 9 else esc

/-- The string up to its closing quote. -/
def readString : Bytes → Bytes
  | [] => []
  | [b] => if b = 34 then [] else [b]
  | b :: b' :: p =>
    if b = 34 then []
    else if b = 92 then unescape b' :: readString p
    else b :: readString (b' :: p)

def jsonExtractString (body key : Bytes) : Option Bytes := do
  if (quotedKey key).length ≥ 128 then none
  let p ← findKey key body
  if p.head? ≠ some 58 then none
  let p := skipWs p.tail
  if p.head? ≠ some 34 then none
  return cString (readString p.tail)

/-! ## The search -/

/-- What is behind the colon that the search comes to. -/
def scan (key p : Bytes) : Option Bytes := do
  let p ← findKey key p
  if p.head? = some 58 then some p.tail else none

/-- What the search does behind a quoted key. -/
def scanBehind (key rest : Bytes) : Option Bytes :=
  if (skipWs rest).head? = some 58 then some (skipWs rest).tail else scan key (skipWs rest)

variable {key a rest : Bytes}

theorem skipWs_append_quote (a rest : Bytes) :
    skipWs (a ++ 34 :: rest) = skipWs a ++ 34 :: rest := by
  unfold skipWs
  rw [List.dropWhile_append]
  split_ifs with h
  · rw [List.isEmpty_iff.1 h]
    rfl
  · rfl

/-- One round of the search, from where there is no colon. -/
theorem scan_eq {p : Bytes} (hp : p.head? ≠ some 58) :
    scan key p = (memmem p (quotedKey key)).bind
      fun m => scanBehind key (p.drop (m + (quotedKey key).length)) := by
  unfold scan
  rw [findKey]
  by_cases hlen : (quotedKey key).length ≤ p.length
  · rw [if_pos hlen]
    cases memmem p (quotedKey key) with
    | none => rfl
    | some m =>
      dsimp only [Option.bind_some]
      unfold scanBehind
      split_ifs with h
      · exact if_pos h
      · rfl
  · rw [if_neg hlen]
    cases hm : memmem p (quotedKey key) with
    | none => exact if_neg hp
    | some m =>
      have hle := memmem_add_length_le hm (List.cons_ne_nil _ _)
      omega

/-- The search goes on to the next quote. -/
theorem scan_skip (ha : 34 ∉ a) (hhead : (a ++ 34 :: rest).head? ≠ some 58) :
    scan key (a ++ 34 :: rest) = scan key (34 :: rest) := by
  rw [scan_eq hhead, scan_eq (by simp), quotedKey, memmem_skip ha, Option.bind_map]
  congr 1
  funext m
  rw [Function.comp_apply, Nat.add_assoc, List.drop_length_add_append]

theorem scan_eq_none (ha : 34 ∉ a) (hhead : a.head? ≠ some 58) : scan key a = none := by
  rw [scan_eq hhead, quotedKey, memmem_eq_none_of_not_mem ha]
  rfl

/-- A quoted key. -/
theorem scan_quotedKey (rest : Bytes) :
    scan key (34 :: (key ++ 34 :: rest)) = scanBehind key rest := by
  have htext : 34 :: (key ++ 34 :: rest) = quotedKey key ++ rest := by simp [quotedKey]
  rw [scan_eq (by simp), htext, memmem_append_self, Option.bind_some, Nat.zero_add, List.drop_left]

/-- Something else between two quotes. -/
theorem scan_other (hkey : 34 ∉ key) (ha : 34 ∉ a) (hne : a ≠ key) :
    scan key (34 :: (a ++ 34 :: rest)) = scan key (34 :: rest) := by
  have hno : ¬ quotedKey key <+: 34 :: (a ++ 34 :: rest) := by
    rintro ⟨tail, htail⟩
    simp only [quotedKey, List.cons_append, List.append_assoc, List.nil_append,
      List.cons.injEq, true_and] at htail
    exact hne (append_sep_inj hkey ha htail).1.symm
  rw [scan_eq (by simp), scan_eq (by simp), memmem_cons_of_not_prefix hno, quotedKey,
    memmem_skip ha, Option.map_map, Option.bind_map]
  congr 1
  funext m
  rw [Function.comp_apply, Function.comp_apply, Nat.add_right_comm, List.drop_succ_cons,
    Nat.add_assoc, List.drop_length_add_append]

/-- The search behind the last quote. -/
theorem scan_last (ha : 34 ∉ a) : scan key (34 :: a) = none := by
  have hno : ¬ quotedKey key <+: 34 :: a := by
    rintro ⟨tail, htail⟩
    rw [quotedKey, List.cons_append] at htail
    rw [← (List.cons.inj htail).2] at ha
    simp at ha
  rw [scan_eq (by simp), memmem_cons_of_not_prefix hno, quotedKey, memmem_eq_none_of_not_mem ha]
  rfl

/-- Between two strings. -/
theorem scan_gap (hkey : 34 ∉ key) (ha : 34 ∉ a) : scan key (34 :: (a ++ 34 :: rest)) =
    if a = key then scanBehind key rest else scan key (34 :: rest) := by
  split_ifs with h
  · rw [h, scan_quotedKey]
  · exact scan_other hkey ha h

/-! ## Strings -/

/-- A key that no character of which is escaped, in bytes. -/
structure PlainKey (key : Bytes) : Prop where
  quote : 34 ∉ key
  backslash : 92 ∉ key

/-- Only what follows the last quote can be the key. -/
theorem suffix_quote_iff (hkey : 34 ∉ key) (u w : Bytes) :
    34 :: key <:+ u ++ 34 :: w ↔ 34 :: key <:+ 34 :: w := by
  constructor
  · intro h
    rcases List.suffix_or_suffix_of_suffix h (List.suffix_append u (34 :: w)) with hle | hle
    · exact hle
    · -- the key would have the quote in it
      rcases List.suffix_cons_iff.1 hle with heq | hle
      · exact heq ▸ List.suffix_rfl
      · exact absurd (hle.subset List.mem_cons_self) hkey
  · exact fun h => h.trans (List.suffix_append u _)

/-- A string from its opening quote to its closing one. -/
theorem scan_string (hkey : PlainKey key) {x : Bytes} (hx : QuotesEscaped x) (rest : Bytes) :
    scan key (34 :: (x ++ 34 :: rest)) =
      if 34 :: key <:+ 34 :: x then scanBehind key rest else scan key (34 :: rest) := by
  induction hn : x.length using Nat.strong_induction_on generalizing x with
  | _ n ih =>
    by_cases hquote : 34 ∈ x
    · obtain ⟨u, w, rfl, hu⟩ := List.eq_append_cons_of_mem hquote
      have hne : u ≠ key := by
        rintro rfl
        exact hkey.backslash (List.mem_of_mem_getLast? (hx u w rfl))
      have hlen : w.length < n := by
        rw [← hn, List.length_append, List.length_cons]
        omega
      rw [List.append_assoc, List.cons_append, scan_other hkey.quote hu hne,
        ih _ hlen hx.tail rfl, ← List.cons_append]
      simp only [suffix_quote_iff hkey.quote (34 :: u) w]
    · have hiff : 34 :: key <:+ 34 :: x ↔ x = key := by
        constructor
        · intro h
          rcases List.suffix_cons_iff.1 h with heq | hle
          · exact (List.cons.inj heq).2.symm
          · exact absurd (hle.subset List.mem_cons_self) hquote
        · rintro rfl
          exact List.suffix_rfl
      rw [scan_gap hkey.quote hquote]
      simp only [hiff]

/-- A string whose opening quote was taken for a closing one. -/
theorem scan_opened (hkey : PlainKey key) {x : Bytes} (hx : QuotesEscaped x) (rest : Bytes)
    (hhead : (skipWs x).head? ≠ some 58) :
    scanBehind key (x ++ 34 :: rest) =
      if 34 :: key <:+ x then scanBehind key rest else scan key (34 :: rest) := by
  have hmem : ∀ {u : Bytes}, 34 ∉ u → 34 ∉ skipWs u := fun hu h =>
    hu ((List.dropWhile_suffix isWs).subset h)
  have hcolon : ∀ u v : Bytes, (skipWs u).head? ≠ some 58 →
      (skipWs u ++ 34 :: v).head? ≠ some 58 := by
    intro u v hu
    cases h : skipWs u with
    | nil => simp
    | cons b u' =>
      rw [h] at hu
      exact hu
  by_cases hquote : 34 ∈ x
  · obtain ⟨u, w, rfl, hu⟩ := List.eq_append_cons_of_mem hquote
    have hhead' : (skipWs u).head? ≠ some 58 := by
      intro h
      rw [skipWs_append_quote] at hhead
      cases hs : skipWs u with
      | nil =>
        rw [hs] at h
        cases h
      | cons b u' =>
        rw [hs] at h hhead
        exact hhead h
    unfold scanBehind
    rw [List.append_assoc, List.cons_append, skipWs_append_quote, if_neg (hcolon u _ hhead'),
      scan_skip (hmem hu) (hcolon u _ hhead'), scan_string hkey hx.tail]
    simp only [suffix_quote_iff hkey.quote u w]
    rfl
  · have hno : ¬ 34 :: key <:+ x := fun h => hquote (h.subset List.mem_cons_self)
    unfold scanBehind
    rw [skipWs_append_quote, if_neg (hcolon x _ hhead), scan_skip (hmem hquote) (hcolon x _ hhead),
      if_neg hno]

/-! ## Reading -/

/-- What the code reads for a piece: an escape is the byte behind its backslash, and only those
for a line feed and a tab are replaced. -/
def letters : Piece → Bytes
  | .plain c _ => String.utf8EncodeChar c
  | .short e => [unescape e.letter]
  | .unicode _ ds _ _ => 117 :: ds
  | .surrogates _ hi lo _ _ _ _ => 117 :: hi ++ 117 :: lo

/-- Bytes without quotes and backslashes are read as they are. -/
theorem readString_append {bs : Bytes} (hquote : 34 ∉ bs) (hbackslash : 92 ∉ bs) (p : Bytes) :
    readString (bs ++ p) = bs ++ readString p := by
  induction bs with
  | nil => rfl
  | cons b bs ih =>
    rw [List.mem_cons, not_or] at hquote hbackslash
    have hrest := ih hquote.2 hbackslash.2
    rw [List.cons_append, List.cons_append, ← hrest]
    cases h : bs ++ p with
    | nil => exact if_neg fun h => hquote.1 h.symm
    | cons b' p' =>
      rw [readString, if_neg fun h => hquote.1 h.symm, if_neg fun h => hbackslash.1 h.symm]

theorem readString_quote (p : Bytes) : readString (34 :: p) = [] := by
  cases p <;> rfl

theorem readString_written (piece : Piece) (p : Bytes) :
    readString (piece.written ++ p) = letters piece ++ readString p := by
  have hhex : ∀ {ds : Bytes} {n : Nat}, hexValue ds = some n → 34 ∉ ds ∧ 92 ∉ ds :=
    fun h => ⟨not_mem_hex h (by decide), not_mem_hex h (by decide)⟩
  cases piece with
  | plain c hc => exact readString_append hc.not_mem.1 hc.not_mem.2.1 p
  | short e => rfl
  | unicode c ds hlen hval =>
    obtain ⟨h1, h2⟩ := hhex hval
    show unescape 117 :: readString (ds ++ p) = _
    rw [readString_append h1 h2]
    rfl
  | surrogates c hi lo hlen hc hhi hlo =>
    obtain ⟨h1, h2⟩ := hhex hhi
    obtain ⟨h3, h4⟩ := hhex hlo
    have htext : (Piece.surrogates c hi lo hlen hc hhi hlo).written ++ p =
        92 :: 117 :: (hi ++ (92 :: 117 :: (lo ++ p))) := by simp [Piece.written]
    rw [htext]
    show unescape 117 :: readString (hi ++ (92 :: 117 :: (lo ++ p))) = _
    rw [readString_append h1 h2]
    show unescape 117 :: (hi ++ unescape 117 :: readString (lo ++ p)) = _
    rw [readString_append h3 h4]
    rw [letters, List.append_assoc]
    rfl

theorem readString_raw (s : JsonString) (p : Bytes) :
    readString (s.raw ++ 34 :: p) = s.flatMap letters := by
  induction s with
  | nil => exact readString_quote p
  | cons piece s ih =>
    have htext : JsonString.raw (piece :: s) ++ 34 :: p =
        piece.written ++ (JsonString.raw s ++ 34 :: p) := by
      rw [JsonString.raw, List.flatMap_cons, List.append_assoc]
      rfl
    rw [htext, readString_written, ih]
    rfl

end S3Archive.SebstoC
