import S3Archive.SebstoC.JsonReader

/-!
# sebsto C: what the JSON reader finds

`json_extract_string` on an object as it is written. `landing` is what its search
comes to: the value of a member whose name ends like the quoted key, or what is
between two strings, where the key is itself such a separator.
`jsonExtractString_text` says that the code returns what is read there, and
`jsonExtractString_iff` when that is the value of the member with the key.
-/

namespace S3Archive.SebstoC

open Json

/-! ## Where the search lands -/

/-- The string ends with a quote and the key; `opened` when its own opening quote is already
behind the search. -/
def EndsQuoted (key : Bytes) (opened : Prop) [Decidable opened] (s : JsonString) : Prop :=
  34 :: key <:+ if opened then s.raw else 34 :: s.raw

instance (key : Bytes) (opened : Prop) [Decidable opened] (s : JsonString) :
    Decidable (EndsQuoted key opened s) := inferInstanceAs (Decidable (_ <:+ _))

/-- The string starts with a colon behind spaces. -/
def StartsColon (s : JsonString) : Prop := (skipWs s.raw).head? = some 58

/-- The string is one colon between spaces. -/
def OnlyColon (s : JsonString) : Prop := StartsColon s ∧ skipWs (skipWs s.raw).tail = []

instance (s : JsonString) : Decidable (StartsColon s) := inferInstanceAs (Decidable (_ = _))

instance (s : JsonString) : Decidable (OnlyColon s) := inferInstanceAs (Decidable (_ ∧ _))

/-- What the code reads. -/
inductive Landing where
  | nothing
  /-- The value of the member. -/
  | value (m : Member)
  /-- What is between two strings, or behind the last one. -/
  | gap (text : Bytes)

/-- What the search comes to in the members from the first one on, behind whose opening quote it
may be already. A separator that is the key takes the next opening quote for a closing one. -/
def landing (key closing : Bytes) (opened : Bool) : List Member → Landing
  | [] => .nothing
  | m :: ms =>
    if EndsQuoted key opened m.name then .value m
    else if m.colon = key ∧ StartsColon m.value then
      if OnlyColon m.value then .gap (m.gap closing ms) else .nothing
    else if EndsQuoted key (m.colon = key) m.value then landing key closing false ms
    else
      match ms with
      | [] => .nothing
      | next :: ms =>
        if m.gap closing (next :: ms) = key ∧ StartsColon next.name then
          if OnlyColon next.name then .gap next.colon else .nothing
        else landing key closing (m.gap closing (next :: ms) = key) (next :: ms)

def Landing.text : Landing → Option Bytes
  | nothing => none
  | value m => some (m.value.flatMap letters)
  | gap text => some text

/-! ## Between the strings -/

/-- A text with none of the bytes that have a meaning in a string. -/
structure Bare (bs : Bytes) : Prop where
  quote : 34 ∉ bs
  backslash : 92 ∉ bs
  zero : 0 ∉ bs

theorem Bare.cons {b : UInt8} {bs : Bytes} (h : Bare bs) (hb : b ≠ 34 ∧ b ≠ 92 ∧ b ≠ 0) :
    Bare (b :: bs) :=
  ⟨by simp [h.quote, hb.1.symm], by simp [h.backslash, hb.2.1.symm],
    by simp [h.zero, hb.2.2.symm]⟩

theorem Bare.append {bs bs' : Bytes} (h : Bare bs) (h' : Bare bs') : Bare (bs ++ bs') :=
  ⟨by simp [h.quote, h'.quote], by simp [h.backslash, h'.backslash], by simp [h.zero, h'.zero]⟩

theorem bare_ws (ws : Ws) : Bare ws.bytes :=
  ⟨ws.not_mem (by decide), ws.not_mem (by decide), ws.not_mem (by decide)⟩

theorem bare_colon (m : Member) : Bare m.colon :=
  (bare_ws _).append ((bare_ws _).cons (by decide))

theorem bare_gap {closing : Bytes} (hclosing : Bare closing) (m : Member) (ms : List Member) :
    Bare (m.gap closing ms) := by
  cases ms with
  | nil => exact (bare_ws _).append hclosing
  | cons next ms => exact (bare_ws _).append ((bare_ws _).cons (by decide))

theorem skipWs_ws (ws : Ws) {b : UInt8} (hb : isWs b = false) (p : Bytes) :
    skipWs (ws.bytes ++ b :: p) = b :: p := by
  unfold skipWs
  rw [List.dropWhile_append_of_pos ws.isWs, List.dropWhile_cons_of_neg (by simp [hb])]

/-- A bare text is read up to the next quote. -/
theorem readString_bare {bs : Bytes} (h : Bare bs) {rest : Bytes}
    (hrest : rest = [] ∨ rest.head? = some 34) : cString (readString (bs ++ rest)) = bs := by
  rw [readString_append h.quote h.backslash]
  rcases hrest with rfl | hrest
  · rw [readString, List.append_nil, cString_of_not_mem h.zero]
  · obtain ⟨p, rfl⟩ := List.head?_eq_some_iff.1 hrest
    rw [readString_quote, List.append_nil, cString_of_not_mem h.zero]

/-! ## Reading behind the colon -/

/-- What the code makes of the text behind the colon. -/
def readBehind (p : Bytes) : Option Bytes :=
  if (skipWs p).head? = some 34 then some (cString (readString (skipWs p).tail)) else none

theorem jsonExtractString_eq (body key : Bytes) : jsonExtractString body key =
    if key.length ≤ 125 then (scan key body).bind readBehind else none := by
  have hlen : (quotedKey key).length = key.length + 2 := by simp [quotedKey]
  unfold jsonExtractString scan
  rw [hlen]
  by_cases hkey : key.length ≤ 125
  · rw [if_neg (by omega), if_pos hkey]
    cases findKey key body with
    | none => rfl
    | some p =>
      by_cases hp : p.head? = some 58
      · by_cases hq : (skipWs p.tail).head? = some 34
        · simp [readBehind, hp, hq]
        · simp [readBehind, hp, hq]
      · simp [hp]
  · rw [if_pos (by omega), if_neg hkey]
    rfl

variable {key : Bytes}

theorem not_mem_letters (p : Piece) : 0 ∉ letters p := by
  have hhex : ∀ {ds : Bytes} {n : Nat}, hexValue ds = some n → 0 ∉ ds :=
    fun h => not_mem_hex h (by decide)
  cases p with
  | plain c hc => exact hc.not_mem.2.2
  | short e => cases e <;> decide
  | unicode c ds hlen hval => simp [letters, hhex hval]
  | surrogates c hi lo hlen hc hhi hlo => simp [letters, hhex hhi, hhex hlo]

/-- Behind a name, the value is read. -/
theorem readBehind_name (m : Member) (rest : Bytes) :
    (scanBehind key (m.colon ++ 34 :: (m.value.raw ++ 34 :: rest))).bind readBehind =
      some (m.value.flatMap letters) := by
  have hzero : 0 ∉ m.value.flatMap letters := by
    intro h
    obtain ⟨p, -, hp⟩ := List.mem_flatMap.1 h
    exact not_mem_letters p hp
  have hskip : skipWs (m.colon ++ 34 :: (m.value.raw ++ 34 :: rest)) =
      58 :: (m.afterColon.bytes ++ 34 :: (m.value.raw ++ 34 :: rest)) := by
    rw [Member.colon, List.append_assoc, List.cons_append, skipWs_ws _ (by decide)]
  unfold scanBehind
  rw [hskip, List.head?_cons, if_pos rfl, Option.bind_some, List.tail_cons]
  unfold readBehind
  rw [skipWs_ws _ (by decide), List.head?_cons, if_pos rfl, List.tail_cons, readString_raw,
    cString_of_not_mem hzero]

/-- Behind white space and a colon, a string has no quote of its own. -/
theorem head_skipWs_ne_quote {x : Bytes} (hx : QuotesEscaped x)
    (hcolon : (skipWs x).head? = some 58) : (skipWs (skipWs x).tail).head? ≠ some 34 := by
  intro h
  obtain ⟨y, hy⟩ := List.head?_eq_some_iff.1 hcolon
  rw [hy, List.tail_cons] at h
  obtain ⟨z, hz⟩ := List.head?_eq_some_iff.1 h
  have hsplit : x = (x.takeWhile isWs ++ 58 :: y.takeWhile isWs) ++ 34 :: z := by
    have h1 : x.takeWhile isWs ++ skipWs x = x := List.takeWhile_append_dropWhile
    have h2 : y.takeWhile isWs ++ skipWs y = y := List.takeWhile_append_dropWhile
    rw [hz] at h2
    rw [hy, ← h2] at h1
    rw [List.append_assoc, List.cons_append]
    exact h1.symm
  have hlast := hx _ z hsplit
  rw [List.getLast?_append, List.getLast?_cons, Option.some_or, Option.some.injEq] at hlast
  cases hw : (y.takeWhile isWs).getLast? with
  | none =>
    rw [hw] at hlast
    cases hlast
  | some b =>
    rw [hw, Option.getD_some] at hlast
    have hb := List.mem_takeWhile_imp (List.mem_of_mem_getLast? hw)
    rw [hlast] at hb
    cases hb

/-- A string that starts with a colon, behind a quote that was taken for a closing one. -/
theorem readBehind_startsColon {s : JsonString} (hs : StartsColon s) (rest : Bytes) :
    (scanBehind key (s.raw ++ 34 :: rest)).bind readBehind =
      if OnlyColon s then some (cString (readString rest)) else none := by
  have hne := head_skipWs_ne_quote (quotesEscaped_raw s) hs
  obtain ⟨y, hy⟩ := List.head?_eq_some_iff.1 hs
  have honly : OnlyColon s ↔ skipWs y = [] := by
    unfold OnlyColon
    rw [hy, List.tail_cons]
    exact and_iff_right hs
  unfold scanBehind
  rw [skipWs_append_quote, hy, List.cons_append, List.head?_cons, if_pos rfl, List.tail_cons,
    Option.bind_some]
  rw [hy, List.tail_cons] at hne
  unfold readBehind
  rw [skipWs_append_quote]
  cases hz : skipWs y with
  | nil => rw [List.nil_append, List.head?_cons, if_pos rfl, if_pos (honly.2 hz), List.tail_cons]
  | cons b z =>
    rw [hz] at hne
    have hno : ¬ OnlyColon s := by
      rw [honly, hz]
      exact List.cons_ne_nil b z
    rw [if_neg hno]
    exact if_neg hne

/-! ## What the search comes to -/

/-- The search from a string on, the quote of which it may have taken. -/
theorem scan_from (hkey : PlainKey key) (opened : Prop) [Decidable opened] {s : JsonString}
    (hs : opened → ¬ StartsColon s) (rest : Bytes) :
    (if opened then scanBehind key (s.raw ++ 34 :: rest) else scan key (34 :: (s.raw ++ 34 :: rest)))
      = if EndsQuoted key opened s then scanBehind key rest else scan key (34 :: rest) := by
  unfold EndsQuoted
  by_cases h : opened
  · simp only [h, if_true]
    exact scan_opened hkey (quotesEscaped_raw s) rest (hs h)
  · simp only [h, if_false]
    exact scan_string hkey (quotesEscaped_raw s) rest

/-- Behind the string, where no colon is. -/
theorem scanBehind_gap {ws : Ws} {b : UInt8} (hb : b ≠ 34 ∧ b ≠ 58 ∧ isWs b = false) {bs : Bytes}
    (hbs : 34 ∉ bs) : scanBehind key (ws.bytes ++ b :: bs) = none ∧
      ∀ rest, scanBehind key (ws.bytes ++ b :: bs ++ 34 :: rest) = scan key (34 :: rest) := by
  have hmem : 34 ∉ b :: bs := by simp [hbs, hb.1.symm]
  have hhead : ∀ p, (b :: p).head? ≠ some 58 := fun p => by simp [hb.2.1]
  refine ⟨?_, fun rest => ?_⟩
  · unfold scanBehind
    rw [skipWs_ws ws hb.2.2, if_neg (hhead bs), scan_eq_none hmem (hhead bs)]
  · unfold scanBehind
    rw [List.append_assoc, List.cons_append, skipWs_ws ws hb.2.2, if_neg (hhead _),
      ← List.cons_append, scan_skip hmem (hhead _)]

theorem head_membersText (closing : Bytes) (ms : List Member) :
    membersText closing ms = [] ∨ (membersText closing ms).head? = some 34 := by
  cases ms with
  | nil => exact .inl rfl
  | cons m ms => exact .inr rfl

theorem quoted_append (m : Member) (rest : Bytes) : m.quoted ++ rest =
    34 :: (m.name.raw ++ 34 :: (m.colon ++ 34 :: (m.value.raw ++ 34 :: rest))) := by
  simp only [Member.quoted, List.cons_append, List.append_assoc, List.nil_append]

/-- One member, with `rest` behind it. -/
theorem scan_member (hkey : PlainKey key) (m : Member) (opened : Prop) [Decidable opened]
    (hopened : opened → ¬ StartsColon m.name) (rest : Bytes) :
    (if opened then scanBehind key (m.quoted ++ rest).tail
      else scan key (m.quoted ++ rest)).bind readBehind =
      if EndsQuoted key opened m.name then some (m.value.flatMap letters)
      else if m.colon = key ∧ StartsColon m.value then
        if OnlyColon m.value then some (cString (readString rest)) else none
      else (if EndsQuoted key (m.colon = key) m.value then scanBehind key rest
        else scan key (34 :: rest)).bind readBehind := by
  rw [quoted_append, List.tail_cons, scan_from hkey opened hopened]
  by_cases hname : EndsQuoted key opened m.name
  · rw [if_pos hname, if_pos hname, readBehind_name]
  · rw [if_neg hname, if_neg hname, scan_gap hkey.quote (bare_colon m).quote]
    by_cases hcolon : m.colon = key ∧ StartsColon m.value
    · rw [if_pos hcolon, if_pos hcolon.1, readBehind_startsColon hcolon.2]
    · rw [if_neg hcolon, scan_from hkey _ fun h h' => hcolon ⟨h, h'⟩]

/-- What the code reads from a member on is what the search lands at. -/
theorem scan_members (hkey : PlainKey key) (trailing : Ws) (ms : List Member) (m : Member)
    (opened : Bool) (hopened : opened = true → ¬ StartsColon m.name) :
    (if opened = true then
        scanBehind key (membersText (125 :: trailing.bytes) (m :: ms)).tail
      else scan key (membersText (125 :: trailing.bytes) (m :: ms))).bind readBehind =
      (landing key (125 :: trailing.bytes) opened (m :: ms)).text := by
  have hclosing : Bare (125 :: trailing.bytes) := (bare_ws trailing).cons (by decide)
  induction ms generalizing m opened with
  | nil =>
    have hgap := bare_gap hclosing m []
    have hread := readString_bare hgap (.inl rfl)
    have hbehind := (@scanBehind_gap key m.afterValue 125 (by decide) _ (bare_ws trailing).quote).1
    rw [membersText, membersText, scan_member hkey m _ hopened, hread, landing]
    split_ifs
    · rfl
    · rfl
    · rfl
    · rw [List.append_nil, Member.gap, hbehind]
      rfl
    · rw [List.append_nil, scan_last hgap.quote]
      rfl
  | cons next ms ih =>
    have hgap := bare_gap hclosing m (next :: ms)
    have hread := readString_bare hgap (head_membersText (125 :: trailing.bytes) (next :: ms))
    have hbehind := (@scanBehind_gap key m.afterValue 44 (by decide) _
      (bare_ws next.beforeName).quote).2
    obtain ⟨text, htext⟩ : ∃ text, membersText (125 :: trailing.bytes) (next :: ms) = 34 :: text :=
      ⟨_, rfl⟩
    have hfirst := ih next false (by simp)
    rw [membersText, scan_member hkey m _ hopened, hread, landing]
    split_ifs with hname hcolon honly hvalue hstart honly'
    · rfl
    · rfl
    · rfl
    · -- the value ends like the key, and its closing quote is taken
      rw [htext] at hfirst ⊢
      rw [Member.gap, hbehind, ← hfirst]
      rfl
    · -- the separator is the key, and the next name starts with a colon
      rw [membersText, quoted_append, scan_gap hkey.quote hgap.quote, if_pos hstart.1,
        readBehind_startsColon hstart.2, if_pos honly',
        readString_bare (bare_colon next) (.inr rfl)]
      rfl
    · rw [membersText, quoted_append, scan_gap hkey.quote hgap.quote, if_pos hstart.1,
        readBehind_startsColon hstart.2, if_neg honly']
      rfl
    · have hrest := ih next (decide (m.gap (125 :: trailing.bytes) (next :: ms) = key))
        fun h h' => hstart ⟨of_decide_eq_true h, h'⟩
      rw [htext] at hrest ⊢
      rw [scan_gap hkey.quote hgap.quote, ← hrest]
      simp only [decide_eq_true_eq, List.tail_cons]

/-- What the code returns for an object. -/
theorem jsonExtractString_text (hkey : PlainKey key) (o : JsonObject) :
    jsonExtractString o.text key =
      if key.length ≤ 125 then (landing key o.closing false o.members).text else none := by
  have hhead : ∀ p, (o.leading.bytes ++ 123 :: p).head? ≠ some 58 := by
    intro p h
    cases hws : o.leading.bytes with
    | nil =>
      rw [hws] at h
      cases h
    | cons b bs =>
      rw [hws] at h
      have hb := o.leading.isWs b (hws ▸ List.mem_cons_self)
      rw [Option.some.inj h] at hb
      cases hb
  rw [jsonExtractString_eq]
  congr 1
  unfold JsonObject.text JsonObject.opening
  cases o.members with
  | nil =>
    have hopening : Bare (o.leading.bytes ++ 123 :: (o.inside.bytes ++ 125 :: o.trailing.bytes)) :=
      (bare_ws _).append (((bare_ws _).append ((bare_ws _).cons (by decide))).cons (by decide))
    rw [membersText, List.append_nil, scan_eq_none hopening.quote (hhead _)]
    rfl
  | cons m ms =>
    have hopening : Bare (o.leading.bytes ++ 123 :: m.beforeName.bytes) :=
      (bare_ws _).append ((bare_ws _).cons (by decide))
    obtain ⟨text, htext⟩ : ∃ text, membersText o.closing (m :: ms) = 34 :: text := ⟨_, rfl⟩
    have hrun := scan_members hkey o.trailing ms m false (by simp)
    change (scan key (membersText o.closing (m :: ms))).bind readBehind =
      (landing key o.closing false (m :: ms)).text at hrun
    have hfirst : (o.leading.bytes ++ 123 :: m.beforeName.bytes ++ 34 :: text).head? ≠ some 58 := by
      rw [List.append_assoc, List.cons_append]
      exact hhead _
    dsimp only
    rw [← hrun, htext, scan_skip hopening.quote hfirst]

/-- Where no separator can be the key, the search lands at the first name that ends like it. -/
theorem landing_eq_find {closing : Bytes} (hcolon : ∀ m : Member, m.colon ≠ key)
    (hgap : ∀ (m : Member) (ms : List Member), m.gap closing ms ≠ key) (ms : List Member) :
    landing key closing false ms =
      match ms.find? fun m => 34 :: key <:+ 34 :: m.name.raw with
      | none => .nothing
      | some m => .value m := by
  induction ms with
  | nil => rfl
  | cons m ms ih =>
    have hname : EndsQuoted key (false = true) m.name ↔ 34 :: key <:+ 34 :: m.name.raw := by
      simp [EndsQuoted]
    unfold landing
    rw [List.find?_cons]
    by_cases h : 34 :: key <:+ 34 :: m.name.raw
    · rw [if_pos (hname.2 h), decide_eq_true h]
    · rw [if_neg (mt hname.1 h), if_neg fun h' => hcolon m h'.1, decide_eq_false h, ← ih]
      cases ms with
      | nil => exact ite_self _
      | cons next ms =>
        have hno : (m.gap closing (next :: ms) = key) = False := eq_false (hgap m _)
        simp only [hno, false_and, if_false, decide_false, ite_self]

/-! ## When it is the value -/

/-- A key that JSON need not escape. -/
structure KeyName where
  chars : List Char
  unescaped : ∀ c ∈ chars, Unescaped c

def KeyName.bytes (key : KeyName) : Bytes := encodeText key.chars

theorem KeyName.plainKey (key : KeyName) : PlainKey key.bytes := by
  constructor
  all_goals
    intro h
    obtain ⟨c, hc, hmem⟩ := List.mem_flatMap.1 h
  · exact (key.unescaped c hc).not_mem.1 hmem
  · exact (key.unescaped c hc).not_mem.2.1 hmem

/-- The pieces that are read as what they stand for: all but the escapes with b, f, r and u. -/
def Readable : Piece → Prop
  | .plain _ _ => True
  | .short e => e ≠ .backspace ∧ e ≠ .formFeed ∧ e ≠ .carriageReturn
  | .unicode _ _ _ _ => False
  | .surrogates _ _ _ _ _ _ _ => False

theorem length_le_letters (p : Piece) :
    (String.utf8EncodeChar p.char).length ≤ (letters p).length := by
  have hfour := p.char.utf8Size_le_four
  rw [String.length_utf8EncodeChar]
  cases p with
  | plain c hc => rw [letters, String.length_utf8EncodeChar, Piece.char]
  | short e => cases e <;> decide
  | unicode c ds hlen hval =>
    rw [letters, List.length_cons, hlen]
    omega
  | surrogates c hi lo hlen hc hhi hlo =>
    rw [letters, List.length_append, List.length_cons, List.length_cons, hlen.1, hlen.2]
    omega

theorem letters_eq_iff (p : Piece) : letters p = String.utf8EncodeChar p.char ↔ Readable p := by
  cases p with
  | plain c hc => exact iff_of_true rfl trivial
  | short e =>
    unfold Readable
    cases e <;> decide
  | unicode c ds hlen hval =>
    refine iff_of_false (fun h => ?_) id
    have hsize := congrArg List.length h
    have hfour := c.utf8Size_le_four
    rw [letters, List.length_cons, hlen, String.length_utf8EncodeChar, Piece.char] at hsize
    omega
  | surrogates c hi lo hlen hc hhi hlo =>
    refine iff_of_false (fun h => ?_) id
    have hsize := congrArg List.length h
    have hfour := c.utf8Size_le_four
    rw [letters, List.length_append, List.length_cons, List.length_cons, hlen.1, hlen.2,
      String.length_utf8EncodeChar, Piece.char] at hsize
    omega

/-- A value is read as what it says exactly when all of its pieces are. -/
theorem flatMap_letters_eq_iff (s : JsonString) :
    s.flatMap letters = encodeText s.chars ↔ ∀ p ∈ s, Readable p := by
  have hchars : encodeText s.chars = s.flatMap fun p => String.utf8EncodeChar p.char := by
    rw [encodeText, JsonString.chars, List.flatMap_map]
  rw [hchars, flatMap_eq_flatMap_iff length_le_letters]
  exact forall₂_congr fun p _ => letters_eq_iff p

/-- What is landed at is the value of `m`: it is read at `m` itself, without escapes that are
misread, or it is written elsewhere and happens to spell the value. -/
def Landing.IsValue (m : Member) : Landing → Prop
  | nothing => False
  | value m' => (m' = m ∧ ∀ p ∈ m.value, Readable p) ∨
      (m' ≠ m ∧ m'.value.flatMap letters = encodeText m.value.chars)
  | gap text => text = encodeText m.value.chars

theorem Landing.text_eq_iff (l : Landing) (m : Member) :
    l.text = some (encodeText m.value.chars) ↔ l.IsValue m := by
  cases l with
  | nothing => exact iff_of_false (by simp [Landing.text]) id
  | value m' =>
    unfold Landing.text Landing.IsValue
    rw [Option.some.injEq]
    by_cases h : m' = m
    · subst h
      simp [flatMap_letters_eq_iff]
    · simp [h]
  | gap text => exact Option.some_inj

/-- The value of the member with the key is returned, and `NULL` without such a member. -/
def ExtractsValue (key : KeyName) (o : JsonObject) : Prop :=
  jsonExtractString o.text key.bytes =
    (o.member? key.chars).map fun m => encodeText m.value.chars

/-- The code returns the value exactly when the key fits and the search lands at the value, and
`NULL` exactly when the key does not fit or the search lands nowhere. -/
theorem extractsValue_iff (key : KeyName) (o : JsonObject) : ExtractsValue key o ↔
    match o.member? key.chars with
    | none => 125 < key.bytes.length ∨ landing key.bytes o.closing false o.members = .nothing
    | some m => key.bytes.length ≤ 125 ∧
        (landing key.bytes o.closing false o.members).IsValue m := by
  unfold ExtractsValue
  rw [jsonExtractString_text key.plainKey]
  generalize landing key.bytes o.closing false o.members = l
  cases o.member? key.chars with
  | none =>
    by_cases hlen : key.bytes.length ≤ 125
    · have hlt : ¬ 125 < key.bytes.length := by omega
      rw [if_pos hlen]
      cases l <;> simp [Landing.text, hlt]
    · have hlt : 125 < key.bytes.length := by omega
      simp [hlen, hlt]
  | some m =>
    by_cases hlen : key.bytes.length ≤ 125
    · rw [if_pos hlen, Option.map_some, Landing.text_eq_iff]
      simp [hlen]
    · simp [hlen]

/-- The object `{"k":"\u0041"}`. -/
def unicodeObject : JsonObject where
  leading := ⟨[], by simp⟩
  inside := ⟨[], by simp⟩
  members := [{
    name := [.plain 'k' (by decide)]
    value := [.unicode 'A' [48, 48, 52, 49] rfl (by decide)]
    beforeName := ⟨[], by simp⟩
    beforeColon := ⟨[], by simp⟩
    afterColon := ⟨[], by simp⟩
    afterValue := ⟨[], by simp⟩ }]
  trailing := ⟨[], by simp⟩

/-- The value is returned as `u0041`. -/
theorem not_extractsValue_unicode : ¬ ∀ (key : KeyName) (o : JsonObject), ExtractsValue key o := by
  intro h
  have hvalue := h ⟨['k'], List.forall_mem_singleton.2 (by decide)⟩ unicodeObject
  unfold ExtractsValue at hvalue
  rw [jsonExtractString_text (KeyName.plainKey _)] at hvalue
  exact absurd hvalue (by decide)

end S3Archive.SebstoC
