import Mathlib.Data.List.Lex
import Mathlib.Data.List.Nodup
import Mathlib.Order.Lattice
import S3Archive.Base.Bytes

/-!
# Buckets

A `Bucket` holds objects by key, in key order. `list` is what a listing of the keys
in `under` finds after a key, and `page` is one page of it with the key to resume
after. `Pages` are the pages that a client gets which asks for one after the other:
for any page sizes they make up the listing (`Pages.contents_eq`), also when what
they list is deleted meanwhile (`list_deleteAll`).
-/

namespace S3Archive

structure Bucket (κ ω : Type) [LinearOrder κ] where
  objects : List (κ × ω)
  sorted : objects.Pairwise fun x y => x.1 < y.1

namespace Bucket

/-- One page of a listing; `next` is the key to resume after, if there is more. -/
structure Page (κ ω : Type) where
  contents : List (κ × ω)
  next : Option κ

/-- What a client is told of a page. -/
structure ListReply (κ ω : Type) where
  contents : List (κ × ω)
  isTruncated : Option Bool
  nextToken : Option κ

def Page.reply {κ ω : Type} (p : Page κ ω) : ListReply κ ω :=
  ⟨p.contents, some p.next.isSome, p.next⟩

/-- The token to go on with: a reply that is not truncated, or has no token, is the last one. -/
def ListReply.continuation {κ ω : Type} (r : ListReply κ ω) : Option κ :=
  if r.isTruncated.getD false then r.nextToken else none

@[simp] theorem Page.continuation_reply {κ ω : Type} (p : Page κ ω) :
    p.reply.continuation = p.next := by
  obtain ⟨contents, next⟩ := p
  cases next <;> rfl

variable {κ ω : Type} [LinearOrder κ]

/-! ## Objects -/

def empty : Bucket κ ω := ⟨[], .nil⟩

def get (b : Bucket κ ω) (k : κ) : Option ω := (b.objects.find? fun x => x.1 = k).map Prod.snd

def put (b : Bucket κ ω) (k : κ) (o : ω) : Bucket κ ω where
  objects := (b.objects.filter fun x => x.1 < k) ++ (k, o) :: b.objects.filter fun x => k < x.1
  sorted := by
    rw [List.pairwise_append, List.pairwise_cons]
    refine ⟨b.sorted.filter _, ⟨fun x hx => ?_, b.sorted.filter _⟩, fun x hx y hy => ?_⟩
    · simpa using (List.mem_filter.1 hx).2
    · have hlt : x.1 < k := by simpa using (List.mem_filter.1 hx).2
      rcases List.mem_cons.1 hy with rfl | hy
      · exact hlt
      · exact hlt.trans (by simpa using (List.mem_filter.1 hy).2)

def deleteAll (b : Bucket κ ω) (ks : List κ) : Bucket κ ω where
  objects := b.objects.filter fun x => x.1 ∉ ks
  sorted := b.sorted.filter _

section

variable {b b' : Bucket κ ω} {k k' : κ} {o o' : ω}

theorem keys_nodup (b : Bucket κ ω) : (b.objects.map Prod.fst).Nodup := by
  unfold List.Nodup
  rw [List.pairwise_map]
  exact b.sorted.imp fun h => ne_of_lt h

theorem eq_of_mem (h : (k, o) ∈ b.objects) (h' : (k, o') ∈ b.objects) : o = o' :=
  congrArg Prod.snd (List.inj_on_of_nodup_map b.keys_nodup h h' rfl)

theorem get_eq_some_iff : b.get k = some o ↔ (k, o) ∈ b.objects := by
  constructor
  · intro h
    obtain ⟨x, hx, rfl⟩ := Option.map_eq_some_iff.1 h
    have hkey : x.1 = k := by simpa using List.find?_some hx
    rw [← hkey]
    exact List.mem_of_find?_eq_some hx
  · intro h
    have hsome : (b.objects.find? fun x => x.1 = k).isSome = true :=
      List.find?_isSome.2 ⟨(k, o), h, by simp⟩
    obtain ⟨x, hx⟩ := Option.isSome_iff_exists.1 hsome
    have hkey : x.1 = k := by simpa using List.find?_some hx
    obtain ⟨k', o'⟩ := x
    obtain rfl : k' = k := hkey
    unfold get
    rw [hx, eq_of_mem h (List.mem_of_find?_eq_some hx)]
    rfl

theorem mem_put {x : κ × ω} : x ∈ (b.put k o).objects ↔ x = (k, o) ∨ x ∈ b.objects ∧ x.1 ≠ k := by
  unfold put
  rw [List.mem_append, List.mem_cons, List.mem_filter, List.mem_filter, decide_eq_true_eq,
    decide_eq_true_eq]
  constructor
  · rintro (⟨hx, hlt⟩ | rfl | ⟨hx, hlt⟩)
    · exact .inr ⟨hx, ne_of_lt hlt⟩
    · exact .inl rfl
    · exact .inr ⟨hx, ne_of_gt hlt⟩
  · rintro (rfl | ⟨hx, hne⟩)
    · exact .inr (.inl rfl)
    · rcases lt_or_gt_of_ne hne with hlt | hlt
      · exact .inl ⟨hx, hlt⟩
      · exact .inr (.inr ⟨hx, hlt⟩)

theorem mem_deleteAll {ks : List κ} {x : κ × ω} :
    x ∈ (b.deleteAll ks).objects ↔ x ∈ b.objects ∧ x.1 ∉ ks := by
  unfold deleteAll
  rw [List.mem_filter, decide_eq_true_eq]

@[simp] theorem get_put_self : (b.put k o).get k = some o :=
  get_eq_some_iff.2 (mem_put.2 (.inl rfl))

theorem get_put_of_ne (h : k' ≠ k) : (b.put k o).get k' = b.get k' := by
  refine Option.ext fun o' => ?_
  rw [get_eq_some_iff, get_eq_some_iff, mem_put]
  constructor
  · rintro (heq | ⟨hmem, _⟩)
    · exact absurd (congrArg Prod.fst heq) h
    · exact hmem
  · exact fun hmem => .inr ⟨hmem, h⟩

end

/-! ## Listings -/

/-- The objects of the keys in `under`, from after the key `after` on. -/
def list (b : Bucket κ ω) (under : κ → Bool) (after : Option κ) : List (κ × ω) :=
  b.objects.filter fun x => under x.1 && after.all (· < x.1)

/-- A page of at most `limit` objects. -/
def page (b : Bucket κ ω) (under : κ → Bool) (after : Option κ) (limit : Nat) : Page κ ω where
  contents := (b.list under after).take limit
  next :=
    if limit < (b.list under after).length then
      (((b.list under after).take limit).getLast?).map Prod.fst
    else none

section

variable {b : Bucket κ ω} {under : κ → Bool} {after : Option κ} {limit : Nat}

theorem mem_list {x : κ × ω} :
    x ∈ b.list under after ↔ x ∈ b.objects ∧ under x.1 = true ∧ ∀ k, after = some k → k < x.1 := by
  unfold list
  rw [List.mem_filter, Bool.and_eq_true]
  cases after with
  | none => simp
  | some k => simp

theorem sorted_list (b : Bucket κ ω) (under : κ → Bool) (after : Option κ) :
    (b.list under after).Pairwise fun x y => x.1 < y.1 := b.sorted.filter _

/-- Listing after the last of the first keys gives the others. -/
theorem list_after {xs ys : List (κ × ω)} {x : κ × ω}
    (h : b.list under after = xs ++ x :: ys) : b.list under (some x.1) = ys := by
  have hsorted := sorted_list b under after
  rw [h, List.pairwise_append, List.pairwise_cons] at hsorted
  obtain ⟨_, ⟨hafter, hys⟩, hbefore⟩ := hsorted
  have hle : ∀ y ∈ ys, ∀ k, after = some k → k < y.1 := fun y hy =>
    (mem_list.1 (h ▸ List.mem_append_right _ (List.mem_cons_of_mem _ hy))).2.2
  refine List.Perm.eq_of_pairwise (fun y z _ _ hyz hzy => absurd hyz (lt_asymm hzy))
    (sorted_list ..) hys
    ((List.perm_ext_iff_of_nodup ?_ ?_).2 fun y => ?_)
  · exact (sorted_list ..).imp fun hlt heq => absurd (congrArg Prod.fst heq) (ne_of_lt hlt)
  · exact hys.imp fun hlt heq => absurd (congrArg Prod.fst heq) (ne_of_lt hlt)
  · have hx := mem_list.1 (h ▸ List.mem_append_right _ List.mem_cons_self : x ∈ b.list under after)
    rw [mem_list]
    constructor
    · rintro ⟨hy, hunder, hlt⟩
      have hmem : y ∈ b.list under after :=
        mem_list.2 ⟨hy, hunder, fun k hk => (hx.2.2 k hk).trans (hlt _ rfl)⟩
      rw [h] at hmem
      rcases List.mem_append.1 hmem with hmem | hmem
      · exact absurd (hlt _ rfl) (lt_asymm (hbefore y hmem x List.mem_cons_self))
      · rcases List.mem_cons.1 hmem with rfl | hmem
        · exact absurd (hlt _ rfl) (lt_irrefl _)
        · exact hmem
    · intro hy
      have hmem := mem_list.1
        (h ▸ List.mem_append_right _ (List.mem_cons_of_mem _ hy) : y ∈ b.list under after)
      refine ⟨hmem.1, hmem.2.1, fun k hk => ?_⟩
      rw [← Option.some.inj hk]
      exact hafter y hy

/-- A page and the listing from its end on. -/
theorem page_cases (b : Bucket κ ω) (under : κ → Bool) (after : Option κ) (hlimit : 0 < limit) :
    ((b.page under after limit).next = none ∧
      (b.page under after limit).contents = b.list under after) ∨
    ∃ k, (b.page under after limit).next = some k ∧
      (b.page under after limit).contents ++ b.list under (some k) = b.list under after ∧
      (∀ x ∈ (b.page under after limit).contents, x.1 ≤ k) ∧ (∀ a, after = some a → a < k) ∧
      (b.list under (some k)).length < (b.list under after).length := by
  unfold page
  by_cases hmore : limit < (b.list under after).length
  · right
    obtain ⟨before, x, hsplit⟩ : ∃ before x, (b.list under after).take limit = before ++ [x] := by
      have hlen : ((b.list under after).take limit).length = limit :=
        List.length_take_of_le (by omega)
      refine ⟨((b.list under after).take limit).dropLast, _, (List.dropLast_append_getLast ?_).symm⟩
      exact List.ne_nil_of_length_pos (by omega)
    have hlist : b.list under after = before ++ x :: (b.list under after).drop limit := by
      conv_lhs => rw [← List.take_append_drop limit (b.list under after), hsplit]
      rw [List.append_assoc]
      rfl
    have hrest := list_after hlist
    refine ⟨x.1, ?_, ?_, ?_, ?_, ?_⟩
    · dsimp only
      rw [if_pos hmore, hsplit, List.getLast?_concat]
      rfl
    · dsimp only
      rw [hrest, List.take_append_drop]
    · have hsorted := sorted_list b under after
      rw [hlist, List.pairwise_append] at hsorted
      intro y hy
      dsimp only at hy
      rw [hsplit] at hy
      rcases List.mem_append.1 hy with hy | hy
      · exact (hsorted.2.2 y hy x List.mem_cons_self).le
      · rw [List.mem_singleton.1 hy]
    · have hx : x ∈ b.list under after :=
        hlist ▸ List.mem_append_right _ List.mem_cons_self
      exact (mem_list.1 hx).2.2
    · rw [hrest, List.length_drop]
      omega
  · left
    exact ⟨if_neg hmore, List.take_of_length_le (by omega)⟩

/-- What was listed up to a key does not matter for what follows it. -/
theorem list_deleteAll {ks : List κ} {k : κ} (h : ∀ k' ∈ ks, k' ≤ k) :
    (b.deleteAll ks).list under (some k) = b.list under (some k) := by
  unfold list deleteAll
  dsimp only
  rw [List.filter_filter]
  refine List.filter_congr fun x _ => ?_
  by_cases hlt : k < x.1
  · have hnot : x.1 ∉ ks := fun hmem => absurd hlt (not_lt_of_ge (h _ hmem))
    simp [hnot]
  · simp [hlt]

end

/-! ## Pages -/

/-- The pages of a listing from after a key on, each with a limit of its own. -/
inductive Pages (b : Bucket κ ω) (under : κ → Bool) : Option κ → List (Page κ ω) → Prop
  | last {after : Option κ} {limit : Nat} (hlimit : 0 < limit)
      (hnext : (b.page under after limit).next = none) :
    Pages b under after [b.page under after limit]
  | more {after : Option κ} {limit : Nat} {k : κ} {pages : List (Page κ ω)} (hlimit : 0 < limit)
      (hnext : (b.page under after limit).next = some k) (hrest : Pages b under (some k) pages) :
    Pages b under after (b.page under after limit :: pages)

/-- The pages have every object once, in key order. -/
theorem Pages.contents_eq {b : Bucket κ ω} {under : κ → Bool} {after : Option κ}
    {pages : List (Page κ ω)} (h : Pages b under after pages) :
    pages.flatMap Page.contents = b.list under after := by
  induction h with
  | @last after limit hlimit hnext =>
    rw [List.flatMap_singleton]
    rcases page_cases b under after hlimit with ⟨_, hall⟩ | ⟨k, hsome, _⟩
    · exact hall
    · rw [hnext] at hsome
      cases hsome
  | @more after limit k pages hlimit hnext hrest ih =>
    rw [List.flatMap_cons, ih]
    rcases page_cases b under after hlimit with ⟨hnone, _⟩ | ⟨k, hsome, hall, _⟩
    · rw [hnext] at hnone
      cases hnone
    · rw [hnext] at hsome
      rw [Option.some.inj hsome]
      exact hall

end Bucket

/-! ## Keys -/

/-- A key: bytes, in binary order. -/
structure Key where
  bytes : Bytes
  deriving DecidableEq, Repr

namespace Key

theorem toNat_injective : Function.Injective fun k : Key => k.bytes.map UInt8.toNat := by
  intro k k' h
  have hinj : Function.Injective UInt8.toNat := fun _ _ => UInt8.toNat_inj.1
  obtain ⟨bytes⟩ := k
  obtain ⟨bytes'⟩ := k'
  exact congrArg Key.mk (List.map_injective_iff.2 hinj h)

instance : LinearOrder Key := LinearOrder.lift' _ toNat_injective

/-- The key starts with `pre`. -/
def startsWith (pre : Bytes) (k : Key) : Bool := pre.isPrefixOf k.bytes

/-- The rest of a key that starts with `pre`. -/
def strip (pre : Bytes) (k : Key) : Option Bytes :=
  if pre.isPrefixOf k.bytes then some (k.bytes.drop pre.length) else none

theorem strip_eq_some_iff {pre rest : Bytes} {k : Key} :
    k.strip pre = some rest ↔ k = ⟨pre ++ rest⟩ := by
  obtain ⟨bytes⟩ := k
  unfold strip
  simp only [List.isPrefixOf_iff_prefix, Option.ite_none_right_eq_some, Option.some.injEq,
    mk.injEq]
  constructor
  · rintro ⟨⟨rest, rfl⟩, rfl⟩
    rw [List.drop_left]
  · rintro rfl
    exact ⟨List.prefix_append _ _, List.drop_left⟩

end Key

/-! ## Names -/

/-- The text of a name, if its bytes are UTF-8. -/
def fromUtf8 (bs : Bytes) : Option String := String.fromUTF8? ⟨bs.toArray⟩

theorem fromUtf8_utf8 (s : String) : fromUtf8 (utf8 s) = some s := by
  have harr : (⟨(utf8 s).toArray⟩ : ByteArray) = s.toByteArray := by
    unfold utf8
    rw [Array.toArray_toList]
    rfl
  unfold fromUtf8
  rw [harr]
  unfold String.fromUTF8?
  rw [dif_pos s.isValidUTF8]
  rfl

theorem utf8_append (s t : String) : utf8 (s ++ t) = utf8 s ++ utf8 t := by
  unfold utf8
  rw [String.toUTF8_eq_toByteArray, String.toByteArray_append, ByteArray.data_append,
    Array.toList_append]
  rfl

theorem fromUtf8_eq_some_iff {bs : Bytes} {s : String} : fromUtf8 bs = some s ↔ bs = utf8 s := by
  constructor
  · intro h
    unfold fromUtf8 String.fromUTF8? at h
    split at h
    · cases h
      rfl
    · cases h
  · rintro rfl
    exact fromUtf8_utf8 s

end S3Archive
