import S3Archive.Base.Bucket
import S3Archive.ControlLambda.ValidateArchive

/-!
# control-lambda: the whole validation

`listExpected` collects the names below the prefix, page by page, and `validate`
compares their number with the expected one and the archive with the names. Over any
paging the names are those of the bucket (`listExpected_pages`).
-/

namespace S3Archive.ControlLambda

open Bucket (Page Pages ListReply)

inductive ValidateError where
  | s3
  | badObjectCount (found expected : Nat)
  | archive (e : ControlError)

namespace NameSet

def empty : NameSet := ⟨[], List.nodup_nil⟩

def insert (s : NameSet) (name : String) : NameSet where
  names := if name ∈ s.names then s.names else s.names ++ [name]
  nodup := by
    split
    · exact s.nodup
    · rename_i hnew
      exact List.nodup_append.2 ⟨s.nodup, by simp, fun n hn m hm heq =>
        hnew (List.mem_singleton.1 hm ▸ heq ▸ hn)⟩

theorem mem_insert {s : NameSet} {name n : String} :
    n ∈ (s.insert name).names ↔ n = name ∨ n ∈ s.names := by
  unfold insert
  dsimp only
  split
  · rename_i hmem
    constructor
    · exact .inr
    · rintro (rfl | h)
      · exact hmem
      · exact h
  · rw [List.mem_append, List.mem_singleton, or_comm]

end NameSet

/-- Insert what follows the prefix; an empty name is passed over. -/
def insertKey (keyPrefix : Bytes) (set : NameSet) (key : Key) : NameSet :=
  match (key.strip keyPrefix).bind fromUtf8 with
  | some name => if name = "" then set else set.insert name
  | none => set

/-- The loop over the pages, each asked for with the token of the one before. -/
def listExpected {ω : Type} (keyPrefix : Bytes) :
    NameSet → List (Option (ListReply Key ω)) → Except ValidateError NameSet
  | set, [] => .ok set
  | _, none :: _ => .error .s3
  | set, some r :: replies =>
    let set := r.contents.foldl (fun set x => insertKey keyPrefix set x.1) set
    match r.continuation with
    | some _ => listExpected keyPrefix set replies
    | none => .ok set

/-- `entries` are those that the ZIP reader finds in the archive. -/
def validate {ω : Type} (sha256 : Bytes → Bytes) (filesPrefix : Bytes) (expectedObjectCount : Nat)
    (replies : List (Option (ListReply Key ω))) (entries : List Entry) :
    Except ValidateError Unit := do
  let expected ← listExpected (filesPrefix ++ utf8 "/") .empty replies
  if expected.names.length ≠ expectedObjectCount then
    throw (.badObjectCount expected.names.length expectedObjectCount)
  (validateArchive sha256 entries expected).mapError .archive

/-! ## The expected names -/

section

variable {ω : Type} {b : Bucket Key ω} {keyPrefix : Bytes} {after : Option Key}

theorem mem_insertKey {set : NameSet} {key : Key} {n : String} :
    n ∈ (insertKey keyPrefix set key).names ↔
      n ∈ set.names ∨ n ≠ "" ∧ key = ⟨keyPrefix ++ utf8 n⟩ := by
  have hkey : ∀ m, (key.strip keyPrefix).bind fromUtf8 = some m ↔
      key = ⟨keyPrefix ++ utf8 m⟩ := by
    intro m
    rw [Option.bind_eq_some_iff]
    constructor
    · rintro ⟨rest, hrest, hm⟩
      rw [Key.strip_eq_some_iff.1 hrest, fromUtf8_eq_some_iff.1 hm]
    · rintro rfl
      exact ⟨utf8 m, Key.strip_eq_some_iff.2 rfl, fromUtf8_utf8 m⟩
  unfold insertKey
  cases hname : (key.strip keyPrefix).bind fromUtf8 with
  | none =>
    refine ⟨.inl, ?_⟩
    rintro (h | ⟨_, h⟩)
    · exact h
    · rw [(hkey n).2 h] at hname
      cases hname
  | some name =>
    have hsame : key = ⟨keyPrefix ++ utf8 n⟩ ↔ n = name := by
      rw [← hkey n, hname, Option.some.injEq]
      exact eq_comm
    rw [hsame]
    dsimp only
    by_cases hempty : name = ""
    · rw [if_pos hempty]
      refine ⟨.inl, ?_⟩
      rintro (h | ⟨hne, rfl⟩)
      · exact h
      · exact absurd hempty hne
    · rw [if_neg hempty, NameSet.mem_insert]
      constructor
      · rintro (rfl | h)
        · exact .inr ⟨hempty, rfl⟩
        · exact .inl h
      · rintro (h | ⟨_, h⟩)
        · exact .inr h
        · exact .inl h

theorem mem_foldl_insertKey {xs : List (Key × ω)} {set : NameSet} {n : String} :
    n ∈ (xs.foldl (fun set x => insertKey keyPrefix set x.1) set).names ↔
      n ∈ set.names ∨ n ≠ "" ∧ (⟨keyPrefix ++ utf8 n⟩ : Key) ∈ xs.map Prod.fst := by
  induction xs generalizing set with
  | nil => simp
  | cons x xs ih =>
    rw [List.foldl_cons, ih, mem_insertKey, List.map_cons, List.mem_cons]
    constructor
    · rintro ((h | ⟨hne, h⟩) | ⟨hne, h⟩)
      · exact .inl h
      · exact .inr ⟨hne, .inl h.symm⟩
      · exact .inr ⟨hne, .inr h⟩
    · rintro (h | ⟨hne, h | h⟩)
      · exact .inl (.inl h)
      · exact .inl (.inr ⟨hne, h.symm⟩)
      · exact .inr ⟨hne, h⟩

theorem listExpected_eq {under : Key → Bool} {pages : List (Page Key ω)}
    (h : Pages b under after pages) (set : NameSet) :
    listExpected keyPrefix set (pages.map fun p => some p.reply) =
      .ok ((pages.flatMap Page.contents).foldl (fun set x => insertKey keyPrefix set x.1) set) := by
  induction h generalizing set with
  | last hlimit hnext =>
    rw [List.map_singleton, List.flatMap_singleton, listExpected, Page.continuation_reply, hnext]
    rfl
  | more hlimit hnext hrest ih =>
    rw [List.map_cons, listExpected, Page.continuation_reply, hnext, List.flatMap_cons,
      List.foldl_append]
    exact ih _

/-- Over any paging the expected names are those of the bucket. -/
theorem listExpected_pages {pages : List (Page Key ω)}
    (h : Pages b (Key.startsWith keyPrefix) none pages) :
    ∃ expected, listExpected keyPrefix .empty (pages.map fun p => some p.reply) = .ok expected ∧
      ∀ n, n ∈ expected.names ↔ n ≠ "" ∧ (b.get ⟨keyPrefix ++ utf8 n⟩).isSome = true := by
  refine ⟨_, listExpected_eq h _, fun n => ?_⟩
  rw [h.contents_eq, mem_foldl_insertKey]
  have hmem : (⟨keyPrefix ++ utf8 n⟩ : Key) ∈
      (b.list (Key.startsWith keyPrefix) none).map Prod.fst ↔
        (b.get ⟨keyPrefix ++ utf8 n⟩).isSome = true := by
    rw [Option.isSome_iff_exists]
    constructor
    · intro hkey
      obtain ⟨x, hx, hfst⟩ := List.mem_map.1 hkey
      refine ⟨x.2, Bucket.get_eq_some_iff.2 ?_⟩
      rw [← hfst]
      exact (Bucket.mem_list.1 hx).1
    · rintro ⟨o, ho⟩
      refine List.mem_map.2 ⟨_, Bucket.mem_list.2 ⟨Bucket.get_eq_some_iff.1 ho, ?_,
        fun k hk => (by cases hk)⟩, rfl⟩
      exact List.isPrefixOf_iff_prefix.2 (List.prefix_append _ _)
  rw [hmem]
  constructor
  · rintro (h | h)
    · cases h
    · exact h
  · exact .inr

end

end S3Archive.ControlLambda
