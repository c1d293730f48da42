import Mathlib.Algebra.Order.BigOperators.Group.List
import S3Archive.Base.Bucket

/-!
# Listings of S3 objects

What S3 says of its objects, page by page. `jobObjects` are the objects of a bucket
below a prefix and its slash, each with the rest of its key. A lister folds over the
pages (`foldPages`); over any paging it folds over these objects in key order
(`foldPages_bucket`).
-/

namespace S3Archive

open Bucket (Pages Page)

/-- A stored object; a store takes no object of 2⁶³ bytes. -/
structure S3Object where
  body : Bytes
  checksumCrc32 : Option String
  length_lt : body.length < 2 ^ 63

/-- What a listing says of an object. -/
structure ObjectSummary where
  key : Option Key
  size : Option Int64

def S3Object.summary (x : Key × S3Object) : ObjectSummary :=
  ⟨some x.1, some (Int64.ofNat x.2.body.length)⟩

/-- `{files_prefix}/`. -/
def s3Prefix (filesPrefix : Bytes) : Bytes := filesPrefix ++ utf8 "/"

/-! ## Listers -/

/-- The loop over the pages; a page that fails ends it. -/
def foldPages {σ ε : Type} (step : σ → ObjectSummary → σ) :
    σ → List (Except ε (List ObjectSummary)) → Except ε σ
  | st, [] => .ok st
  | _, .error e :: _ => .error e
  | st, .ok objs :: pages => foldPages step (objs.foldl step st) pages

/-- The body of the loop over a page: what lies below the prefix is added, with the rest of its
key; the prefix itself is passed over. -/
def listNamed {σ : Type} (add : σ → Bytes → Key → Nat → σ) (s3Prefix : Bytes) (st : σ)
    (obj : ObjectSummary) : σ :=
  match obj.key, obj.size with
  | some key, some size =>
    if key.bytes = s3Prefix then st
    else
      match key.strip s3Prefix with
      | some name => if name.isEmpty then st else add st name key size.toUInt64.toNat
      | none => st
  | _, _ => st

/-! ## The objects of a job -/

abbrev S3Bucket := Bucket Key S3Object

/-- An object below the prefix with its entry name. -/
def named (s3Prefix : Bytes) (x : Key × S3Object) : Option (Bytes × S3Object) :=
  (x.1.strip s3Prefix).bind fun name => if name.isEmpty then none else some (name, x.2)

/-- The objects that a job archives, in key order. -/
def jobObjects (b : S3Bucket) (filesPrefix : Bytes) : List (Bytes × S3Object) :=
  (b.list (Key.startsWith (s3Prefix filesPrefix)) none).filterMap (named (s3Prefix filesPrefix))

/-- What a store promises of its objects: keys of at most 1024 bytes, and no more than 2³² objects
or 2⁶³ bytes. -/
structure Bounded (b : S3Bucket) : Prop where
  keys : ∀ x ∈ b.objects, x.1.bytes.length ≤ 1024
  count : b.objects.length ≤ 2 ^ 32
  total : (b.objects.map fun x => x.2.body.length).sum < 2 ^ 63

/-- The replies to a listing: its pages, or the first of them and an error. -/
def RepliesTo {ε : Type} (b : S3Bucket) (filesPrefix : Bytes)
    (replies : List (Except ε (List ObjectSummary))) : Prop :=
  ∃ pages, Pages b (Key.startsWith (s3Prefix filesPrefix)) none pages ∧
    (replies = pages.map (fun p => .ok (p.contents.map S3Object.summary)) ∨
      ∃ n e, replies =
        (pages.take n).map (fun p => .ok (p.contents.map S3Object.summary)) ++ [.error e])

section

variable {b : S3Bucket} {filesPrefix : Bytes}

theorem named_eq_some_iff {s3Prefix name : Bytes} {x : Key × S3Object} {o : S3Object} :
    named s3Prefix x = some (name, o) ↔ x = (⟨s3Prefix ++ name⟩, o) ∧ name ≠ [] := by
  obtain ⟨key, o'⟩ := x
  unfold named
  rw [Option.bind_eq_some_iff]
  constructor
  · rintro ⟨rest, hrest, h⟩
    cases hempty : rest.isEmpty with
    | true =>
      rw [hempty] at h
      cases h
    | false =>
      rw [hempty] at h
      cases h
      obtain rfl : key = ⟨s3Prefix ++ name⟩ := Key.strip_eq_some_iff.1 hrest
      refine ⟨rfl, fun hnil => ?_⟩
      rw [hnil] at hempty
      cases hempty
  · rintro ⟨heq, hne⟩
    cases heq
    refine ⟨name, Key.strip_eq_some_iff.2 rfl, ?_⟩
    rw [if_neg (by simpa using hne)]

/-- The job has the objects whose keys go on after the slash. -/
theorem mem_jobObjects {name : Bytes} {o : S3Object} :
    (name, o) ∈ jobObjects b filesPrefix ↔
      b.get ⟨s3Prefix filesPrefix ++ name⟩ = some o ∧ name ≠ [] := by
  unfold jobObjects
  rw [List.mem_filterMap, Bucket.get_eq_some_iff]
  constructor
  · rintro ⟨x, hx, hname⟩
    obtain ⟨rfl, hne⟩ := named_eq_some_iff.1 hname
    exact ⟨(Bucket.mem_list.1 hx).1, hne⟩
  · rintro ⟨hmem, hne⟩
    refine ⟨_, Bucket.mem_list.2 ⟨hmem, ?_, fun k hk => (by cases hk)⟩,
      named_eq_some_iff.2 ⟨rfl, hne⟩⟩
    exact List.isPrefixOf_iff_prefix.2 (List.prefix_append _ _)

theorem jobObjects_sublist (b : S3Bucket) (filesPrefix : Bytes) :
    ((jobObjects b filesPrefix).map fun x => x.2.body.length).Sublist
      (b.objects.map fun x => x.2.body.length) := by
  unfold jobObjects
  have hlist : (b.list (Key.startsWith (s3Prefix filesPrefix)) none).Sublist b.objects :=
    List.filter_sublist
  refine List.Sublist.trans ?_ (hlist.map fun x => x.2.body.length)
  generalize b.list (Key.startsWith (s3Prefix filesPrefix)) none = xs
  induction xs with
  | nil => exact .slnil
  | cons x xs ih =>
    rw [List.filterMap_cons]
    cases hx : named (s3Prefix filesPrefix) x with
    | none => exact ih.cons _
    | some y =>
      obtain ⟨rfl, _⟩ := named_eq_some_iff.1 hx
      exact ih.cons_cons _

namespace Bounded

variable (h : Bounded b)

include h

theorem length_jobObjects (filesPrefix : Bytes) : (jobObjects b filesPrefix).length ≤ 2 ^ 32 := by
  have hle := (jobObjects_sublist b filesPrefix).length_le
  rw [List.length_map, List.length_map] at hle
  exact hle.trans h.count

theorem sum_jobObjects (filesPrefix : Bytes) :
    ((jobObjects b filesPrefix).map fun x => x.2.body.length).sum < 2 ^ 63 :=
  Nat.lt_of_le_of_lt ((jobObjects_sublist b filesPrefix).sum_le_sum fun _ _ => Nat.zero_le _)
    h.total

theorem length_jobName {name : Bytes} {o : S3Object} (ho : (name, o) ∈ jobObjects b filesPrefix) :
    name.length ≤ 1024 := by
  have hkey := h.keys _ (Bucket.get_eq_some_iff.1 (mem_jobObjects.1 ho).1)
  dsimp only at hkey
  rw [List.length_append] at hkey
  omega

end Bounded

theorem toNat_summary (o : S3Object) :
    (Int64.ofNat o.body.length).toUInt64.toNat = o.body.length := by
  have hlt := o.length_lt
  show (UInt64.ofNat o.body.length).toNat = o.body.length
  rw [UInt64.toNat_ofNat']
  omega

/-! ## Folding over the pages -/

variable {σ ε : Type} {step : σ → ObjectSummary → σ}

theorem foldPages_ok (pages : List (Page Key S3Object)) (st : σ) :
    foldPages step st (pages.map fun p =>
      (.ok (p.contents.map S3Object.summary) : Except ε (List ObjectSummary))) =
      .ok (((pages.flatMap Page.contents).map S3Object.summary).foldl step st) := by
  induction pages generalizing st with
  | nil => rfl
  | cons p pages ih =>
    rw [List.map_cons, foldPages, ih, List.flatMap_cons, List.map_append, List.foldl_append]

theorem foldPages_error (pages : List (Page Key S3Object)) (e : ε) (st : σ) :
    foldPages step st (pages.map (fun p =>
      (.ok (p.contents.map S3Object.summary) : Except ε (List ObjectSummary))) ++ [.error e]) =
      .error e := by
  induction pages generalizing st with
  | nil => rfl
  | cons p pages ih =>
    rw [List.map_cons, List.cons_append, foldPages]
    exact ih _

theorem foldl_listNamed (add : σ → Bytes → Key → Nat → σ) (s3Prefix : Bytes)
    (xs : List (Key × S3Object)) (st : σ) :
    (xs.map S3Object.summary).foldl (listNamed add s3Prefix) st =
      (xs.filterMap (named s3Prefix)).foldl
        (fun st x => add st x.1 ⟨s3Prefix ++ x.1⟩ x.2.body.length) st := by
  induction xs generalizing st with
  | nil => rfl
  | cons x xs ih =>
    rw [List.map_cons, List.foldl_cons, List.filterMap_cons, ih]
    cases hx : named s3Prefix x with
    | some y =>
      obtain ⟨name, o⟩ := y
      obtain ⟨rfl, hne⟩ := named_eq_some_iff.1 hx
      have hstep : listNamed add s3Prefix st (S3Object.summary (⟨s3Prefix ++ name⟩, o)) =
          add st name ⟨s3Prefix ++ name⟩ o.body.length := by
        unfold listNamed S3Object.summary
        dsimp only
        rw [if_neg (by simpa using hne), Key.strip_eq_some_iff.2 rfl]
        dsimp only
        rw [if_neg (by simpa using hne), toNat_summary]
      rw [hstep]
      rfl
    | none =>
      have hstep : listNamed add s3Prefix st (S3Object.summary x) = st := by
        unfold listNamed S3Object.summary
        dsimp only
        split
        · rfl
        · cases hstrip : x.1.strip s3Prefix with
          | none => rfl
          | some name =>
            unfold named at hx
            rw [hstrip] at hx
            cases hempty : name.isEmpty with
            | true => simp [hempty]
            | false =>
              rw [Option.bind_some, hempty] at hx
              cases hx
      rw [hstep]

/-- Whatever the pages are, a lister that ends well has seen what lies below the prefix, in key
order. -/
theorem foldPages_list {replies : List (Except ε (List ObjectSummary))} {st st' : σ}
    (h : RepliesTo b filesPrefix replies) (hok : foldPages step st replies = .ok st') :
    st' = ((b.list (Key.startsWith (s3Prefix filesPrefix)) none).map S3Object.summary).foldl
      step st := by
  obtain ⟨pages, hpages, rfl | ⟨n, e, rfl⟩⟩ := h
  · rw [foldPages_ok, hpages.contents_eq] at hok
    exact (Except.ok.inj hok).symm
  · rw [foldPages_error] at hok
    cases hok

/-- Whatever the pages are, a lister that ends well has added the objects of the job. -/
theorem foldPages_bucket {add : σ → Bytes → Key → Nat → σ}
    {replies : List (Except ε (List ObjectSummary))} {st st' : σ}
    (h : RepliesTo b filesPrefix replies)
    (hok : foldPages (listNamed add (s3Prefix filesPrefix)) st replies = .ok st') :
    st' = (jobObjects b filesPrefix).foldl
      (fun st x => add st x.1 ⟨s3Prefix filesPrefix ++ x.1⟩ x.2.body.length) st := by
  rw [foldPages_list h hok, foldl_listNamed]
  rfl

end

end S3Archive
