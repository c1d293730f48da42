import S3Archive.Base.Base64
import S3Archive.JNicholson.Job
import S3Archive.JNicholson.RawS3
import Mathlib.Data.List.DropRight

/-!
# j-nicholson98: the handler

`handler` lists the keys below the prefix (`listKeys`) and archives them.
`HandlerRun` is an invocation that returns, with what it has put at the archive's
key. Whatever the pages and the order of the workers' steps, that is an archive of
the listed objects, each once, and `handler_readsBack` says when it can be read.
-/

namespace S3Archive.JNicholson

open Bucket (Page)

/-! ## The lister -/

/-- `files_prefix.rstrip("/")`. -/
def rstripSlash (filesPrefix : String) : String :=
  String.ofList (filesPrefix.toList.rdropWhile (· = '/'))

/-- `k and not k.endswith("/")`. -/
def listed (k : String) : Bool := k ≠ "" ∧ k.toList.getLast? ≠ some '/'

/-- The text of a key, if it is to be archived. -/
def keyText (key : Key) : Option String := (fromUtf8 key.bytes).filter listed

def listKey (keys : List String) (obj : ObjectSummary) : List String :=
  keys ++ (obj.key.bind keyText).toList

def listKeys (pages : List (Except S3Error (List ObjectSummary))) :
    Except S3Error (List String) :=
  foldPages listKey [] pages

/-! ## Jobs -/

/-- The objects' bodies. -/
def objectBytes (b : S3Bucket) (key : String) : Bytes :=
  ((b.get ⟨utf8 key⟩).map S3Object.body).getD []

/-- The keys of a job, in key order. -/
def jobKeys (b : S3Bucket) (filesPrefix : String) : List String :=
  (b.list (Key.startsWith (s3Prefix (utf8 (rstripSlash filesPrefix)))) none).filterMap fun x =>
    keyText x.1

/-- What the archive of a job should hold. -/
def jobItems (crc32 : Bytes → UInt32) (b : S3Bucket) (filesPrefix : String) : List Item :=
  (jobKeys b filesPrefix).map (itemOf crc32 (objectBytes b))

/-- A handler that returns, and the object that its upload makes. -/
inductive HandlerRun (crc32 : Bytes → UInt32) (b : S3Bucket) (cfg : Config) (filesPrefix : String) :
    Bytes → Prop
  | returned {replies : List (Except S3Error (List ObjectSummary))} {keys : List String}
      {evs : List ArchiveEvent} {s : ArchiveState} {parts : List (Nat × Bytes)}
      (hreplies : RepliesTo b (utf8 (rstripSlash filesPrefix)) replies)
      (hlist : listKeys replies = .ok keys)
      (hrun : JobRun crc32 (objectBytes b) cfg.queueDepth keys.length (.start cfg keys) evs s)
      (hphase : s.phase = .returned) (hupload : s.upload = .completed parts) :
    HandlerRun crc32 b cfg filesPrefix (completeUpload parts)

section

variable {crc32 : Bytes → UInt32} {b : S3Bucket} {cfg : Config} {filesPrefix : String}
  {archive : Bytes}

theorem foldl_listKey (xs : List (Key × S3Object)) (keys : List String) :
    (xs.map S3Object.summary).foldl listKey keys = keys ++ xs.filterMap fun x => keyText x.1 := by
  induction xs generalizing keys with
  | nil => exact (List.append_nil keys).symm
  | cons x xs ih =>
    rw [List.map_cons, List.foldl_cons, ih, List.filterMap_cons]
    unfold listKey S3Object.summary
    dsimp only
    rw [Option.bind_some]
    cases keyText x.1 with
    | none => simp
    | some k => simp

/-- Whatever the pages are, a listing that ends well has the keys of the job. -/
theorem listKeys_bucket {replies : List (Except S3Error (List ObjectSummary))} {keys : List String}
    (h : RepliesTo b (utf8 (rstripSlash filesPrefix)) replies)
    (hkeys : listKeys replies = .ok keys) : keys = jobKeys b filesPrefix := by
  rw [foldPages_list h hkeys, foldl_listKey]
  rfl

theorem keyText_eq_some_iff {key : Key} {k : String} :
    keyText key = some k ↔ key = ⟨utf8 k⟩ ∧ listed k := by
  unfold keyText
  rw [Option.filter_eq_some_iff, fromUtf8_eq_some_iff]
  obtain ⟨bytes⟩ := key
  rw [Key.mk.injEq]

/-- The keys of a job are those below the prefix that do not end in a slash. -/
theorem mem_jobKeys {k : String} : k ∈ jobKeys b filesPrefix ↔
    (b.get ⟨utf8 k⟩).isSome ∧ (s3Prefix (utf8 (rstripSlash filesPrefix))).isPrefixOf (utf8 k) ∧
      listed k := by
  unfold jobKeys
  rw [List.mem_filterMap, Option.isSome_iff_exists]
  constructor
  · rintro ⟨x, hx, hkey⟩
    obtain ⟨hmem, hunder, _⟩ := Bucket.mem_list.1 hx
    obtain ⟨heq, hlisted⟩ := keyText_eq_some_iff.1 hkey
    rw [heq] at hunder
    refine ⟨⟨x.2, Bucket.get_eq_some_iff.2 ?_⟩, hunder, hlisted⟩
    rwa [← heq]
  · rintro ⟨⟨o, ho⟩, hunder, hlisted⟩
    refine ⟨(⟨utf8 k⟩, o), Bucket.mem_list.2 ⟨Bucket.get_eq_some_iff.1 ho, hunder, ?_⟩,
      keyText_eq_some_iff.2 ⟨rfl, hlisted⟩⟩
    exact fun k hk => (by cases hk)

theorem nodup_jobKeys (b : S3Bucket) (filesPrefix : String) : (jobKeys b filesPrefix).Nodup := by
  have hlist : (b.list (Key.startsWith (s3Prefix (utf8 (rstripSlash filesPrefix)))) none).Pairwise
      fun x y => x.1 < y.1 := b.sorted.sublist List.filter_sublist
  unfold jobKeys
  refine (List.Pairwise.filterMap _ ?_ hlist)
  intro x y hlt k hk k' hk' heq
  obtain ⟨hx, _⟩ := keyText_eq_some_iff.1 hk
  obtain ⟨hy, _⟩ := keyText_eq_some_iff.1 hk'
  rw [hx, hy, heq] at hlt
  exact lt_irrefl _ hlt

/-- An archive that is left is read back exactly when no size is lost. -/
theorem HandlerRun.reads (h : HandlerRun crc32 b cfg filesPrefix archive) (hP : 1 ≤ cfg.partSize) :
    ∃ items, items.Perm (jobItems crc32 b filesPrefix) ∧
      (Zip.readArchive archive = some (expected items) ↔
        ¬ ∃ q ∈ placed items, q.2.body.length = u32Max ∧ u32Max < q.1) := by
  cases h with
  | @returned replies keys evs s parts hreplies hlist hrun hphase hupload =>
    obtain rfl := listKeys_bucket hreplies hlist
    obtain ⟨_, hinv⟩ := hrun.inv
    obtain ⟨parts', hparts, hassemble⟩ := hinv.upload hphase
    obtain rfl : parts' = parts := by
      rw [hupload] at hparts
      exact (Upload.completed.inj hparts).symm
    obtain ⟨hfits, hlen, hchunks, hnumbers, _⟩ := assemble_eq_some hP hassemble
    refine ⟨s.writtenItems, hinv.done (.inr hphase), ?_⟩
    have hnum : NumberedFrom Prod.fst 1 parts' := hnumbers
    rw [completeUpload_of_perm hnum (.refl _), hchunks.flatten_eq, ← storedEntries_map]
    constructor
    · intro hread hex
      rw [readArchive_stream_none (fits_map hfits) hlen (lost_iff.2 hex)] at hread
      cases hread
    · intro hok
      exact readArchive_stream (fits_map hfits) hlen fun q hq hlost =>
        hok (lost_iff.1 ⟨q, hq, hlost⟩)

/-! ## Flat prefixes -/

/-- The names below the prefix have no slash. -/
def Flat (b : S3Bucket) (filesPrefix : String) : Prop :=
  ∀ x ∈ jobObjects b (utf8 (rstripSlash filesPrefix)), ∃ n : String, x.1 = utf8 n ∧ '/' ∉ n.toList

theorem baseName_append (pre n : String) (h : '/' ∉ n.toList) : baseName (pre ++ "/" ++ n) = n := by
  have hn : ∀ c ∈ n.toList.reverse, decide (c ≠ '/') = true := by
    intro c hc
    rw [decide_eq_true_eq]
    rintro rfl
    exact h (List.mem_reverse.1 hc)
  unfold baseName
  rw [String.toList_append, List.reverse_append, List.takeWhile_append_of_pos hn,
    String.toList_append, List.reverse_append]
  simp

theorem listed_append (pre : String) {n : String} (hne : n ≠ "") (h : '/' ∉ n.toList) :
    listed (pre ++ "/" ++ n) = true := by
  have hlist : n.toList ≠ [] := fun hnil => hne (String.toList_inj.1 hnil)
  unfold listed
  rw [String.toList_append, List.getLast?_append_of_ne_nil _ hlist, decide_eq_true_eq]
  refine ⟨fun hnil => hne ?_, fun hlast => h (List.mem_of_getLast? hlast)⟩
  have hlen := congrArg (fun s : String => s.toList) hnil
  simp at hlen

theorem listed_slash (pre : String) : listed (pre ++ "/") = false := by
  unfold listed
  simp

/-- The object at the prefix itself is passed over. -/
theorem keyText_prefix (pre : String) : keyText ⟨s3Prefix (utf8 pre)⟩ = none := by
  refine Option.eq_none_iff_forall_ne_some.2 fun k hk => ?_
  obtain ⟨hkey, hlisted⟩ := keyText_eq_some_iff.1 hk
  rw [Key.mk.injEq, s3Prefix, ← utf8_append] at hkey
  rw [← utf8_injective hkey, listed_slash] at hlisted
  cases hlisted

theorem utf8_key (pre n : String) : s3Prefix (utf8 pre) ++ utf8 n = utf8 (pre ++ "/" ++ n) := by
  rw [utf8_append, utf8_append]
  rfl

theorem keyText_append (pre : String) {n : String} (hne : n ≠ "") (h : '/' ∉ n.toList) :
    keyText ⟨s3Prefix (utf8 pre) ++ utf8 n⟩ = some (pre ++ "/" ++ n) := by
  rw [utf8_key]
  exact keyText_eq_some_iff.2 ⟨rfl, listed_append pre hne h⟩

/-- What is archived of an object below a flat prefix. -/
theorem keyText_item (hflat : Flat b filesPrefix) {x : Key × S3Object}
    (hx : x ∈ b.list (Key.startsWith (s3Prefix (utf8 (rstripSlash filesPrefix)))) none) :
    (keyText x.1).map (fun k => (utf8 (baseName k), objectBytes b k)) =
      (named (s3Prefix (utf8 (rstripSlash filesPrefix))) x).map fun y => (y.1, y.2.body) := by
  have hjob (y : Bytes × S3Object)
      (hy : named (s3Prefix (utf8 (rstripSlash filesPrefix))) x = some y) :
      y ∈ jobObjects b (utf8 (rstripSlash filesPrefix)) := List.mem_filterMap.2 ⟨x, hx, hy⟩
  obtain ⟨⟨bytes⟩, o⟩ := x
  obtain ⟨_, hunder, _⟩ := Bucket.mem_list.1 hx
  obtain ⟨name, rfl⟩ := List.isPrefixOf_iff_prefix.1 hunder
  cases hname : named (s3Prefix (utf8 (rstripSlash filesPrefix)))
      (⟨s3Prefix (utf8 (rstripSlash filesPrefix)) ++ name⟩, o) with
  | none =>
    have hnil : name = [] := by
      by_contra hne
      rw [named_eq_some_iff.2 ⟨rfl, hne⟩] at hname
      cases hname
    rw [hnil, List.append_nil, keyText_prefix]
    rfl
  | some y =>
    obtain ⟨n, hn, hslash⟩ := hflat _ (hjob y hname)
    obtain ⟨hget, hne⟩ := mem_jobObjects.1 (hjob y hname)
    obtain ⟨heq, _⟩ := named_eq_some_iff.1 hname
    obtain ⟨hkey, _⟩ := Prod.mk.inj heq
    have hn' : n ≠ "" := fun h => hne (by rw [hn, h]; rfl)
    rw [hkey, hn, keyText_append _ hn' hslash]
    rw [hn, utf8_key] at hget
    rw [Option.map_some, Option.map_some, baseName_append _ _ hslash, objectBytes, hget, hn]
    rfl

theorem jobItems_flat (hflat : Flat b filesPrefix) :
    (jobItems crc32 b filesPrefix).map (fun item => (utf8 item.name, item.body)) =
      (jobObjects b (utf8 (rstripSlash filesPrefix))).map fun x => (x.1, x.2.body) := by
  unfold jobItems jobKeys jobObjects
  rw [List.map_map, List.map_filterMap, List.map_filterMap]
  exact List.filterMap_congr fun x hx => keyText_item hflat hx

/-- Of a flat prefix the archive holds what the other engines' archives hold. -/
theorem HandlerRun.entries (h : HandlerRun crc32 b cfg filesPrefix archive) (hP : 1 ≤ cfg.partSize)
    (hflat : Flat b filesPrefix)
    (hsmall : ∀ x ∈ jobObjects b (utf8 (rstripSlash filesPrefix)), x.2.body.length < u32Max) :
    ∃ es, Zip.readArchive archive = some es ∧ (es.map fun e => (e.1.name, e.2.2)).Perm
      ((jobObjects b (utf8 (rstripSlash filesPrefix))).map fun x => (x.1, x.2.body)) := by
  obtain ⟨items, hperm, hread⟩ := h.reads hP
  have hitems := hperm.map fun item => (utf8 item.name, item.body)
  rw [jobItems_flat hflat] at hitems
  refine ⟨_, hread.2 ?_, ?_⟩
  · rintro ⟨q, hq, hlen, _⟩
    have hmem := List.mem_map_of_mem (f := fun item : Item => (utf8 item.name, item.body))
      (snd_mem_of_mem_offsetsFrom _ hq)
    obtain ⟨x, hx, heq⟩ := List.mem_map.1 (hitems.subset hmem)
    have hlt := hsmall x hx
    rw [(Prod.mk.inj heq).2, hlen] at hlt
    exact absurd hlt (lt_irrefl _)
  · unfold expected
    rw [List.map_map]
    have hsnd : (placed items).map Prod.snd = items := map_snd_offsetsFrom _ _ _
    have hnames : (placed items).map ((fun e : Zip.CentralEntry × Zip.LocalEntry × Bytes =>
        (e.1.name, e.2.2)) ∘ fun q => (⟨utf8 q.2.name, q.2.crc.toNat, q.2.body.length,
          q.2.body.length, q.1⟩, ⟨utf8 q.2.name, q.2.crc.toNat, q.2.body.length,
          q.2.body.length⟩, q.2.body)) =
        ((placed items).map Prod.snd).map fun item => (utf8 item.name, item.body) := by
      rw [List.map_map]
      rfl
    rw [hnames, hsnd]
    exact hitems

end

theorem length_threeBytes : ([1, 2, 3] : Bytes).length < 2 ^ 63 := by decide

theorem length_twoBytes : ([4, 5] : Bytes).length < 2 ^ 63 := by decide

def emptyObject : S3Object := ⟨[], none, Nat.two_pow_pos 63⟩

def objectA : S3Object := ⟨[1, 2, 3], none, length_threeBytes⟩

def objectB : S3Object := ⟨[4, 5], none, length_twoBytes⟩

/-- Two objects and a folder below `p/`. -/
def twoBucket : S3Bucket :=
  ((Bucket.empty.put ⟨utf8 "p/a"⟩ objectA).put ⟨utf8 "p/b"⟩ objectB).put ⟨utf8 "p/c/"⟩ emptyObject

/-- They are listed on two pages. -/
def twoReplies : List (Except S3Error (List ObjectSummary)) :=
  [.ok [S3Object.summary (⟨utf8 "p/a"⟩, objectA), S3Object.summary (⟨utf8 "p/b"⟩, objectB)],
    .ok [S3Object.summary (⟨utf8 "p/c/"⟩, emptyObject)]]

/-- Two workers share a slab, and the second object is written first. -/
theorem run_twoBucket : ∃ evs s parts, JobRun crcOfTwo (objectBytes twoBucket) 1 2
    (.start ⟨2, 1, 1, 4, 64⟩ ["p/a", "p/b"]) evs s ∧ s.phase = .returned ∧
      s.upload = .completed parts ∧ 1 < parts.length := by
  have ha : makeEntry crcOfTwo "p/a" 0 (.view 3) [1, 2, 3] = some (slabEntry "p/a" [1, 2, 3]) := by
    decide +kernel
  have hb : makeEntry crcOfTwo "p/b" 0 (.view 2) [4, 5] = some (slabEntry "p/b" [4, 5]) := by
    decide +kernel
  have h₁ := (@Run.refl _ _ (JobStep crcOfTwo (objectBytes twoBucket) 1 2)
    (.start ⟨2, 1, 1, 4, 64⟩ ["p/a", "p/b"])).step (.assembler (by decide) (.opened rfl))
  have h₂ := h₁.step (@JobStep.worker _ _ _ _ _ _ _ _ [] [_] rfl (.take rfl) (by simp))
  have h₃ := h₂.step (@JobStep.worker _ _ _ _ _ _ _ _ [_] [] rfl (.take rfl) (by simp))
  have h₄ := h₃.step (@JobStep.worker _ _ _ _ _ _ _ _ [_] [] rfl (.borrow rfl) (by simp))
  have h₅ := h₄.step (@JobStep.worker _ _ _ _ _ _ _ _ [_] [] rfl
    (@WorkerStep.readInto _ _ _ _ _ 0 [4, 5] (by decide)) (by simp))
  have h₆ := h₅.step (@JobStep.worker _ _ _ _ _ _ _ _ [_] [] rfl (.filled (by decide) hb) (by
    rintro key slab e ⟨⟩ ⟨⟩
    rfl))
  have h₇ := h₆.step (@JobStep.worker _ _ _ _ _ _ _ _ [_] [] rfl (.put (by decide)) (by simp))
  have h₈ := h₇.step (.assembler (by decide) (.getEntry rfl rfl))
  have h₉ := h₈.step (.assembler (by decide) (.written rfl rfl))
  -- the slab again
  have h₁₀ := h₉.step (@JobStep.worker _ _ _ _ _ _ _ _ [] [_] rfl (.borrow rfl) (by simp))
  have h₁₁ := h₁₀.step (@JobStep.worker _ _ _ _ _ _ _ _ [] [_] rfl
    (@WorkerStep.readInto _ _ _ _ _ 0 [1, 2, 3] (by decide)) (by simp))
  have h₁₂ := h₁₁.step (@JobStep.worker _ _ _ _ _ _ _ _ [] [_] rfl (.filled (by decide) ha) (by
    rintro key slab e ⟨⟩ ⟨⟩
    rfl))
  have h₁₃ := h₁₂.step (@JobStep.worker _ _ _ _ _ _ _ _ [] [_] rfl (.put (by decide)) (by simp))
  have h₁₄ := h₁₃.step (.assembler (by decide) (.getEntry rfl rfl))
  have h₁₅ := h₁₄.step (.assembler (by decide) (.written rfl rfl))
  have h₁₆ := h₁₅.step (.assembler (by decide) (.loopEnd rfl))
  have h₁₇ := h₁₆.step (.assembler (by decide) (.completed rfl rfl))
  exact ⟨_, _, _, h₁₇, rfl, rfl, by decide +kernel⟩

theorem repliesTo_twoBucket : RepliesTo twoBucket (utf8 (rstripSlash "p//")) twoReplies :=
  ⟨_, .more (show 0 < 2 by decide) rfl (.last Nat.one_pos rfl), .inl rfl⟩

end S3Archive.JNicholson
