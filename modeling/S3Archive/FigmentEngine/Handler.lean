import Mathlib.Algebra.Order.BigOperators.Group.List
import S3Archive.FigmentEngine.AssembleProgress
import S3Archive.FigmentEngine.Reading
import S3Archive.FigmentEngine.StreamFallback

/-!
# figment-engine: a whole job

`HandlerRun` is a job from the listing of the bucket to the archive at its key,
over the fast path or the streaming fallback. Whatever the pages, the replies and
their order, what it leaves at the key holds every object below the prefix once,
and it reads back exactly when its sizes fit their fields (`handlerRun_readsBack`).
-/

namespace S3Archive.FigmentEngine

open SourceFile (entrySize)

/-! ## The job's source -/

def objectAt (b : S3Bucket) (filesPrefix name : Bytes) : Option S3Object :=
  b.get ⟨s3Prefix filesPrefix ++ name⟩

/-- The objects below the prefix, by entry name. -/
def jobStore (b : S3Bucket) (filesPrefix : Bytes) : ObjectStore where
  body name := ((objectAt b filesPrefix name).map S3Object.body).getD []
  checksumCrc32 name := (objectAt b filesPrefix name).bind S3Object.checksumCrc32

/-- The same bodies with their own checksums. -/
def jobSource (crc32 : Bytes → UInt32) (b : S3Bucket) (filesPrefix : Bytes) : Source where
  body := (jobStore b filesPrefix).body
  crc32 name := crc32 ((jobStore b filesPrefix).body name)

/-- The store keeps the checksums of the bodies. -/
structure Storable (crc32 : Bytes → UInt32) (b : S3Bucket) : Prop extends Bounded b where
  checksums : ∀ x ∈ b.objects, x.2.checksumCrc32.bind decodeS3Crc32 = some (crc32 x.2.body)

/-! ## Jobs -/

/-- A job: its result, and what it has put at the archive's key. -/
inductive HandlerRun (crc32 : Bytes → UInt32) (b : S3Bucket) (filesPrefix : Bytes) :
    Except RequestError Unit → Option Bytes → Prop
  | listingFails {replies : List (Except RequestError (List ObjectSummary))} {e : RequestError}
      (hreplies : RepliesTo b filesPrefix replies)
      (hlist : listSourceFiles filesPrefix replies = .error e) :
    HandlerRun crc32 b filesPrefix (.error e) none
  | single {replies : List (Except RequestError (List ObjectSummary))} {files : List SourceFile}
      {plan : SinglePlan} {evs : List AssembleEvent} {s : AssembleState}
      {result : Except RequestError Unit} (hreplies : RepliesTo b filesPrefix replies)
      (hlist : listSourceFiles filesPrefix replies = .ok files)
      (hplan : planSingleMpu files = .singleMpu plan)
      (hrun : AssembleRun (jobStore b filesPrefix) plan (.start plan) evs s)
      (hended : s.phase = .ended result) :
    HandlerRun crc32 b filesPrefix result s.object
  | fallback {replies : List (Except RequestError (List ObjectSummary))} {files : List SourceFile}
      {r : StreamFallback.Replies} (hreplies : RepliesTo b filesPrefix replies)
      (hlist : listSourceFiles filesPrefix replies = .ok files)
      (hplan : planSingleMpu files = .fallback) (hpages : RepliesTo b filesPrefix r.pages)
      (hget : ∀ name body, r.getBytes name = .ok body →
        (objectAt b filesPrefix name).map S3Object.body = some body) :
    HandlerRun crc32 b filesPrefix ((StreamFallback.run crc32 filesPrefix r).map fun _ => ())
      (StreamFallback.run crc32 filesPrefix r).toOption

/-! ## The files of a job -/

section

variable {crc32 : Bytes → UInt32} {b : S3Bucket} {filesPrefix : Bytes}

theorem objectAt_of_mem {f : SourceFile} (hf : f ∈ jobFiles b filesPrefix) :
    ∃ o, objectAt b filesPrefix f.name = some o ∧ f.size = o.body.length := by
  obtain ⟨o, ho, hsize⟩ := mem_numberFrom hf
  exact ⟨o, (mem_jobObjects.1 ho).1, hsize⟩

theorem sizesListed_jobStore : SizesListed (jobStore b filesPrefix).source
    (jobFiles b filesPrefix) := by
  intro f hf
  obtain ⟨o, ho, hsize⟩ := objectAt_of_mem hf
  show (((objectAt b filesPrefix f.name).map S3Object.body).getD []).length = f.size
  rw [ho, hsize]
  rfl

theorem map_size_numberFrom (id : UInt32) (xs : List (Bytes × S3Object)) :
    (numberFrom id xs).map SourceFile.size = xs.map fun x => x.2.body.length := by
  induction xs generalizing id with
  | nil => rfl
  | cons x xs ih => exact congrArg (List.cons _) (ih _)

namespace Storable

variable (h : Storable crc32 b)

include h

theorem length_jobFiles (filesPrefix : Bytes) :
    (jobFiles b filesPrefix).length ≤ 2 ^ 32 := by
  unfold jobFiles
  rw [length_numberFrom]
  exact h.length_jobObjects filesPrefix

theorem nodup_ids (filesPrefix : Bytes) :
    ((jobFiles b filesPrefix).map SourceFile.id).Nodup := by
  have hlen := h.length_jobFiles filesPrefix
  unfold jobFiles at hlen ⊢
  rw [length_numberFrom] at hlen
  exact FigmentEngine.nodup_ids hlen

theorem length_name {f : SourceFile} (hf : f ∈ jobFiles b filesPrefix) :
    f.name.length ≤ 1024 := by
  obtain ⟨o, ho, _⟩ := mem_numberFrom hf
  exact h.length_jobName ho

theorem total_lt {order : List SourceFile} (hperm : order.Perm (jobFiles b filesPrefix)) :
    bodySize order + directorySize order < 2 ^ 64 := by
  have hsizes : (order.map SourceFile.size).sum < 2 ^ 63 := by
    rw [(hperm.map SourceFile.size).sum_eq]
    unfold jobFiles
    rw [map_size_numberFrom]
    exact h.sum_jobObjects filesPrefix
  have hlen : order.length ≤ 2 ^ 32 := hperm.length_eq ▸ h.length_jobFiles filesPrefix
  have hnames : ∀ f ∈ order, f.name.length ≤ 1024 := fun f hf => h.length_name (hperm.subset hf)
  -- a file adds its size and at most 1054 and 1082 bytes of headers
  have hbody : bodySize order ≤ (order.map SourceFile.size).sum + 1054 * order.length := by
    unfold bodySize
    clear hsizes hlen hperm
    induction order with
    | nil => exact Nat.zero_le _
    | cons f order ih =>
      have hname := hnames f List.mem_cons_self
      have hrest := ih fun g hg => hnames g (List.mem_cons_of_mem _ hg)
      rw [List.map_cons, List.map_cons, List.sum_cons, List.sum_cons, List.length_cons]
      have hsize : f.entrySize = 30 + f.name.length + f.size := rfl
      omega
  have hdir : directorySize order ≤ 1082 * order.length := by
    unfold directorySize
    rw [← length_offsetsFrom entrySize 0 order]
    refine (List.sum_le_card_nsmul _ 1082 fun n hn => ?_).trans (Nat.le_of_eq ?_)
    · obtain ⟨p, hp, rfl⟩ := List.mem_map.1 hn
      have hname := hnames p.2 (mem_of_mem_placed hp)
      unfold centralDirEntryLen
      dsimp only
      split <;> omega
    · rw [List.length_map, nsmul_eq_mul, Nat.mul_comm]
      rfl
  omega

theorem crc32_eq {f : SourceFile} (hf : f ∈ jobFiles b filesPrefix) :
    (jobStore b filesPrefix).source.crc32 f.name =
      (jobSource crc32 b filesPrefix).crc32 f.name := by
  obtain ⟨o, ho, _⟩ := objectAt_of_mem hf
  have hcrc := h.checksums _ (Bucket.get_eq_some_iff.1 ho)
  unfold ObjectStore.source jobSource jobStore
  dsimp only
  rw [ho]
  exact congrArg (Option.getD · 0) hcrc

end Storable

/-! ## Reading back -/

/-- What is read of a job are the names and the bodies of its objects. -/
theorem entriesRead_perm {order : List SourceFile} (h : order.Perm (jobFiles b filesPrefix)) :
    ((entriesRead (jobSource crc32 b filesPrefix) order).map fun e => (e.1.name, e.2.2)).Perm
      ((jobObjects b filesPrefix).map fun x => (x.1, x.2.body)) := by
  have hread : (entriesRead (jobSource crc32 b filesPrefix) order).map
      (fun e => (e.1.name, e.2.2)) =
        order.map fun f => (f.name, (jobStore b filesPrefix).body f.name) := by
    conv_rhs => rw [← map_snd_offsetsFrom entrySize 0 order]
    unfold entriesRead placed
    rw [List.map_map, List.map_map]
    rfl
  rw [hread]
  refine (h.map _).trans (.of_eq ?_)
  have hnames : (jobFiles b filesPrefix).map
      (fun f => (f.name, (jobStore b filesPrefix).body f.name)) =
        (jobObjects b filesPrefix).map fun x => (x.1, (jobStore b filesPrefix).body x.1) := by
    have hmap := congrArg (List.map fun name => (name, (jobStore b filesPrefix).body name))
      (map_name_numberFrom 0 (jobObjects b filesPrefix))
    rwa [List.map_map, List.map_map] at hmap
  rw [hnames]
  refine List.map_congr_left fun x hx => ?_
  have hobj : objectAt b filesPrefix x.1 = some x.2 := (mem_jobObjects.1 hx).1
  show (x.1, ((objectAt b filesPrefix x.1).map S3Object.body).getD []) = _
  rw [hobj]
  rfl

theorem IsArchive.congr {src src' : Source} {files order : List SourceFile}
    {offsetOf : FileId → Option Nat} {cdOffset cdSize : Nat} {archive : Bytes}
    (h : IsArchive src files order offsetOf cdOffset cdSize archive)
    (hsrc : ∀ f ∈ files, src.body f.name = src'.body f.name ∧ src.crc32 f.name = src'.crc32 f.name) :
    IsArchive src' files order offsetOf cdOffset cdSize archive := by
  have hmeta : ∀ p ∈ placed order, metaAt src p = metaAt src' p := by
    intro p hp
    unfold metaAt
    rw [(hsrc p.2 (h.each_once.subset (mem_of_mem_placed hp))).2]
  have hfile : ∀ p ∈ placed order, fileBytes src p = fileBytes src' p := by
    intro p hp
    unfold fileBytes
    rw [hmeta p hp, (hsrc p.2 (h.each_once.subset (mem_of_mem_placed hp))).1]
  have hdir : directory src order = directory src' order := by
    unfold directory
    exact List.flatMap_congr fun p hp => congrArg centralDirEntry (hmeta p hp)
  refine ⟨h.each_once, ?_, fun p hp => ?_, hdir ▸ h.directory_actual, hdir ▸ h.directory_size⟩
  · rw [h.layout, hdir, List.flatMap_congr hfile]
  · rw [← hfile p hp]
    exact h.offset_actual p hp

/-- An archive of the job's files is one of their bodies and checksums, and reads back. -/
theorem IsArchive.job_readsBack (hb : Storable crc32 b) {src : Source} {order : List SourceFile}
    {offsetOf : FileId → Option Nat} {archive : Bytes}
    (h : IsArchive src (jobFiles b filesPrefix) order offsetOf (bodySize order)
      (directorySize order) archive)
    (hsrc : ∀ f ∈ jobFiles b filesPrefix,
      src.body f.name = (jobSource crc32 b filesPrefix).body f.name ∧
        src.crc32 f.name = (jobSource crc32 b filesPrefix).crc32 f.name) :
    IsArchive (jobSource crc32 b filesPrefix) (jobFiles b filesPrefix) order offsetOf
        (bodySize order) (directorySize order) archive ∧
      (Zip.readArchive archive = some (entriesRead (jobSource crc32 b filesPrefix) order) ↔
        Readable order) :=
  ⟨h.congr hsrc, (h.congr hsrc).readsBack_iff sizesListed_jobStore
    (fun f hf => (hb.length_name hf).trans (by decide)) (hb.total_lt h.each_once)⟩

/-- Bodies below the limit of the size fields all fit them. -/
theorem readable_jobFiles {order : List SourceFile}
    (hperm : order.Perm (jobFiles b filesPrefix))
    (hsmall : ∀ x ∈ jobObjects b filesPrefix, x.2.body.length < u32Max) : Readable order := by
  intro p hp
  obtain ⟨o, ho, hsize⟩ := mem_numberFrom (hperm.subset (mem_of_mem_placed hp))
  have hlt := hsmall _ ho
  dsimp only at hlt
  exact ⟨by omega, by omega⟩

/-- What a job leaves is an archive of its files, in some order. -/
theorem HandlerRun.archive {result : Except RequestError Unit} {archive : Bytes}
    (hb : Storable crc32 b) (h : HandlerRun crc32 b filesPrefix result (some archive)) :
    ∃ order offsetOf, IsArchive (jobSource crc32 b filesPrefix) (jobFiles b filesPrefix) order
        offsetOf (bodySize order) (directorySize order) archive ∧
      (Zip.readArchive archive = some (entriesRead (jobSource crc32 b filesPrefix) order) ↔
        Readable order) := by
  generalize hobject : some archive = object at h
  cases h with
  | listingFails hreplies hlist => cases hobject
  | single hreplies hlist hplan hrun hended =>
    obtain rfl := listSourceFiles_bucket hreplies hlist
    obtain ⟨p⟩ := planSingleMpu_rounds (hb.nodup_ids _) hplan
    have hinv := assembleInv_of_run p (hb.nodup_ids _) sizesListed_jobStore hrun
    exact ⟨p.files, _, (hinv.object archive hobject.symm).job_readsBack hb
      fun f hf => ⟨rfl, hb.crc32_eq hf⟩⟩
  | @fallback _ _ r hreplies hlist hplan hpages hget =>
    have hrun : StreamFallback.run crc32 filesPrefix r = .ok archive := by
      cases hrun : StreamFallback.run crc32 filesPrefix r with
      | error e =>
        rw [hrun] at hobject
        cases hobject
      | ok archive' =>
        rw [hrun] at hobject
        exact congrArg Except.ok (Option.some.inj hobject).symm
    obtain ⟨files, hfiles, hall⟩ :=
      @StreamFallback.run_archive crc32 r (jobSource crc32 b filesPrefix) _ _ hrun
    obtain rfl := listSourceFiles_bucket hpages hfiles
    have hbodies : ∀ f ∈ jobFiles b filesPrefix, ∀ body, r.getBytes f.name = .ok body →
        body = (jobSource crc32 b filesPrefix).body f.name ∧
          crc32 body = (jobSource crc32 b filesPrefix).crc32 f.name := by
      intro f hf body hbody
      have hbody : body = (jobSource crc32 b filesPrefix).body f.name := by
        show body = ((objectAt b filesPrefix f.name).map S3Object.body).getD []
        rw [hget _ _ hbody]
        rfl
      rw [hbody]
      exact ⟨rfl, rfl⟩
    exact ⟨jobFiles b filesPrefix, _, (hall hbodies sizesListed_jobStore
      (hb.nodup_ids _)).job_readsBack hb fun f hf => ⟨rfl, rfl⟩⟩

/-- A job that succeeds leaves an archive. -/
theorem HandlerRun.isSome {result : Except RequestError Unit} {object : Option Bytes}
    (hb : Storable crc32 b) (h : HandlerRun crc32 b filesPrefix result object)
    (hok : result = .ok ()) : object.isSome = true := by
  cases h with
  | listingFails hreplies hlist => cases hok
  | single hreplies hlist hplan hrun hended =>
    obtain rfl := listSourceFiles_bucket hreplies hlist
    obtain ⟨p⟩ := planSingleMpu_rounds (hb.nodup_ids _) hplan
    exact (assembleInv_of_run p (hb.nodup_ids _) sizesListed_jobStore hrun).ended (hok ▸ hended)
  | @fallback _ _ r hreplies hlist hplan hpages hget =>
    cases hrun : StreamFallback.run crc32 filesPrefix r with
    | ok archive => rfl
    | error e =>
      rw [hrun] at hok
      cases hok

/-- A listing of which every page comes finds the files of the job. -/
theorem listSourceFiles_pages {pages : List (Bucket.Page Key S3Object)}
    (hpages : Bucket.Pages b (Key.startsWith (s3Prefix filesPrefix)) none pages) :
    listSourceFiles filesPrefix (pages.map fun p => .ok (p.contents.map S3Object.summary)) =
      .ok (jobFiles b filesPrefix) := by
  obtain ⟨files, hfiles⟩ : ∃ files, listSourceFiles filesPrefix
      (pages.map fun p => .ok (p.contents.map S3Object.summary)) = .ok files := by
    unfold listSourceFiles
    rw [foldPages_ok]
    exact ⟨_, rfl⟩
  rw [hfiles, listSourceFiles_bucket ⟨pages, hpages, .inl rfl⟩ hfiles]

/-- The fast path can succeed. -/
theorem exists_handlerRun_single (hb : Storable crc32 b)
    {pages : List (Bucket.Page Key S3Object)}
    (hpages : Bucket.Pages b (Key.startsWith (s3Prefix filesPrefix)) none pages)
    {plan : SinglePlan} (hplan : planSingleMpu (jobFiles b filesPrefix) = .singleMpu plan) :
    ∃ archive, HandlerRun crc32 b filesPrefix (.ok ()) (some archive) := by
  have hcrcs : ∀ f ∈ jobFiles b filesPrefix,
      (((jobStore b filesPrefix).checksumCrc32 f.name).bind decodeS3Crc32).isSome = true := by
    intro f hf
    obtain ⟨o, ho, _⟩ := objectAt_of_mem hf
    have hcrc := hb.checksums _ (Bucket.get_eq_some_iff.1 ho)
    unfold jobStore
    dsimp only
    rw [ho, Option.bind_some, hcrc]
    rfl
  obtain ⟨p⟩ := planSingleMpu_rounds (hb.nodup_ids _) hplan
  obtain ⟨evs, s, hrun, hended⟩ :=
    exists_run_ok (hb.nodup_ids filesPrefix) sizesListed_jobStore hcrcs p
  have h : HandlerRun crc32 b filesPrefix (.ok ()) s.object :=
    .single ⟨pages, hpages, .inl rfl⟩ (listSourceFiles_pages hpages) hplan hrun hended
  obtain ⟨archive, harchive⟩ := Option.isSome_iff_exists.1 (h.isSome hb rfl)
  exact ⟨archive, harchive ▸ h⟩

end

/-- A job that succeeds leaves an archive. Whatever a job leaves are the bytes of an archive of the
objects below the prefix, each once, under the rest of its key, with its body; they read back
exactly when their sizes fit their fields. -/
theorem handlerRun_readsBack {crc32 : Bytes → UInt32} {b : S3Bucket} {filesPrefix : Bytes}
    {result : Except RequestError Unit} {object : Option Bytes} (hb : Storable crc32 b)
    (h : HandlerRun crc32 b filesPrefix result object) :
    (result = .ok () → object.isSome = true) ∧
      ∀ archive, object = some archive → ∃ order offsetOf,
        IsArchive (jobSource crc32 b filesPrefix) (jobFiles b filesPrefix) order offsetOf
          (bodySize order) (directorySize order) archive ∧
        (Zip.readArchive archive = some (entriesRead (jobSource crc32 b filesPrefix) order) ↔
          Readable order) ∧
        ((entriesRead (jobSource crc32 b filesPrefix) order).map fun e => (e.1.name, e.2.2)).Perm
          ((jobObjects b filesPrefix).map fun x => (x.1, x.2.body)) := by
  refine ⟨h.isSome hb, ?_⟩
  rintro archive rfl
  obtain ⟨order, offsetOf, harchive, hread⟩ := h.archive hb
  exact ⟨order, offsetOf, harchive, hread, entriesRead_perm harchive.each_once⟩

/-! ## Jobs with several objects -/

/-- The CRC-32 of the bodies here. -/
def crcOf (body : Bytes) : UInt32 :=
  if body = [1, 2, 3] then 0x55BC801D
  else if body = [4, 5] then 0x55DF2374
  else if body = [9] then 0xABDE5729
  else 0x38773417

theorem length_bodyA : ([1, 2, 3] : Bytes).length < 2 ^ 63 := by decide

theorem length_bodyB : ([4, 5] : Bytes).length < 2 ^ 63 := by decide

theorem length_bodyQ : ([9] : Bytes).length < 2 ^ 63 := by decide

def objectA : S3Object := ⟨[1, 2, 3], some "VbyAHQ==", length_bodyA⟩

def objectB : S3Object := ⟨[4, 5], some "Vd8jdA==", length_bodyB⟩

def objectQ : S3Object := ⟨[9], some "q95XKQ==", length_bodyQ⟩

theorem length_zeros : (List.replicate 20971520 (0 : UInt8)).length < 2 ^ 63 := by
  rw [List.length_replicate]
  decide

def objectC : S3Object := ⟨List.replicate 20971520 0, some "OHc0Fw==", length_zeros⟩

def smallBucket : S3Bucket :=
  ((Bucket.empty.put ⟨utf8 "p/a"⟩ objectA).put ⟨utf8 "p/b"⟩ objectB).put ⟨utf8 "q"⟩ objectQ

def largeBucket : S3Bucket := smallBucket.put ⟨utf8 "p/c"⟩ objectC

def smallReplies : StreamFallback.Replies where
  pages := [.ok [S3Object.summary (⟨utf8 "p/a"⟩, objectA)],
    .ok [S3Object.summary (⟨utf8 "p/b"⟩, objectB)]]
  getBytes name :=
    match objectAt smallBucket (utf8 "p") name with
    | some o => .ok o.body
    | none => .error (.s3 "NoSuchKey")
  putObject := .ok ()
  create := .ok ()
  uploadPart _ := .ok ()
  complete := .ok ()

theorem objects_largeBucket : largeBucket.objects = [(⟨utf8 "p/a"⟩, objectA),
    (⟨utf8 "p/b"⟩, objectB), (⟨utf8 "p/c"⟩, objectC), (⟨utf8 "q"⟩, objectQ)] := rfl

theorem length_objectC : objectC.body.length = 20971520 := List.length_replicate

theorem crc32_objectC : crcOf objectC.body = 0x38773417 := by
  have hne (b : UInt8) (bs : Bytes) (hb : b ≠ 0) : objectC.body ≠ b :: bs :=
    fun h => hb (List.cons.inj h).1.symm
  unfold crcOf
  rw [if_neg (hne 1 _ (by decide)), if_neg (hne 4 _ (by decide)), if_neg (hne 9 _ (by decide))]

theorem storable_smallBucket : Storable crcOf smallBucket := by
  refine ⟨⟨by decide, by decide, by decide⟩, fun x hx => ?_⟩
  have hx : x ∈ [((⟨utf8 "p/a"⟩ : Key), objectA), (⟨utf8 "p/b"⟩, objectB), (⟨utf8 "q"⟩, objectQ)] := hx
  simp only [List.mem_cons, List.not_mem_nil, or_false] at hx
  rcases hx with rfl | rfl | rfl <;> decide +kernel

theorem storable_largeBucket : Storable crcOf largeBucket := by
  have hsmall := storable_smallBucket
  refine ⟨⟨fun x hx => ?_, by decide, ?_⟩, fun x hx => ?_⟩
  · rcases Bucket.mem_put.1 hx with rfl | ⟨hx, _⟩
    · decide
    · exact hsmall.keys x hx
  · rw [objects_largeBucket]
    simp only [List.map_cons, List.map_nil, List.sum_cons, List.sum_nil, length_objectC]
    decide
  · rcases Bucket.mem_put.1 hx with rfl | ⟨hx, _⟩
    · show objectC.checksumCrc32.bind decodeS3Crc32 = some (crcOf objectC.body)
      rw [crc32_objectC]
      decide +kernel
    · exact hsmall.checksums x hx

theorem repliesTo_smallBucket : RepliesTo smallBucket (utf8 "p") smallReplies.pages :=
  ⟨_, .more Nat.one_pos rfl (.last Nat.one_pos rfl), .inl rfl⟩

theorem jobFiles_largeBucket : jobFiles largeBucket (utf8 "p") =
    [⟨⟨0⟩, utf8 "a", 3⟩, ⟨⟨1⟩, utf8 "b", 2⟩, ⟨⟨2⟩, utf8 "c", 20971520⟩] := by
  have hobjects : jobObjects largeBucket (utf8 "p") =
      [(utf8 "a", objectA), (utf8 "b", objectB), (utf8 "c", objectC)] := rfl
  unfold jobFiles
  rw [hobjects]
  simp only [numberFrom, length_objectC]
  rfl

theorem small_largeBucket :
    ∀ x ∈ jobObjects largeBucket (utf8 "p"), x.2.body.length < u32Max := by
  intro x hx
  have hx : x ∈ [(utf8 "a", objectA), (utf8 "b", objectB), (utf8 "c", objectC)] := hx
  simp only [List.mem_cons, List.not_mem_nil, or_false] at hx
  rcases hx with rfl | rfl | rfl
  · decide
  · decide
  · rw [length_objectC]
    decide

/-- Two small objects, listed on two pages beside one outside the prefix, which go the way of the
fallback; and the same with an object of 20 MiB, for which there is a plan. -/
theorem handlerRun_readsBack_several :
    (∃ archive, StreamFallback.run crcOf (utf8 "p") smallReplies = .ok archive ∧
      ∃ order, order.Perm (jobFiles smallBucket (utf8 "p")) ∧ Zip.readArchive archive =
        some (entriesRead (jobSource crcOf smallBucket (utf8 "p")) order)) ∧
    ∃ archive, HandlerRun crcOf largeBucket (utf8 "p") (.ok ()) (some archive) ∧
      ∃ order, order.Perm (jobFiles largeBucket (utf8 "p")) ∧ Zip.readArchive archive =
        some (entriesRead (jobSource crcOf largeBucket (utf8 "p")) order) := by
  constructor
  · have hget : ∀ name body, smallReplies.getBytes name = .ok body →
        (objectAt smallBucket (utf8 "p") name).map S3Object.body = some body := by
      intro name body hbody
      unfold smallReplies at hbody
      dsimp only at hbody
      cases hobj : objectAt smallBucket (utf8 "p") name with
      | none =>
        rw [hobj] at hbody
        cases hbody
      | some o =>
        rw [hobj] at hbody
        exact congrArg some (Except.ok.inj hbody)
    have hrun := handlerRun_readsBack storable_smallBucket
      (.fallback repliesTo_smallBucket rfl rfl repliesTo_smallBucket hget)
    cases hobject : StreamFallback.run crcOf (utf8 "p") smallReplies with
    | error e =>
      have hok : (StreamFallback.run crcOf (utf8 "p") smallReplies).toOption.isSome = true := by
        decide +kernel
      rw [hobject] at hok
      cases hok
    | ok archive =>
      rw [hobject] at hrun
      obtain ⟨order, _, harchive, hread, _⟩ := hrun.2 archive rfl
      exact ⟨archive, rfl, order, harchive.each_once,
        hread.2 (readable_jobFiles harchive.each_once (by decide))⟩
  · obtain ⟨plan, hplan⟩ : ∃ plan, planSingleMpu (jobFiles largeBucket (utf8 "p")) =
        .singleMpu plan := by
      rw [jobFiles_largeBucket]
      simp [planSingleMpu, SourceFile.isBig, partFloor, viabilityMinTotal]
    obtain ⟨archive, hjob⟩ := exists_handlerRun_single storable_largeBucket
      (@Bucket.Pages.last _ _ _ _ _ _ 1000 (by decide) rfl) hplan
    obtain ⟨order, _, harchive, hread, _⟩ :=
      (handlerRun_readsBack storable_largeBucket hjob).2 archive rfl
    exact ⟨archive, hjob, order, harchive.each_once,
      hread.2 (readable_jobFiles harchive.each_once small_largeBucket)⟩

end S3Archive.FigmentEngine
