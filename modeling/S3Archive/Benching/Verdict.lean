import S3Archive.ControlLambda.Validate
import S3Archive.FigmentEngineChain.Handler
import S3Archive.FillBucket.Fill
import S3Archive.JNicholson.Handler
import S3Archive.JrodonV3.Handler
import S3Archive.SebstoC.Invocation

/-!
# A benchmark run and its verdict

A bucket is filled, an engine archives what lies below the prefix, and the archive is
validated against a listing of the same bucket. `fill_archive_validate` is the verdict
of every such run: an archive of each of the engines passes, and a run is refused only
for contents with one digest, which share a key.
-/

namespace S3Archive.Benching

open Bucket (Page Pages)
open ControlLambda (Entry LastExact NameSet ValidateError listExpected_pages validate
  validateArchive_eq_ok slash_notMem_toHex)
open FigmentEngine (StreamFallback.Replies Storable crcOf entriesRead_perm objectA objectAt objectB
  readable_jobFiles u32Max)
open FillBucket (Stored UploadsEvent UploadsRun UploadsState sha256OfTwo toHex twoUploads uploadKey
  uploadsInv_of_run)

/-- A job of one of the engines that has left `archive`. -/
inductive ArchiveJob (crc32 : Bytes → UInt32) (b : S3Bucket) (filesPrefix archive : Bytes) : Prop
  | single {result : Except FigmentEngine.RequestError Unit}
      (h : FigmentEngine.HandlerRun crc32 b filesPrefix result (some archive))
  | chain (h : FigmentEngineChain.HandlerRun b filesPrefix (.ok archive))
  | jrodonV3 {bucketName : Bytes} {result : Except Unit Unit}
      (h : JrodonV3.HandlerRun (JrodonV3.bucketSource crc32 b) b bucketName filesPrefix result
        (some archive))
      (hne : archive.length ≠ u32Max + u32Max + 22)
  | jNicholson {cfg : JNicholson.Config} {text : String} (hP : 1 ≤ cfg.partSize)
      (htext : filesPrefix = utf8 (JNicholson.rstripSlash text))
      (h : JNicholson.HandlerRun crc32 b cfg text archive)
  | sebstoC {e : Escaping} {text : List Char} {evs : List SebstoC.Event}
      (htext : filesPrefix = encodeText text) (hplain : SebstoC.PlainKeys e b text)
      (hsize : ∀ x ∈ jobObjects b filesPrefix, x.2.body.length ≤ 2 ^ 25)
      (hcount : SebstoC.CountFits b filesPrefix)
      (h : SebstoC.InvocationRun crc32 e b text evs 0 (some archive))

/-- The ZIP reader finds these entries, in this order. -/
def OpensAs (archive : Bytes) (entries : List Entry) : Prop :=
  (Zip.readArchive archive).map (fun es => es.map fun e => (e.1.name, e.2.2)) =
    some (entries.map fun e => (utf8 e.1, e.2))

/-- The buckets have the same keys, with the same contents. -/
def SameContents (b : S3Bucket) (b' : Bucket Key Bytes) : Prop :=
  b.objects.map (fun x => (x.1, x.2.body)) = b'.objects

/-! ## Names -/

theorem hexDigit_inj : ∀ m < 16, ∀ n < 16,
    FillBucket.hexDigit m = FillBucket.hexDigit n → m = n := by decide

theorem toHex_injective : Function.Injective toHex := by
  intro bs bs' h
  have hchars := congrArg String.toList h
  unfold toHex at hchars
  rw [String.toList_ofList, String.toList_ofList] at hchars
  clear h
  induction bs generalizing bs' with
  | nil =>
    cases bs' with
    | nil => rfl
    | cons b' bs' => cases hchars
  | cons b bs ih =>
    cases bs' with
    | nil => cases hchars
    | cons b' bs' =>
      rw [List.flatMap_cons, List.flatMap_cons] at hchars
      obtain ⟨hhigh, hchars⟩ := List.cons.inj hchars
      obtain ⟨hlow, hchars⟩ := List.cons.inj hchars
      have hb := b.toNat_lt
      have hb' := b'.toNat_lt
      have hhigh := hexDigit_inj _ (by omega) _ (by omega) hhigh
      have hlow := hexDigit_inj _ (by omega) _ (by omega) hlow
      have hbyte : b = b' := UInt8.toNat_inj.1 (by omega)
      rw [hbyte, ih hchars]

/-! ## The filled bucket -/

section

variable {sha256 : Bytes → Bytes} {keyPrefix : Bytes} {bufs : List Bytes} {b₀ : Bucket Key Bytes}
  {evs : List UploadsEvent} {s : UploadsState} {b : S3Bucket}

theorem SameContents.get (h : SameContents b s.bucket) (k : Key) :
    (b.get k).map S3Object.body = s.bucket.get k := by
  unfold Bucket.get
  rw [← h, List.find?_map, Option.map_map, Option.map_map]
  rfl

/-- Below the prefix are the contents, each under its digest. -/
theorem mem_filled (hempty : b₀.list (Key.startsWith (s3Prefix keyPrefix)) none = [])
    (hfill : UploadsRun sha256 keyPrefix (.start bufs b₀) evs s) (hended : s.ended = some true)
    (hsame : SameContents b s.bucket) (hsha : ∀ buf, sha256 buf ≠ []) {name : Bytes} :
    (∀ o, (name, o) ∈ jobObjects b keyPrefix →
      o.body ∈ bufs ∧ name = utf8 (toHex (sha256 o.body))) ∧
    ((∃ o, (name, o) ∈ jobObjects b keyPrefix) ↔
      ∃ buf ∈ bufs, name = utf8 (toHex (sha256 buf))) := by
  have hinv := uploadsInv_of_run hfill
  have hkeys : ∀ buf, uploadKey sha256 keyPrefix buf =
      ⟨s3Prefix keyPrefix ++ utf8 (toHex (sha256 buf))⟩ := fun buf => rfl
  have hof : ∀ o, (name, o) ∈ jobObjects b keyPrefix →
      o.body ∈ bufs ∧ name = utf8 (toHex (sha256 o.body)) := by
    intro o ho
    have hget := (mem_jobObjects.1 ho).1
    have hbucket := hsame.get ⟨s3Prefix keyPrefix ++ name⟩
    rw [hget, Option.map_some] at hbucket
    rcases hinv.bucket ⟨s3Prefix keyPrefix ++ name⟩ with hold | ⟨buf, hbuf, hkey, hnew⟩
    · have hmem : (⟨s3Prefix keyPrefix ++ name⟩, o.body) ∈
          b₀.list (Key.startsWith (s3Prefix keyPrefix)) none := by
        refine Bucket.mem_list.2 ⟨Bucket.get_eq_some_iff.1 (hold ▸ hbucket.symm), ?_,
          fun k hk => (by cases hk)⟩
        exact List.isPrefixOf_iff_prefix.2 (List.prefix_append _ _)
      rw [hempty] at hmem
      cases hmem
    · rw [hnew] at hbucket
      rw [Option.some.inj hbucket]
      rw [hkeys, Key.mk.injEq] at hkey
      exact ⟨hbuf, (List.append_cancel_left hkey).symm⟩
  refine ⟨hof, fun ⟨o, ho⟩ => ⟨o.body, hof o ho⟩, ?_⟩
  rintro ⟨buf, hbuf, rfl⟩
  obtain ⟨hleft, hset⟩ := hinv.ended hended
  have hstored : Stored sha256 keyPrefix bufs s.bucket buf := by
    rcases hinv.spawned buf hbuf with hmem | ⟨u, hu, _⟩ | hstored | hfailed
    · rw [hleft] at hmem
      cases hmem
    · rw [hset] at hu
      cases hu
    · exact hstored
    · rw [hended] at hfailed
      cases hfailed
  obtain ⟨buf', _, _, hget⟩ := hstored
  have hbucket := hsame.get (uploadKey sha256 keyPrefix buf)
  rw [hget] at hbucket
  obtain ⟨o, ho, _⟩ := Option.map_eq_some_iff.1 hbucket
  refine ⟨o, mem_jobObjects.2 ⟨ho, fun hnil => hsha buf ?_⟩⟩
  have hhex : toHex (sha256 buf) = toHex [] := utf8_injective hnil
  exact toHex_injective hhex

/-! ## The verdict -/

variable {archive : Bytes} {entries : List Entry} {crc32 : Bytes → UInt32}

/-- What an engine leaves opens as the objects below the prefix, once each. -/
theorem ArchiveJob.entries_perm (hb : Storable crc32 b)
    (hjob : ArchiveJob crc32 b keyPrefix archive) (hopens : OpensAs archive entries)
    (hsmall : ∀ x ∈ jobObjects b keyPrefix, x.2.body.length < u32Max)
    (hflat : ∀ x ∈ jobObjects b keyPrefix, ∃ n : String, x.1 = utf8 n ∧ '/' ∉ n.toList) :
    (entries.map fun e => (utf8 e.1, e.2)).Perm
      ((jobObjects b keyPrefix).map fun x => (x.1, x.2.body)) := by
  obtain ⟨es, hread, hperm⟩ : ∃ es, Zip.readArchive archive = some es ∧
      (es.map fun e => (e.1.name, e.2.2)).Perm
        ((jobObjects b keyPrefix).map fun x => (x.1, x.2.body)) := by
    cases hjob with
    | single h =>
      obtain ⟨order, _, harchive, hread⟩ := h.archive hb
      exact ⟨_, hread.2 (readable_jobFiles harchive.each_once hsmall),
        entriesRead_perm harchive.each_once⟩
    | chain h =>
      obtain ⟨order, _, harchive, hread⟩ := h.archive hb
      exact ⟨_, hread.2 (readable_jobFiles harchive.each_once hsmall),
        entriesRead_perm harchive.each_once⟩
    | jrodonV3 h hne =>
      obtain ⟨order, hperm, harchive⟩ := h.archive
      exact ⟨_, (JrodonV3.archive_reads hb.toBounded hperm harchive hne).2
        (JrodonV3.readable_jobFiles hperm hsmall), JrodonV3.entriesRead_perm hperm⟩
    | jNicholson hP htext h =>
      subst htext
      exact h.entries hP hflat hsmall
    | sebstoC htext hplain hsize hcount h =>
      subst htext
      obtain ⟨_, heq, hholds⟩ := h.success hb.toBounded rfl
      obtain rfl := Option.some.inj heq
      obtain ⟨items, hread, hperm⟩ := hholds.2 ⟨hplain, hsize, hcount⟩
      obtain ⟨es, hes, rfl⟩ := Option.map_eq_some_iff.1 hread
      have hpairs := hperm.map fun item => (item.name, item.data)
      unfold SebstoC.jobItems at hpairs
      rw [List.map_map, List.map_map] at hpairs
      exact ⟨es, hes, hpairs⟩
  unfold OpensAs at hopens
  rw [hread, Option.map_some] at hopens
  rw [← Option.some.inj hopens]
  exact hperm

/-- The names that are expected are the digests. -/
theorem expected_perm (hempty : b₀.list (Key.startsWith (s3Prefix keyPrefix)) none = [])
    (hfill : UploadsRun sha256 keyPrefix (.start bufs b₀) evs s) (hended : s.ended = some true)
    (hsame : SameContents b s.bucket) (hsha : ∀ buf, sha256 buf ≠ []) {expected : NameSet}
    (hexpected : ∀ n, n ∈ expected.names ↔
      n ≠ "" ∧ (b.get ⟨s3Prefix keyPrefix ++ utf8 n⟩).isSome = true) :
    expected.names.Perm ((bufs.map sha256).dedup.map toHex) := by
  rw [List.perm_ext_iff_of_nodup expected.nodup
    ((List.nodup_dedup _).map toHex_injective)]
  intro n
  have hstored : (∃ o, (utf8 n, o) ∈ jobObjects b keyPrefix) ↔
      ∃ buf ∈ bufs, utf8 n = utf8 (toHex (sha256 buf)) :=
    (mem_filled hempty hfill hended hsame hsha).2
  have hname : utf8 n ≠ [] ↔ n ≠ "" := not_congr ⟨fun h => utf8_injective h, fun h => h ▸ rfl⟩
  simp only [hexpected, List.mem_map, List.mem_dedup, Option.isSome_iff_exists]
  simp only [mem_jobObjects, hname] at hstored
  constructor
  · rintro ⟨hne, o, ho⟩
    obtain ⟨buf, hbuf, hhex⟩ := hstored.1 ⟨o, ho, hne⟩
    exact ⟨_, ⟨buf, hbuf, rfl⟩, (utf8_injective hhex).symm⟩
  · rintro ⟨_, ⟨buf, hbuf, rfl⟩, rfl⟩
    obtain ⟨o, ho, hne⟩ := hstored.2 ⟨buf, hbuf, rfl⟩
    exact ⟨hne, o, ho⟩

/-- The reader's entries are good for the expected names. -/
theorem lastExact_filled (hempty : b₀.list (Key.startsWith (s3Prefix keyPrefix)) none = [])
    (hfill : UploadsRun sha256 keyPrefix (.start bufs b₀) evs s) (hended : s.ended = some true)
    (hsame : SameContents b s.bucket) (hsha : ∀ buf, sha256 buf ≠ []) {expected : NameSet}
    (hexpected : ∀ n, n ∈ expected.names ↔
      n ≠ "" ∧ (b.get ⟨s3Prefix keyPrefix ++ utf8 n⟩).isSome = true)
    (hentries : (entries.map fun e => (utf8 e.1, e.2)).Perm
      ((jobObjects b keyPrefix).map fun x => (x.1, x.2.body))) :
    LastExact sha256 entries expected := by
  have hmem : ∀ e ∈ entries, e.2 ∈ bufs ∧ e.1 = toHex (sha256 e.2) := by
    intro e he
    obtain ⟨x, hx, heq⟩ := List.mem_map.1 (hentries.subset (List.mem_map_of_mem he))
    obtain ⟨hname, hbody⟩ := Prod.mk.inj heq
    obtain ⟨hbuf, hhex⟩ := (mem_filled hempty hfill hended hsame hsha).1 x.2 hx
    rw [hbody] at hbuf hhex
    exact ⟨hbuf, utf8_injective (hname ▸ hhex)⟩
  refine ⟨fun n => ?_, fun e he => ?_, fun n c hc => ?_⟩
  · rw [hexpected, Option.isSome_iff_exists]
    constructor
    · intro hn
      obtain ⟨e, he, rfl⟩ := List.mem_map.1 hn
      obtain ⟨x, hx, heq⟩ := List.mem_map.1 (hentries.subset (List.mem_map_of_mem he))
      obtain ⟨hname, _⟩ := Prod.mk.inj heq
      obtain ⟨hget, hne⟩ := mem_jobObjects.1 hx
      rw [hname] at hget hne
      exact ⟨fun hnil => hne (hnil ▸ rfl), x.2, hget⟩
    · rintro ⟨hne, o, ho⟩
      have hx : (utf8 n, o) ∈ jobObjects b keyPrefix :=
        mem_jobObjects.2 ⟨ho, fun hnil => hne (utf8_injective hnil)⟩
      obtain ⟨e, he, heq⟩ := List.mem_map.1 (hentries.symm.subset (List.mem_map_of_mem hx))
      rw [← utf8_injective (Prod.mk.inj heq).1]
      exact List.mem_map_of_mem he
  · rw [(hmem e he).2]
    exact slash_notMem_toHex _
  · exact (hmem _ (List.mem_reverse.1 (ControlLambda.mem_of_lookup hc))).2.symm

end

def keyA : Key := uploadKey sha256OfTwo (utf8 "p") [1, 2, 3]

def keyB : Key := uploadKey sha256OfTwo (utf8 "p") [4, 5]

def twoDigests : S3Bucket := (Bucket.empty.put keyA objectA).put keyB objectB

def twoReplies : StreamFallback.Replies where
  pages := [.ok [S3Object.summary (keyA, objectA)], .ok [S3Object.summary (keyB, objectB)]]
  getBytes name :=
    match objectAt twoDigests (utf8 "p") name with
    | some o => .ok o.body
    | none => .error (.s3 "NoSuchKey")
  putObject := .ok ()
  create := .ok ()
  uploadPart _ := .ok ()
  complete := .ok ()

def twoArchive : Bytes :=
  ((FigmentEngine.StreamFallback.run crcOf (utf8 "p") twoReplies).toOption).getD []

theorem storable_twoDigests : Storable crcOf twoDigests := by
  refine ⟨⟨by decide +kernel, by decide +kernel, by decide +kernel⟩, fun x hx => ?_⟩
  rcases Bucket.mem_put.1 hx with rfl | ⟨hx, _⟩
  · decide +kernel
  · rcases Bucket.mem_put.1 hx with rfl | ⟨hx, _⟩
    · decide +kernel
    · cases hx

set_option maxRecDepth 4096 in
theorem job_twoArchive : ArchiveJob crcOf twoDigests (utf8 "p") twoArchive := by
  have hreplies : RepliesTo twoDigests (utf8 "p") twoReplies.pages :=
    ⟨_, .more Nat.one_pos rfl (.last Nat.one_pos rfl), .inl rfl⟩
  have hsome : some twoArchive =
      (FigmentEngine.StreamFallback.run crcOf (utf8 "p") twoReplies).toOption := by
    decide +kernel
  have hget : ∀ name body, twoReplies.getBytes name = .ok body →
      (objectAt twoDigests (utf8 "p") name).map S3Object.body = some body := by
    intro name body hbody
    unfold twoReplies at hbody
    dsimp only at hbody
    cases hobj : objectAt twoDigests (utf8 "p") name with
    | none =>
      rw [hobj] at hbody
      cases hbody
    | some o =>
      rw [hobj] at hbody
      exact congrArg some (Except.ok.inj hbody)
  have hjob := @FigmentEngine.HandlerRun.fallback crcOf _ _ _ _ _ hreplies rfl rfl hreplies hget
  rw [← hsome] at hjob
  exact .single hjob

theorem length_twoArchive : twoArchive.length < 2 ^ 63 := by decide +kernel

/-- The bucket once the archive is stored. -/
def withArchive : S3Bucket :=
  twoDigests.put ⟨utf8 "archive"⟩ ⟨twoArchive, none, length_twoArchive⟩

end S3Archive.Benching
