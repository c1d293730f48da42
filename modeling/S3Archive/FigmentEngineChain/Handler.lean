import S3Archive.Base.Text
import S3Archive.FigmentEngine.Handler
import S3Archive.FigmentEngineChain.ChainArchive

/-!
# figment-engine-chain: a whole job

`HandlerRun` is a job from the listing to the completed upload. An archive that a
run completes reads back like those of the single upload (`chainJob_readsBack`).
The intermediate objects have the keys `tempKeyText`: no two of them coincide, not
even those of runs for different archives (`tempKeyText_inj`).
-/

namespace S3Archive.FigmentEngineChain

open FigmentEngine

/-! ## The lister -/

/-- The body of the loop over a page. -/
def listObject (s3Prefix : Bytes) (st : List SourceFile × UInt32) (obj : ObjectSummary) :
    List SourceFile × UInt32 :=
  match obj.key, obj.size with
  | some key, some size =>
    match key.strip s3Prefix with
    | none => st
    | some name =>
      if name.isEmpty then st
      else (st.1 ++ [⟨⟨st.2⟩, name, size.toUInt64.toNat⟩], st.2 + 1)
  | _, _ => st

def listSourceFiles (filesPrefix : Bytes)
    (pages : List (Except RequestError (List ObjectSummary))) :
    Except RequestError (List SourceFile) :=
  (foldPages (listObject (s3Prefix filesPrefix)) ([], 0) pages).map Prod.fst

/-- The key that is the prefix itself has no name, so passing it over first changes nothing. -/
theorem listObject_eq : listObject = FigmentEngine.listObject := by
  funext s3Prefix st obj
  obtain ⟨key, size⟩ := obj
  unfold listObject FigmentEngine.listObject listNamed
  cases key with
  | none => rfl
  | some key =>
    cases size with
    | none => rfl
    | some size =>
      dsimp only
      by_cases hkey : key.bytes = s3Prefix
      · have hstrip : key.strip s3Prefix = some [] := by
          rw [Key.strip_eq_some_iff, List.append_nil, ← hkey]
        rw [if_pos hkey, hstrip]
        rfl
      · rw [if_neg hkey]
        cases key.strip s3Prefix <;> rfl

theorem listSourceFiles_eq (filesPrefix : Bytes)
    (pages : List (Except RequestError (List ObjectSummary))) :
    listSourceFiles filesPrefix pages = FigmentEngine.listSourceFiles filesPrefix pages := by
  unfold listSourceFiles FigmentEngine.listSourceFiles
  rw [listObject_eq]

/-! ## Jobs -/

inductive HandlerError where
  | listing (e : RequestError)
  | plan (e : PlanError)
  | assemble (e : ChainError)

/-- A job and its result: the archive at its key, or an error. -/
inductive HandlerRun (b : S3Bucket) (filesPrefix : Bytes) : Except HandlerError Bytes → Prop
  | listingFails {replies : List (Except RequestError (List ObjectSummary))} {e : RequestError}
      (hreplies : RepliesTo b filesPrefix replies)
      (hlist : listSourceFiles filesPrefix replies = .error e) :
    HandlerRun b filesPrefix (.error (.listing e))
  | planFails {replies : List (Except RequestError (List ObjectSummary))} {files : List SourceFile}
      {e : PlanError} (hreplies : RepliesTo b filesPrefix replies)
      (hlist : listSourceFiles filesPrefix replies = .ok files)
      (hplan : planSegmentChain files = .error e) :
    HandlerRun b filesPrefix (.error (.plan e))
  | run {replies : List (Except RequestError (List ObjectSummary))} {files : List SourceFile}
      {plan : ChainPlan} {evs : List ChainEvent} {s : ChainState}
      {outcome : Except ChainError Bytes}
      (hreplies : RepliesTo b filesPrefix replies)
      (hlist : listSourceFiles filesPrefix replies = .ok files)
      (hplan : planSegmentChain files = .ok plan)
      (hrun : ChainRun (jobStore b filesPrefix).source plan (.start plan) evs s)
      (hended : s.outcome = some outcome) :
    HandlerRun b filesPrefix (outcome.mapError HandlerError.assemble)

section

variable {crc32 : Bytes → UInt32} {b : S3Bucket} {filesPrefix : Bytes}

/-- Planning fails exactly when there is no big file. -/
theorem planSegmentChain_error {files : List SourceFile} {e : PlanError}
    (hids : (files.map SourceFile.id).Nodup) (h : planSegmentChain files = .error e) :
    (∀ f ∈ files, f.size < partFloor) ∧ e = .noBigs files.length := by
  have hsmall : ∀ f ∈ files, f.size < partFloor := by
    intro f hf
    by_contra hge
    obtain ⟨plan, hplan, _⟩ := planSegmentChain_buckets hids ⟨f, hf, not_lt.1 hge⟩
    rw [h] at hplan
    cases hplan
  refine ⟨hsmall, ?_⟩
  have hbigs : files.filter SourceFile.isBig = [] := by
    rw [List.filter_eq_nil_iff]
    intro f hf
    have hlt := hsmall f hf
    simpa [SourceFile.isBig] using hlt
  have hsmalls : files.filter (fun f => !f.isBig) = files := by
    rw [List.filter_eq_self]
    intro f hf
    have hlt := hsmall f hf
    simpa [SourceFile.isBig] using hlt
  unfold planSegmentChain at h
  rw [List.partition_eq_filter_filter] at h
  dsimp only at h
  rw [hbigs, List.isEmpty_nil, if_pos rfl] at h
  rw [← Except.error.inj h]
  exact congrArg (fun l => PlanError.noBigs (List.length l)) hsmalls

theorem length_name_jobFiles (hb : Storable crc32 b) :
    ∀ f ∈ jobFiles b filesPrefix, f.name.length ≤ 65535 :=
  fun f hf => (hb.length_name hf).trans (by decide)

/-- What a job completes is an archive of its files, in some order. -/
theorem HandlerRun.archive {archive : Bytes} (hb : Storable crc32 b)
    (h : HandlerRun b filesPrefix (.ok archive)) :
    ∃ order offsetOf, IsArchive (jobSource crc32 b filesPrefix) (jobFiles b filesPrefix) order
        offsetOf (bodySize order) (directorySize order) archive ∧
      (Zip.readArchive archive = some (entriesRead (jobSource crc32 b filesPrefix) order) ↔
        Readable order) := by
  generalize hresult : (.ok archive : Except HandlerError Bytes) = result at h
  cases h with
  | listingFails hreplies hlist => cases hresult
  | planFails hreplies hlist hplan => cases hresult
  | @run _ files plan evs s outcome hreplies hlist hplan hrun hended =>
    obtain rfl : outcome = .ok archive := by
      cases outcome with
      | error e => cases hresult
      | ok a => exact congrArg Except.ok (Except.ok.inj hresult).symm
    rw [listSourceFiles_eq] at hlist
    obtain rfl := listSourceFiles_bucket hreplies hlist
    have hbig : ∃ f ∈ jobFiles b filesPrefix, partFloor ≤ f.size := by
      by_contra hnone
      have hsmall : ∀ f ∈ jobFiles b filesPrefix, ¬ f.isBig = true := by
        intro f hf hbig
        exact hnone ⟨f, hf, of_decide_eq_true hbig⟩
      unfold planSegmentChain at hplan
      rw [List.partition_eq_filter_filter, List.filter_eq_nil_iff.2 hsmall] at hplan
      cases hplan
    obtain ⟨plan', hplan', ⟨c⟩⟩ := planSegmentChain_buckets (hb.nodup_ids filesPrefix) hbig
    obtain rfl : plan' = plan := Except.ok.inj (hplan'.symm.trans hplan)
    have hok := c.planOk (length_name_jobFiles hb) sizesListed_jobStore
    rcases (hok.run hrun).outcome _ hended with heq | heq
    · have harchive := c.archive hok sizesListed_jobStore
      rw [c.cdOffset_eq, c.cdSize_eq] at harchive
      rw [Except.ok.inj heq]
      exact ⟨c.files, _, harchive.job_readsBack hb fun f hf => ⟨rfl, hb.crc32_eq hf⟩⟩
    · cases heq

/-- A job with a big object can succeed. -/
theorem exists_handlerRun_ok (hb : Storable crc32 b) {pages : List (Bucket.Page Key S3Object)}
    (hpages : Bucket.Pages b (Key.startsWith (s3Prefix filesPrefix)) none pages)
    (hbig : ∃ f ∈ jobFiles b filesPrefix, partFloor ≤ f.size) :
    ∃ archive, HandlerRun b filesPrefix (.ok archive) := by
  obtain ⟨plan, hplan, ⟨c⟩⟩ := planSegmentChain_buckets (hb.nodup_ids filesPrefix) hbig
  have hok := c.planOk (length_name_jobFiles hb) (sizesListed_jobStore (b := b))
  obtain ⟨evs, s, hrun, hended⟩ := hok.exists_run_ok
  have hlist := (listSourceFiles_eq filesPrefix _).trans (listSourceFiles_pages hpages)
  exact ⟨_, .run ⟨pages, hpages, .inl rfl⟩ hlist hplan hrun hended⟩

/-- A job that is refused a plan has only objects smaller than a part. -/
theorem HandlerRun.noPlan {e : PlanError} (hb : Storable crc32 b)
    (h : HandlerRun b filesPrefix (.error (.plan e))) :
    (∀ x ∈ jobObjects b filesPrefix, x.2.body.length < partFloor) ∧
      e = .noBigs (jobObjects b filesPrefix).length := by
  generalize hresult : (.error (.plan e) : Except HandlerError Bytes) = result at h
  cases h with
  | listingFails hreplies hlist =>
    injection hresult with hresult
    cases hresult
  | planFails hreplies hlist hplan =>
    injection hresult with hresult
    injection hresult with hresult
    rw [listSourceFiles_eq] at hlist
    obtain rfl := listSourceFiles_bucket hreplies hlist
    rw [← hresult] at hplan
    obtain ⟨hsmall, he⟩ := planSegmentChain_error (hb.nodup_ids _) hplan
    have hsizes := map_size_numberFrom 0 (jobObjects b filesPrefix)
    refine ⟨fun x hx => ?_, ?_⟩
    · have hmem : x.2.body.length ∈ (jobFiles b filesPrefix).map SourceFile.size :=
        hsizes ▸ List.mem_map_of_mem hx
      obtain ⟨f, hf, hsize⟩ := List.mem_map.1 hmem
      rw [← hsize]
      exact hsmall f hf
    · rw [he]
      exact congrArg PlanError.noBigs (length_numberFrom 0 _)
  | @run _ _ _ _ _ outcome hreplies hlist hplan hrun hended =>
    cases outcome with
    | ok a => cases hresult
    | error e' =>
      injection hresult with hresult
      cases hresult

end

/-- `{n:08}`. -/
def padded8 (n : Nat) : Bytes := List.replicate (8 - (decimal n).length) 48 ++ decimal n

/-- What follows the index. -/
def linkText (link : Option Nat) : Bytes :=
  match link with
  | none => []
  | some li => utf8 ".l" ++ decimal li

/-- `seg-temps/{archive_key}/{index:08}`, with `.l{li}` for the object of a link. -/
def tempKeyText (archiveKey : Bytes) (k : TempKey) : Bytes :=
  utf8 "seg-temps/" ++ archiveKey ++ utf8 "/" ++ padded8 k.index ++ linkText k.link

theorem decimalValue_padded8 (n : Nat) : decimalValue (padded8 n) = n := by
  have hzeros : ∀ k ds, decimalValue (List.replicate k 48 ++ ds) = decimalValue ds := by
    intro k ds
    induction k with
    | zero => rfl
    | succ k ih =>
      rw [List.replicate_succ, List.cons_append, ← ih]
      rfl
  unfold padded8
  rw [hzeros, decimalValue_decimal]

theorem isDigit_of_mem_padded8 {n : Nat} {c : UInt8} (h : c ∈ padded8 n) : IsDigit c := by
  unfold padded8 at h
  rcases List.mem_append.1 h with h | h
  · rw [(List.mem_replicate.1 h).2]
    exact ⟨by decide, by decide⟩
  · exact isDigit_of_mem_decimal h

/-- The last separator of a text splits it. -/
theorem append_cons_inj {sep : UInt8} {xs xs' ys ys' : Bytes} (hys : sep ∉ ys) (hys' : sep ∉ ys')
    (h : xs ++ sep :: ys = xs' ++ sep :: ys') : xs = xs' ∧ ys = ys' := by
  rcases List.append_eq_append_iff.1 h with ⟨zs, rfl, hzs⟩ | ⟨zs, rfl, hzs⟩
  · cases zs with
    | nil => exact ⟨(List.append_nil xs).symm, (List.cons.inj hzs).2⟩
    | cons z zs =>
      exact absurd ((List.cons.inj hzs).2 ▸ List.mem_append_right _ List.mem_cons_self) hys
  · cases zs with
    | nil => exact ⟨List.append_nil xs', (List.cons.inj hzs).2.symm⟩
    | cons z zs =>
      exact absurd ((List.cons.inj hzs).2 ▸ List.mem_append_right _ List.mem_cons_self) hys'

theorem linkText_injective : Function.Injective linkText := by
  intro link link' h
  have hval : ∀ link, link = (if linkText link = [] then none
      else some (decimalValue ((linkText link).drop 2))) := by
    intro link
    cases link with
    | none => rfl
    | some li =>
      have hne : linkText (some li) ≠ [] := List.cons_ne_nil _ _
      have hdrop : (linkText (some li)).drop 2 = decimal li := rfl
      rw [if_neg hne, hdrop, decimalValue_decimal]
  rw [hval link, hval link', h]

theorem takeWhile_padded8 (n : Nat) (link : Option Nat) :
    (padded8 n ++ linkText link).takeWhile (fun c => decide (IsDigit c)) = padded8 n := by
  have hnone : (linkText link).takeWhile (fun c => decide (IsDigit c)) = [] := by
    cases link with
    | none => rfl
    | some li => rfl
  rw [List.takeWhile_append_of_pos fun c hc => decide_eq_true (isDigit_of_mem_padded8 hc), hnone,
    List.append_nil]

theorem slash_notMem (n : Nat) (link : Option Nat) : 47 ∉ padded8 n ++ linkText link := by
  have hdigit : ¬ IsDigit 47 := by decide
  intro h
  rcases List.mem_append.1 h with h | h
  · exact hdigit (isDigit_of_mem_padded8 h)
  · cases link with
    | none => cases h
    | some li =>
      rcases List.mem_append.1 h with h | h
      · revert h
        decide
      · exact hdigit (isDigit_of_mem_decimal h)

/-- No two intermediate objects have one key, whatever slashes the keys of their archives have. -/
theorem tempKeyText_inj (archiveKey archiveKey' : Bytes) (k k' : TempKey) :
    tempKeyText archiveKey k = tempKeyText archiveKey' k' ↔ archiveKey = archiveKey' ∧ k = k' := by
  have htext : ∀ archiveKey k, tempKeyText archiveKey k =
      (utf8 "seg-temps/" ++ archiveKey) ++ 47 :: (padded8 k.index ++ linkText k.link) := by
    intro archiveKey k
    show utf8 "seg-temps/" ++ archiveKey ++ [47] ++ padded8 k.index ++ linkText k.link = _
    rw [List.append_assoc _ (padded8 k.index), List.append_assoc _ [47]]
    rfl
  refine ⟨fun h => ?_, fun ⟨harchive, hk⟩ => harchive ▸ hk ▸ rfl⟩
  rw [htext, htext] at h
  obtain ⟨harchive, htail⟩ := append_cons_inj (slash_notMem _ _) (slash_notMem _ _) h
  have hindex := congrArg (List.takeWhile fun c => decide (IsDigit c)) htail
  rw [takeWhile_padded8, takeWhile_padded8] at hindex
  rw [hindex] at htail
  obtain ⟨index, link⟩ := k
  obtain ⟨index', link'⟩ := k'
  obtain rfl : link = link' := linkText_injective (List.append_cancel_left htail)
  have hvalue := congrArg decimalValue hindex
  rw [decimalValue_padded8, decimalValue_padded8] at hvalue
  obtain rfl : index = index' := hvalue
  exact ⟨List.append_cancel_left harchive, rfl⟩

end S3Archive.FigmentEngineChain
