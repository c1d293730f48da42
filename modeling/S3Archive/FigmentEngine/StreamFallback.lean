import S3Archive.Base.Chunks
import S3Archive.FigmentEngine.Listing

/-!
# figment-engine: the streaming fallback

`StreamFallback.run` lists again, builds the whole archive from the bodies it gets
and puts it in one request, or in parts of `partFloor` bytes when it is not
smaller than that. What it puts is the archive of the listed files
(`StreamFallback.run_archive`).
-/

namespace S3Archive.FigmentEngine

open SourceFile (entrySize)

namespace StreamFallback

/-- The replies to the requests of a run; nothing is tried again. -/
structure Replies where
  pages : List (Except RequestError (List ObjectSummary))
  getBytes : Bytes → Except RequestError Bytes
  putObject : Except RequestError Unit
  create : Except RequestError Unit
  uploadPart : Nat → Except RequestError Unit
  complete : Except RequestError Unit

/-- The loop variables over the files. -/
structure Building where
  archive : Bytes
  metas : List EntryMeta
  offset : Nat

/-- The body of the loop over the files. -/
def addFile (crc32 : Bytes → UInt32) (r : Replies) (st : Building) (f : SourceFile) :
    Except RequestError Building := do
  let body ← r.getBytes f.name
  let entry : EntryMeta := ⟨f.name, f.size, crc32 body, st.offset⟩
  let header := localHeader entry
  return ⟨st.archive ++ header ++ body, st.metas ++ [entry],
    st.offset + (header.length + body.length)⟩

/-- The archive with its directory and end records. -/
def finish (st : Building) : Bytes :=
  let cdOffset := st.archive.length
  let dir := st.metas.foldl (fun acc m =>
    (acc.1 ++ centralDirEntry m, acc.2 + (centralDirEntry m).length)) (st.archive, 0)
  dir.1 ++ endRecords st.metas.length cdOffset dir.2

/-- The loop over the archive: parts of `partFloor` bytes, numbered as they are cut. -/
def uploadParts (r : Replies) (partNumber : Nat) (archive : Bytes) :
    Except RequestError (List (Nat × Bytes)) :=
  if _h : archive = [] then .ok []
  else
    match r.uploadPart partNumber with
    | .error e => .error e
    | .ok _ =>
      (uploadParts r (partNumber + 1) (archive.drop partFloor)).map
        ((partNumber, archive.take partFloor) :: ·)
termination_by archive.length
decreasing_by
  have hpos := List.length_pos_iff.2 _h
  have hfloor : 0 < partFloor := by decide
  rw [List.length_drop]
  omega

/-- What a run puts at the archive's key. -/
def run (crc32 : Bytes → UInt32) (filesPrefix : Bytes) (r : Replies) :
    Except RequestError Bytes := do
  let files ← listSourceFiles filesPrefix r.pages
  let archive := finish (← files.foldlM (addFile crc32 r) ⟨[], [], 0⟩)
  if archive.length < partFloor then
    r.putObject
    return archive
  else
    r.create
    let parts ← uploadParts r 1 archive
    r.complete
    return completeUpload parts

/-! ## Building -/

section

variable {crc32 : Bytes → UInt32} {r : Replies} {src : Source}

theorem addFile_eq_ok {st st' : Building} {f : SourceFile}
    (h : addFile crc32 r st f = .ok st') : ∃ body, r.getBytes f.name = .ok body ∧
      st' = ⟨st.archive ++ localHeader ⟨f.name, f.size, crc32 body, st.offset⟩ ++ body,
        st.metas ++ [⟨f.name, f.size, crc32 body, st.offset⟩],
        st.offset +
          ((localHeader ⟨f.name, f.size, crc32 body, st.offset⟩).length + body.length)⟩ := by
  unfold addFile at h
  cases hbody : r.getBytes f.name with
  | error e =>
    rw [hbody] at h
    cases h
  | ok body =>
    rw [hbody] at h
    exact ⟨body, rfl, (Except.ok.inj h).symm⟩

/-- The loop lays the files out one after the other. -/
theorem foldlM_addFile {files : List SourceFile} {st st' : Building}
    (hget : ∀ f ∈ files, ∀ body, r.getBytes f.name = .ok body →
      body = src.body f.name ∧ crc32 body = src.crc32 f.name)
    (hsizes : SizesListed src files) (hoffset : st.offset = st.archive.length)
    (h : files.foldlM (addFile crc32 r) st = .ok st') :
    st'.archive = st.archive ++ (offsetsFrom entrySize st.offset files).flatMap (fileBytes src) ∧
      st'.metas = st.metas ++ (offsetsFrom entrySize st.offset files).map (metaAt src) := by
  induction files generalizing st with
  | nil =>
    obtain rfl : st = st' := Except.ok.inj h
    simp
  | cons f files ih =>
    rw [List.foldlM_cons] at h
    cases hadd : addFile crc32 r st f with
    | error e =>
      rw [hadd] at h
      cases h
    | ok next =>
      rw [hadd] at h
      obtain ⟨body, hbody, rfl⟩ := addFile_eq_ok hadd
      obtain ⟨hsrc, hcrc⟩ := hget f List.mem_cons_self body hbody
      have hlen : body.length = f.size := by
        rw [hsrc]
        exact hsizes f List.mem_cons_self
      have hentry : (⟨f.name, f.size, crc32 body, st.offset⟩ : EntryMeta) =
          metaAt src (st.offset, f) := by
        rw [hcrc]
        rfl
      have hheader : (localHeader (metaAt src (st.offset, f))).length + body.length =
          f.entrySize := by
        rw [length_localHeader, hlen]
        rfl
      obtain ⟨harchive, hmetas⟩ := ih (fun g hg => hget g (List.mem_cons_of_mem _ hg))
        (fun g hg => hsizes g (List.mem_cons_of_mem _ hg)) (by
          dsimp only
          rw [List.length_append, List.length_append, hoffset]
          omega) h
      rw [harchive, hmetas]
      dsimp only
      rw [hentry, hheader, offsetsFrom_cons, List.flatMap_cons, List.map_cons, List.append_assoc,
        List.append_assoc, List.append_assoc, hsrc]
      exact ⟨by rw [← List.append_assoc (localHeader _)]; rfl, rfl⟩

theorem finish_eq (st : Building) : finish st = st.archive ++ st.metas.flatMap centralDirEntry ++
    endRecords st.metas.length st.archive.length (st.metas.flatMap centralDirEntry).length := by
  have hfold : ∀ (metas : List EntryMeta) (acc : Bytes × Nat), metas.foldl (fun acc m =>
      (acc.1 ++ centralDirEntry m, acc.2 + (centralDirEntry m).length)) acc =
        (acc.1 ++ metas.flatMap centralDirEntry,
          acc.2 + (metas.flatMap centralDirEntry).length) := by
    intro metas
    induction metas with
    | nil => simp
    | cons m metas ih =>
      intro acc
      rw [List.foldl_cons, ih, List.flatMap_cons, List.length_append, List.append_assoc,
        Nat.add_assoc]
  unfold finish
  dsimp only
  rw [hfold, Nat.zero_add]

/-- The offset of a file with the given id. -/
def offsetIn (files : List SourceFile) (id : FileId) : Option Nat :=
  ((placed files).find? fun p => p.2.id = id).map Prod.fst

theorem offsetIn_eq {files : List SourceFile} (hids : (files.map SourceFile.id).Nodup)
    {p : Nat × SourceFile} (hp : p ∈ placed files) : offsetIn files p.2.id = some p.1 := by
  have hnodup : ((placed files).map fun p => p.2.id).Nodup := by
    have hmap : (placed files).map (fun p => p.2.id) = files.map SourceFile.id := by
      conv_rhs => rw [← map_snd_offsetsFrom entrySize 0 files, List.map_map]
      rfl
    rw [hmap]
    exact hids
  have hsome : ((placed files).find? fun q => q.2.id = p.2.id).isSome = true :=
    List.find?_isSome.2 ⟨p, hp, by simp⟩
  obtain ⟨q, hq⟩ := Option.isSome_iff_exists.1 hsome
  have hid : q.2.id = p.2.id := by simpa using List.find?_some hq
  unfold offsetIn
  rw [hq, List.inj_on_of_nodup_map hnodup (List.mem_of_find?_eq_some hq) hp hid]
  rfl

theorem finish_archive {files : List SourceFile} {st : Building}
    (hget : ∀ f ∈ files, ∀ body, r.getBytes f.name = .ok body →
      body = src.body f.name ∧ crc32 body = src.crc32 f.name)
    (hsizes : SizesListed src files) (hids : (files.map SourceFile.id).Nodup)
    (h : files.foldlM (addFile crc32 r) ⟨[], [], 0⟩ = .ok st) :
    IsArchive src files files (offsetIn files) (bodySize files) (directorySize files)
      (finish st) := by
  obtain ⟨harchive, hmetas⟩ := foldlM_addFile hget hsizes rfl h
  have hdir : st.metas.flatMap centralDirEntry = directory src files := by
    rw [hmetas, List.nil_append, List.flatMap_map]
    rfl
  have hcount : st.metas.length = files.length := by
    rw [hmetas, List.nil_append, List.length_map, length_offsetsFrom]
  have hlen : st.archive.length = bodySize files := by
    rw [harchive, List.nil_append]
    exact length_content hsizes
  rw [finish_eq, hdir, hcount, hlen, harchive, List.nil_append, length_directory,
    List.append_assoc]
  have hcontent : (offsetsFrom entrySize 0 files).flatMap (fileBytes src) =
      files.flatMap fun f => fileBytes src (0, f) := content_eq src files
  rw [hcontent]
  exact isArchive (.refl _) hsizes fun p hp => offsetIn_eq hids hp

/-! ## Parts -/

/-- The parts are numbered from `n` on and cut the archive at multiples of `partFloor`. -/
theorem uploadParts_eq_ok {n : Nat} {archive : Bytes} {parts : List (Nat × Bytes)}
    (h : uploadParts r n archive = .ok parts) : NumberedFrom Prod.fst n parts ∧
      IsChunking partFloor (parts.map Prod.snd) archive := by
  induction hlen : archive.length using Nat.strong_induction_on generalizing n archive parts with
  | _ len ih =>
    rw [uploadParts] at h
    by_cases hempty : archive = []
    · rw [dif_pos hempty] at h
      obtain rfl : [] = parts := Except.ok.inj h
      rw [hempty]
      exact ⟨.nil _ _, ⟨rfl, by simp, by simp⟩⟩
    · rw [dif_neg hempty] at h
      cases hreply : r.uploadPart n with
      | error e =>
        rw [hreply] at h
        cases h
      | ok u =>
        rw [hreply] at h
        dsimp only at h
        have hpos := List.length_pos_iff.2 hempty
        have hfloor : 0 < partFloor := by decide
        cases hrest : uploadParts r (n + 1) (archive.drop partFloor) with
        | error e =>
          rw [hrest] at h
          cases h
        | ok rest =>
          rw [hrest] at h
          obtain rfl : (n, archive.take partFloor) :: rest = parts := Except.ok.inj h
          obtain ⟨hnum, hflat, hfull, hle⟩ := ih _ (by rw [List.length_drop]; omega) hrest rfl
          refine ⟨hnum.cons rfl, ?_, ?_, ?_⟩
          · rw [List.map_cons, List.flatten_cons, hflat, List.take_append_drop]
          · cases hrests : rest.map Prod.snd with
            | nil =>
              rw [List.map_cons, hrests]
              intro p hp
              cases hp
            | cons q qs =>
              rw [List.map_cons, hrests, List.dropLast_cons_cons]
              intro p hp
              rcases List.mem_cons.1 hp with rfl | hp
              · -- a part is followed by another only when it is full
                have hmore : archive.drop partFloor ≠ [] := by
                  intro hnil
                  rw [hnil, uploadParts, dif_pos rfl] at hrest
                  obtain rfl : [] = rest := Except.ok.inj hrest
                  cases hrests
                have hdrop := List.length_pos_iff.2 hmore
                rw [List.length_drop] at hdrop
                exact List.length_take_of_le (by omega)
              · exact hfull p (hrests ▸ hp)
          · intro p hp
            rcases List.mem_cons.1 hp with rfl | hp
            · exact List.length_take_le _ _
            · exact hle p hp

/-- What a run puts is the archive of the files that it lists. -/
theorem run_archive {filesPrefix archive : Bytes} (h : run crc32 filesPrefix r = .ok archive) :
    ∃ files, listSourceFiles filesPrefix r.pages = .ok files ∧
      ((∀ f ∈ files, ∀ body, r.getBytes f.name = .ok body →
          body = src.body f.name ∧ crc32 body = src.crc32 f.name) →
        SizesListed src files → (files.map SourceFile.id).Nodup →
        IsArchive src files files (offsetIn files) (bodySize files) (directorySize files)
          archive) := by
  unfold run at h
  cases hlist : listSourceFiles filesPrefix r.pages with
  | error e =>
    rw [hlist] at h
    cases h
  | ok files =>
    rw [hlist] at h
    refine ⟨files, rfl, fun hget hsizes hids => ?_⟩
    cases hfold : files.foldlM (addFile crc32 r) ⟨[], [], 0⟩ with
    | error e =>
      simp [bind, Except.bind, hfold] at h
    | ok st =>
      have harchive := finish_archive hget hsizes hids hfold
      simp only [bind, Except.bind, hfold] at h
      by_cases hsmall : (finish st).length < partFloor
      · rw [if_pos hsmall] at h
        cases hput : r.putObject with
        | error e => simp [hput] at h
        | ok u =>
          rw [hput] at h
          rw [← Except.ok.inj h]
          exact harchive
      · rw [if_neg hsmall] at h
        cases hcreate : r.create with
        | error e => simp [hcreate] at h
        | ok u =>
          rw [hcreate] at h
          cases hparts : uploadParts r 1 (finish st) with
          | error e => simp [hparts] at h
          | ok parts =>
            rw [hparts] at h
            cases hcomplete : r.complete with
            | error e => simp [hcomplete] at h
            | ok u =>
              rw [hcomplete] at h
              obtain ⟨hnum, hchunks⟩ := uploadParts_eq_ok hparts
              rw [← Except.ok.inj h, completeUpload_of_perm hnum (.refl _), hchunks.flatten_eq]
              exact harchive

end

end StreamFallback

end S3Archive.FigmentEngine
