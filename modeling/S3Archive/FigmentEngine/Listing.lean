import S3Archive.Base.Listing
import S3Archive.FigmentEngine.AssembleRun

/-!
# figment-engine: listing the source objects

`listSourceFiles` turns the pages of a listing into the files of a job. Over any
paging they are the objects of the bucket below the prefix and its slash, in key
order and with distinct ids (`listSourceFiles_bucket`); the object at the prefix
itself is passed over.
-/

namespace S3Archive.FigmentEngine

/-! ## The lister -/

/-- The body of the loop over a page; the state is the files so far and the next id. -/
def listObject (s3Prefix : Bytes) :
    List SourceFile × UInt32 → ObjectSummary → List SourceFile × UInt32 :=
  listNamed (fun st name _ size => (st.1 ++ [⟨⟨st.2⟩, name, size⟩], st.2 + 1)) s3Prefix

def listSourceFiles (filesPrefix : Bytes)
    (pages : List (Except RequestError (List ObjectSummary))) :
    Except RequestError (List SourceFile) :=
  (foldPages (listObject (s3Prefix filesPrefix)) ([], 0) pages).map Prod.fst

/-! ## The files of a job -/

def numberFrom : UInt32 → List (Bytes × S3Object) → List SourceFile
  | _, [] => []
  | id, x :: xs => ⟨⟨id⟩, x.1, x.2.body.length⟩ :: numberFrom (id + 1) xs

/-- The files of a job. -/
def jobFiles (b : S3Bucket) (filesPrefix : Bytes) : List SourceFile :=
  numberFrom 0 (jobObjects b filesPrefix)

section

variable {b : S3Bucket} {filesPrefix : Bytes}

theorem foldl_numberFrom (xs : List (Bytes × S3Object)) (out : List SourceFile) (id : UInt32) :
    (xs.foldl (fun (st : List SourceFile × UInt32) x =>
      (st.1 ++ [⟨⟨st.2⟩, x.1, x.2.body.length⟩], st.2 + 1)) (out, id)).1 =
      out ++ numberFrom id xs := by
  induction xs generalizing out id with
  | nil => exact (List.append_nil out).symm
  | cons x xs ih =>
    rw [List.foldl_cons, ih, List.append_assoc]
    rfl

/-- Whatever the pages are, the lister finds the files of the job. -/
theorem listSourceFiles_bucket {replies : List (Except RequestError (List ObjectSummary))}
    (h : RepliesTo b filesPrefix replies) {files : List SourceFile}
    (hfiles : listSourceFiles filesPrefix replies = .ok files) :
    files = jobFiles b filesPrefix := by
  unfold listSourceFiles at hfiles
  cases hfold : foldPages (listObject (s3Prefix filesPrefix)) ([], 0) replies with
  | error e =>
    rw [hfold] at hfiles
    cases hfiles
  | ok st =>
    rw [hfold] at hfiles
    rw [← Except.ok.inj hfiles, foldPages_bucket h hfold, foldl_numberFrom]
    rfl

/-! ## Names, sizes and ids -/

theorem mem_numberFrom {f : SourceFile} {id : UInt32} {xs : List (Bytes × S3Object)}
    (h : f ∈ numberFrom id xs) : ∃ o, (f.name, o) ∈ xs ∧ f.size = o.body.length := by
  induction xs generalizing id with
  | nil => cases h
  | cons x xs ih =>
    rcases List.mem_cons.1 h with rfl | h
    · exact ⟨x.2, List.mem_cons_self, rfl⟩
    · obtain ⟨o, ho, hsize⟩ := ih h
      exact ⟨o, List.mem_cons_of_mem _ ho, hsize⟩

theorem length_numberFrom (id : UInt32) (xs : List (Bytes × S3Object)) :
    (numberFrom id xs).length = xs.length := by
  induction xs generalizing id with
  | nil => rfl
  | cons x xs ih =>
    show (numberFrom (id + 1) xs).length + 1 = _
    rw [ih]
    rfl

theorem map_name_numberFrom (id : UInt32) (xs : List (Bytes × S3Object)) :
    (numberFrom id xs).map SourceFile.name = xs.map Prod.fst := by
  induction xs generalizing id with
  | nil => rfl
  | cons x xs ih =>
    show x.1 :: (numberFrom (id + 1) xs).map SourceFile.name = _
    rw [ih]
    rfl

/-- The ids count up until they wrap. -/
theorem map_id_numberFrom (id : UInt32) (xs : List (Bytes × S3Object)) :
    (numberFrom id xs).map (fun f => f.id.val.toNat) =
      (List.range' id.toNat xs.length).map (· % 2 ^ 32) := by
  induction xs generalizing id with
  | nil => rfl
  | cons x xs ih =>
    show id.toNat :: (numberFrom (id + 1) xs).map (fun f => f.id.val.toNat) = _
    have hid := id.toNat_lt
    rw [ih, List.length_cons, List.range'_succ, List.map_cons, Nat.mod_eq_of_lt hid]
    congr 1
    rw [UInt32.toNat_add]
    refine List.ext_getElem (by simp) fun i h _ => ?_
    simp only [List.getElem_map, List.getElem_range', UInt32.toNat_one]
    omega

theorem nodup_ids {xs : List (Bytes × S3Object)} (h : xs.length ≤ 2 ^ 32) :
    ((numberFrom 0 xs).map SourceFile.id).Nodup := by
  refine List.Nodup.of_map (fun id => id.val.toNat) ?_
  rw [List.map_map]
  have heq := map_id_numberFrom 0 xs
  rw [UInt32.toNat_zero, List.map_congr_left (g := id) fun n hn => ?_, List.map_id] at heq
  · show ((numberFrom 0 xs).map fun f => f.id.val.toNat).Nodup
    rw [heq]
    exact List.nodup_range'
  · have hlt := (List.mem_range'_1.1 hn).2
    exact Nat.mod_eq_of_lt (by omega)

end

end S3Archive.FigmentEngine
