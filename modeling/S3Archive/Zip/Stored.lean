import S3Archive.Zip.Directory
import S3Archive.Base.Guarded

/-!
# Archives of stored entries

An archive whose entries are a local header and a body each, followed by a
directory and the end records. `readArchive_stored` reads it when its records
read back, `readArchive_stored_none` says that one unreadable directory record
makes it unreadable. The encoders are parameters (`loc`, `cen`). The directory
record that keeps only its offset in the ZIP64 extra field is
`resolve_wideOffset`.
-/

namespace S3Archive.Zip

structure StoredFile where
  name : Bytes
  crc : UInt32
  body : Bytes

/-- What a reader takes from the file's directory record. -/
def StoredFile.entry (off : Nat) (f : StoredFile) : CentralEntry :=
  ⟨f.name, f.crc.toNat, f.body.length, f.body.length, off⟩

/-- What a reader takes from the file's local header. -/
def StoredFile.localEntry (f : StoredFile) : LocalEntry :=
  ⟨f.name, f.crc.toNat, f.body.length, f.body.length⟩

/-! ## A literal size with a wide offset -/

/-- The extra field of a record that keeps only its offset there, when the offset needs it. -/
def wideOffset (off : Nat) : Bytes := if off > ones 4 then zip64Extra (leBytes 8 off) else []

/-- The size is all ones and literal, but the extra field holds the offset only. -/
def SizeLost (size off : Nat) : Prop := size = ones 4 ∧ ones 4 < off

theorem length_wideOffset (off : Nat) : (wideOffset off).length < 2 ^ 16 := by
  unfold wideOffset
  split <;> simp

section

variable {name : Bytes} {crc size off : Nat}

theorem resolve_wideOffset (hoff : off < 2 ^ 64) (h : ¬ SizeLost size off) :
    CentralEntry.resolve ⟨name, crc, size, size, min off (ones 4)⟩ (wideOffset off) =
      some ⟨name, crc, size, size, off⟩ := by
  unfold CentralEntry.resolve wideOffset
  by_cases ho : off > ones 4
  · -- the sizes are literal, so they must not be all ones
    have hne : size ≠ ones 4 := fun heq => h ⟨heq, ho⟩
    have hread : Reads (Wide.read ⟨size, size, ones 4⟩) (leBytes 8 off) ⟨size, size, off⟩ := by
      refine .bind (wide_literal hne) (.bind (wide_literal hne) ?_)
      exact .bind_nil (wide_ones hoff) (.pure _)
    have hres := Wide.resolve_zip64Extra (by simp) hread.run_eq
    simp only [Nat.min_eq_right (Nat.le_of_lt ho), if_pos ho, hres, Option.map_some]
  · simp only [Nat.min_eq_left (Nat.le_of_not_lt ho), if_neg ho, Wide.resolve_nil,
      Option.map_some]

theorem resolve_wideOffset_none (hoff : off < 2 ^ 64) (h : SizeLost size off) :
    CentralEntry.resolve ⟨name, crc, size, size, min off (ones 4)⟩ (wideOffset off) = none := by
  obtain ⟨hs, ho⟩ := h
  -- the uncompressed size takes the eight bytes, the compressed size finds none
  have hread : (Wide.read ⟨ones 4, ones 4, ones 4⟩).run (leBytes 8 off) = none := by
    have h₁ : (wide (ones 4)).run (leBytes 8 off) = some (off, []) := (wide_ones hoff).run_eq
    have h₂ : (wide (ones 4)).run [] = none := rfl
    simp only [Wide.read, StateT.run_bind, h₁, h₂, Option.bind_eq_bind, Option.bind_some,
      Option.bind_none]
  have hres := Wide.resolve_zip64Extra_none (by simp) hread
  unfold CentralEntry.resolve wideOffset
  simp only [Nat.min_eq_right (Nat.le_of_lt ho), if_pos ho, hs, hres, Option.map_none]

end

/-- A size that is cut to four bytes is read only when it fits them and is not lost. -/
theorem resolve_wideOffset_iff {name : Bytes} {crc size off : Nat} (hoff : off < 2 ^ 64) :
    CentralEntry.resolve ⟨name, crc, size % 2 ^ 32, size % 2 ^ 32, min off (ones 4)⟩
        (wideOffset off) = some ⟨name, crc, size, size, off⟩ ↔
      size ≤ ones 4 ∧ ¬ SizeLost size off := by
  have hones : ones 4 + 1 = 2 ^ 32 := rfl
  constructor
  · intro hres
    by_cases hlost : SizeLost (size % 2 ^ 32) off
    · rw [resolve_wideOffset_none hoff hlost] at hres
      cases hres
    · rw [resolve_wideOffset hoff hlost] at hres
      have hsize : size % 2 ^ 32 = size := congrArg CentralEntry.compressed (Option.some.inj hres)
      rw [hsize] at hlost
      exact ⟨by omega, hlost⟩
  · rintro ⟨hsize, hlost⟩
    rw [Nat.mod_eq_of_lt (by omega)]
    exact resolve_wideOffset hoff hlost

/-! ## The archive -/

section Archive

/-- What is returned with each element. -/
theorem map_fst_mapM {α β : Type} {f : α → Option (α × β)} (hf : ∀ x y, f x = some y → y.1 = x)
    {xs : List α} {ys : List (α × β)} (h : xs.mapM f = some ys) : ys.map Prod.fst = xs := by
  induction xs generalizing ys with
  | nil =>
    cases h
    rfl
  | cons x xs ih =>
    rw [List.mapM_cons] at h
    simp only [Option.bind_eq_bind, Option.bind_eq_some_iff, Option.pure_def,
      Option.some.injEq] at h
    obtain ⟨y, hy, zs, hzs, rfl⟩ := h
    rw [List.map_cons, ih hzs, hf x y hy]

variable (loc : StoredFile → Bytes) (cen : Nat → StoredFile → Bytes)

def storedLen (f : StoredFile) : Nat := (loc f).length + f.body.length

/-- The files with the positions of their local headers. -/
def storedAt (files : List StoredFile) : List (Nat × StoredFile) :=
  offsetsFrom (storedLen loc) 0 files

def storedContents (files : List StoredFile) : Bytes := files.flatMap fun f => loc f ++ f.body

def storedDirectory (files : List StoredFile) : Bytes :=
  (storedAt loc files).flatMap fun q => cen q.1 q.2

/-- Everything a reader gets: names, CRCs, sizes, positions and bodies, in order. -/
def storedEntries (files : List StoredFile) : List (CentralEntry × LocalEntry × Bytes) :=
  (storedAt loc files).map fun q => (q.2.entry q.1, q.2.localEntry, q.2.body)

@[simp] theorem length_storedAt (files : List StoredFile) :
    (storedAt loc files).length = files.length := length_offsetsFrom (storedLen loc) 0 files

theorem length_storedContents (files : List StoredFile) :
    (storedContents loc files).length = (files.map (storedLen loc)).sum := by
  rw [storedContents, List.length_flatMap]
  congr 1
  exact List.map_congr_left fun f _ => List.length_append

theorem stored_at {files : List StoredFile} {q : Nat × StoredFile} (hq : q ∈ storedAt loc files) :
    At (storedContents loc files) q.1 (loc q.2 ++ q.2.body) := by
  have hsnd : storedContents loc files =
      (storedAt loc files).flatMap fun q => loc q.2 ++ q.2.body := by
    unfold storedContents
    conv_lhs => rw [← map_snd_offsetsFrom (storedLen loc) 0 files, List.flatMap_map]
    rfl
  have hat : At ([] ++ (storedAt loc files).flatMap fun q => loc q.2 ++ q.2.body) q.1
      (loc q.2 ++ q.2.body) := at_flatMap (fun q _ => List.length_append) rfl hq
  rwa [List.nil_append, ← hsnd] at hat

theorem position_le_stored {files : List StoredFile} {q : Nat × StoredFile}
    (hq : q ∈ storedAt loc files) : q.1 + storedLen loc q.2 ≤ (storedContents loc files).length := by
  obtain ⟨pre, post, heq, hpre⟩ := stored_at loc hq
  have hlen := congrArg List.length heq
  simp only [List.length_append] at hlen
  unfold storedLen
  omega

variable {loc cen} {files : List StoredFile} {ends : Bytes}
  (hends : readEnds (storedContents loc files ++ storedDirectory loc cen files ++ ends) =
    some ⟨files.length, (storedDirectory loc cen files).length, (storedContents loc files).length⟩)

include hends

/-- An archive whose records are read: what each directory record and each local section give. -/
theorem readArchive_records {cval : Nat × StoredFile → CentralEntry}
    {sval : StoredFile → LocalEntry × Bytes} {enc : StoredFile → Bytes}
    (hcen : ∀ q ∈ storedAt loc files, Reads readCentral (cen q.1 q.2) (cval q))
    (hoff : ∀ q ∈ storedAt loc files, (cval q).offset = q.1)
    (hloc : ∀ f ∈ files, Reads readStored (enc f) (sval f))
    (hpre : ∀ f ∈ files, enc f <+: loc f ++ f.body) :
    readArchive (storedContents loc files ++ storedDirectory loc cen files ++ ends) =
      some ((storedAt loc files).map fun q => (cval q, sval q.2)) := by
  generalize hbs : storedContents loc files ++ storedDirectory loc cen files ++ ends = bs at hends ⊢
  have hdir : At bs (storedContents loc files).length (storedDirectory loc cen files) :=
    ⟨_, _, hbs.symm, rfl⟩
  have hread := readDirectory_at hdir hcen
  rw [length_storedAt] at hread
  simp only [readArchive, hends, Option.bind_eq_bind, Option.bind_some]
  rw [storedDirectory, hread, Option.bind_some, List.mapM_map]
  refine mapM_eq_some fun q hq => ?_
  have hfile : q.2 ∈ files := snd_mem_of_mem_offsetsFrom _ hq
  have hat : At bs q.1 (loc q.2 ++ q.2.body) := by
    rw [← hbs]
    exact ((stored_at loc hq).append_right).append_right
  obtain ⟨tail, htail⟩ := hpre _ hfile
  rw [← htail] at hat
  have hstored := reads_at (hloc _ hfile) hat.left
  obtain ⟨r, hr, heq⟩ := Option.map_eq_some_iff.1 hstored
  simp only [Function.comp_apply, hoff q hq, hr, Option.bind_some, heq]
  rfl

/-- An archive whose records read back is read. -/
theorem readArchive_stored (hloc : ∀ f ∈ files, Reads readLocal (loc f) f.localEntry)
    (hcen : ∀ q ∈ storedAt loc files, Reads readCentral (cen q.1 q.2) (q.2.entry q.1)) :
    readArchive (storedContents loc files ++ storedDirectory loc cen files ++ ends) =
      some (storedEntries loc files) := by
  have hstored (f : StoredFile) (hf : f ∈ files) :
      Reads readStored (loc f ++ f.body) (f.localEntry, f.body) :=
    readStored_append (hloc f hf) rfl
  exact readArchive_records hends hcen (fun _ _ => rfl) hstored fun _ _ => List.prefix_rfl

/-- One unreadable directory record makes the archive unreadable. -/
theorem readArchive_stored_none {bad : Nat × StoredFile → Prop}
    (hgood : ∀ q ∈ storedAt loc files, ¬ bad q → Reads readCentral (cen q.1 q.2) (q.2.entry q.1))
    (hbad : ∀ q ∈ storedAt loc files, bad q → ∀ rest, readCentral.run (cen q.1 q.2 ++ rest) = none)
    (hex : ∃ q ∈ storedAt loc files, bad q) :
    readArchive (storedContents loc files ++ storedDirectory loc cen files ++ ends) = none := by
  generalize hbs : storedContents loc files ++ storedDirectory loc cen files ++ ends = bs at hends ⊢
  have hdir : At bs (storedContents loc files).length (storedDirectory loc cen files) :=
    ⟨_, _, hbs.symm, rfl⟩
  have hnone := readDirectory_at_none hdir hgood hbad hex
  rw [length_storedAt] at hnone
  simp only [readArchive, hends, Option.bind_eq_bind, Option.bind_some]
  rw [storedDirectory, hnone]
  rfl

/-- An archive reads back exactly when each directory record gives its entry. -/
theorem readArchive_stored_iff (val : Nat × StoredFile → Option CentralEntry)
    (hcen : ∀ q ∈ storedAt loc files, ∀ rest,
      readCentral.run (cen q.1 q.2 ++ rest) = (val q).map fun x => (x, rest))
    (hloc : ∀ q ∈ storedAt loc files, val q = some (q.2.entry q.1) →
      Reads readLocal (loc q.2) q.2.localEntry) :
    readArchive (storedContents loc files ++ storedDirectory loc cen files ++ ends) =
      some (storedEntries loc files) ↔
        ∀ q ∈ storedAt loc files, val q = some (q.2.entry q.1) := by
  constructor
  · intro hread
    generalize hbs : storedContents loc files ++ storedDirectory loc cen files ++ ends = bs
      at hends hread
    have hdir : At bs (storedContents loc files).length (storedDirectory loc cen files) :=
      ⟨_, _, hbs.symm, rfl⟩
    have hrecs := readDirectory_at_eq hdir hcen
    rw [length_storedAt] at hrecs
    simp only [readArchive, hends, Option.bind_eq_bind, Option.bind_some] at hread
    rw [storedDirectory, hrecs] at hread
    obtain ⟨entries, hentries, hlocals⟩ := Option.bind_eq_some_iff.1 hread
    -- each local section is returned with its directory record
    have hfst : entries = (storedAt loc files).map fun q => q.2.entry q.1 := by
      have hmap := map_fst_mapM (fun c y hy => by
        obtain ⟨r, _, heq⟩ := Option.bind_eq_some_iff.1 hy
        exact (congrArg Prod.fst (Option.some.inj heq)).symm) hlocals
      rw [storedEntries, List.map_map] at hmap
      exact hmap.symm
    rw [hfst] at hentries
    exact mapM_eq_map_iff.1 hentries
  · intro hval
    have hreads : ∀ q ∈ storedAt loc files, Reads readCentral (cen q.1 q.2) (q.2.entry q.1) := by
      intro q hq rest
      rw [hcen q hq, hval q hq]
      rfl
    refine readArchive_stored hends (fun f hf => ?_) hreads
    obtain ⟨q, hq, rfl⟩ : ∃ q ∈ storedAt loc files, q.2 = f := by
      rw [← map_snd_offsetsFrom (storedLen loc) 0 files] at hf
      exact List.mem_map.1 hf
    exact hloc q hq (hval q hq)

end Archive

end S3Archive.Zip
