import Mathlib.Data.List.Induction
import Mathlib.Data.List.Nodup
import S3Archive.Base.Bytes

/-!
# control-lambda: the verdict on an archive

`validateArchive` walks the names that the ZIP reader lists, draining the set of the
expected ones, and then hashes the content kept for each name. The reader's map holds
one entry per name (`ZipArchive`), so a name that the archive repeats is seen once:
`validateArchive_eq_ok` says what the verdict means, and `validateArchive_exact_iff`
for which archives this is what it promises (`Exact`).
-/

namespace S3Archive.ControlLambda

/-- An entry of the central directory, with its content. -/
abbrev Entry := String × Bytes

inductive ControlError where
  | hierarchyForbidden (file : String)
  | unknownOrDuplicate (file : String)
  | missingObjects (count expected : Nat) (sample : List String)
  | contentMismatch (file actual : String)
  /-- A `ZipError`: no entry of that name. -/
  | zip (file : String)
  deriving DecidableEq

/-- The reader's map of the entries, in the order of the first entry of each name. -/
structure ZipArchive where
  files : List Entry
  nodup : (files.map Prod.fst).Nodup

namespace ZipArchive

/-- An entry with a known name takes the place of the one before. -/
def insertFile (files : List Entry) (e : Entry) : List Entry :=
  if e.1 ∈ files.map Prod.fst then
    files.map fun f => if f.1 = e.1 then e else f
  else files ++ [e]

theorem map_fst_insertFile (files : List Entry) (e : Entry) :
    (insertFile files e).map Prod.fst =
      if e.1 ∈ files.map Prod.fst then files.map Prod.fst else files.map Prod.fst ++ [e.1] := by
  unfold insertFile
  split
  · rw [List.map_map]
    apply List.map_congr_left
    intro f _
    by_cases hf : f.1 = e.1 <;> simp [hf]
  · simp

def insert (z : ZipArchive) (e : Entry) : ZipArchive where
  files := insertFile z.files e
  nodup := by
    rw [map_fst_insertFile]
    split
    · exact z.nodup
    · rename_i hnew
      exact List.nodup_append.2 ⟨z.nodup, by simp, fun n hn m hm heq =>
        hnew (List.mem_singleton.1 hm ▸ heq ▸ hn)⟩

def new (entries : List Entry) : ZipArchive := entries.foldl insert ⟨[], List.nodup_nil⟩

def fileNames (z : ZipArchive) : List String := z.files.map Prod.fst

def byName (z : ZipArchive) (name : String) : Except ControlError Bytes :=
  match z.files.lookup name with
  | some content => .ok content
  | none => .error (.zip name)

end ZipArchive

/-- A set of names, with the order in which it is iterated. -/
structure NameSet where
  names : List String
  nodup : names.Nodup

namespace NameSet

/-- Whether the name was there, and the set without it. -/
def remove (s : NameSet) (name : String) : Bool × NameSet :=
  (s.names.contains name, ⟨s.names.erase name, s.nodup.erase name⟩)

end NameSet

/-- One digit of `{:02x}`. -/
def hexDigit (n : Nat) : Char := if n < 10 then Char.ofNat (48 + n) else Char.ofNat (87 + n)

def toHex (bytes : Bytes) : String :=
  String.ofList (bytes.flatMap fun b => [hexDigit (b.toNat / 16), hexDigit (b.toNat % 16)])

/-- The first loop: what is left of the expected set. -/
def checkNames : NameSet → List String → Except ControlError NameSet
  | expected, [] => .ok expected
  | expected, file :: files =>
    if '/' ∈ file.toList then
      .error (.hierarchyForbidden file)
    else if (expected.remove file).1 then
      checkNames (expected.remove file).2 files
    else
      .error (.unknownOrDuplicate file)

/-- The second loop. -/
def checkContents (sha256 : Bytes → Bytes) (z : ZipArchive) : List String → Except ControlError Unit
  | [] => .ok ()
  | file :: files => do
    let content ← z.byName file
    let actual := toHex (sha256 content)
    if actual ≠ file then
      throw (.contentMismatch file actual)
    checkContents sha256 z files

def validateArchive (sha256 : Bytes → Bytes) (entries : List Entry) (expected : NameSet) :
    Except ControlError Unit := do
  let z := ZipArchive.new entries
  let left ← checkNames expected z.fileNames
  if left.names ≠ [] then
    throw (.missingObjects left.names.length expected.names.length (left.names.take 5))
  checkContents sha256 z z.fileNames

/-- What the verdict promises: exactly one entry for each expected name, no directories,
and every content under its hash. -/
structure Exact (sha256 : Bytes → Bytes) (entries : List Entry) (expected : NameSet) : Prop where
  perm : (entries.map Prod.fst).Perm expected.names
  flat : ∀ e ∈ entries, '/' ∉ e.1.toList
  hash : ∀ e ∈ entries, toHex (sha256 e.2) = e.1

/-- The same with the eyes of the map: of each name only the last entry counts. -/
structure LastExact (sha256 : Bytes → Bytes) (entries : List Entry) (expected : NameSet) :
    Prop where
  mem_iff : ∀ n, n ∈ entries.map Prod.fst ↔ n ∈ expected.names
  flat : ∀ e ∈ entries, '/' ∉ e.1.toList
  hash : ∀ n c, entries.reverse.lookup n = some c → toHex (sha256 c) = n

/-! ## The map -/

theorem lookup_cons (f : Entry) (files : List Entry) (n : String) :
    (f :: files).lookup n = if n = f.1 then some f.2 else files.lookup n := by
  obtain ⟨name, content⟩ := f
  by_cases h : n = name
  · simp [h]
  · have hb : (n == name) = false := beq_false_of_ne h
    simp [List.lookup_cons, hb, h]

theorem lookup_eq_none {files : List Entry} {n : String} (h : n ∉ files.map Prod.fst) :
    files.lookup n = none := by
  induction files with
  | nil => rfl
  | cons f files ih =>
    rw [List.map_cons, List.mem_cons, not_or] at h
    rw [lookup_cons, if_neg h.1, ih h.2]

theorem exists_lookup {files : List Entry} {n : String} (h : n ∈ files.map Prod.fst) :
    ∃ c, files.lookup n = some c := by
  induction files with
  | nil => cases h
  | cons f files ih =>
    rw [lookup_cons]
    by_cases hn : n = f.1
    · exact ⟨f.2, if_pos hn⟩
    · rw [if_neg hn]
      exact ih ((List.mem_cons.1 h).resolve_left hn)

theorem mem_of_lookup {files : List Entry} {n : String} {c : Bytes}
    (h : files.lookup n = some c) : (n, c) ∈ files := by
  induction files with
  | nil => cases h
  | cons f files ih =>
    rw [lookup_cons] at h
    by_cases hn : n = f.1
    · rw [if_pos hn] at h
      cases h
      exact hn ▸ List.mem_cons_self
    · rw [if_neg hn] at h
      exact List.mem_cons_of_mem f (ih h)

theorem lookup_append (files files' : List Entry) (n : String) :
    (files ++ files').lookup n = (files.lookup n).or (files'.lookup n) := by
  induction files with
  | nil => rfl
  | cons f files ih =>
    rw [List.cons_append, lookup_cons, lookup_cons, ih]
    split <;> rfl

theorem lookup_replace_self {files : List Entry} {e : Entry} (h : e.1 ∈ files.map Prod.fst) :
    (files.map fun f => if f.1 = e.1 then e else f).lookup e.1 = some e.2 := by
  induction files with
  | nil => cases h
  | cons f files ih =>
    rw [List.map_cons] at h
    rw [List.map_cons, lookup_cons]
    by_cases hf : f.1 = e.1
    · simp [hf]
    · rw [if_neg hf, if_neg (Ne.symm hf), ih ((List.mem_cons.1 h).resolve_left (Ne.symm hf))]

theorem lookup_replace_of_ne (files : List Entry) {e : Entry} {n : String} (h : n ≠ e.1) :
    (files.map fun f => if f.1 = e.1 then e else f).lookup n = files.lookup n := by
  induction files with
  | nil => rfl
  | cons f files ih =>
    rw [List.map_cons, lookup_cons, lookup_cons, ih]
    by_cases hf : f.1 = e.1
    · rw [if_pos hf, if_neg h, if_neg (hf ▸ h)]
    · rw [if_neg hf]

theorem lookup_insertFile (files : List Entry) (e : Entry) (n : String) :
    (ZipArchive.insertFile files e).lookup n =
      if n = e.1 then some e.2 else files.lookup n := by
  unfold ZipArchive.insertFile
  by_cases hold : e.1 ∈ files.map Prod.fst
  · rw [if_pos hold]
    by_cases hn : n = e.1
    · rw [if_pos hn, hn, lookup_replace_self hold]
    · rw [if_neg hn, lookup_replace_of_ne files hn]
  · rw [if_neg hold, lookup_append, lookup_cons]
    by_cases hn : n = e.1
    · rw [if_pos hn, if_pos hn, hn, lookup_eq_none hold, Option.none_or]
    · rw [if_neg hn, if_neg hn, List.lookup_nil, Option.or_none]

theorem ZipArchive.new_append (entries : List Entry) (e : Entry) :
    ZipArchive.new (entries ++ [e]) = (ZipArchive.new entries).insert e := by
  simp [ZipArchive.new]

theorem mem_fileNames (entries : List Entry) (n : String) :
    n ∈ (ZipArchive.new entries).fileNames ↔ n ∈ entries.map Prod.fst := by
  induction entries using List.reverseRecOn with
  | nil => rfl
  | append_singleton entries e ih =>
    rw [ZipArchive.new_append]
    simp only [ZipArchive.fileNames, ZipArchive.insert, ZipArchive.map_fst_insertFile] at ih ⊢
    rw [List.map_append, List.mem_append, ← ih]
    split
    · rename_i h
      refine ⟨.inl, ?_⟩
      rintro (hn | hn)
      · exact hn
      · rwa [List.mem_singleton.1 hn]
    · exact List.mem_append

theorem lookup_new (entries : List Entry) (n : String) :
    (ZipArchive.new entries).files.lookup n = entries.reverse.lookup n := by
  induction entries using List.reverseRecOn with
  | nil => rfl
  | append_singleton entries e ih =>
    rw [ZipArchive.new_append, List.reverse_append]
    simp only [ZipArchive.insert, lookup_insertFile, ih]
    exact (lookup_cons e entries.reverse n).symm

/-! ## The loops -/

/-- Every name is taken out of the set once, and nothing is left. -/
theorem checkNames_eq_ok {expected : NameSet} {files : List String} :
    (∃ left, checkNames expected files = .ok left ∧ left.names = []) ↔
      (∀ f ∈ files, '/' ∉ f.toList) ∧ files.Perm expected.names := by
  induction files generalizing expected with
  | nil =>
    simp only [checkNames, Except.ok.injEq, exists_eq_left', List.not_mem_nil, false_implies,
      implies_true, true_and]
    exact ⟨fun h => h ▸ .refl _, fun h => h.nil_eq.symm⟩
  | cons f files ih =>
    rw [List.forall_mem_cons, List.cons_perm_iff_perm_erase]
    by_cases hslash : '/' ∈ f.toList
    · simp [checkNames, hslash]
    · by_cases hmem : f ∈ expected.names
      · have hstep : checkNames expected (f :: files) =
            checkNames (expected.remove f).2 files := by
          simp [checkNames, hslash, hmem, NameSet.remove]
        rw [hstep, ih]
        simp only [hslash, not_false_eq_true, true_and, hmem, NameSet.remove]
      · simp [checkNames, hslash, hmem, NameSet.remove]

theorem checkContents_eq_ok {sha256 : Bytes → Bytes} {z : ZipArchive} {files : List String} :
    checkContents sha256 z files = .ok () ↔
      ∀ f ∈ files, ∃ c, z.files.lookup f = some c ∧ toHex (sha256 c) = f := by
  induction files with
  | nil => simp [checkContents]
  | cons f files ih =>
    rw [List.forall_mem_cons, ← ih]
    cases hname : z.files.lookup f with
    | none => simp [checkContents, ZipArchive.byName, hname, bind, Except.bind]
    | some c =>
      by_cases hhash : toHex (sha256 c) = f
      · simp [checkContents, ZipArchive.byName, hname, hhash, bind, Except.bind]
      · simp [checkContents, ZipArchive.byName, hname, hhash, bind, Except.bind, throw,
          throwThe, MonadExceptOf.throw]

/-! ## The verdict -/

/-- The names in the map are the expected ones, as sets. -/
theorem perm_fileNames_iff {entries : List Entry} {expected : NameSet} :
    (ZipArchive.new entries).fileNames.Perm expected.names ↔
      ∀ n, n ∈ entries.map Prod.fst ↔ n ∈ expected.names := by
  have hnodup : (ZipArchive.new entries).fileNames.Nodup := (ZipArchive.new entries).nodup
  rw [List.perm_ext_iff_of_nodup hnodup expected.nodup]
  simp only [mem_fileNames]

/-- The verdict in full, the second loop after the first. -/
theorem validateArchive_loops {sha256 : Bytes → Bytes} {entries : List Entry}
    {expected : NameSet} : validateArchive sha256 entries expected = .ok () ↔
      (∃ left, checkNames expected (ZipArchive.new entries).fileNames = .ok left ∧
        left.names = []) ∧
      checkContents sha256 (ZipArchive.new entries) (ZipArchive.new entries).fileNames =
        .ok () := by
  cases hcheck : checkNames expected (ZipArchive.new entries).fileNames with
  | error e => simp [validateArchive, hcheck, bind, Except.bind]
  | ok left =>
    by_cases hleft : left.names = []
    · simp [validateArchive, hcheck, hleft, bind, Except.bind]
    · simp [validateArchive, hcheck, hleft, bind, Except.bind, throw, throwThe,
        MonadExceptOf.throw]

theorem validateArchive_eq_ok {sha256 : Bytes → Bytes} {entries : List Entry}
    {expected : NameSet} :
    validateArchive sha256 entries expected = .ok () ↔ LastExact sha256 entries expected := by
  rw [validateArchive_loops, checkNames_eq_ok, perm_fileNames_iff, checkContents_eq_ok]
  simp only [mem_fileNames, lookup_new]
  constructor
  · rintro ⟨⟨hflat, hmem⟩, hhash⟩
    refine ⟨hmem, fun e he => hflat e.1 (List.mem_map_of_mem he), fun n c hc => ?_⟩
    have hn : n ∈ entries.map Prod.fst :=
      List.mem_map_of_mem (List.mem_reverse.1 (mem_of_lookup hc))
    obtain ⟨c', hc', hash⟩ := hhash n hn
    rw [hc] at hc'
    cases hc'
    exact hash
  · rintro ⟨hmem, hflat, hhash⟩
    refine ⟨⟨?_, hmem⟩, fun n hn => ?_⟩
    · intro n hn
      obtain ⟨e, he, rfl⟩ := List.mem_map.1 hn
      exact hflat e he
    · obtain ⟨c, hc⟩ := @exists_lookup entries.reverse n (by simpa using hn)
      exact ⟨c, hc, hhash n c hc⟩

theorem exact_iff {sha256 : Bytes → Bytes} {entries : List Entry} {expected : NameSet} :
    Exact sha256 entries expected ↔
      (entries.map Prod.fst).Nodup ∧ LastExact sha256 entries expected := by
  constructor
  · rintro ⟨hperm, hflat, hhash⟩
    refine ⟨hperm.nodup_iff.2 expected.nodup, fun n => hperm.mem_iff, hflat, fun n c hc => ?_⟩
    exact hhash (n, c) (List.mem_reverse.1 (mem_of_lookup hc))
  · rintro ⟨hnodup, hmem, hflat, hhash⟩
    refine ⟨(List.perm_ext_iff_of_nodup hnodup expected.nodup).2 hmem, hflat, fun e he => ?_⟩
    obtain ⟨c, hc⟩ := @exists_lookup entries.reverse e.1 (by
      simpa using ⟨e.2, he⟩)
    have hsame : (e.1, c) = e := List.inj_on_of_nodup_map hnodup
      (List.mem_reverse.1 (mem_of_lookup hc)) he rfl
    have hash := hhash e.1 c hc
    rwa [← hsame]

/-- The verdict is exact on the archives that repeat no name, and on those that it
rejects for another reason. -/
theorem validateArchive_exact_iff (sha256 : Bytes → Bytes) (entries : List Entry)
    (expected : NameSet) :
    (validateArchive sha256 entries expected = .ok () ↔ Exact sha256 entries expected) ↔
      (entries.map Prod.fst).Nodup ∨ ¬ LastExact sha256 entries expected := by
  rw [validateArchive_eq_ok, exact_iff]
  by_cases hnodup : (entries.map Prod.fst).Nodup
  · simp [hnodup]
  · simp [hnodup]

/-! ## A repeated name -/

theorem hexDigit_ne_slash : ∀ n < 16, hexDigit n ≠ '/' := by decide

theorem slash_notMem_toHex (bytes : Bytes) : '/' ∉ (toHex bytes).toList := by
  intro h
  rw [toHex, String.toList_ofList] at h
  obtain ⟨b, -, hb⟩ := List.mem_flatMap.1 h
  have hlt := b.toNat_lt
  simp only [List.mem_cons, List.not_mem_nil, or_false] at hb
  rcases hb with hb | hb
  · exact hexDigit_ne_slash (b.toNat / 16) (by omega) hb.symm
  · exact hexDigit_ne_slash (b.toNat % 16) (by omega) hb.symm

/-- An entry under its hash, twice. -/
theorem validateArchive_twice (sha256 : Bytes → Bytes) (content : Bytes) :
    validateArchive sha256 [(toHex (sha256 content), content), (toHex (sha256 content), content)]
      ⟨[toHex (sha256 content)], by simp⟩ = .ok () := by
  refine validateArchive_eq_ok.2 ⟨by simp, ?_, fun n c h => ?_⟩
  · simp [slash_notMem_toHex]
  · have hmem := mem_of_lookup h
    simp only [List.reverse_cons, List.reverse_nil, List.nil_append, List.cons_append,
      List.mem_cons, Prod.mk.injEq, List.not_mem_nil, or_false, or_self] at hmem
    obtain ⟨rfl, rfl⟩ := hmem
    rfl

/-- The digest of the empty content. -/
def emptyDigest : Bytes :=
  [0xe3, 0xb0, 0xc4, 0x42, 0x98, 0xfc, 0x1c, 0x14, 0x9a, 0xfb, 0xf4, 0xc8, 0x99, 0x6f, 0xb9, 0x24,
    0x27, 0xae, 0x41, 0xe4, 0x64, 0x9b, 0x93, 0x4c, 0xa4, 0x95, 0x99, 0x1b, 0x78, 0x52, 0xb8, 0x55]

/-- Two entries, both named with the digest of the empty content. -/
theorem validateArchive_not_exact : ¬ ∀ (entries : List Entry) (expected : NameSet),
    validateArchive (fun _ => emptyDigest) entries expected = .ok () ↔
      Exact (fun _ => emptyDigest) entries expected := by
  intro h
  have hexact := (h _ _).1 (validateArchive_twice (fun _ => emptyDigest) [])
  have hlength := hexact.perm.length_eq
  simp at hlength

end S3Archive.ControlLambda
