import S3Archive.JrodonV3.ZipLayout

/-!
# jrodon-v3: what a layout guarantees

A `Duo` carries the size facts that make it two legal parts of a multipart
upload. A `Plan` of a list of files is some Duos, the files of a folded Single
and the files still in the queue, together a permutation of the files. Each pass
of `ZipLayout` takes a plan to a plan, so `fromFilesInfo` is the Duos of a plan
followed by Singles (`fromFilesInfo_eq`).
-/

namespace S3Archive.JrodonV3

open FileEntry
open RegularZipPart (partSize)

@[simp] theorem partSize_nil : partSize [] = 0 := rfl

@[simp] theorem partSize_append (r s : RegularZipPart) :
    partSize (r ++ s) = partSize r + partSize s := by
  simp [partSize]

@[simp] theorem partSize_singleton (f : FileEntry) : partSize [f] = f.entrySize := by
  simp [partSize]

def ZipLayoutPart.files : ZipLayoutPart → List FileEntry
  | .single r => r
  | .duo r (.fullCopy f) => r ++ [f]
  | .duo r (.partialCopy f _) => r ++ [f]

/-! ## Duos -/

/-- An upload part (`regular`, the header of `big`, its first `start` bytes) and a copy part
(`big` from `start` on). -/
structure Duo where
  regular : RegularZipPart
  big : FileEntry
  start : Nat
  upload_floor : minPartSize ≤ partSize regular + big.locSize + start
  /-- No more of the large file is downloaded than the upload part needs. -/
  exact : 0 < start → partSize regular + big.locSize + start = minPartSize
  copy_floor : minPartSize + start ≤ big.size

namespace Duo

def copy (d : Duo) : CopyZipPart :=
  if d.start > 0 then .partialCopy d.big d.start else .fullCopy d.big

def part (d : Duo) : ZipLayoutPart := .duo d.regular d.copy

def files (d : Duo) : List FileEntry := d.regular ++ [d.big]

theorem files_part (d : Duo) : d.part.files = d.files := by
  unfold part copy files
  by_cases h : d.start > 0
  · rw [if_pos h]; rfl
  · rw [if_neg h]; rfl

theorem start_le (d : Duo) : d.start ≤ minPartSize := by
  rcases Nat.eq_zero_or_pos d.start with h | h
  · omega
  · have := d.exact h
    omega

/-- Move small files into the regular half; they replace downloaded bytes of the large file. -/
def pad (d : Duo) (taken : List FileEntry) : Duo where
  regular := d.regular ++ taken
  big := d.big
  start := d.start - partSize taken
  upload_floor := by
    have := d.upload_floor
    rw [partSize_append]
    omega
  exact := by
    intro h
    have := d.exact (by omega)
    rw [partSize_append]
    omega
  copy_floor := by
    have := d.copy_floor
    omega

theorem pad_nil (d : Duo) : d.pad [] = d := by
  cases d
  simp [pad]

/-- The Duo that pass 1 makes once the regular half has its minimum. -/
def new (regular : RegularZipPart) (big : FileEntry)
    (hmin : minMissingRegularPartSize big ≤ partSize regular) (hbig : minPartSize ≤ big.size) :
    Duo where
  regular := regular
  big := big
  start := copyStartByte regular big
  upload_floor := by unfold copyStartByte; omega
  exact := by unfold copyStartByte; omega
  copy_floor := by
    unfold minMissingRegularPartSize fileSize at hmin
    unfold copyStartByte
    omega

end Duo

/-! ## Bounds on the regular half -/

/-- The largest local file header. -/
def maxLocSize : Nat := 65585

theorem FileEntry.locSize_le {f : FileEntry} (h : f.name.length ≤ u16Max) :
    f.locSize ≤ maxLocSize := by
  unfold locSize LocalFileHeader.predictSize LocalFileHeader.baseLocLength
    LocalFileHeader.locZip64extLength
  have : u16Max = 65535 := rfl
  unfold maxLocSize
  split <;> omega

/-- The regular half is at most `n` bytes when the names fit their ZIP fields. -/
def Duo.Within (n : Nat) (d : Duo) : Prop :=
  (∀ f ∈ d.files, f.name.length ≤ u16Max) → partSize d.regular ≤ n

theorem Duo.Within.mono {n m : Nat} {d : Duo} (h : d.Within n) (hnm : n ≤ m) : d.Within m :=
  fun hnames => Nat.le_trans (h hnames) hnm

/-- What a loop takes of files below `size` bytes overshoots by one file. -/
theorem partSize_drain_le (need : Nat) {size : Nat} {queue : List FileEntry}
    (hsize : ∀ f ∈ queue, f.size ≤ size)
    (hnames : ∀ f ∈ (drain entrySize need queue).taken, f.name.length ≤ u16Max) :
    partSize (drain entrySize need queue).taken ≤ need + (size + maxLocSize) := by
  refine drain_sum_le fun f hf => ?_
  have hloc := FileEntry.locSize_le (hnames f hf)
  have hsz := hsize f (drain_taken_subset _ _ _ hf)
  unfold entrySize
  omega

theorem Duo.within_pad {n m size need : Nat} {d : Duo} {queue : List FileEntry}
    (hd : d.Within n) (hsize : ∀ f ∈ queue, f.size ≤ size)
    (hm : partSize d.regular ≤ n → partSize d.regular + (need + (size + maxLocSize)) ≤ m) :
    (d.pad (drain entrySize need queue).taken).Within m := by
  intro hnames
  have hreg : partSize d.regular ≤ n := by
    refine hd fun f hf => hnames f ?_
    rcases List.mem_append.1 hf with hf | hf
    · exact List.mem_append_left _ (List.mem_append_left _ hf)
    · exact List.mem_append_right _ hf
  have htaken := partSize_drain_le need hsize fun f hf =>
    hnames f (List.mem_append_left _ (List.mem_append_right _ hf))
  have := hm hreg
  show partSize (d.regular ++ _) ≤ m
  rw [partSize_append]
  omega

/-! ## Plans -/

/-- The Duos made so far, the files of a folded Single and the queue. -/
structure Plan (files : List FileInfo) where
  duos : List Duo
  folded : Option RegularZipPart
  queue : List FileEntry
  folded_last : folded ≠ none → queue = []
  perm : (duos.flatMap Duo.files ++ (folded.toList.flatten ++ queue)).Perm files

namespace Plan

variable {files : List FileInfo}

def parts (p : Plan files) : List ZipLayoutPart :=
  p.duos.map Duo.part ++ p.folded.toList.map .single

/-- The files that belong to no Duo. -/
def tail (p : Plan files) : List FileEntry := p.folded.toList.flatten ++ p.queue

/-- The files in the order of the archive. -/
def order (p : Plan files) : List FileEntry := p.duos.flatMap Duo.files ++ p.tail

end Plan

/-! ## Pass 1 -/

/-- The inner loop of pass 1 as a `drain`. -/
theorem fillRegular_eq (big : FileEntry) (regular : RegularZipPart) (entries : List FileEntry) :
    fillRegular big regular entries =
      let d := drain entrySize (minMissingRegularPartSize big - partSize regular) entries
      if d.need > 0 then (.single (regular ++ d.taken ++ [big]), [])
      else (newDuo (regular ++ d.taken) big, d.rest) := by
  induction entries generalizing regular with
  | nil =>
    unfold fillRegular
    by_cases h : partSize regular ≥ minMissingRegularPartSize big
    · rw [if_pos h, drain_nil, if_neg (by dsimp only; omega)]
      simp
    · rw [if_neg h, drain_nil, if_pos (by dsimp only; omega)]
      simp
  | cons small entries ih =>
    unfold fillRegular
    by_cases h : partSize regular ≥ minMissingRegularPartSize big
    · rw [if_pos h, Nat.sub_eq_zero_of_le h, drain_zero, if_neg (by dsimp only; omega)]
      simp
    · rw [if_neg h, ih, drain_cons (by omega), partSize_append, partSize_singleton,
        Nat.sub_sub]
      simp

theorem pass1_nil : pass1 [] = ([], []) := by
  rw [pass1]
  rfl

theorem pass1_concat (es : List FileEntry) (big : FileEntry) :
    pass1 (es ++ [big]) =
      if big.fileSize ≥ minPartSize then
        let r := fillRegular big [] es
        (r.1 :: (pass1 r.2).1, (pass1 r.2).2)
      else ([], es ++ [big]) := by
  rw [pass1]
  split
  · next h => simp at h
  · next b h =>
    obtain rfl : big = b := by simpa using h
    rw [List.dropLast_concat]

theorem le_last_of_sorted {es : List FileEntry} {big : FileEntry}
    (h : (es ++ [big]).Pairwise fun a b => a.size ≤ b.size) :
    ∀ f ∈ es ++ [big], f.size ≤ big.size := by
  intro f hf
  rcases List.mem_append.1 hf with hf | hf
  · exact (List.pairwise_append.1 h).2.2 f hf big List.mem_cons_self
  · rw [List.mem_singleton.1 hf]

/-- Pass 1 makes a plan whose queue holds only files below `MIN_PART_SIZE`. -/
theorem exists_plan_pass1 {entries : List FileEntry}
    (hsorted : entries.Pairwise fun a b => a.size ≤ b.size) :
    ∃ p : Plan entries, pass1 entries = (p.parts, p.queue) ∧
      (∀ f ∈ p.queue, f.size < minPartSize) ∧
      ∀ d ∈ p.duos, d.Within (3 * minPartSize + maxLocSize) := by
  induction hn : entries.length using Nat.strong_induction_on generalizing entries with
  | _ n ih =>
  rcases List.eq_nil_or_concat entries with rfl | ⟨es, big, rfl⟩
  · exact ⟨⟨[], none, [], fun _ => rfl, by simp⟩, pass1_nil, by simp, by simp⟩
  rw [List.concat_eq_append] at hsorted hn ⊢
  rw [pass1_concat]
  by_cases hbig : big.fileSize ≥ minPartSize
  swap
  · rw [if_neg hbig]
    refine ⟨⟨[], none, es ++ [big], fun h => absurd rfl h, by simp⟩, rfl, ?_, by simp⟩
    intro f hf
    have := le_last_of_sorted hsorted f hf
    unfold fileSize at hbig
    omega
  rw [if_pos hbig, fillRegular_eq]
  generalize hneed : minMissingRegularPartSize big - partSize [] = need
  rw [partSize_nil, Nat.sub_zero] at hneed
  dsimp only
  have happ := drain_append entrySize need es
  by_cases hd : (drain entrySize need es).need > 0
  · -- the queue ran out: everything is folded into one Single
    have hrest := drain_rest_eq_nil hd
    rw [hrest, List.append_nil] at happ
    rw [happ, if_pos hd]
    refine ⟨⟨[], some (es ++ [big]), [], fun _ => rfl, by simp⟩, ?_, by simp, by simp⟩
    simp [pass1_nil, Plan.parts]
  · -- a Duo, and pass 1 goes on with a shorter queue
    rw [if_neg hd]
    have hmin : minMissingRegularPartSize big ≤ partSize (drain entrySize need es).taken := by
      have := drain_need entrySize need es
      unfold RegularZipPart.partSize
      omega
    have hlen := (drain_rest_sublist entrySize need es).length_le
    have hsorted' := (List.pairwise_append.1 hsorted).1.sublist
      (drain_rest_sublist entrySize need es)
    obtain ⟨p, hp, hsmall, hwithin⟩ := ih _ (by simp at hn; omega) hsorted' rfl
    refine ⟨⟨Duo.new _ big hmin hbig :: p.duos, p.folded, p.queue, p.folded_last, ?_⟩, ?_,
      hsmall, ?_⟩
    · rw [List.flatMap_cons, List.append_assoc]
      refine (p.perm.append_left _).trans ?_
      show ((drain entrySize need es).taken ++ [big] ++ _).Perm _
      conv_rhs => rw [← happ]
      rw [List.append_assoc, List.append_assoc]
      exact List.perm_append_comm.append_left _
    · simp only [hp, Plan.parts, List.map_cons, List.cons_append, List.nil_append]
      rfl
    · intro d hmem
      rcases List.mem_cons.1 hmem with rfl | hmem
      swap
      · exact hwithin d hmem
      intro hnames
      show partSize (drain entrySize need es).taken ≤ _
      rcases Nat.eq_zero_or_pos need with hz | hpos
      · rw [hz, drain_zero]
        exact Nat.zero_le _
      · -- some file is missing only when `big` is smaller than two minimal parts
        have hsize : ∀ f ∈ es, f.size ≤ 2 * minPartSize := by
          intro f hf
          have := le_last_of_sorted hsorted f (List.mem_append_left _ hf)
          unfold minMissingRegularPartSize fileSize at hneed
          omega
        have := partSize_drain_le need hsize fun f hf =>
          hnames f (List.mem_append_left _ hf)
        unfold minMissingRegularPartSize at hneed
        omega

/-! ## Passes 2 and 3 -/

/-- Pad each Duo with what its missing amount takes from the queue. -/
def padDuos (need : Duo → Nat) : List Duo → List FileEntry → List Duo × List FileEntry
  | [], queue => ([], queue)
  | d :: ds, queue =>
    let r := drain entrySize (need d) queue
    (d.pad r.taken :: (padDuos need ds r.rest).1, (padDuos need ds r.rest).2)

theorem padDuos_nil (need : Duo → Nat) (ds : List Duo) : padDuos need ds [] = (ds, []) := by
  induction ds with
  | nil => rfl
  | cons d ds ih => simp [padDuos, ih, Duo.pad_nil]

theorem padDuos_perm (need : Duo → Nat) (ds : List Duo) (queue : List FileEntry) :
    ((padDuos need ds queue).1.flatMap Duo.files ++ (padDuos need ds queue).2).Perm
      (ds.flatMap Duo.files ++ queue) := by
  induction ds generalizing queue with
  | nil => exact .refl _
  | cons d ds ih =>
    unfold padDuos
    simp only [List.flatMap_cons, List.append_assoc]
    refine ((ih _).append_left _).trans ?_
    -- the files taken move from the queue to the front
    conv_rhs => rw [← drain_append entrySize (need d) queue]
    show (d.regular ++ _ ++ [d.big] ++ _).Perm (d.regular ++ [d.big] ++ _)
    simp only [List.append_assoc]
    refine List.Perm.append_left _ ?_
    have hswap : ∀ a b c e : List FileEntry, (a ++ (b ++ (c ++ e))).Perm (b ++ (c ++ (a ++ e))) := by
      intro a b c e
      simpa only [List.append_assoc] using
        (@List.perm_append_comm _ a (b ++ c)).append_right e
    exact hswap _ _ _ _

theorem padDuos_subset (need : Duo → Nat) (ds : List Duo) (queue : List FileEntry) :
    (padDuos need ds queue).2 ⊆ queue := by
  induction ds generalizing queue with
  | nil => exact List.Subset.refl _
  | cons d ds ih => exact List.Subset.trans (ih _) (drain_rest_subset _ _ _)

theorem padDuos_within {need : Duo → Nat} {n m : Nat} {ds : List Duo} {queue : List FileEntry}
    (hds : ∀ d ∈ ds, d.Within n) (hqueue : ∀ f ∈ queue, f.size < minPartSize)
    (hm : ∀ d : Duo, partSize d.regular ≤ n →
      partSize d.regular + (need d + (minPartSize + maxLocSize)) ≤ m) :
    ∀ d ∈ (padDuos need ds queue).1, d.Within m := by
  induction ds generalizing queue with
  | nil => simp [padDuos]
  | cons d ds ih =>
    intro d' hd'
    rcases List.mem_cons.1 hd' with rfl | hd'
    · exact Duo.within_pad (hds d List.mem_cons_self)
        (fun f hf => Nat.le_of_lt (hqueue f hf)) (hm d)
    · exact ih (fun e he => hds e (List.mem_cons_of_mem _ he))
        (fun f hf => hqueue f (drain_rest_subset _ _ _ hf)) d' hd'

/-- Bytes of a large file are downloaded as padding only when no small file is left. -/
theorem padDuos_start {ds : List Duo} {queue : List FileEntry} :
    ∀ d ∈ (padDuos Duo.start ds queue).1, 0 < d.start →
      (padDuos Duo.start ds queue).2 = [] := by
  induction ds generalizing queue with
  | nil => simp [padDuos]
  | cons d ds ih =>
    intro d' hd' hpos
    rcases List.mem_cons.1 hd' with rfl | hd'
    · have hneed : 0 < (drain entrySize d.start queue).need := by
        rw [drain_need]
        exact hpos
      show (padDuos Duo.start ds (drain entrySize d.start queue).rest).2 = []
      rw [drain_rest_eq_nil hneed, padDuos_nil]
    · exact ih d' hd' hpos

theorem exists_start_of_padDuos {need : Duo → Nat} {ds : List Duo} {queue : List FileEntry}
    {d : Duo} (hd : d ∈ (padDuos need ds queue).1) (hpos : 0 < d.start) :
    ∃ e ∈ ds, 0 < e.start := by
  induction ds generalizing queue with
  | nil => cases hd
  | cons e ds ih =>
    rcases List.mem_cons.1 hd with rfl | hd
    · have : 0 < e.start - _ := hpos
      exact ⟨e, List.mem_cons_self, by omega⟩
    · obtain ⟨e', he', hpos'⟩ := ih hd
      exact ⟨e', List.mem_cons_of_mem _ he', hpos'⟩

theorem pass2_singles {parts : List ZipLayoutPart} (h : ∀ p ∈ parts, ∃ r, p = .single r)
    (queue : List FileEntry) : pass2 parts queue = (parts, queue) := by
  induction parts with
  | nil => rfl
  | cons p parts ih =>
    obtain ⟨r, rfl⟩ := h p List.mem_cons_self
    rw [pass2, ih fun q hq => h q (List.mem_cons_of_mem _ hq)]
    nofun

theorem pass3_singles {parts : List ZipLayoutPart} (h : ∀ p ∈ parts, ∃ r, p = .single r)
    (queue : List FileEntry) : pass3 parts queue = (parts, queue) := by
  induction parts with
  | nil => rfl
  | cons p parts ih =>
    obtain ⟨r, rfl⟩ := h p List.mem_cons_self
    rw [pass3, ih fun q hq => h q (List.mem_cons_of_mem _ hq)]

/-- Pass 2 at one Duo; a `FullCopy` has nothing missing. -/
theorem pass2_part (d : Duo) (parts : List ZipLayoutPart) (queue : List FileEntry) :
    pass2 (d.part :: parts) queue =
      let r := drain entrySize d.start queue
      if r.need > 0 then ((d.pad r.taken).part :: parts, r.rest)
      else ((d.pad r.taken).part :: (pass2 parts r.rest).1, (pass2 parts r.rest).2) := by
  have hpad : (d.pad (drain entrySize d.start queue).taken).start =
      (drain entrySize d.start queue).need := (drain_need entrySize d.start queue).symm
  unfold Duo.part Duo.copy
  dsimp only
  rw [hpad]
  by_cases hs : d.start > 0
  · rw [if_pos hs, pass2]
    by_cases hn : (drain entrySize d.start queue).need > 0
    · simp only [if_pos hn]; rfl
    · simp only [if_neg hn]; rfl
  · obtain hz : d.start = 0 := by omega
    rw [if_neg hs, hz, drain_zero, Duo.pad_nil, pass2]
    · simp
    · nofun

theorem pass2_eq (ds : List Duo) {s : List ZipLayoutPart} (hs : ∀ p ∈ s, ∃ r, p = .single r)
    (queue : List FileEntry) :
    pass2 (ds.map Duo.part ++ s) queue =
      ((padDuos Duo.start ds queue).1.map Duo.part ++ s, (padDuos Duo.start ds queue).2) := by
  induction ds generalizing queue with
  | nil => exact pass2_singles hs queue
  | cons d ds ih =>
    rw [List.map_cons, List.cons_append, pass2_part]
    unfold padDuos
    by_cases hn : (drain entrySize d.start queue).need > 0
    · simp only [if_pos hn, drain_rest_eq_nil hn, padDuos_nil, List.map_cons, List.cons_append]
    · simp only [if_neg hn, ih, List.map_cons, List.cons_append]

/-- What pass 3 tops up. -/
def Duo.toTarget (d : Duo) : Nat := targetPartSize - partSize d.regular

/-- Pass 3 at one Duo: a `PartialCopy` stays as it is, the queue being empty. -/
theorem pass3_part (d : Duo) (parts : List ZipLayoutPart) {queue : List FileEntry}
    (h : 0 < d.start → queue = []) :
    pass3 (d.part :: parts) queue =
      let r := drain entrySize d.toTarget queue
      if r.need > 0 then ((d.pad r.taken).part :: parts, r.rest)
      else ((d.pad r.taken).part :: (pass3 parts r.rest).1, (pass3 parts r.rest).2) := by
  have hpad : ∀ taken, taken ⊆ queue → (d.pad taken).part = .duo (d.regular ++ taken) d.copy := by
    intro taken hsub
    unfold Duo.part Duo.copy
    rcases Nat.eq_zero_or_pos d.start with hz | hpos
    · have hz' : (d.pad taken).start = 0 := by
        show d.start - _ = 0
        omega
      rw [hz, hz']; rfl
    · rw [h hpos] at hsub
      rw [List.subset_nil.1 hsub, Duo.pad_nil, List.append_nil]
  have htaken := hpad _ (drain_taken_subset entrySize d.toTarget queue)
  simp only [htaken]
  rfl

theorem pass3_eq (ds : List Duo) {s : List ZipLayoutPart} (hs : ∀ p ∈ s, ∃ r, p = .single r)
    {queue : List FileEntry} (h : ∀ d ∈ ds, 0 < d.start → queue = []) :
    pass3 (ds.map Duo.part ++ s) queue =
      ((padDuos Duo.toTarget ds queue).1.map Duo.part ++ s,
        (padDuos Duo.toTarget ds queue).2) := by
  induction ds generalizing queue with
  | nil => exact pass3_singles hs queue
  | cons d ds ih =>
    rw [List.map_cons, List.cons_append, pass3_part d _ (h d List.mem_cons_self)]
    unfold padDuos
    by_cases hn : (drain entrySize d.toTarget queue).need > 0
    · simp only [if_pos hn, drain_rest_eq_nil hn, padDuos_nil, List.map_cons, List.cons_append]
    · have hrest : ∀ e ∈ ds, 0 < e.start → (drain entrySize d.toTarget queue).rest = [] := by
        intro e he hpos
        rw [h e (List.mem_cons_of_mem _ he) hpos, drain_nil]
      simp only [if_neg hn, ih hrest, List.map_cons, List.cons_append]

/-! ## The layout as a plan -/

/-- Pad the Duos of a plan. -/
def Plan.pad {files : List FileInfo} (p : Plan files) (need : Duo → Nat) : Plan files where
  duos := (padDuos need p.duos p.queue).1
  folded := p.folded
  queue := (padDuos need p.duos p.queue).2
  folded_last := by
    intro h
    rw [p.folded_last h, padDuos_nil]
  perm := by
    have hswap : ∀ a b c : List FileEntry, (a ++ (b ++ c)).Perm (b ++ (a ++ c)) := by
      intro a b c
      simpa only [List.append_assoc] using List.perm_append_comm.append_right c
    refine (hswap _ _ _).trans (.trans ?_ p.perm)
    refine .trans ?_ (hswap _ _ _)
    exact (padDuos_perm need p.duos p.queue).append_left _

theorem Plan.singles {files : List FileInfo} (p : Plan files) :
    ∀ q ∈ p.folded.toList.map ZipLayoutPart.single, ∃ r, q = .single r := by
  intro q hq
  obtain ⟨r, _, rfl⟩ := List.mem_map.1 hq
  exact ⟨r, rfl⟩

def Plan.ofPerm {files files' : List FileInfo} (p : Plan files) (h : files.Perm files') :
    Plan files' where
  duos := p.duos
  folded := p.folded
  queue := p.queue
  folded_last := p.folded_last
  perm := p.perm.trans h

/-- A bound on the regular halves of the finished layout. -/
def maxRegularSize : Nat := 6 * minPartSize + 3 * maxLocSize

/-- The parts after pass 2, and the files that pass 3 starts from. -/
def afterPass2 (files : List FileInfo) : List ZipLayoutPart × List FileEntry :=
  let p1 := pass1 (sortBySize files)
  pass2 p1.1 p1.2

/-- Passes 1 and 2 make a plan. -/
theorem exists_plan_pass2 (files : List FileInfo) :
    ∃ p : Plan (sortBySize files), afterPass2 files = (p.parts, p.queue) ∧
      (∀ f ∈ p.queue, f.size < minPartSize) ∧
      (∀ d ∈ p.duos, d.Within (5 * minPartSize + 2 * maxLocSize)) ∧
      ∀ d ∈ p.duos, 0 < d.start → p.queue = [] := by
  have hsorted : (sortBySize files).Pairwise fun a b => a.size ≤ b.size := by
    have : Std.Total fun a b : FileInfo => a.size ≤ b.size := ⟨fun a b => Nat.le_total _ _⟩
    have : IsTrans FileInfo fun a b => a.size ≤ b.size := ⟨fun a b c => Nat.le_trans⟩
    exact List.pairwise_insertionSort _ files
  obtain ⟨p, hp, hsmall, hwithin⟩ := exists_plan_pass1 hsorted
  refine ⟨p.pad Duo.start, ?_, ?_, ?_, padDuos_start⟩
  · unfold afterPass2
    simp only [hp, Plan.parts]
    exact pass2_eq _ p.singles _
  · exact fun f hf => hsmall f (padDuos_subset _ _ _ hf)
  · refine padDuos_within hwithin hsmall ?_
    intro d hd
    have := d.start_le
    omega

/-- Pass 3 after pass 2, as a plan. -/
theorem Plan.beforePass4_eq {files : List FileInfo} {p : Plan (sortBySize files)}
    (hp : afterPass2 files = (p.parts, p.queue))
    (hstart : ∀ d ∈ p.duos, 0 < d.start → p.queue = []) :
    beforePass4 files = ((p.pad Duo.toTarget).parts, (p.pad Duo.toTarget).queue) := by
  have h₃ : beforePass4 files = pass3 (afterPass2 files).1 (afterPass2 files).2 := rfl
  rw [h₃, hp]
  exact pass3_eq _ p.singles hstart

/-- Passes 1 to 3 make a plan. -/
theorem exists_plan (files : List FileInfo) :
    ∃ p : Plan files, beforePass4 files = (p.parts, p.queue) ∧
      (∀ d ∈ p.duos, d.Within maxRegularSize) ∧ ∀ d ∈ p.duos, 0 < d.start → p.queue = [] := by
  obtain ⟨p, hp, hsmall, hwithin, hstart⟩ := exists_plan_pass2 files
  have h₃ := @padDuos_within Duo.toTarget _ maxRegularSize _ _ hwithin hsmall (by
    intro d hd
    have : targetPartSize = 2 * minPartSize := by decide
    unfold Duo.toTarget maxRegularSize
    omega)
  refine ⟨(p.pad Duo.toTarget).ofPerm (List.perm_insertionSort _ _), Plan.beforePass4_eq hp hstart,
    h₃, ?_⟩
  intro d hd hpos
  -- pass 3 leaves the Duos as they are once the queue is empty
  obtain ⟨e, he, hepos⟩ := exists_start_of_padDuos hd hpos
  show (padDuos _ p.duos p.queue).2 = []
  rw [hstart e he hepos, padDuos_nil]

/-- Pass 4 groups its queue. -/
theorem exists_pass4 (queue : List FileEntry) :
    ∃ groups : List RegularZipPart, pass4 queue = groups.map .single ∧ groups.flatten = queue := by
  induction hn : queue.length using Nat.strong_induction_on generalizing queue with
  | _ n ih =>
  cases queue with
  | nil => exact ⟨[], by rw [pass4]; rfl, rfl⟩
  | cons f fs =>
    rw [pass4]
    have hlt : (drain entrySize targetPartSize (f :: fs)).rest.length < (f :: fs).length :=
      drain_rest_length_lt (by decide) (List.cons_ne_nil _ _)
    obtain ⟨groups, hg, hflat⟩ := ih _ (hn ▸ hlt) _ rfl
    refine ⟨(drain entrySize targetPartSize (f :: fs)).taken :: groups, ?_, ?_⟩
    · rw [hg, List.map_cons]
    · rw [List.flatten_cons, hflat, drain_append]

def ZipLayoutPart.singleFiles : ZipLayoutPart → List FileEntry
  | .single r => r
  | .duo _ _ => []

/-- The files that passes 1 to 3 put into no Duo. -/
def leftOver (files : List FileInfo) : List FileEntry :=
  (beforePass4 files).1.flatMap ZipLayoutPart.singleFiles ++ (beforePass4 files).2

theorem Plan.singleFiles_parts {files : List FileInfo} (p : Plan files) :
    p.parts.flatMap ZipLayoutPart.singleFiles = p.folded.toList.flatten := by
  have hduos : (p.duos.map Duo.part).flatMap ZipLayoutPart.singleFiles = [] := by
    rw [List.flatMap_eq_nil_iff]
    intro q hq
    obtain ⟨d, _, rfl⟩ := List.mem_map.1 hq
    rfl
  unfold parts
  rw [List.flatMap_append, hduos, List.nil_append]
  cases p.folded with
  | none => rfl
  | some r => rfl

/-- The layout is the Duos of a plan, then Singles with the files left over. -/
theorem fromFilesInfo_eq (files : List FileInfo) :
    ∃ (p : Plan files) (groups : List RegularZipPart),
      fromFilesInfo files = p.duos.map Duo.part ++ groups.map .single ∧
      groups.flatten = leftOver files ∧ p.tail = leftOver files ∧
      (∀ d ∈ p.duos, d.Within maxRegularSize) ∧
      ∀ d ∈ p.duos, 0 < d.start → p.queue = [] := by
  obtain ⟨p, hp, hwithin, hstart⟩ := exists_plan files
  obtain ⟨groups, hg, hflat⟩ := exists_pass4 p.queue
  have htail : p.tail = leftOver files := by
    unfold leftOver Plan.tail
    rw [hp, p.singleFiles_parts]
  refine ⟨p, p.folded.toList ++ groups, ?_, ?_, htail, hwithin, hstart⟩
  · unfold fromFilesInfo
    simp only [hp, hg, Plan.parts, List.map_append, List.append_assoc]
  · rw [← htail, List.flatten_append, hflat]
    rfl

end S3Archive.JrodonV3
