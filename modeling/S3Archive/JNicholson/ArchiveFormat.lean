import S3Archive.JNicholson.ZipWriter
import Mathlib.Data.List.Induction

/-!
# j-nicholson98: the archive reads back

The writer's records as the fixed layouts of `S3Archive.Zip.Record`, and the
whole archive read through its end records. `assemble_readsBack_iff` says when
that gives back every item: unless an item of exactly `2 ^ 32 - 1` bytes has its
local header above `2 ^ 32 - 1`, because its size then reads as a sentinel while
the extra field holds the offset only.
-/

namespace S3Archive.JNicholson

open Zip (StoredFile SizeLost ones storedContents storedDirectory storedAt)

theorem ones_four : ones 4 = u32Max := by decide

theorem ones_two : ones 2 = u16Max := by decide

/-! ## Layouts -/

theorem pack_eq_some {w v : Nat} {bs : Bytes} :
    pack w v = some bs ↔ v < 256 ^ w ∧ bs = leBytes w v := by
  unfold pack
  split <;> simp_all [eq_comm]

theorem and_mask (crc : UInt32) : crc.toNat &&& 0xFFFFFFFF = crc.toNat := by
  have hmask : crc.toNat &&& 2 ^ 32 - 1 = crc.toNat % 2 ^ 32 := Nat.and_two_pow_sub_one_eq_mod _ 32
  rwa [Nat.mod_eq_of_lt crc.toNat_lt] at hmask

def localRecord (f : StoredFile) : Zip.LocalHeader where
  version := versionBase
  flags := 0x0800
  method := 0
  time := dosTime
  date := dosDate
  crc := f.crc.toNat
  compressed := f.body.length
  uncompressed := f.body.length
  name := f.name
  extra := []

def centralRecord (off : Nat) (f : StoredFile) : Zip.CentralHeader where
  madeBy := versionMade
  version := if off > u32Max then versionZ64 else versionBase
  flags := 0x0800
  method := 0
  time := dosTime
  date := dosDate
  crc := f.crc.toNat
  compressed := f.body.length
  uncompressed := f.body.length
  disk := 0
  internal := 0
  external := 0
  offset := min off (ones 4)
  name := f.name
  extra := Zip.wideOffset off
  comment := []

def loc (f : StoredFile) : Bytes := (localRecord f).encode

def cen (off : Nat) (f : StoredFile) : Bytes := (centralRecord off f).encode

section

variable {f : StoredFile} {off : Nat} {bs : Bytes}

theorem localFileHeader_eq_some : localFileHeader f.name f.crc.toNat f.body.length = some bs ↔
    (f.body.length < 2 ^ 32 ∧ f.name.length < 2 ^ 16) ∧ bs = loc f := by
  have hsig : leBytes 4 sigLocal = Zip.localSig := by decide
  unfold localFileHeader
  simp only [Option.bind_eq_bind, Option.bind_eq_some_iff, pack_eq_some, Option.pure_def,
    Option.some.injEq, and_assoc, exists_and_left, exists_eq_left, hsig, and_mask]
  refine and_congr_right fun _ => and_congr_right fun _ => ?_
  rw [eq_comm]
  simp [loc, Zip.LocalHeader.encode, localRecord]

theorem wideOffset_of_gt (h : off > u32Max) :
    Zip.wideOffset off = List.flatten [leBytes 2 0x0001, leBytes 2 8, leBytes 8 off] := by
  rw [Zip.wideOffset, ones_four, if_pos h]
  simp [Zip.zip64Extra]

theorem wideOffset_of_le (h : ¬ off > u32Max) : Zip.wideOffset off = [] := by
  rw [Zip.wideOffset, ones_four, if_neg h]

theorem centralDirHeader_eq_some :
    centralDirHeader f.name f.crc.toNat f.body.length off = some bs ↔
      (off < 2 ^ 64 ∧ f.body.length < 2 ^ 32 ∧ f.name.length < 2 ^ 16) ∧ bs = cen off f := by
  have hsig : leBytes 4 sigCentral = Zip.centralSig := by decide
  unfold centralDirHeader cen Zip.CentralHeader.encode centralRecord
  dsimp only
  by_cases ho : off > u32Max
  · have hmin : min off (ones 4) = u32Max := by
      rw [ones_four]
      omega
    simp only [if_pos ho, Option.bind_eq_bind, Option.bind_eq_some_iff, pack_eq_some,
      Option.pure_def, Option.some.injEq, Option.bind_some, and_assoc, exists_and_left,
      exists_eq_left, hsig, and_mask, hmin, wideOffset_of_gt ho]
    refine and_congr_right fun _ => and_congr_right fun _ => and_congr_right fun _ => ?_
    rw [eq_comm]
    simp
  · have hoff : off < 2 ^ 64 := by
      unfold u32Max at ho
      omega
    have hmin : min off (ones 4) = off := by
      rw [ones_four]
      omega
    simp only [if_neg ho, Option.bind_eq_bind, Option.bind_eq_some_iff, pack_eq_some,
      Option.pure_def, Option.some.injEq, Option.bind_some, and_assoc, exists_and_left,
      exists_eq_left, hsig, and_mask, hmin, wideOffset_of_le ho]
    rw [and_iff_right hoff]
    refine and_congr_right fun _ => and_congr_right fun _ => ?_
    rw [eq_comm]
    simp

end

theorem zip64Eocd_eq_some {count cdSize cdOffset : Nat} {bs : Bytes} :
    zip64Eocd count cdSize cdOffset = some bs ↔
      (count < 2 ^ 64 ∧ cdSize < 2 ^ 64 ∧ cdOffset < 2 ^ 64) ∧
        bs = Zip.EndHeader.encode64 ⟨0, 0, count, count, cdSize, cdOffset⟩ versionMade
          versionZ64 := by
  have hsig : leBytes 4 sigZ64Eocd = Zip.zip64EndSig := by decide
  unfold zip64Eocd
  simp only [Option.bind_eq_bind, Option.bind_eq_some_iff, pack_eq_some, Option.pure_def,
    Option.some.injEq, and_assoc, exists_and_left, exists_eq_left, hsig]
  refine and_congr_right fun _ => and_congr_right fun _ => and_congr_right fun _ => ?_
  rw [eq_comm]
  rfl

theorem zip64EocdLocator_eq_some {offset : Nat} {bs : Bytes} :
    zip64EocdLocator offset = some bs ↔ offset < 2 ^ 64 ∧ bs = Zip.encodeLocator 0 offset 1 := by
  have hsig : leBytes 4 sigZ64Loc = Zip.locatorSig := by decide
  unfold zip64EocdLocator
  simp only [Option.bind_eq_bind, Option.bind_eq_some_iff, pack_eq_some, Option.pure_def,
    Option.some.injEq, and_assoc, exists_and_left, exists_eq_left, hsig]
  refine and_congr_right fun _ => ?_
  rw [eq_comm]
  rfl

/-- The end record, each field capped at its sentinel. -/
def cappedRecord (count cdSize cdOffset : Nat) : Zip.EndHeader :=
  ⟨0, 0, min count (ones 2), min count (ones 2), min cdSize (ones 4), min cdOffset (ones 4)⟩

theorem eocd_eq_encode (count cdSize cdOffset : Nat) :
    eocd count cdSize cdOffset = (cappedRecord count cdSize cdOffset).encode := by
  have hsig : leBytes 4 sigEocd = Zip.endSig := by decide
  have hcap (v : Nat) : (if v ≤ u32Max then v else u32Max) = min v (ones 4) := by
    rw [ones_four]
    split <;> omega
  unfold eocd Zip.EndHeader.encode cappedRecord
  rw [hsig, hcap, hcap, ones_two]

/-! ## The end records of the stream -/

/-- A value of the end record does not fit. -/
abbrev NeedsZip64 (count cdSize cdOffset : Nat) : Prop :=
  cdOffset > u32Max ∨ cdSize > u32Max ∨ count > u16Max

/-- What `finish` writes after the directory. -/
def endBytes (count cdSize cdOffset : Nat) : Bytes :=
  (if NeedsZip64 count cdSize cdOffset then
    Zip.EndHeader.encode64 ⟨0, 0, count, count, cdSize, cdOffset⟩ versionMade versionZ64 ++
      Zip.encodeLocator 0 (cdOffset + cdSize) 1
  else []) ++ (cappedRecord count cdSize cdOffset).encode

theorem readEnds_endBytes {pre : Bytes} {count cdSize cdOffset : Nat}
    (hpre : pre.length = cdOffset + cdSize) (hlen : cdOffset + cdSize < 2 ^ 64)
    (hcount : count < 2 ^ 64) :
    Zip.readEnds (pre ++ endBytes count cdSize cdOffset) = some ⟨count, cdSize, cdOffset⟩ := by
  unfold endBytes
  by_cases hz : NeedsZip64 count cdSize cdOffset
  · rw [if_pos hz]
    exact Zip.readEnds_capped versionMade versionZ64 hpre (by omega) hcount
  · have hentry : (cappedRecord count cdSize cdOffset).entry = ⟨count, cdSize, cdOffset⟩ := by
      unfold NeedsZip64 u32Max u16Max at hz
      unfold cappedRecord Zip.EndHeader.entry
      rw [ones_two, ones_four]
      unfold u32Max u16Max
      congr 1 <;> dsimp only <;> omega
    rw [if_neg hz, List.nil_append, Zip.readEnds_literal, hentry]
    rw [hentry, hpre]

/-! ## The assembler's stream -/

/-- An item as an entry of a stored archive. -/
def stored (item : Item) : StoredFile := ⟨utf8 item.name, item.crc, item.body⟩

/-- The values of an item fit their fields. -/
def Fits (f : StoredFile) : Prop := f.body.length < 2 ^ 32 ∧ f.name.length < 2 ^ 16

/-- The assembler has written the files' headers and bodies. -/
structure Holds (partSize : Nat) (z : Zip64Assembler) (files : List StoredFile) : Prop where
  filled : z.sink.Filled partSize (storedContents loc files)
  central_eq : z.central = (storedAt loc files).map fun q => cen q.1 q.2
  count_eq : z.count = files.length

section

variable {partSize : Nat} {z : Zip64Assembler} {files : List StoredFile}

theorem Holds.nil (hP : 0 < partSize) : Holds partSize { sink := { partSize } } [] :=
  ⟨.new hP, rfl, rfl⟩

theorem Holds.tell (h : Holds partSize z files) :
    z.sink.tell = (storedContents loc files).length := h.filled.tell

/-- The assembler after one more item. -/
def pushed (z : Zip64Assembler) (f : StoredFile) : Zip64Assembler where
  sink := (z.sink.write (loc f)).write f.body
  central := z.central ++ [cen z.sink.tell f]
  count := z.count + 1

theorem push_eq_some {item : Item} {z' : Zip64Assembler} :
    push z item = some z' ↔
      (Fits (stored item) ∧ z.sink.tell < 2 ^ 64) ∧ z' = pushed z (stored item) := by
  have hloc := fun bs => @localFileHeader_eq_some (stored item) bs
  have hcen := fun bs => @centralDirHeader_eq_some (stored item) z.sink.tell bs
  unfold stored at hloc hcen
  dsimp only at hloc hcen
  unfold push Zip64Assembler.addSegments Zip64Assembler.record
  simp only [Option.bind_eq_bind, Option.bind_eq_some_iff, hloc, hcen, Option.pure_def,
    Option.some.injEq]
  constructor
  · rintro ⟨_, ⟨hfits, rfl⟩, _, ⟨⟨htell, _⟩, rfl⟩, rfl⟩
    exact ⟨⟨hfits, htell⟩, rfl⟩
  · rintro ⟨⟨hfits, htell⟩, rfl⟩
    exact ⟨_, ⟨hfits, rfl⟩, _, ⟨⟨htell, hfits⟩, rfl⟩, rfl⟩

theorem storedAt_snoc (files : List StoredFile) (f : StoredFile) :
    storedAt loc (files ++ [f]) = storedAt loc files ++ [((storedContents loc files).length, f)] := by
  rw [storedAt, offsetsFrom_append, Nat.zero_add, Zip.length_storedContents]
  rfl

theorem storedContents_snoc (files : List StoredFile) (f : StoredFile) :
    storedContents loc (files ++ [f]) = storedContents loc files ++ loc f ++ f.body := by
  simp [storedContents]

theorem Holds.push (h : Holds partSize z files) (f : StoredFile) :
    Holds partSize (pushed z f) (files ++ [f]) := by
  refine ⟨?_, ?_, ?_⟩
  · rw [storedContents_snoc]
    exact (h.filled.write (loc f)).write f.body
  · rw [storedAt_snoc, List.map_append, ← h.central_eq, ← h.tell]
    rfl
  · rw [List.length_append, ← h.count_eq]
    rfl

/-- The loop over the items. -/
theorem pushes_eq_some (hP : 0 < partSize) {items : List Item} :
    items.foldlM push { sink := { partSize } } = some z →
      (∀ item ∈ items, Fits (stored item)) ∧ Holds partSize z (items.map stored) := by
  induction items using List.reverseRecOn generalizing z with
  | nil =>
    intro h
    cases h
    exact ⟨by simp, .nil hP⟩
  | append_singleton items item ih =>
    intro h
    simp only [List.foldlM_append, List.foldlM_cons, List.foldlM_nil, Option.bind_eq_bind,
      Option.bind_eq_some_iff, push_eq_some, Option.pure_def, Option.some.injEq] at h
    obtain ⟨z₁, h₁, _, ⟨⟨hfits, -⟩, rfl⟩, rfl⟩ := h
    obtain ⟨hall, hholds⟩ := ih h₁
    refine ⟨?_, by simpa using hholds.push (stored item)⟩
    intro x hx
    rcases List.mem_append.1 hx with hx | hx
    · exact hall x hx
    · rwa [List.mem_singleton.1 hx]

theorem exists_pushes (hP : 0 < partSize) {items : List Item}
    (hfits : ∀ item ∈ items, Fits (stored item))
    (hlen : (storedContents loc (items.map stored)).length < 2 ^ 64) :
    ∃ z, items.foldlM push { sink := { partSize } } = some z := by
  induction items using List.reverseRecOn with
  | nil => exact ⟨_, rfl⟩
  | append_singleton items item ih =>
    rw [List.map_append, List.map_cons, List.map_nil, storedContents_snoc, List.length_append,
      List.length_append] at hlen
    obtain ⟨z₁, h₁⟩ := ih (fun x hx => hfits x (List.mem_append_left _ hx)) (by omega)
    have htell := (pushes_eq_some hP h₁).2.tell
    refine ⟨pushed z₁ (stored item), ?_⟩
    simp only [List.foldlM_append, List.foldlM_cons, List.foldlM_nil, Option.bind_eq_bind,
      Option.bind_eq_some_iff, push_eq_some, Option.pure_def, Option.some.injEq]
    refine ⟨z₁, h₁, _, ⟨⟨hfits item ?_, ?_⟩, rfl⟩, rfl⟩
    · exact List.mem_append_right _ List.mem_cons_self
    · omega

/-! ## Finishing -/

/-- The stream up to the end of the directory. -/
def untilEnds (files : List StoredFile) : Bytes :=
  storedContents loc files ++ storedDirectory loc cen files

/-- The whole stream. -/
def stream (files : List StoredFile) : Bytes :=
  untilEnds files ++ endBytes files.length (storedDirectory loc cen files).length
    (storedContents loc files).length

theorem writeZip64_eq_some {sink sink' : PartChunker} {count cdSize cdOffset : Nat} :
    Zip64Assembler.writeZip64 sink count cdSize cdOffset = some sink' ↔
      (count < 2 ^ 64 ∧ cdSize < 2 ^ 64 ∧ cdOffset < 2 ^ 64 ∧ sink.tell < 2 ^ 64) ∧
        sink' = (sink.write (Zip.EndHeader.encode64 ⟨0, 0, count, count, cdSize, cdOffset⟩
          versionMade versionZ64)).write (Zip.encodeLocator 0 sink.tell 1) := by
  unfold Zip64Assembler.writeZip64
  simp only [Option.bind_eq_bind, Option.bind_eq_some_iff, zip64Eocd_eq_some,
    zip64EocdLocator_eq_some, Option.pure_def, Option.some.injEq]
  constructor
  · rintro ⟨_, ⟨⟨hc, hs, ho⟩, rfl⟩, _, ⟨ht, rfl⟩, rfl⟩
    exact ⟨⟨hc, hs, ho, ht⟩, rfl⟩
  · rintro ⟨⟨hc, hs, ho, ht⟩, rfl⟩
    exact ⟨_, ⟨⟨hc, hs, ho⟩, rfl⟩, _, ⟨ht, rfl⟩, rfl⟩

/-- The sink after the directory was written. -/
theorem Holds.directory (h : Holds partSize z files) :
    (z.central.foldl PartChunker.write z.sink).Filled partSize (untilEnds files) := by
  have hwrites := h.filled.writes z.central
  have hflat : z.central.flatten = storedDirectory loc cen files := by
    rw [h.central_eq, storedDirectory, List.flatMap_def]
  rwa [hflat] at hwrites

/-- `finish` after the directory: the ZIP64 records when they are needed, and the end record. -/
theorem finish_eq (h : Holds partSize z files) {count cdSize cdOffset : Nat}
    (hc : count = files.length) (hs : cdSize = (storedDirectory loc cen files).length)
    (ho : cdOffset = (storedContents loc files).length) :
    z.finish =
      (if NeedsZip64 count cdSize cdOffset then
        Zip64Assembler.writeZip64 (z.central.foldl PartChunker.write z.sink) count cdSize cdOffset
      else some (z.central.foldl PartChunker.write z.sink)).bind
        fun sink => some (sink.write (eocd count cdSize cdOffset)) := by
  have hsize : (z.central.foldl PartChunker.write z.sink).tell - cdOffset = cdSize := by
    rw [h.directory.tell, untilEnds, List.length_append, ← hs, ← ho]
    omega
  have hoff : z.sink.tell = cdOffset := h.tell.trans ho.symm
  have hcount : z.count = count := h.count_eq.trans hc.symm
  unfold Zip64Assembler.finish
  simp only [hoff, hsize, hcount]
  by_cases hz : NeedsZip64 count cdSize cdOffset
  · rw [if_pos hz, if_pos hz]
    rfl
  · rw [if_neg hz, if_neg hz]
    rfl

/-- When `finish` does not raise, the directory ends below `2 ^ 64` and the stream is complete. -/
theorem finish_filled (h : Holds partSize z files) {sink : PartChunker}
    (hfin : z.finish = some sink) :
    (untilEnds files).length < 2 ^ 64 ∧ sink.Filled partSize (stream files) := by
  have hfilled := h.directory
  have htell := hfilled.tell
  have hlen : (untilEnds files).length =
      (storedContents loc files).length + (storedDirectory loc cen files).length :=
    List.length_append
  rw [finish_eq h rfl rfl rfl] at hfin
  unfold stream endBytes
  rw [← eocd_eq_encode]
  split at hfin
  case isTrue hz =>
    simp only [Option.bind_eq_some_iff, writeZip64_eq_some, Option.some.injEq] at hfin
    obtain ⟨_, ⟨⟨-, -, -, ht⟩, rfl⟩, rfl⟩ := hfin
    rw [htell] at ht ⊢
    rw [if_pos hz, ← hlen, ← List.append_assoc, ← List.append_assoc]
    exact ⟨ht, ((hfilled.write _).write _).write _⟩
  case isFalse hz =>
    rw [Option.bind_some, Option.some.injEq] at hfin
    subst hfin
    rw [if_neg hz, List.nil_append]
    refine ⟨?_, hfilled.write _⟩
    unfold NeedsZip64 u32Max at hz
    omega

/-- Each directory record takes at least a byte. -/
theorem length_le_storedDirectory (files : List StoredFile) :
    files.length ≤ (storedDirectory loc cen files).length := by
  have hle : ∀ qs : List (Nat × StoredFile),
      qs.length ≤ (qs.flatMap fun q => cen q.1 q.2).length := by
    intro qs
    induction qs with
    | nil => exact Nat.le_refl _
    | cons q qs ih =>
      rw [List.flatMap_cons, List.length_append, List.length_cons, cen,
        Zip.CentralHeader.length_encode]
      omega
  have := hle (storedAt loc files)
  rwa [Zip.length_storedAt] at this

theorem exists_finish (h : Holds partSize z files) (hlen : (untilEnds files).length < 2 ^ 64) :
    ∃ sink, z.finish = some sink := by
  have htell := h.directory.tell
  have hcount := length_le_storedDirectory files
  rw [untilEnds, List.length_append] at hlen htell
  rw [finish_eq h rfl rfl rfl]
  split
  case isTrue hz =>
    refine ⟨_, Option.bind_eq_some_iff.2 ⟨_, writeZip64_eq_some.2 ⟨⟨?_, ?_, ?_, ?_⟩, rfl⟩, rfl⟩⟩
    all_goals omega
  case isFalse hz => exact ⟨_, rfl⟩

end

/-! ## The parts -/

/-- The parts that are uploaded cut the stream. -/
theorem assemble_eq_some {partSize : Nat} (hP : 0 < partSize) {items : List Item}
    {uploaded : List (Nat × Bytes)} (h : assemble partSize items = some uploaded) :
    (∀ item ∈ items, Fits (stored item)) ∧ (untilEnds (items.map stored)).length < 2 ^ 64 ∧
      IsChunking partSize (uploaded.map Prod.snd) (stream (items.map stored)) ∧
      uploaded.map Prod.fst = List.range' 1 uploaded.length ∧ uploaded ≠ [] := by
  simp only [assemble, Option.bind_eq_bind, Option.bind_eq_some_iff, Option.pure_def,
    Option.some.injEq] at h
  obtain ⟨z, hz, sink, hsink, rfl⟩ := h
  obtain ⟨hfits, hholds⟩ := pushes_eq_some hP hz
  obtain ⟨hlen, hfilled⟩ := finish_filled hholds hsink
  exact ⟨hfits, hlen, hfilled.flushFinal⟩

theorem exists_assemble {partSize : Nat} (hP : 0 < partSize) {items : List Item}
    (hfits : ∀ item ∈ items, Fits (stored item))
    (hlen : (untilEnds (items.map stored)).length < 2 ^ 64) :
    ∃ uploaded, assemble partSize items = some uploaded := by
  have hcontents : (storedContents loc (items.map stored)).length < 2 ^ 64 := by
    rw [untilEnds, List.length_append] at hlen
    omega
  obtain ⟨z, hz⟩ := exists_pushes hP hfits hcontents
  obtain ⟨sink, hsink⟩ := exists_finish (pushes_eq_some hP hz).2 hlen
  refine ⟨sink.flushFinal.uploaded, ?_⟩
  simp only [assemble, hz, hsink, Option.bind_eq_bind, Option.bind_some, Option.pure_def]

end S3Archive.JNicholson
