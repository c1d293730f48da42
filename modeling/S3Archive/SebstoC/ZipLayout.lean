import S3Archive.SebstoC.ZipWriter
import S3Archive.Zip.Stored
import Mathlib.Data.UInt
import Mathlib.Logic.Relation

/-!
# sebsto C: what the ZIP encoder sends

`Writes m bs`: `m` hands `bs` to the callback or returns the code of the write
that failed. Its rules follow `orReturn`. `Holds z files` is the writer after the
entries `files`, and `archive files` is all that `zip_writer_finish` leaves sent.
-/

namespace S3Archive.SebstoC

open Zip (StoredFile storedContents storedDirectory storedAt)

variable {υ : Type}

/-! ## Writes -/

/-- The callback appends to `sent` what it takes. -/
def Appends (writeFn : ZipWriteFn υ) (sent : υ → Bytes) : Prop :=
  ∀ u data eof u', writeFn u data eof = (0, u') → sent u' = sent u ++ data

/-- Calls of the callback without the end of file lead from one of its states to another. -/
def PlainWrites (writeFn : ZipWriteFn υ) : υ → υ → Prop :=
  Relation.ReflTransGen fun u u' => ∃ data, u' = (writeFn u data false).2

/-- The last of such calls failed. -/
def FailedWrite (writeFn : ZipWriteFn υ) (u u' : υ) : Prop :=
  ∃ v data, PlainWrites writeFn u v ∧ (writeFn v data false).1 ≠ 0 ∧
    u' = (writeFn v data false).2

/-- Without an error before it, `m` sends `bs` or returns the error that it leaves. -/
structure Writes (writeFn : ZipWriteFn υ) (sent : υ → Bytes) (m : ZipM υ Int) (bs : Bytes) :
    Prop where
  code : ∀ z, z.writeError = 0 → (m.run z).1 = (m.run z).2.writeError
  sends : ∀ z z', z.writeError = 0 → m.run z = (0, z') → z'.entries = z.entries ∧
    sent z'.user = sent z.user ++ bs ∧ z'.offset = z.offset + UInt64.ofNat bs.length
  plain : ∀ z, PlainWrites writeFn z.user (m.run z).2.user
  fails : ∀ z, z.writeError = 0 → (m.run z).1 ≠ 0 → FailedWrite writeFn z.user (m.run z).2.user
  total : (∀ u data, (writeFn u data false).1 = 0) → ∀ z, z.writeError = 0 → (m.run z).1 = 0

section

variable {writeFn : ZipWriteFn υ} {sent : υ → Bytes} {m next : ZipM υ Int} {b₁ b₂ : Bytes}

/-- A success leaves no error behind. -/
theorem Writes.noError (h : Writes writeFn sent m b₁) {z z' : ZipWriter υ} (hz : z.writeError = 0)
    (hrun : m.run z = (0, z')) : z'.writeError = 0 := by
  have hcode := h.code z hz
  rw [hrun] at hcode
  exact hcode.symm

/-- The calls that `m` makes; after an error the last of them failed. -/
theorem Writes.calls (h : Writes writeFn sent m b₁) {z z' : ZipWriter υ} {rc : Int}
    (hz : z.writeError = 0) (hrun : m.run z = (rc, z')) :
    PlainWrites writeFn z.user z'.user ∧ (rc ≠ 0 → FailedWrite writeFn z.user z'.user) := by
  have hplain := h.plain z
  have hfails := h.fails z hz
  rw [hrun] at hplain hfails
  exact ⟨hplain, hfails⟩

theorem run_zWrite {z : ZipWriter υ} (data : Bytes) (hz : z.writeError = 0) :
    (zWrite writeFn data).run z =
      if (writeFn z.user data false).1 ≠ 0 then
        ((writeFn z.user data false).1,
          { z with user := (writeFn z.user data false).2,
                   writeError := (writeFn z.user data false).1 })
      else
        ((writeFn z.user data false).1,
          { z with user := (writeFn z.user data false).2,
                   offset := z.offset + UInt64.ofNat data.length }) := by
  unfold zWrite
  simp only [StateT.run_bind, StateT.run_get, pure_bind, hz, ne_eq, not_true_eq_false, if_false]
  split <;> rfl

theorem run_zWrite_of_error {z : ZipWriter υ} (data : Bytes) (hz : z.writeError ≠ 0) :
    (zWrite writeFn data).run z = (z.writeError, z) := by
  unfold zWrite
  simp only [StateT.run_bind, StateT.run_get, pure_bind, if_pos hz]
  rfl

theorem run_orReturn (z : ZipWriter υ) : (orReturn m next).run z =
    if (m.run z).1 ≠ 0 then ((m.run z).2.writeError, (m.run z).2) else next.run (m.run z).2 := by
  change StateT.run (if (m.run z).1 ≠ 0 then _ else next) (m.run z).2 = _
  by_cases h : (m.run z).1 ≠ 0
  · rw [if_pos h, if_pos h]
    rfl
  · rw [if_neg h, if_neg h]

theorem Writes.zWrite (h : Appends writeFn sent) (data : Bytes) :
    Writes writeFn sent (zWrite writeFn data) data := by
  refine ⟨fun z hz => ?_, fun z z' hz hrun => ?_, fun z => ?_, fun z hz hrc => ?_,
    fun hok z hz => ?_⟩
  · rw [run_zWrite data hz]
    split
    case isTrue => rfl
    case isFalse hrc =>
      rw [not_ne_iff] at hrc
      exact hrc.trans hz.symm
  · rw [run_zWrite data hz] at hrun
    split at hrun
    case isTrue hrc => exact absurd (congrArg Prod.fst hrun) hrc
    case isFalse hrc =>
      rw [not_ne_iff] at hrc
      obtain ⟨-, rfl⟩ := Prod.mk.inj hrun
      exact ⟨rfl, h _ _ _ _ (Prod.ext hrc rfl), rfl⟩
  · by_cases hz : z.writeError = 0
    · rw [run_zWrite data hz]
      split <;> exact .single ⟨data, rfl⟩
    · rw [run_zWrite_of_error data hz]
      exact .refl
  · rw [run_zWrite data hz] at hrc ⊢
    split at hrc
    case isTrue hw =>
      rw [if_pos hw]
      exact ⟨z.user, data, .refl, hw, rfl⟩
    case isFalse hw => exact absurd hrc hw
  · rw [run_zWrite data hz, hok z.user data]
    rfl

theorem Writes.done : Writes writeFn sent (return 0) [] := by
  refine ⟨fun z hz => hz.symm, fun z z' _ hrun => ?_, fun z => .refl,
    fun _ _ h => absurd rfl h, fun _ _ _ => rfl⟩
  cases hrun
  exact ⟨rfl, (List.append_nil _).symm, (UInt64.add_zero _).symm⟩

theorem Writes.orReturn (h₁ : Writes writeFn sent m b₁) (h₂ : Writes writeFn sent next b₂) :
    Writes writeFn sent (orReturn m next) (b₁ ++ b₂) := by
  have hmid (z : ZipWriter υ) (hz : z.writeError = 0) (hrc : (m.run z).1 = 0) :
      (m.run z).2.writeError = 0 := (h₁.code z hz).symm.trans hrc
  refine ⟨fun z hz => ?_, fun z z' hz hrun => ?_, fun z => ?_, fun z hz hrc => ?_,
    fun hok z hz => ?_⟩
  · rw [run_orReturn]
    split
    case isTrue => rfl
    case isFalse hrc => exact h₂.code _ (hmid z hz (not_ne_iff.1 hrc))
  · rw [run_orReturn] at hrun
    split at hrun
    case isTrue hrc =>
      rw [h₁.code z hz] at hrc
      exact absurd (congrArg Prod.fst hrun) hrc
    case isFalse hrc =>
      rw [not_ne_iff] at hrc
      obtain ⟨he₁, hs₁, ho₁⟩ := h₁.sends z _ hz (Prod.ext hrc rfl)
      obtain ⟨he₂, hs₂, ho₂⟩ := h₂.sends _ z' (hmid z hz hrc) hrun
      refine ⟨he₂.trans he₁, by rw [hs₂, hs₁, List.append_assoc], ?_⟩
      rw [ho₂, ho₁, List.length_append, UInt64.ofNat_add, UInt64.add_assoc]
  · rw [run_orReturn]
    split
    · exact h₁.plain z
    · exact (h₁.plain z).trans (h₂.plain _)
  · rw [run_orReturn] at hrc ⊢
    split at hrc
    case isTrue h =>
      rw [if_pos h]
      exact h₁.fails z hz h
    case isFalse h =>
      rw [if_neg h]
      obtain ⟨v, data, hv, hfail, hlast⟩ := h₂.fails _ (hmid z hz (not_ne_iff.1 h)) hrc
      exact ⟨v, data, (h₁.plain z).trans hv, hfail, hlast⟩
  · have hrc := h₁.total hok z hz
    rw [run_orReturn, if_neg (not_ne_iff.2 hrc)]
    exact h₂.total hok _ (hmid z hz hrc)

end

/-! ## Entries -/

/-- The entry that the writer records for `f` when it stands at `off`. -/
def entryAt (off : Nat) (f : StoredFile) : ZipEntry :=
  ⟨f.name, f.crc, UInt64.ofNat f.body.length, UInt64.ofNat off⟩

/-- The name as far as its two-byte length reaches. -/
def keptName (f : StoredFile) : Bytes := f.name.take (f.name.length % 2 ^ 16)

/-- What precedes the body; it does not depend on the position. -/
def loc (f : StoredFile) : Bytes := localHeader (entryAt 0 f) ++ keptName f

def cen (off : Nat) (f : StoredFile) : Bytes :=
  centralDirHeader (entryAt off f) ++
    (keptName f ++ if anyZip64 (entryAt off f) then centralDirExtra (entryAt off f) else [])

/-- The ends of an archive with `count` entries, its directory of `cdSize` bytes at `cdOffset`. -/
def endBytes (count cdSize cdOffset : UInt64) : Bytes :=
  (if needZip64 count || needZip64 cdOffset || needZip64 cdSize then
    zip64Eocd count cdSize cdOffset ++ zip64Locator (cdOffset + cdSize)
  else []) ++ eocd count cdSize cdOffset

/-- Everything that is sent for `files`. -/
def archive (files : List StoredFile) : Bytes :=
  storedContents loc files ++ storedDirectory loc cen files ++
    endBytes (UInt64.ofNat files.length) (UInt64.ofNat (storedDirectory loc cen files).length)
      (UInt64.ofNat (storedContents loc files).length)

section

variable {writeFn : ZipWriteFn υ} {sent : υ → Bytes} (h : Appends writeFn sent)

include h

theorem writes_emitLocalHeader (off : Nat) (f : StoredFile) :
    Writes writeFn sent (emitLocalHeader writeFn (entryAt off f)) (loc f) := by
  have hw := (Writes.zWrite h (localHeader (entryAt off f))).orReturn
    ((Writes.zWrite h (keptName f)).orReturn .done)
  rwa [List.append_nil] at hw

theorem writes_body (data : Bytes) :
    Writes writeFn sent
      (if data.length ≠ 0 then orReturn (zWrite writeFn data) (return 0) else return 0) data := by
  by_cases hdata : data.length ≠ 0
  · have hw := (Writes.zWrite h data).orReturn .done
    rw [if_pos hdata]
    rwa [List.append_nil] at hw
  · rw [if_neg hdata, List.length_eq_zero_iff.1 (not_ne_iff.1 hdata)]
    exact .done

theorem writes_emitCentralDirEntry (off : Nat) (f : StoredFile) :
    Writes writeFn sent (emitCentralDirEntry writeFn (entryAt off f)) (cen off f) := by
  refine .orReturn (.zWrite h _) (.orReturn (.zWrite h _) ?_)
  split
  · have hw := (Writes.zWrite h (centralDirExtra (entryAt off f))).orReturn .done
    rwa [List.append_nil] at hw
  · exact .done

theorem writes_emitCentralDir (qs : List (Nat × StoredFile)) :
    Writes writeFn sent (emitCentralDir writeFn (qs.map fun q => entryAt q.1 q.2))
      (qs.flatMap fun q => cen q.1 q.2) := by
  induction qs with
  | nil => exact .done
  | cons q qs ih => exact (writes_emitCentralDirEntry h q.1 q.2).orReturn ih

end

/-! ## Adding entries -/

/-- The writer has sent the headers and bodies of `files`. -/
structure Holds (sent : υ → Bytes) (z : ZipWriter υ) (files : List StoredFile) : Prop where
  noError : z.writeError = 0
  entries_eq : z.entries = (storedAt loc files).map fun q => entryAt q.1 q.2
  sent_eq : sent z.user = storedContents loc files
  offset_eq : z.offset = UInt64.ofNat (storedContents loc files).length

theorem Holds.init {sent : υ → Bytes} {user : υ} (h : sent user = []) :
    Holds sent { user } [] := ⟨rfl, rfl, h, rfl⟩

section

variable {writeFn : ZipWriteFn υ} {sent : υ → Bytes} {z z' : ZipWriter υ}
  {files : List StoredFile} {crc32 : Bytes → UInt32} {name data : Bytes}

/-- The entry is recorded before its header is sent. -/
def ZipWriter.record (z : ZipWriter υ) (e : ZipEntry) : ZipWriter υ :=
  { z with entries := z.entries ++ [e] }

/-- What `zip_writer_add` does once the entry is recorded. -/
def sendEntry (writeFn : ZipWriteFn υ) (e : ZipEntry) (data : Bytes) : ZipM υ Int :=
  orReturn (emitLocalHeader writeFn e)
    (if data.length ≠ 0 then orReturn (zWrite writeFn data) (return 0) else return 0)

theorem run_zipWriterAdd (hz : z.writeError = 0) : (zipWriterAdd writeFn crc32 name data).run z =
    (sendEntry writeFn ⟨name, crc32 data, UInt64.ofNat data.length, z.offset⟩ data).run
      (z.record ⟨name, crc32 data, UInt64.ofNat data.length, z.offset⟩) := by
  unfold zipWriterAdd
  simp only [StateT.run_bind, StateT.run_get, pure_bind, ne_eq, if_neg (not_not.2 hz)]
  rfl

theorem writes_sendEntry (h : Appends writeFn sent) (off : Nat) (f : StoredFile) :
    Writes writeFn sent (sendEntry writeFn (entryAt off f) f.body) (loc f ++ f.body) :=
  (writes_emitLocalHeader h off f).orReturn (writes_body h f.body)

theorem storedAt_snoc (files : List StoredFile) (f : StoredFile) :
    storedAt loc (files ++ [f]) =
      storedAt loc files ++ [((storedContents loc files).length, f)] := by
  rw [storedAt, offsetsFrom_append, Nat.zero_add, Zip.length_storedContents]
  rfl

theorem storedContents_snoc (files : List StoredFile) (f : StoredFile) :
    storedContents loc (files ++ [f]) = storedContents loc files ++ (loc f ++ f.body) := by
  simp [storedContents]

theorem Holds.add (h : Appends writeFn sent) (hz : Holds sent z files)
    (hrun : (zipWriterAdd writeFn crc32 name data).run z = (0, z')) :
    Holds sent z' (files ++ [⟨name, crc32 data, data⟩]) := by
  have hw := writes_sendEntry h (storedContents loc files).length ⟨name, crc32 data, data⟩
  rw [run_zipWriterAdd hz.noError, hz.offset_eq] at hrun
  obtain ⟨hentries, hsent, hoff⟩ := hw.sends (z.record _) z' hz.noError hrun
  have herr := hw.noError (z := z.record _) hz.noError hrun
  refine ⟨herr, ?_, ?_, ?_⟩
  · rw [hentries, storedAt_snoc, List.map_append, ← hz.entries_eq]
    rfl
  · rw [hsent, storedContents_snoc, ← hz.sent_eq]
    rfl
  · rw [hoff, storedContents_snoc, @List.length_append _ (storedContents loc files),
      UInt64.ofNat_add, ← hz.offset_eq]
    rfl

/-- The calls that `zip_writer_add` makes; after an error the last of them failed. -/
theorem Holds.add_calls (h : Appends writeFn sent) (hz : Holds sent z files) {rc : Int}
    (hrun : (zipWriterAdd writeFn crc32 name data).run z = (rc, z')) :
    PlainWrites writeFn z.user z'.user ∧ (rc ≠ 0 → FailedWrite writeFn z.user z'.user) := by
  have hw := writes_sendEntry h (storedContents loc files).length ⟨name, crc32 data, data⟩
  rw [run_zipWriterAdd hz.noError, hz.offset_eq] at hrun
  exact hw.calls (z := z.record _) hz.noError hrun

/-- A callback that never fails takes the entry. -/
theorem Holds.add_total (h : Appends writeFn sent) (hz : Holds sent z files)
    (hok : ∀ u data, (writeFn u data false).1 = 0) (crc32 : Bytes → UInt32) (name data : Bytes) :
    ∃ z', (zipWriterAdd writeFn crc32 name data).run z = (0, z') := by
  have hw := writes_sendEntry h (storedContents loc files).length ⟨name, crc32 data, data⟩
  rw [run_zipWriterAdd hz.noError, hz.offset_eq]
  exact ⟨_, Prod.ext (hw.total hok (ZipWriter.record z _) hz.noError) rfl⟩

end

/-! ## Finishing -/

/-- From `off` on, `m` sends `bs`; its last call of the callback, and no other, carries the end
of file. -/
structure Ends (writeFn : ZipWriteFn υ) (sent : υ → Bytes) (off : UInt64) (m : ZipM υ Int)
    (bs : Bytes) : Prop where
  sends : ∀ z z', z.writeError = 0 → z.offset = off → m.run z = (0, z') →
    ∃ u data, PlainWrites writeFn z.user u ∧ writeFn u data true = (0, z'.user) ∧
      sent u ++ data = sent z.user ++ bs
  once : ∀ z, z.writeError = 0 → z.offset = off → ∃ u data, PlainWrites writeFn z.user u ∧
    (m.run z).2.user = (writeFn u data true).2 ∧
    ((m.run z).1 ≠ 0 → (writeFn u data true).1 ≠ 0 ∨ FailedWrite writeFn z.user u)
  total : (∀ u data eof, (writeFn u data eof).1 = 0) →
    ∀ z, z.writeError = 0 → z.offset = off → (m.run z).1 = 0

section

variable {writeFn : ZipWriteFn υ} {sent : υ → Bytes} {off : UInt64} {b₁ b₂ : Bytes}
  {m next : ZipM υ Int}

theorem run_orEnd (z : ZipWriter υ) : (orEnd writeFn m next).run z =
    if (m.run z).1 ≠ 0 then (endAfterError writeFn).run (m.run z).2
    else next.run (m.run z).2 := by
  change StateT.run (if (m.run z).1 ≠ 0 then _ else next) (m.run z).2 = _
  by_cases h : (m.run z).1 ≠ 0
  · rw [if_pos h, if_pos h]
  · rw [if_neg h, if_neg h]

theorem Writes.orEnd (h₁ : Writes writeFn sent m b₁)
    (h₂ : Ends writeFn sent (off + UInt64.ofNat b₁.length) next b₂) :
    Ends writeFn sent off (orEnd writeFn m next) (b₁ ++ b₂) := by
  -- the state between the two after a success of the first
  have hmid (z : ZipWriter υ) (hz : z.writeError = 0) (hoff : z.offset = off)
      (hrc : (m.run z).1 = 0) : (m.run z).2.writeError = 0 ∧
        (m.run z).2.offset = off + UInt64.ofNat b₁.length ∧
        sent (m.run z).2.user = sent z.user ++ b₁ := by
    have hrun : m.run z = (0, (m.run z).2) := Prod.ext hrc rfl
    obtain ⟨-, hs, ho⟩ := h₁.sends z _ hz hrun
    exact ⟨h₁.noError hz hrun, hoff ▸ ho, hs⟩
  refine ⟨fun z z' hz hoff hrun => ?_, fun z hz hoff => ?_, fun hok z hz hoff => ?_⟩
  · rw [run_orEnd] at hrun
    split at hrun
    case isTrue hrc =>
      -- the code of the failed write is returned
      rw [h₁.code z hz] at hrc
      exact absurd (congrArg Prod.fst hrun) hrc
    case isFalse hrc =>
      obtain ⟨hz₁, ho₁, hs₁⟩ := hmid z hz hoff (not_ne_iff.1 hrc)
      obtain ⟨u, data, hplain, hlast, hs₂⟩ := h₂.sends _ z' hz₁ ho₁ hrun
      refine ⟨u, data, (h₁.plain z).trans hplain, hlast, ?_⟩
      rw [hs₂, hs₁, List.append_assoc]
  · rw [run_orEnd]
    split
    case isTrue hrc => exact ⟨_, [], h₁.plain z, rfl, fun _ => .inr (h₁.fails z hz hrc)⟩
    case isFalse hrc =>
      obtain ⟨hz₁, ho₁, -⟩ := hmid z hz hoff (not_ne_iff.1 hrc)
      obtain ⟨u, data, hplain, hlast, hcode⟩ := h₂.once _ hz₁ ho₁
      refine ⟨u, data, (h₁.plain z).trans hplain, hlast, fun h => ?_⟩
      rcases hcode h with hfail | ⟨v, d, hv, hfail, heq⟩
      · exact .inl hfail
      · exact .inr ⟨v, d, (h₁.plain z).trans hv, hfail, heq⟩
  · have hrc := h₁.total (fun u data => hok u data false) z hz
    obtain ⟨hz₁, ho₁, -⟩ := hmid z hz hoff hrc
    rw [run_orEnd, if_neg (not_ne_iff.2 hrc)]
    exact h₂.total hok _ hz₁ ho₁

/-- A statement that first reads the offset. -/
theorem Ends.of_offset {k : UInt64 → ZipM υ Int} (h : Ends writeFn sent off (k off) b₁) :
    Ends writeFn sent off (do k (← get).offset) b₁ := by
  have hrun (z : ZipWriter υ) (hoff : z.offset = off) :
      (do k (← get).offset : ZipM υ Int).run z = (k off).run z := by
    rw [← hoff]
    rfl
  refine ⟨fun z z' hz hoff => ?_, fun z hz hoff => ?_, fun hok z hz hoff => ?_⟩
  · rw [hrun z hoff]
    exact h.sends z z' hz hoff
  · rw [hrun z hoff]
    exact h.once z hz hoff
  · rw [hrun z hoff]
    exact h.total hok z hz hoff

section

variable {count cdSize cdOffset : UInt64}

theorem run_writeEocd {z : ZipWriter υ} : (writeEocd writeFn count cdSize cdOffset).run z =
    if (writeFn z.user (eocd count cdSize cdOffset) true).1 ≠ 0 then
      (if z.writeError = 0 then -1 else z.writeError,
        { z with user := (writeFn z.user (eocd count cdSize cdOffset) true).2,
                 writeError := if z.writeError = 0 then -1 else z.writeError })
    else
      (0, { z with user := (writeFn z.user (eocd count cdSize cdOffset) true).2,
                   offset := z.offset + 22 }) := by
  unfold writeEocd
  simp only [StateT.run_bind, StateT.run_get, pure_bind]
  split <;> rfl

theorem ends_writeEocd (off : UInt64) :
    Ends writeFn sent off (writeEocd writeFn count cdSize cdOffset)
      (eocd count cdSize cdOffset) := by
  refine ⟨fun z z' hz _ hrun => ?_, fun z _ _ => ?_, fun hok z hz _ => ?_⟩
  · rw [run_writeEocd] at hrun
    split at hrun
    case isTrue => cases congrArg Prod.fst hrun
    case isFalse hrc =>
      obtain ⟨-, rfl⟩ := Prod.mk.inj hrun
      exact ⟨z.user, _, .refl, Prod.ext (not_ne_iff.1 hrc) rfl, rfl⟩
  · refine ⟨z.user, eocd count cdSize cdOffset, .refl, ?_⟩
    rw [run_writeEocd]
    split
    case isTrue h => exact ⟨rfl, fun _ => .inl h⟩
    case isFalse => exact ⟨rfl, fun h => absurd rfl h⟩
  · rw [run_writeEocd, if_neg (not_ne_iff.2 (hok _ _ _))]

/-- The ends of an archive whose directory has just been sent. -/
theorem ends_writeEnds (h : Appends writeFn sent) :
    Ends writeFn sent (cdOffset + cdSize) (writeEnds writeFn count cdSize cdOffset)
      (endBytes count cdSize cdOffset) := by
  unfold writeEnds endBytes
  split
  · rw [List.append_assoc]
    refine (Writes.zWrite h _).orEnd ?_
    have hoff : cdOffset + cdSize + UInt64.ofNat (zip64Eocd count cdSize cdOffset).length - 56 =
        cdOffset + cdSize := by
      have hlen : (zip64Eocd count cdSize cdOffset).length = 56 := by simp [zip64Eocd]
      rw [hlen]
      exact UInt64.add_sub_cancel _ _
    refine Ends.of_offset (k := fun off => orEnd writeFn (zWrite writeFn (zip64Locator (off - 56)))
      (writeEocd writeFn count cdSize cdOffset)) ?_
    rw [hoff]
    exact (Writes.zWrite h _).orEnd (ends_writeEocd _)
  · exact ends_writeEocd _

end

/-- The rest of `zip_writer_finish` when no write failed before it. -/
def finishFrom (writeFn : ZipWriteFn υ) (entries : List ZipEntry) (cdOffset : UInt64) :
    ZipM υ Int :=
  orEnd writeFn (emitCentralDir writeFn entries) do
    let cdSize := (← get).offset - cdOffset
    writeEnds writeFn (UInt64.ofNat entries.length) cdSize cdOffset

theorem run_zipWriterFinish {z : ZipWriter υ} (hz : z.writeError = 0) :
    (zipWriterFinish writeFn).run z = (finishFrom writeFn z.entries z.offset).run z := by
  unfold zipWriterFinish
  simp only [StateT.run_bind, StateT.run_get, pure_bind, ne_eq, if_neg (not_not.2 hz)]
  rfl

/-- What `zip_writer_finish` sends after the entries that the writer holds. -/
theorem Holds.ends (h : Appends writeFn sent) {z : ZipWriter υ} {files : List StoredFile}
    (hz : Holds sent z files) : Ends writeFn sent z.offset (finishFrom writeFn z.entries z.offset)
      (storedDirectory loc cen files ++ endBytes (UInt64.ofNat files.length)
        (UInt64.ofNat (storedDirectory loc cen files).length)
        (UInt64.ofNat (storedContents loc files).length)) := by
  have hdir := writes_emitCentralDir h (storedAt loc files)
  have hcount : z.entries.length = files.length := by
    rw [hz.entries_eq, List.length_map, Zip.length_storedAt]
  have hsize : z.offset + UInt64.ofNat (storedDirectory loc cen files).length - z.offset =
      UInt64.ofNat (storedDirectory loc cen files).length := by
    rw [UInt64.add_comm]
    exact UInt64.add_sub_cancel _ _
  rw [← hz.entries_eq] at hdir
  refine hdir.orEnd (Ends.of_offset (k := fun off =>
    writeEnds writeFn (UInt64.ofNat z.entries.length) (off - z.offset) z.offset) ?_)
  rw [storedDirectory] at hsize ⊢
  rw [hsize, hcount, ← hz.offset_eq]
  exact ends_writeEnds h

/-- When `zip_writer_finish` succeeds, everything has been sent with its last call. -/
theorem Holds.finish (h : Appends writeFn sent) {z z' : ZipWriter υ} {files : List StoredFile}
    (hz : Holds sent z files) (hrun : (zipWriterFinish writeFn).run z = (0, z')) :
    ∃ u data, PlainWrites writeFn z.user u ∧ writeFn u data true = (0, z'.user) ∧
      sent u ++ data = archive files := by
  rw [run_zipWriterFinish hz.noError] at hrun
  obtain ⟨u, data, hplain, hlast, hsent⟩ := (hz.ends h).sends z z' hz.noError rfl hrun
  refine ⟨u, data, hplain, hlast, ?_⟩
  rw [hsent, hz.sent_eq, archive, List.append_assoc]

/-- `zip_writer_finish` makes one call with the end of file, its last; when it returns an error,
that call failed or the one before it. -/
theorem Holds.finish_once (h : Appends writeFn sent) {z z' : ZipWriter υ}
    {files : List StoredFile} (hz : Holds sent z files) {rc : Int}
    (hrun : (zipWriterFinish writeFn).run z = (rc, z')) :
    ∃ u data, PlainWrites writeFn z.user u ∧ z'.user = (writeFn u data true).2 ∧
      (rc ≠ 0 → (writeFn u data true).1 ≠ 0 ∨ FailedWrite writeFn z.user u) := by
  rw [run_zipWriterFinish hz.noError] at hrun
  have honce := (hz.ends h).once z hz.noError rfl
  rwa [hrun] at honce

theorem Holds.finish_total (h : Appends writeFn sent) {z : ZipWriter υ} {files : List StoredFile}
    (hz : Holds sent z files) (hok : ∀ u data eof, (writeFn u data eof).1 = 0) :
    ∃ z', (zipWriterFinish writeFn).run z = (0, z') := by
  rw [run_zipWriterFinish hz.noError]
  exact ⟨_, Prod.ext ((hz.ends h).total hok z hz.noError rfl) rfl⟩

end

end S3Archive.SebstoC
