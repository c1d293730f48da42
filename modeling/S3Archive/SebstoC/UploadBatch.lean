import S3Archive.SebstoC.Zipper
import S3Archive.SebstoC.ZipLayout

/-!
# sebsto C: the batched upload

What `upload_write_sync` hands to the upload. `ZipperArgs.sent` is what the
encoder has sent so far, accepted or still in the batch; a call without the end of
file lets the upload accept full batches only (`uploadWriteSync_plain`), a call
with it is the only one that can be accepted as the end (`uploadWriteSync_eof`).
-/

namespace S3Archive.SebstoC

variable {accepts : Nat → Bool} {a a' : ZipperArgs} {data : Bytes} {rc : Int}

/-- What the encoder has sent: accepted by the upload, or still in the batch. -/
def ZipperArgs.sent (a : ZipperArgs) : Bytes := a.uploaded ++ a.batch

/-- No write with the end of file has been accepted. -/
def ZipperArgs.Open (a : ZipperArgs) : Prop := ∀ w ∈ a.accepted, w.2 = false

instance (a : ZipperArgs) : Decidable a.Open :=
  inferInstanceAs (Decidable (∀ w ∈ a.accepted, w.2 = false))

/-! ## One write -/

/-- A write is accepted as it is, or fails and is remembered as failed. -/
theorem crtWriteSync_cases (h : a.writeFailed = false) (data : Bytes) (eof : Bool) :
    crtWriteSync accepts a data eof =
        (0, { a with accepted := a.accepted ++ [(data, eof)], writes := a.writes + 1 }) ∨
      crtWriteSync accepts a data eof =
        (-1, { a with writeFailed := true, writes := a.writes + 1 }) := by
  unfold crtWriteSync
  rw [if_neg (by simp [h])]
  by_cases hacc : accepts a.writes = true
  · exact .inl (if_pos hacc)
  · exact .inr (if_neg hacc)

/-- A call without the end of file: the writes it makes carry none, and a failure is remembered. -/
structure PlainCall (a : ZipperArgs) (rc : Int) (a' : ZipperArgs) : Prop where
  ok_eq : a'.ok = a.ok
  failed : rc ≠ 0 → a'.writeFailed = true
  alive : rc = 0 → a'.writeFailed = false
  writes : ∃ ws : List (Bytes × Bool), a'.accepted = a.accepted ++ ws ∧ ∀ w ∈ ws, w.2 = false

/-! ## Full batches -/

theorem flushBatches_spec (n : Nat) (ha : a.writeFailed = false) :
    PlainCall a (flushBatches accepts n a).1 (flushBatches accepts n a).2 ∧
      ((flushBatches accepts n a).1 = 0 → (flushBatches accepts n a).2.sent = a.sent) := by
  induction n generalizing a with
  | zero =>
    refine ⟨⟨rfl, fun h => absurd rfl h, fun _ => ha, [], ?_, by simp⟩, fun _ => rfl⟩
    exact (List.append_nil _).symm
  | succ n ih =>
    rw [flushBatches]
    rcases @crtWriteSync_cases accepts a ha (a.batch.take uploadBatchBytes) false with h | h
    · -- the first batch was accepted, the rest is flushed next
      have hrest := @ih { a with
        batch := a.batch.drop uploadBatchBytes
        accepted := a.accepted ++ [(a.batch.take uploadBatchBytes, false)]
        writes := a.writes + 1 } ha
      obtain ⟨⟨hok, hfail, halive, ws, hws, heof⟩, hsent⟩ := hrest
      simp only [h, ne_eq, not_true_eq_false, if_false]
      refine ⟨⟨hok, hfail, halive, (a.batch.take uploadBatchBytes, false) :: ws, ?_, ?_⟩, ?_⟩
      · rw [hws, List.append_assoc]
        rfl
      · exact List.forall_mem_cons.2 ⟨rfl, heof⟩
      · intro hrc
        rw [hsent hrc]
        simp [ZipperArgs.sent, ZipperArgs.uploaded]
    · simp only [h, ne_eq, Int.reduceNeg, neg_eq_zero, one_ne_zero, not_false_eq_true, if_true]
      refine ⟨⟨rfl, fun _ => rfl, fun h => ?_, [], ?_, by simp⟩, fun h => ?_⟩
      · cases h
      · exact (List.append_nil _).symm
      · cases h

/-! ## The callback -/

theorem uploadWriteSync_of_failed (h : a.writeFailed = true) (data : Bytes) (eof : Bool) :
    uploadWriteSync accepts a data eof = (-1, a) := if_pos h

/-- Without the end of file, full batches are flushed. -/
theorem uploadWriteSync_plain (a : ZipperArgs) (data : Bytes) :
    PlainCall a (uploadWriteSync accepts a data false).1 (uploadWriteSync accepts a data false).2 ∧
      ((uploadWriteSync accepts a data false).1 = 0 →
        (uploadWriteSync accepts a data false).2.sent = a.sent ++ data) := by
  cases ha : a.writeFailed with
  | true =>
    rw [uploadWriteSync_of_failed ha]
    refine ⟨⟨rfl, fun _ => ha, fun h => ?_, [], ?_, by simp⟩, fun h => ?_⟩
    · cases h
    · exact (List.append_nil _).symm
    · cases h
  | false =>
    have hcall := @flushBatches_spec accepts { a with batch := a.batch ++ data }
      ((a.batch ++ data).length / uploadBatchBytes) ha
    have hrun : uploadWriteSync accepts a data false =
        flushBatches accepts ((a.batch ++ data).length / uploadBatchBytes)
          { a with batch := a.batch ++ data } := by
      unfold uploadWriteSync
      rw [if_neg (by simp [ha])]
      rfl
    rw [hrun]
    obtain ⟨hok, hfail, halive, hwrites⟩ := hcall.1
    refine ⟨⟨hok, hfail, halive, hwrites⟩, fun hrc => ?_⟩
    rw [hcall.2 hrc, ZipperArgs.sent, ZipperArgs.sent, List.append_assoc]
    rfl

/-- With the end of file, the batch and the data are one write. -/
theorem uploadWriteSync_eof (ha : a.writeFailed = false) (data : Bytes) :
    uploadWriteSync accepts a data true =
        (0, { a with
          batch := []
          accepted := a.accepted ++ [(a.batch ++ data, true)]
          writes := a.writes + 1 }) ∨
      uploadWriteSync accepts a data true =
        (-1, { a with
          batch := a.batch ++ data
          writeFailed := true
          writes := a.writes + 1 }) := by
  unfold uploadWriteSync
  rw [if_neg (by simp [ha])]
  rcases @crtWriteSync_cases accepts { a with batch := a.batch ++ data } ha (a.batch ++ data) true
    with h | h
  · refine .inl ?_
    simp only [h, if_true, ne_eq, not_true_eq_false, if_false]
  · refine .inr ?_
    simp only [h, if_true, ne_eq, Int.reduceNeg, neg_eq_zero, one_ne_zero, not_false_eq_true]

/-- The callback appends to what was sent. -/
theorem appends_uploadWriteSync : Appends (uploadWriteSync accepts) ZipperArgs.sent := by
  intro a data eof a' h
  cases eof with
  | false =>
    have hsent := (@uploadWriteSync_plain accepts a data).2
    rw [h] at hsent
    exact hsent rfl
  | true =>
    cases ha : a.writeFailed with
    | true =>
      rw [uploadWriteSync_of_failed ha] at h
      cases congrArg Prod.fst h
    | false =>
      rcases @uploadWriteSync_eof accepts a ha data with hrun | hrun
      · rw [hrun] at h
        rw [← (Prod.mk.inj h).2]
        simp [ZipperArgs.sent, ZipperArgs.uploaded]
      · rw [hrun] at h
        cases congrArg Prod.fst h

/-- An end of file that is taken leaves nothing in the batch. -/
theorem eq_of_uploadWriteSync_eof (h : uploadWriteSync accepts a data true = (0, a')) :
    a' = { a with
      batch := []
      accepted := a.accepted ++ [(a.batch ++ data, true)]
      writes := a.writes + 1 } := by
  by_cases ha : a.writeFailed = true
  · rw [uploadWriteSync_of_failed ha] at h
    cases congrArg Prod.fst h
  · rcases @uploadWriteSync_eof accepts a (Bool.eq_false_of_not_eq_true ha) data with hrun | hrun
    · rw [hrun] at h
      exact (Prod.mk.inj h).2.symm
    · rw [hrun] at h
      cases congrArg Prod.fst h

/-! ## Sequences of calls -/

/-- What calls without the end of file keep. -/
theorem PlainWrites.keeps (h : PlainWrites (uploadWriteSync accepts) a a') :
    a'.ok = a.ok ∧ (a.Open → a'.Open) := by
  induction h with
  | refl => exact ⟨rfl, id⟩
  | tail _ hlast ih =>
    obtain ⟨data, rfl⟩ := hlast
    obtain ⟨hok, -, -, ws, hws, heof⟩ := (@uploadWriteSync_plain accepts _ data).1
    refine ⟨hok.trans ih.1, fun ha w hw => ?_⟩
    rw [hws] at hw
    rcases List.mem_append.1 hw with hw | hw
    · exact ih.2 ha w hw
    · exact heof w hw

theorem FailedWrite.writeFailed (h : FailedWrite (uploadWriteSync accepts) a a') :
    a'.writeFailed = true := by
  obtain ⟨v, data, -, hfail, rfl⟩ := h
  exact (@uploadWriteSync_plain accepts v data).1.failed hfail

/-- An end of file that is not taken accepts nothing. -/
theorem accepted_of_uploadWriteSync_eof (h : (uploadWriteSync accepts a data true).1 ≠ 0) :
    (uploadWriteSync accepts a data true).2.accepted = a.accepted := by
  by_cases ha : a.writeFailed = true
  · rw [uploadWriteSync_of_failed ha]
  · rcases @uploadWriteSync_eof accepts a (Bool.eq_false_of_not_eq_true ha) data with hrun | hrun
    · rw [hrun] at h
      exact absurd rfl h
    · rw [hrun]

theorem ok_uploadWriteSync_eof (a : ZipperArgs) (data : Bytes) :
    (uploadWriteSync accepts a data true).2.ok = a.ok := by
  by_cases ha : a.writeFailed = true
  · rw [uploadWriteSync_of_failed ha]
  · rcases @uploadWriteSync_eof accepts a (Bool.eq_false_of_not_eq_true ha) data with hrun | hrun
    · rw [hrun]
    · rw [hrun]

/-! ## The end of the archive -/

/-- The end of file was accepted as the last write. -/
def ZipperArgs.Sealed (a : ZipperArgs) : Prop :=
  ∃ ws data, a.accepted = ws ++ [(data, true)] ∧ ∀ w ∈ ws, w.2 = false

theorem ZipperArgs.Open.sealed (ha : a.Open) (h : uploadWriteSync accepts a data true = (0, a')) :
    a'.Sealed ∧ a'.uploaded = a.sent ++ data := by
  rw [eq_of_uploadWriteSync_eof h]
  refine ⟨⟨a.accepted, a.batch ++ data, rfl, ha⟩, ?_⟩
  simp [ZipperArgs.sent, ZipperArgs.uploaded]

section

variable {z z' : ZipWriter ZipperArgs} {files : List Zip.StoredFile}
  (hz : Holds ZipperArgs.sent z files) (hopen : z.user.Open)

include hz hopen

/-- A successful finish hands over the whole archive, its last write with the end of file. -/
theorem Holds.finish_sealed
    (hrun : (zipWriterFinish (uploadWriteSync accepts)).run z = (0, z')) :
    z'.user.Sealed ∧ z'.user.uploaded = archive files := by
  obtain ⟨u, data, hplain, hlast, hsent⟩ := hz.finish appends_uploadWriteSync hrun
  obtain ⟨hsealed, huploaded⟩ := ZipperArgs.Open.sealed (hplain.keeps.2 hopen) hlast
  exact ⟨hsealed, huploaded.trans hsent⟩

/-- A failing finish has no end of file accepted. -/
theorem Holds.finish_open {rc : Int}
    (hrun : (zipWriterFinish (uploadWriteSync accepts)).run z = (rc, z')) (hrc : rc ≠ 0) :
    z'.user.Open := by
  obtain ⟨u, data, hplain, hlast, hcode⟩ := hz.finish_once appends_uploadWriteSync hrun
  have hu := hplain.keeps.2 hopen
  have hfail : (uploadWriteSync accepts u data true).1 ≠ 0 := by
    rcases hcode hrc with hfail | hfail
    · exact hfail
    · -- after a failed write the call is refused
      rw [uploadWriteSync_of_failed hfail.writeFailed]
      intro h
      cases h
  rw [hlast]
  intro w hw
  rw [accepted_of_uploadWriteSync_eof hfail] at hw
  exact hu w hw

end

end S3Archive.SebstoC
