import S3Archive.SebstoC.ZipperInvariant

/-!
# sebsto C: when the upload sees the end of file

The end of file reaches the upload at most once and last. `zipper_eof` says what it
follows: the whole archive of the entries that were added, when
`zip_writer_finish` succeeds, or a failed download, when the thread leaves through
its label `end`, which signals it so that the uploader unblocks.
-/

namespace S3Archive.SebstoC

variable {accepts : Nat → Bool} {objs : List Obj} {crc32 : Bytes → UInt32} {evs : List Event}
  {s : Zipper}

/-- The accepted bytes are the headers, whole bodies, directory and end records of the objects
that were added, each once. -/
def WholeArchive (objs : List Obj) (crc32 : Bytes → UInt32) (evs : List Event) (s : Zipper) :
    Prop := ∃ fed : List Nat, fed.Nodup ∧ (∀ i ∈ fed, i < objs.length) ∧
      fed.length = s.completed ∧ s.z.user.uploaded = archive (filesOf objs crc32 evs fed)

theorem Zipper.Inv.wholeArchive {going fed : List Nat} (h : s.Inv objs crc32 evs going fed)
    {z : ZipWriter ZipperArgs} (hz : z.user.uploaded = archive (filesOf objs crc32 evs fed)) :
    WholeArchive objs crc32 evs { s with z } := by
  refine ⟨fed, (List.nodup_append.1 h.ledger.nodup).2.1, fun i hi => ?_,
    h.ledger.completed_eq.symm, hz⟩
  have hlt := h.ledger.lt_next (List.mem_append_right going hi)
  exact Nat.lt_of_lt_of_le hlt h.ledger.next_le

/-- What an accepted end of file follows. -/
def EofJustified (objs : List Obj) (crc32 : Bytes → UInt32) (evs : List Event) (s : Zipper) :
    Prop :=
  s.phase = .cleanup ∧ s.z.user.Sealed ∧
    (s.z.user.ok = true ∧ WholeArchive objs crc32 evs s ∨
      s.z.user.ok = false ∧ DownloadFailed evs)

/-- A call of `zip_writer_finish` makes exactly one write with the end of file when it succeeds,
after everything else, and has none accepted when it fails. -/
def FinishesOnce (accepts : Nat → Bool) (objs : List Obj) (crc32 : Bytes → UInt32)
    (evs : List Event) (s : Zipper) : Prop :=
  ∀ rc z, (zipWriterFinish (uploadWriteSync accepts)).run s.z = (rc, z) →
    (rc = 0 → z.user.Sealed ∧ WholeArchive objs crc32 evs { s with z }) ∧
      (rc ≠ 0 → z.user.Open)

/-- Before the thread is done no end of file is accepted, and a finish ends the archive once. -/
theorem Zipper.Inv.finishesOnce {going fed : List Nat} (h : s.Inv objs crc32 evs going fed)
    (hp : s.phase = .finishing) : FinishesOnce accepts objs crc32 evs s := by
  obtain ⟨hz, hopen⟩ : EncoderInv s (DownloadFailed evs) (filesOf objs crc32 evs fed)
      .finishing := hp ▸ h.encoder
  intro rc z hrun
  refine ⟨fun hrc => ?_, hz.finish_open hopen hrun⟩
  obtain ⟨hsealed, huploaded⟩ := hz.finish_sealed hopen (hrc ▸ hrun)
  exact ⟨hsealed, h.wholeArchive huploaded⟩

theorem Zipper.Inv.open_or_justified {going fed : List Nat} (h : s.Inv objs crc32 evs going fed) :
    s.z.user.Open ∨ EofJustified objs crc32 evs s := by
  have henc := h.encoder
  cases hp : s.phase with
  | cleanup =>
    rw [hp] at henc
    rcases henc with ⟨hok, hsealed, huploaded⟩ | ⟨hok, hopen | ⟨hsealed, hfailed⟩⟩
    · exact .inr ⟨hp, hsealed, .inl ⟨hok, h.wholeArchive huploaded⟩⟩
    · exact .inl hopen
    · exact .inr ⟨hp, hsealed, .inr ⟨hok, hfailed⟩⟩
  | ending =>
    rw [hp] at henc
    exact .inl henc.2.1
  | _ =>
    rw [hp] at henc
    exact .inl henc.2

/-- The end of file is accepted only after the whole archive of the entries that were added, or
after a failed download. -/
theorem zipper_eof (hrun : Run (Step accepts crc32 objs) {} evs s) :
    (s.z.user.Open ∨ EofJustified objs crc32 evs s) ∧
      (s.phase = .finishing → FinishesOnce accepts objs crc32 evs s) ∧
      (s.phase = .cleanup → s.z.user.ok = true → EofJustified objs crc32 evs s) := by
  obtain ⟨going, fed, h⟩ := Zipper.Inv.run hrun
  refine ⟨h.open_or_justified, h.finishesOnce, fun hp hok => ?_⟩
  have henc := h.encoder
  rw [hp] at henc
  rcases henc with ⟨-, hsealed, huploaded⟩ | ⟨hno, -⟩
  · exact ⟨hp, hsealed, .inl ⟨hok, h.wholeArchive huploaded⟩⟩
  · rw [hok] at hno
    cases hno

/-- An object `a` of three bytes. -/
def oneObject : List Obj := [⟨[0x61], [0x61], 3⟩]

/-- The object `a` is downloaded and added; then the download of `b` fails, or it succeeds and the
archive is finished. -/
theorem zipper_eof_two :
    (∃ evs s, Run (Step (fun _ => true) crcOfTwo twoObjects) {} evs s ∧ DownloadFailed evs ∧
      s.completed = 1 ∧ EofJustified twoObjects crcOfTwo evs s) ∧
    (∃ evs s, Run (Step (fun _ => true) crcOfTwo twoObjects) {} evs s ∧ s.completed = 2 ∧
      FinishesOnce (fun _ => true) twoObjects crcOfTwo evs s) ∧
    ∃ evs s, Run (Step (fun _ => true) crcOfTwo twoObjects) {} evs s ∧ s.completed = 2 ∧
      EofJustified twoObjects crcOfTwo evs s := by
  have h₁ := (@Run.refl _ _ (Step (fun _ => true) crcOfTwo twoObjects) {}).step
    (.again rfl (by decide))
  have h₂ := h₁.step (.start rfl rfl (by decide))
  have h₃ := h₂.step (.start rfl rfl (by decide))
  have h₄ := h₃.step (.saturated rfl (twoObjects_started rfl))
  have h₅ := h₄.step (@Step.recv _ _ _ _ 0 [1, 2, 3] rfl rfl)
  have h₆ := h₅.step (@Step.done _ _ _ _ 0 0 rfl rfl)
  have h₇ := h₆.step (.scanHit rfl (by decide) (by decide) rfl)
  have h₈ := h₇.step (.feed rfl rfl rfl (eq_of_code (by decide +kernel)))
  have h₉ := h₈.step (.again rfl (by decide))
  have h₁₀ := h₉.step (.saturated rfl (twoObjects_started rfl))
  have h₁₁ := h₁₀.step (.scanMiss rfl (by decide) (by decide))
  refine ⟨?_, ?_⟩
  · have hf₁ := h₁₁.step (@Step.done _ _ _ _ 1 1 rfl rfl)
    have hf₂ := hf₁.step (.scanHit rfl (by decide) (by decide) rfl)
    have hf₃ := hf₂.step (.failed rfl (by decide))
    have hf₄ := hf₃.step (.abort rfl)
    refine ⟨_, _, hf₄, ⟨.finish 1 1, by simp, .finish 1 (by decide)⟩, rfl, ?_⟩
    exact (zipper_eof hf₄).1.resolve_left (by decide +kernel)
  · have hs₁ := h₁₁.step (@Step.recv _ _ _ _ 1 [4, 5] rfl rfl)
    have hs₂ := hs₁.step (@Step.done _ _ _ _ 1 0 rfl rfl)
    have hs₃ := hs₂.step (.scanHit rfl (by decide) (by decide) rfl)
    have hs₄ := hs₃.step (.feed rfl rfl rfl (eq_of_code (by decide +kernel)))
    have hs₅ := hs₄.step (.leave rfl (by decide))
    have hs₆ := hs₅.step (@Step.finish _ _ _ _ 0 _ rfl (eq_of_code (by decide +kernel)))
    exact ⟨⟨_, _, hs₅, rfl, (zipper_eof hs₅).2.1 rfl⟩, _, _, hs₆, rfl,
      (zipper_eof hs₆).2.2 rfl rfl⟩

/-- A download that fails is followed by an end of file, and nothing has been written before. -/
theorem eof_after_failure : ∃ evs s, Run (Step (fun _ => true) (fun _ => 0) oneObject) {} evs s ∧
    DownloadFailed evs ∧ s.z.user.accepted = [([], true)] := by
  have h₁ := (@Run.refl _ _ (Step (fun _ => true) (fun _ => 0) oneObject) {}).step
    (.again rfl (by decide))
  have h₂ := h₁.step (.start rfl rfl (by decide))
  have h₃ := h₂.step (.saturated rfl (by simp [oneObject, Zipper.started]))
  have h₄ := h₃.step (@Step.done _ _ _ _ 0 1 rfl rfl)
  have h₅ := h₄.step (.scanHit rfl (by decide) (by decide) rfl)
  have h₆ := h₅.step (.failed rfl (by decide))
  have h₇ := h₆.step (.abort rfl)
  refine ⟨_, _, h₇, ⟨.finish 0 1, by simp, .finish 0 (by decide)⟩, by decide +kernel⟩

end S3Archive.SebstoC
