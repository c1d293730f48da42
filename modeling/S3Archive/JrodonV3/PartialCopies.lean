import S3Archive.JrodonV3.Plan

/-!
# jrodon-v3: what is downloaded of a large file

A `PartialCopy` downloads the first bytes of its file into the regular half. They
fill that half up to `MIN_PART_SIZE` and no further, and they are downloaded only
when pass 2 has used up the small files (`partialCopies_exact`).
-/

namespace S3Archive.JrodonV3

open RegularZipPart (partSize)

theorem Duo.part_eq_partialCopy {d : Duo} {r : RegularZipPart} {f : FileEntry} {n : Nat}
    (h : d.part = .duo r (.partialCopy f n)) :
    r = d.regular ∧ f = d.big ∧ n = d.start ∧ 0 < d.start := by
  unfold Duo.part Duo.copy at h
  by_cases hs : d.start > 0
  · rw [if_pos hs] at h
    cases h
    exact ⟨rfl, rfl, rfl, hs⟩
  · rw [if_neg hs] at h
    cases h

theorem Duo.part_eq_fullCopy {d : Duo} {r : RegularZipPart} {f : FileEntry}
    (h : d.part = .duo r (.fullCopy f)) : r = d.regular ∧ f = d.big ∧ d.start = 0 := by
  unfold Duo.part Duo.copy at h
  by_cases hs : d.start > 0
  · rw [if_pos hs] at h
    cases h
  · rw [if_neg hs] at h
    cases h
    exact ⟨rfl, rfl, by omega⟩

/-- The Duos of a layout are those of the plan after pass 3. -/
theorem exists_duo_of_mem {files : List FileInfo} {p : Plan (sortBySize files)}
    (hp : beforePass4 files = (p.parts, p.queue)) {r : RegularZipPart} {c : CopyZipPart}
    (h : .duo r c ∈ fromFilesInfo files) : ∃ d ∈ p.duos, d.part = .duo r c := by
  obtain ⟨groups, hg, _⟩ := exists_pass4 p.queue
  unfold fromFilesInfo at h
  rw [hp, hg] at h
  unfold Plan.parts at h
  rcases List.mem_append.1 h with h | h
  · rcases List.mem_append.1 h with h | h
    · exact List.mem_map.1 h
    · obtain ⟨s, _, hs⟩ := List.mem_map.1 h
      cases hs
  · obtain ⟨s, _, hs⟩ := List.mem_map.1 h
    cases hs

/-- A `PartialCopy` downloads just the bytes that its upload part lacks, a `FullCopy` has an upload
part of the minimum size, and no file is left for passes 3 and 4 while a `PartialCopy` remains. -/
theorem partialCopies_exact (files : List FileInfo) :
    (∀ r f n, .duo r (.partialCopy f n) ∈ fromFilesInfo files →
      0 < n ∧ n < f.size ∧ partSize r + f.locSize + n = minPartSize) ∧
    (∀ r f, .duo r (.fullCopy f) ∈ fromFilesInfo files → minPartSize ≤ partSize r + f.locSize) ∧
    ((∃ r f n, .duo r (.partialCopy f n) ∈ fromFilesInfo files) →
      (afterPass2 files).2 = [] ∧ beforePass4 files = afterPass2 files ∧
        fromFilesInfo files = (afterPass2 files).1) := by
  obtain ⟨p, hp, _, _, hstart⟩ := exists_plan_pass2 files
  have hp₃ := Plan.beforePass4_eq hp hstart
  refine ⟨?_, ?_, ?_⟩
  · intro r f n h
    obtain ⟨d, _, hd⟩ := exists_duo_of_mem hp₃ h
    obtain ⟨rfl, rfl, rfl, hpos⟩ := Duo.part_eq_partialCopy hd
    have hfloor := d.copy_floor
    have hmin : 0 < minPartSize := by decide
    exact ⟨hpos, by omega, d.exact hpos⟩
  · intro r f h
    obtain ⟨d, _, hd⟩ := exists_duo_of_mem hp₃ h
    obtain ⟨rfl, rfl, hz⟩ := Duo.part_eq_fullCopy hd
    have hfloor := d.upload_floor
    omega
  · rintro ⟨r, f, n, h⟩
    obtain ⟨d, hmem, hd⟩ := exists_duo_of_mem hp₃ h
    obtain ⟨_, _, _, hpos⟩ := Duo.part_eq_partialCopy hd
    -- pass 3 makes no partial copy, so pass 2 left one
    obtain ⟨e, he, hepos⟩ := exists_start_of_padDuos hmem hpos
    have hqueue := hstart e he hepos
    have hpad : beforePass4 files = (p.parts, []) := by
      rw [hp₃]
      unfold Plan.pad Plan.parts
      simp only [hqueue, padDuos_nil]
    have h₂ : afterPass2 files = (p.parts, []) := by rw [hp, hqueue]
    refine ⟨by rw [h₂], by rw [hpad, h₂], ?_⟩
    unfold fromFilesInfo
    rw [hpad, h₂, pass4, List.append_nil]

end S3Archive.JrodonV3
