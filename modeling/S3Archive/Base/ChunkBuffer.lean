import Mathlib.Data.List.Basic

/-!
# Filling a chunk

`fillChunk size buffer src` moves as much of `src` as fits behind `buffer`.
`fillChunk_spec` says that nothing is lost, that the chunk does not overflow, and
that something is left over only when the chunk is full.
-/

namespace S3Archive

variable {α : Type}

def fillChunk (size : Nat) (buffer src : List α) : List α × List α :=
  let take := min src.length (size - buffer.length)
  (buffer ++ src.take take, src.drop take)

theorem fillChunk_spec {size : Nat} {buffer src buffer' rest : List α}
    (h : fillChunk size buffer src = (buffer', rest)) (hroom : buffer.length < size) :
    buffer' ++ rest = buffer ++ src ∧ buffer'.length ≤ size ∧
      (buffer'.length < size → rest = []) := by
  simp only [fillChunk, Prod.mk.injEq] at h
  obtain ⟨rfl, rfl⟩ := h
  refine ⟨by simp, ?_, ?_⟩
  · simp only [List.length_append, List.length_take]
    omega
  · simp only [List.length_append, List.length_take, List.drop_eq_nil_iff]
    omega

end S3Archive
