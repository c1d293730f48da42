import S3Archive.Base.Bytes
import S3Archive.Base.Chunks
import S3Archive.Base.Upload

/-!
# sebsto Python: the multipart sink

`MultipartSink` cuts what is written to it into parts. The written bytes wait in a list
of pieces, and `emit` takes a part off its front, splitting at most one piece
(`pull_eq`). `SinkInv` says what a sink holds; `sink_spec` is the result about a whole
life of a sink. `none` is the `IndexError` of `chunks[0]`.
-/

namespace S3Archive.SebstoPy

def uploadPartSize : Nat := 8 * 1024 * 1024

theorem uploadPartSize_pos : 0 < uploadPartSize := by decide

structure Part where
  partNumber : Nat
  data : Bytes
  deriving DecidableEq

/-- `futures` has the parts that were submitted; the backlog only delays a submission. -/
structure MultipartSink where
  chunks : List Bytes := []
  buffered : Nat := 0
  partNumber : Nat := 1
  futures : List Part := []
  closed : Bool := false
  deriving DecidableEq

/-- The loop of `_emit`: the pieces of the part, and the chunks that stay. -/
def pull : Nat → List Bytes → Option (List Bytes × List Bytes)
  | 0, chunks => some ([], chunks)
  | _ + 1, [] => none
  | needed + 1, head :: chunks =>
    if head.length ≤ needed + 1 then do
      let (pieces, rest) ← pull (needed + 1 - head.length) chunks
      return (head :: pieces, rest)
    else
      return ([head.take (needed + 1)], head.drop (needed + 1) :: chunks)

namespace MultipartSink

def tell (s : MultipartSink) : Nat := (s.partNumber - 1) * uploadPartSize + s.buffered

def emit (s : MultipartSink) (size : Nat) : Option MultipartSink := do
  let (pieces, chunks) ← pull size s.chunks
  return { s with
    chunks
    buffered := s.buffered - size
    partNumber := s.partNumber + 1
    futures := s.futures ++ [⟨s.partNumber, pieces.flatten⟩] }

theorem buffered_emit {s s' : MultipartSink} {size : Nat} (h : s.emit size = some s') :
    s'.buffered = s.buffered - size := by
  simp only [emit, Option.bind_eq_bind, Option.bind_eq_some_iff, Option.pure_def,
    Option.some.injEq] at h
  obtain ⟨-, -, rfl⟩ := h
  rfl

/-- The loop of `write`. -/
def emitFull (s : MultipartSink) : Option MultipartSink :=
  if uploadPartSize ≤ s.buffered then
    match _hemit : s.emit uploadPartSize with
    | some s' => emitFull s'
    | none => none
  else some s
termination_by s.buffered
decreasing_by
  have hpos := uploadPartSize_pos
  rw [buffered_emit _hemit]
  omega

/-- The sink, and how many bytes it has taken. -/
def write (s : MultipartSink) (b : Bytes) : Option (MultipartSink × Nat) := do
  if b.isEmpty then
    return (s, 0)
  let s ← { s with chunks := s.chunks ++ [b], buffered := s.buffered + b.length }.emitFull
  return (s, b.length)

def close (s : MultipartSink) : Option MultipartSink := do
  if s.closed then
    return s
  if s.buffered ≠ 0 then
    return { ← s.emit s.buffered with closed := true }
  return { s with closed := true }

def writeAll (s : MultipartSink) : List Bytes → Option MultipartSink
  | [] => some s
  | b :: writes => do writeAll (← s.write b).1 writes

end MultipartSink

/-! ## Taking a part -/

theorem pull_eq {needed : Nat} {chunks : List Bytes} (h : needed ≤ chunks.flatten.length) :
    ∃ pieces rest, pull needed chunks = some (pieces, rest) ∧
      pieces.flatten = chunks.flatten.take needed ∧
      rest.flatten = chunks.flatten.drop needed := by
  induction chunks generalizing needed with
  | nil =>
    obtain rfl := Nat.le_zero.1 h
    exact ⟨[], [], rfl, rfl, rfl⟩
  | cons head chunks ih =>
    cases needed with
    | zero => exact ⟨[], head :: chunks, rfl, rfl, rfl⟩
    | succ needed =>
      rw [List.flatten_cons, List.length_append] at h
      by_cases hle : head.length ≤ needed + 1
      · obtain ⟨pieces, rest, hpull, hpieces, hrest⟩ :=
          @ih (needed + 1 - head.length) (by omega)
        refine ⟨head :: pieces, rest, ?_, ?_, ?_⟩
        · simp [pull, hle, hpull]
        · rw [List.flatten_cons, List.flatten_cons, hpieces, List.take_append,
            List.take_of_length_le hle]
        · rw [hrest, List.flatten_cons, List.drop_append, List.drop_of_length_le hle]
          rfl
      · refine ⟨[head.take (needed + 1)], head.drop (needed + 1) :: chunks, ?_, ?_, ?_⟩
        · simp [pull, hle]
        · rw [List.flatten_cons, List.flatten_cons, List.take_append_of_le_length (by omega)]
          simp
        · rw [List.flatten_cons, List.flatten_cons, List.drop_append_of_le_length (by omega)]

namespace MultipartSink

/-- What was written is what was submitted in full parts, and what is buffered. -/
structure SinkInv (s : MultipartSink) (all : Bytes) : Prop where
  chunked : Chunked uploadPartSize (s.futures.map (·.data)) s.chunks.flatten all
  buffered_eq : s.buffered = s.chunks.flatten.length
  numbered : NumberedFrom Part.partNumber 1 s.futures
  next : s.partNumber = s.futures.length + 1
  opened : s.closed = false

variable {s s' : MultipartSink} {all : Bytes}

theorem SinkInv.init : SinkInv {} [] :=
  ⟨.nil _, rfl, .nil _ _, rfl, rfl⟩

theorem emit_eq {size : Nat} (h : size ≤ s.chunks.flatten.length) :
    ∃ chunks, s.emit size = some { s with
        chunks
        buffered := s.buffered - size
        partNumber := s.partNumber + 1
        futures := s.futures ++ [⟨s.partNumber, s.chunks.flatten.take size⟩] } ∧
      chunks.flatten = s.chunks.flatten.drop size := by
  obtain ⟨pieces, rest, hpull, hpieces, hrest⟩ := pull_eq h
  exact ⟨rest, by simp [emit, hpull, hpieces], hrest⟩

theorem numbered_append {data : Bytes} (h : NumberedFrom Part.partNumber 1 s.futures)
    (hnext : s.partNumber = s.futures.length + 1) :
    NumberedFrom Part.partNumber 1 (s.futures ++ [⟨s.partNumber, data⟩]) := by
  refine h.append (.cons ?_ (.nil _ _))
  dsimp only
  omega

theorem SinkInv.emit (h : SinkInv s all) (hle : uploadPartSize ≤ s.buffered) :
    ∃ s', s.emit uploadPartSize = some s' ∧ SinkInv s' all := by
  have hlength := h.buffered_eq
  rw [hlength] at hle
  obtain ⟨chunks, hemit, hchunks⟩ := emit_eq hle
  refine ⟨_, hemit, ?_, ?_, numbered_append h.numbered h.next, ?_, h.opened⟩
  · rw [hchunks, List.map_append]
    exact h.chunked.cut hle
  · rw [hchunks, List.length_drop, hlength]
  · rw [List.length_append, h.next]
    rfl

theorem SinkInv.emitFull (h : SinkInv s all) :
    ∃ s', s.emitFull = some s' ∧ SinkInv s' all ∧ s'.buffered < uploadPartSize := by
  fun_induction MultipartSink.emitFull s with
  | case1 s hle s' hemit ih =>
    obtain ⟨t, ht, hinv⟩ := h.emit hle
    rw [hemit] at ht
    cases ht
    exact ih hinv
  | case2 s hle hemit =>
    obtain ⟨t, ht, -⟩ := h.emit hle
    rw [hemit] at ht
    cases ht
  | case3 s hlt => exact ⟨s, rfl, h, Nat.lt_of_not_le hlt⟩

theorem SinkInv.write (h : SinkInv s all) (hfit : s.buffered < uploadPartSize) (b : Bytes) :
    ∃ s', s.write b = some (s', b.length) ∧ SinkInv s' (all ++ b) ∧
      s'.buffered < uploadPartSize := by
  cases b with
  | nil => exact ⟨s, rfl, (List.append_nil all).symm ▸ h, hfit⟩
  | cons x b =>
    have hinv : SinkInv { s with
        chunks := s.chunks ++ [x :: b], buffered := s.buffered + (x :: b).length }
        (all ++ x :: b) := by
      refine ⟨?_, ?_, h.numbered, h.next, h.opened⟩
      · rw [List.flatten_append, List.flatten_singleton]
        exact h.chunked.append _
      · rw [List.flatten_append, List.flatten_singleton, List.length_append, h.buffered_eq]
    obtain ⟨s', hs', hinv', hlt⟩ := hinv.emitFull
    rw [List.length_cons] at hs'
    exact ⟨s', by simp [MultipartSink.write, hs'], hinv', hlt⟩

theorem SinkInv.writeAll (h : SinkInv s all) (hfit : s.buffered < uploadPartSize)
    (writes : List Bytes) :
    ∃ s', s.writeAll writes = some s' ∧ SinkInv s' (all ++ writes.flatten) ∧
      s'.buffered < uploadPartSize := by
  induction writes generalizing s all with
  | nil => exact ⟨s, rfl, (List.append_nil all).symm ▸ h, hfit⟩
  | cons b writes ih =>
    obtain ⟨s₁, hwrite, hinv, hfit₁⟩ := h.write hfit b
    obtain ⟨s', hrest, hinv', hfit'⟩ := ih hinv hfit₁
    refine ⟨s', by simp [MultipartSink.writeAll, hwrite, hrest], ?_, hfit'⟩
    rwa [List.flatten_cons, ← List.append_assoc]

/-! ## The position -/

theorem length_flatten_parts {P : Nat} {parts : List Bytes} (h : ∀ p ∈ parts, p.length = P) :
    parts.flatten.length = parts.length * P := by
  induction parts with
  | nil => simp
  | cons p parts ih =>
    rw [List.forall_mem_cons] at h
    rw [List.flatten_cons, List.length_append, h.1, ih h.2, List.length_cons, Nat.succ_mul,
      Nat.add_comm]

theorem SinkInv.tell (h : SinkInv s all) : s.tell = all.length := by
  rw [← h.chunked.flatten_append, List.length_append, length_flatten_parts h.chunked.length_eq,
    List.length_map, MultipartSink.tell, h.next, h.buffered_eq, Nat.add_sub_cancel]

/-! ## Closing -/

/-- What a closed sink has submitted. -/
structure SinkClosed (s : MultipartSink) (all : Bytes) : Prop where
  chunking : IsChunking uploadPartSize (s.futures.map (·.data)) all
  nonempty : ∀ p ∈ s.futures, p.data ≠ []
  numbered : NumberedFrom Part.partNumber 1 s.futures
  tell_eq : s.tell = s.futures.length * uploadPartSize
  closed : s.closed = true

theorem SinkInv.nonempty (h : SinkInv s all) : ∀ p ∈ s.futures, p.data ≠ [] := by
  intro p hp hnil
  have hlength := h.chunked.length_eq p.data (List.mem_map_of_mem hp)
  rw [hnil] at hlength
  exact absurd hlength.symm (Nat.ne_of_gt uploadPartSize_pos)

theorem SinkInv.close (h : SinkInv s all) (hfit : s.buffered < uploadPartSize) :
    ∃ s', s.close = some s' ∧ SinkClosed s' all ∧ s'.close = some s' := by
  have hlength := h.buffered_eq
  by_cases hempty : s.buffered = 0
  · have hrest : s.chunks.flatten = [] := List.eq_nil_of_length_eq_zero (hlength ▸ hempty)
    have hchunked := h.chunked
    rw [hrest] at hchunked
    refine ⟨{ s with closed := true }, by simp [MultipartSink.close, h.opened, hempty],
      ⟨hchunked.done, h.nonempty, h.numbered, ?_, rfl⟩, rfl⟩
    simp [MultipartSink.tell, h.next, hempty]
  · have hle : s.buffered ≤ s.chunks.flatten.length := Nat.le_of_eq hlength
    obtain ⟨chunks, hemit, -⟩ := emit_eq hle
    rw [hlength, List.take_length, ← hlength] at hemit
    refine ⟨{ s with
      chunks
      buffered := s.buffered - s.buffered
      partNumber := s.partNumber + 1
      futures := s.futures ++ [⟨s.partNumber, s.chunks.flatten⟩]
      closed := true }, by simp [MultipartSink.close, h.opened, hempty, hemit],
      ⟨?_, ?_, numbered_append h.numbered h.next, ?_, rfl⟩, rfl⟩
    · rw [List.map_append]
      exact h.chunked.last (by omega)
    · intro p hp
      rcases List.mem_append.1 hp with hp | hp
      · exact h.nonempty p hp
      · rw [List.mem_singleton.1 hp]
        intro hnil
        exact hempty (hlength.trans (congrArg List.length hnil))
    · simp [MultipartSink.tell, h.next]

/-- The position after `close`: a short last part counts as a full one. -/
theorem SinkClosed.tell_bounds (h : SinkClosed s all) :
    all.length ≤ s.tell ∧ s.tell < all.length + uploadPartSize := by
  have hpos := uploadPartSize_pos
  rw [h.tell_eq, ← h.chunking.flatten_eq]
  rcases List.eq_nil_or_concat s.futures with hnil | ⟨parts, last, hparts⟩
  · simp [hnil, hpos]
  · rw [List.concat_eq_append] at hparts
    have hfull := h.chunking.length_dropLast
    have hlast := h.chunking.length_le last.data (by simp [hparts])
    have hdata := List.length_pos_iff.2 (h.nonempty last (by simp [hparts]))
    rw [hparts, List.map_append, List.map_singleton, List.dropLast_concat] at hfull
    rw [hparts, List.map_append, List.map_singleton, List.flatten_append, List.flatten_singleton,
      List.length_append, List.length_append, List.length_singleton, length_flatten_parts hfull,
      List.length_map, Nat.succ_mul]
    omega

/-- The life of a sink. No `chunks[0]` of an empty list; `tell` is the number of bytes
written up to each write, and what `close` has then submitted are numbered parts of the
full size, the last one perhaps shorter. The sink counts all of them as full: after
`close` the position is the total rounded up to whole parts. -/
theorem sink_spec (writes : List Bytes) :
    (∀ written rest, writes = written ++ rest →
      ∃ s, ({} : MultipartSink).writeAll written = some s ∧ s.tell = written.flatten.length) ∧
    ∃ s t, ({} : MultipartSink).writeAll writes = some s ∧ s.close = some t ∧
      SinkClosed t writes.flatten ∧
      writes.flatten.length ≤ t.tell ∧ t.tell < writes.flatten.length + uploadPartSize := by
  have hwritten : ∀ written, ∃ s, ({} : MultipartSink).writeAll written = some s ∧
      SinkInv s written.flatten ∧ s.buffered < uploadPartSize := fun written =>
    SinkInv.init.writeAll uploadPartSize_pos written
  refine ⟨fun written rest _ => ?_, ?_⟩
  · obtain ⟨s, hs, hinv, -⟩ := hwritten written
    exact ⟨s, hs, hinv.tell⟩
  · obtain ⟨s, hs, hinv, hfit⟩ := hwritten writes
    obtain ⟨t, ht, hclosed, -⟩ := hinv.close hfit
    exact ⟨s, t, hs, ht, hclosed, hclosed.tell_bounds⟩

/-- One byte, and the position after `close` is a whole part. -/
theorem tell_of_closed : ¬ ∀ writes : List Bytes, ∃ s t,
    ({} : MultipartSink).writeAll writes = some s ∧ s.close = some t ∧
      t.tell = writes.flatten.length := by
  intro h
  obtain ⟨s, t, hs, ht, htell⟩ := h [[0]]
  obtain ⟨s', hs', hinv, hfit⟩ := SinkInv.init.writeAll uploadPartSize_pos [[0]]
  rw [hs] at hs'
  cases hs'
  obtain ⟨t', ht', hclosed, -⟩ := hinv.close hfit
  rw [ht] at ht'
  cases ht'
  have hwhole : t.futures.length * (8 * 1024 * 1024) = 1 := hclosed.tell_eq.symm.trans htell
  omega

end MultipartSink

end S3Archive.SebstoPy
