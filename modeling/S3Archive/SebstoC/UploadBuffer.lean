import S3Archive.Base.Chunks
import S3Archive.Base.Memory
import S3Archive.SebstoC.UploadBatch

/-!
# sebsto C: the upload's batch in memory

`upload_write_sync` over the block behind `batch`, which grows by doubling. Every
access is checked against the block, and a call that would leave it is `none`;
lengths are `Nat` for the code's `size_t`, which holds those of all blocks in memory.
`BatchArgs.uploadWriteSync_refines` says that no call does and that it is the
callback over the list of the batch's bytes; `uploadRun_batches` says what the
upload gets from a sequence of calls that ends with the end of file.
-/

namespace S3Archive.SebstoC

/-! ## Checked accesses -/

/-- The `len` bytes of the block from `start`. -/
def loadBytes (block : Bytes) (start len : Nat) : Option Bytes :=
  if start + len ≤ block.length then some (readAt block start len) else none

/-- `memcpy` of `data` to `start`. -/
def memcpy (block : Bytes) (start : Nat) (data : Bytes) : Option Bytes :=
  if start + data.length ≤ block.length then some (writeAt block start data) else none

/-- `memmove` of `len` bytes from `src` to `dst` in one block. -/
def memmove (block : Bytes) (dst src len : Nat) : Option Bytes := do
  memcpy block dst (← loadBytes block src len)

/-- The block once what follows its first `size` bytes of `len` was moved to the front. -/
def moveFront (block : Bytes) (size len : Nat) : Option Bytes :=
  if len > size then memmove block 0 size (len - size) else some block

/-- `while (cap < need) cap *= 2;`. -/
def doubled (need cap : Nat) (hcap : 0 < cap) : Nat :=
  if cap < need then doubled need (cap * 2) (by omega) else cap
termination_by need - cap

theorem uploadBatchBytes_pos : 0 < uploadBatchBytes := by decide

theorem moveFront_spec {block : Bytes} {size len : Nat} (hsize : size ≤ len)
    (hlen : len ≤ block.length) : ∃ block', moveFront block size len = some block' ∧
      block'.length = block.length ∧ readAt block' 0 (len - size) = (block.take len).drop size := by
  unfold moveFront
  by_cases hmore : len > size
  · rw [if_pos hmore]
    have hend : size + (len - size) ≤ block.length := by omega
    have hload : loadBytes block size (len - size) = some (readAt block size (len - size)) :=
      if_pos hend
    have hread := length_readAt hend
    generalize hdata : readAt block size (len - size) = data at hload hread
    have hstore : 0 + data.length ≤ block.length := by omega
    refine ⟨writeAt block 0 data, ?_, length_writeAt hstore, ?_⟩
    · rw [memmove, hload]
      exact if_pos hstore
    · have hbytes := @readAt_writeAt_append _ block 0 0 data (by omega)
      rw [Nat.zero_add, Nat.zero_add, hread] at hbytes
      rw [hbytes, ← hdata, List.drop_take]
      rfl
  · rw [if_neg hmore]
    have hzero : len - size = 0 := by omega
    exact ⟨block, rfl, rfl, by rw [List.drop_take, hzero, readAt_zero, List.take_zero]⟩

/-! ## The callback -/

/-- `zipper_args_t` with the block behind `batch`; `upload` holds the other fields, and its own
batch stays empty. `fills` are all values of `batch_len`, each with the capacity it had then. -/
structure BatchArgs where
  block : Bytes := []
  batchLen : Nat := 0
  batchCap : Nat := 0
  upload : ZipperArgs := {}
  fills : List (Nat × Nat) := []

namespace BatchArgs

/-- `batch_len = len`. -/
def setLen (a : BatchArgs) (len : Nat) : BatchArgs :=
  { a with batchLen := len, fills := a.fills ++ [(len, a.batchCap)] }

section

variable (accepts : Nat → Bool) (garbage : Nat → UInt8)

/-- `xrealloc` to `cap` bytes; what is new holds garbage. -/
def realloc (a : BatchArgs) (cap : Nat) : BatchArgs :=
  { a with
    block := a.block.take cap ++ (List.range (cap - a.block.length)).map garbage
    batchCap := cap }

/-- The capacity that takes `need` bytes: the old one doubled, at first the batch size. -/
def grownCap (a : BatchArgs) (need : Nat) : Nat :=
  if h : 0 < a.batchCap then doubled need a.batchCap h
  else doubled need uploadBatchBytes uploadBatchBytes_pos

/-- Make room for `need` bytes. -/
def reserve (a : BatchArgs) (need : Nat) : BatchArgs :=
  if need > a.batchCap then a.realloc garbage (a.grownCap need) else a

/-- Append to the batch. -/
def append (a : BatchArgs) (data : Bytes) : Option BatchArgs :=
  if data.length ≠ 0 then do
    let a := a.reserve garbage (a.batchLen + data.length)
    let block ← memcpy a.block a.batchLen data
    return { a with block }.setLen (a.batchLen + data.length)
  else some a

/-- Flush full batches. -/
def flushFull (a : BatchArgs) : Option (Int × BatchArgs) :=
  if a.batchLen ≥ uploadBatchBytes then
    match loadBytes a.block 0 uploadBatchBytes with
    | none => none
    | some data =>
      let r := crtWriteSync accepts a.upload data false
      if r.1 ≠ 0 then some (-1, { a with upload := r.2 })
      else
        match moveFront a.block uploadBatchBytes a.batchLen with
        | none => none
        | some block =>
          flushFull ({ a with block, upload := r.2 }.setLen (a.batchLen - uploadBatchBytes))
  else some (0, a)
termination_by a.batchLen
decreasing_by
  have := uploadBatchBytes_pos
  simp only [setLen]
  omega

def uploadWriteSync (a : BatchArgs) (data : Bytes) (eof : Bool) : Option (Int × BatchArgs) :=
  if a.upload.writeFailed then some (-1, a)
  else do
    let a ← a.append garbage data
    if eof then
      let rest ← loadBytes a.block 0 a.batchLen
      let (rc, upload) := crtWriteSync accepts a.upload rest true
      if rc ≠ 0 then return (-1, { a with upload })
      return (0, { a with upload }.setLen 0)
    else a.flushFull accepts

/-- The calls in order, with the code of each. -/
def uploadRun (a : BatchArgs) : List (Bytes × Bool) → Option (List Int × BatchArgs)
  | [] => some ([], a)
  | (data, eof) :: calls => do
    let (rc, a) ← a.uploadWriteSync accepts garbage data eof
    let (rcs, a) ← a.uploadRun calls
    return (rc :: rcs, a)

end

/-! ## The bytes of the batch -/

/-- The callback's state with the batch as a list. -/
def view (a : BatchArgs) : ZipperArgs := { a.upload with batch := readAt a.block 0 a.batchLen }

theorem view_setLen (a : BatchArgs) (len : Nat) :
    (a.setLen len).view = { a.upload with batch := readAt a.block 0 len } := rfl

theorem batch_view (a : BatchArgs) : a.view.batch = a.block.take a.batchLen := rfl

/-- The capacity is that of the block, and no fill has ever been larger. -/
structure Sound (a : BatchArgs) : Prop where
  cap_eq : a.batchCap = a.block.length
  fill_le : a.batchLen ≤ a.batchCap
  fills_le : ∀ f ∈ a.fills, f.1 ≤ f.2

theorem le_doubled (need cap : Nat) (hcap : 0 < cap) :
    need ≤ doubled need cap hcap ∧ cap ≤ doubled need cap hcap := by
  fun_induction doubled need cap hcap with
  | case1 cap hcap _ ih => omega
  | case2 cap hcap hle => omega

theorem le_grownCap (a : BatchArgs) (need : Nat) :
    need ≤ a.grownCap need ∧ a.batchCap ≤ a.grownCap need := by
  unfold grownCap
  split_ifs with hpos
  · exact le_doubled need a.batchCap hpos
  · obtain ⟨hneed, -⟩ := le_doubled need uploadBatchBytes uploadBatchBytes_pos
    exact ⟨hneed, (Nat.eq_zero_of_not_pos hpos).trans_le (Nat.zero_le _)⟩

section

variable {accepts : Nat → Bool} {garbage : Nat → UInt8} {a : BatchArgs}

theorem Sound.setLen (hcap : a.batchCap = a.block.length) (hfills : ∀ f ∈ a.fills, f.1 ≤ f.2)
    {len : Nat} (hlen : len ≤ a.batchCap) : (a.setLen len).Sound := by
  refine ⟨hcap, hlen, fun f hf => ?_⟩
  rcases List.mem_append.1 hf with hf | hf
  · exact hfills f hf
  · rw [List.mem_singleton.1 hf]
    exact hlen

/-- A larger block keeps the bytes of the batch. -/
theorem Sound.realloc (h : a.Sound) {cap : Nat} (hcap : a.batchCap ≤ cap) :
    (a.realloc garbage cap).Sound ∧ (a.realloc garbage cap).view = a.view := by
  have htake : a.block.take cap = a.block := List.take_of_length_le (by rw [← h.cap_eq]; exact hcap)
  have hfit : a.batchLen ≤ a.block.length := h.cap_eq ▸ h.fill_le
  refine ⟨⟨?_, h.fill_le.trans hcap, h.fills_le⟩, ?_⟩
  · have hblock := h.cap_eq
    simp only [BatchArgs.realloc, htake, List.length_append, List.length_map, List.length_range]
    omega
  · simp only [view, BatchArgs.realloc, readAt, htake, List.drop_zero]
    rw [List.take_append_of_le_length hfit]

theorem Sound.reserve (h : a.Sound) (need : Nat) :
    (a.reserve garbage need).Sound ∧ (a.reserve garbage need).view = a.view ∧
      need ≤ (a.reserve garbage need).batchCap := by
  obtain ⟨hneed, hcap⟩ := a.le_grownCap need
  unfold BatchArgs.reserve
  split_ifs with hfull
  · obtain ⟨hsound, hview⟩ := @Sound.realloc garbage _ h _ hcap
    exact ⟨hsound, hview, hneed⟩
  · exact ⟨h, rfl, by omega⟩

theorem batchLen_reserve (a : BatchArgs) (need : Nat) :
    (a.reserve garbage need).batchLen = a.batchLen := by
  unfold BatchArgs.reserve
  split_ifs <;> rfl

/-- The data fits and follows the batch. -/
theorem Sound.append (h : a.Sound) (data : Bytes) : ∃ a', a.append garbage data = some a' ∧
    a'.Sound ∧ a'.view = { a.view with batch := a.view.batch ++ data } := by
  by_cases hdata : data.length ≠ 0
  · obtain ⟨hr, hview, hneed⟩ := @Sound.reserve garbage _ h (a.batchLen + data.length)
    have hlen := @batchLen_reserve garbage a (a.batchLen + data.length)
    unfold BatchArgs.append
    rw [if_pos hdata]
    dsimp only
    generalize a.reserve garbage (a.batchLen + data.length) = b at hr hview hneed hlen
    have hfit : b.batchLen + data.length ≤ b.block.length := by
      rw [← hr.cap_eq, hlen]
      exact hneed
    have hcopy : memcpy b.block b.batchLen data = some (writeAt b.block b.batchLen data) :=
      if_pos hfit
    have hbytes := @readAt_writeAt_append _ b.block 0 b.batchLen data (by omega)
    rw [Nat.zero_add] at hbytes
    have hcap : b.batchCap = (writeAt b.block b.batchLen data).length :=
      hr.cap_eq.trans (length_writeAt hfit).symm
    rw [← hlen] at hneed
    refine ⟨{ b with block := writeAt b.block b.batchLen data }.setLen
      (b.batchLen + data.length), ?_,
      @Sound.setLen { b with block := writeAt b.block b.batchLen data } hcap hr.fills_le _ hneed, ?_⟩
    · rw [hcopy]
      rfl
    · rw [view_setLen, hbytes, ← hview]
      rfl
  · rw [not_not] at hdata
    refine ⟨a, ?_, h, ?_⟩
    · unfold BatchArgs.append
      rw [if_neg (by simp [hdata])]
    · rw [List.eq_nil_of_length_eq_zero hdata, List.append_nil]

/-! ## One call -/

/-- A write does not look at the batch. -/
theorem crtWriteSync_view (a : BatchArgs) (data : Bytes) (eof : Bool) :
    crtWriteSync accepts a.view data eof =
      ((crtWriteSync accepts a.upload data eof).1,
        { (crtWriteSync accepts a.upload data eof).2 with batch := a.view.batch }) := by
  unfold crtWriteSync view
  split_ifs <;> rfl

/-- The loop flushes every full batch of the list. -/
theorem Sound.flushFull (h : a.Sound) : ∃ rc a', a.flushFull accepts = some (rc, a') ∧ a'.Sound ∧
    flushBatches accepts (a.batchLen / uploadBatchBytes) a.view = (rc, a'.view) := by
  induction hn : a.batchLen using Nat.strong_induction_on generalizing a with
  | _ n ih =>
    subst hn
    have hpos := uploadBatchBytes_pos
    rw [BatchArgs.flushFull]
    by_cases hfull : a.batchLen ≥ uploadBatchBytes
    · have hfit : a.batchLen ≤ a.block.length := h.cap_eq ▸ h.fill_le
      have hload : loadBytes a.block 0 uploadBatchBytes =
          some (a.view.batch.take uploadBatchBytes) := by
        rw [batch_view, List.take_take, Nat.min_eq_left hfull, loadBytes, if_pos (by omega), readAt,
          List.drop_zero]
      obtain ⟨block, hmoved, hlen, hbytes⟩ := moveFront_spec hfull hfit
      rw [if_pos hfull, Nat.div_eq_sub_div hpos hfull, flushBatches]
      simp only [hload, hmoved, crtWriteSync_view]
      generalize crtWriteSync accepts a.upload (a.view.batch.take uploadBatchBytes) false = r
      by_cases hrc : r.1 ≠ 0
      · rw [if_pos hrc, if_pos hrc]
        exact ⟨-1, _, rfl, ⟨h.cap_eq, h.fill_le, h.fills_le⟩, rfl⟩
      · rw [if_neg hrc, if_neg hrc, batch_view, ← hbytes]
        -- the block now starts behind the batch that was written
        have hcap := h.cap_eq.trans hlen.symm
        have hle : a.batchLen - uploadBatchBytes ≤ a.batchCap := (Nat.sub_le _ _).trans h.fill_le
        exact ih _ (by show a.batchLen - uploadBatchBytes < a.batchLen; omega)
          (@Sound.setLen { a with block, upload := r.2 } hcap h.fills_le
            _ hle) rfl
    · rw [if_neg hfull, Nat.div_eq_of_lt (by omega)]
      exact ⟨0, a, rfl, h, rfl⟩

/-- The callback over the list, once the data `v` has been appended. -/
theorem uploadWriteSync_appended {u v : ZipperArgs} {data : Bytes} (hu : u.writeFailed = false)
    (hv : v = { u with batch := u.batch ++ data }) (eof : Bool) :
    SebstoC.uploadWriteSync accepts u data eof =
      if eof then
        if (crtWriteSync accepts v v.batch true).1 ≠ 0 then
          (-1, (crtWriteSync accepts v v.batch true).2)
        else (0, { (crtWriteSync accepts v v.batch true).2 with batch := [] })
      else flushBatches accepts (v.batch.length / uploadBatchBytes) v := by
  subst hv
  unfold SebstoC.uploadWriteSync
  rw [if_neg (by simp [hu])]

/-- No call leaves the block, and it does what the callback over the list does. -/
theorem uploadWriteSync_refines (h : a.Sound) (data : Bytes) (eof : Bool) :
    ∃ rc a', a.uploadWriteSync accepts garbage data eof = some (rc, a') ∧ a'.Sound ∧
      SebstoC.uploadWriteSync accepts a.view data eof = (rc, a'.view) := by
  by_cases hfailed : a.view.writeFailed = true
  · exact ⟨-1, a, if_pos hfailed, h, uploadWriteSync_of_failed hfailed data eof⟩
  · obtain ⟨b, happend, hb, hview⟩ := @Sound.append garbage _ h data
    have hfit : 0 + b.batchLen ≤ b.block.length := by
      rw [Nat.zero_add, ← hb.cap_eq]
      exact hb.fill_le
    have hlen : b.view.batch.length = b.batchLen := length_readAt hfit
    have hload : loadBytes b.block 0 b.batchLen = some b.view.batch := if_pos hfit
    rw [uploadWriteSync_appended (Bool.eq_false_of_not_eq_true hfailed) hview, hlen]
    have hcall : a.uploadWriteSync accepts garbage data eof = _ := if_neg hfailed
    rw [hcall, happend]
    cases eof with
    | true =>
      simp only [Option.bind_eq_bind, Option.bind_some, hload, crtWriteSync_view, if_true]
      generalize crtWriteSync accepts b.upload b.view.batch true = r
      by_cases hrc : r.1 ≠ 0
      · rw [if_pos hrc, if_pos hrc]
        exact ⟨-1, _, rfl, ⟨hb.cap_eq, hb.fill_le, hb.fills_le⟩, rfl⟩
      · rw [if_neg hrc, if_neg hrc]
        exact ⟨0, _, rfl, @Sound.setLen { b with upload := r.2 } hb.cap_eq hb.fills_le 0
          (Nat.zero_le _), rfl⟩
    | false => exact hb.flushFull

/-! ## Sequences of calls -/

/-- All of `all` was given to the callback, and full batches of it were accepted. -/
structure Batched (full : List Bytes) (u : ZipperArgs) (all : Bytes) : Prop where
  alive : u.writeFailed = false
  accepted_eq : u.accepted = full.map (·, false)
  chunked : Chunked uploadBatchBytes full u.batch all

theorem crtWriteSync_of_alive {u : ZipperArgs} (hu : u.writeFailed = false) (data : Bytes)
    (eof : Bool) : crtWriteSync (fun _ => true) u data eof =
      (0, { u with accepted := u.accepted ++ [(data, eof)], writes := u.writes + 1 }) := by
  unfold crtWriteSync
  rw [if_neg (by simp [hu]), if_pos rfl]

theorem Batched.flushBatches {full : List Bytes} {u : ZipperArgs} {all : Bytes} (n : Nat)
    (hn : n * uploadBatchBytes ≤ u.batch.length) (h : Batched full u all) :
    ∃ full' u', flushBatches (fun _ => true) n u = (0, u') ∧ Batched full' u' all := by
  induction n generalizing full u with
  | zero => exact ⟨full, u, rfl, h⟩
  | succ n ih =>
    rw [Nat.succ_mul] at hn
    rw [SebstoC.flushBatches, crtWriteSync_of_alive h.alive]
    refine ih ?_ ⟨h.alive, ?_, h.chunked.cut (by omega)⟩
    · show _ ≤ (u.batch.drop uploadBatchBytes).length
      rw [List.length_drop]
      omega
    · rw [List.map_append, ← h.accepted_eq]
      rfl

/-- A call without the end of file takes its data. -/
theorem Batched.write {full : List Bytes} {u : ZipperArgs} {all : Bytes} (h : Batched full u all)
    (data : Bytes) : ∃ full' u', SebstoC.uploadWriteSync (fun _ => true) u data false = (0, u') ∧
      Batched full' u' (all ++ data) := by
  rw [uploadWriteSync_appended h.alive rfl]
  refine Batched.flushBatches _ (Nat.div_mul_le_self _ _) ⟨h.alive, h.accepted_eq, ?_⟩
  exact h.chunked.append data

/-- The end of file writes what is left. -/
theorem Batched.writeEof {full : List Bytes} {u : ZipperArgs} {all : Bytes}
    (h : Batched full u all) (data : Bytes) : ∃ u',
      SebstoC.uploadWriteSync (fun _ => true) u data true = (0, u') ∧
        u'.accepted = full.map (·, false) ++ [(u.batch ++ data, true)] := by
  rw [uploadWriteSync_appended h.alive rfl, if_pos rfl, crtWriteSync_of_alive (by exact h.alive)]
  exact ⟨_, if_neg (by simp), by rw [← h.accepted_eq]⟩

/-- What the writes so far keep, for any writes that follow without the end of file. -/
theorem uploadRun_plain (h : a.Sound) {full : List Bytes} {all : Bytes}
    (hall : Batched full a.view all) (writes : List Bytes) (calls : List (Bytes × Bool)) :
    ∃ (full' : List Bytes) (a' : BatchArgs), a'.Sound ∧
      Batched full' a'.view (all ++ writes.flatten) ∧
      a.uploadRun (fun _ => true) garbage (writes.map (·, false) ++ calls) =
        (a'.uploadRun (fun _ => true) garbage calls).map
          fun r => (List.replicate writes.length 0 ++ r.1, r.2) := by
  induction writes generalizing full all a with
  | nil => exact ⟨full, a, h, by simpa using hall, by simp⟩
  | cons data writes ih =>
    obtain ⟨full', u, hu, hbatched⟩ := hall.write data
    obtain ⟨rc, b, hcall, hb, hview⟩ :=
      @uploadWriteSync_refines (fun _ => true) garbage _ h data false
    rw [hu] at hview
    obtain ⟨rfl, rfl⟩ := Prod.mk.inj hview
    obtain ⟨full'', a', ha', hlast, hrun⟩ := ih hb hbatched
    refine ⟨full'', a', ha', by simpa using hlast, ?_⟩
    rw [List.map_cons, List.cons_append, BatchArgs.uploadRun, hcall, Option.bind_eq_bind,
      Option.bind_some]
    dsimp only
    rw [hrun]
    cases a'.uploadRun (fun _ => true) garbage calls <;> rfl

/-- Every call succeeds within the block, the upload gets full batches and one last write with the
end of file, in order all that was written, and the batch never outgrows its capacity. -/
theorem uploadRun_batches (garbage : Nat → UInt8) (writes : List Bytes) (last : Bytes) :
    ∃ a full final,
      ({} : BatchArgs).uploadRun (fun _ => true) garbage
        (writes.map (·, false) ++ [(last, true)]) =
          some (List.replicate (writes.length + 1) 0, a) ∧
      a.upload.accepted = full.map (·, false) ++ [(final, true)] ∧
      (∀ p ∈ full, p.length = uploadBatchBytes) ∧
      (full ++ [final]).flatten = (writes ++ [last]).flatten ∧
      ∀ f ∈ a.fills, f.1 ≤ f.2 := by
  have hinit : ({} : BatchArgs).Sound := ⟨rfl, Nat.le_refl 0, by simp⟩
  have hnone : Batched [] ({} : BatchArgs).view [] := ⟨rfl, rfl, Chunked.nil _⟩
  obtain ⟨full, a, ha, hall, hrun⟩ :=
    @uploadRun_plain garbage _ hinit _ _ hnone writes [(last, true)]
  obtain ⟨u, hu, haccepted⟩ := hall.writeEof last
  obtain ⟨rc, b, hcall, hb, hview⟩ :=
    @uploadWriteSync_refines (fun _ => true) garbage _ ha last true
  rw [hu] at hview
  obtain ⟨rfl, rfl⟩ := Prod.mk.inj hview
  refine ⟨b, full, a.view.batch ++ last, ?_, haccepted, hall.chunked.length_eq, ?_, hb.fills_le⟩
  · rw [hrun, BatchArgs.uploadRun, hcall, List.replicate_succ']
    rfl
  · have hflat := hall.chunked.flatten_append
    rw [List.nil_append] at hflat
    simp [← hflat]

end

end BatchArgs

end S3Archive.SebstoC
