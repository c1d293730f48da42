import S3Archive.Base.Memory
import S3Archive.JrodonV3.Delegation

/-!
# jrodon-v3: the shared part buffer

`SharedBuf` is an `Arc` allocation with its strong count, `BufSlice` a range of
it that holds one of the counted handles. `UploadStep` is what `execute` does
with the buffer of an upload part: it carves one slice for each element and hands
it to a task; the tasks write into their slices and end at any time, in any
order. Bytes are read and written through `readAt` and `writeAt`.
-/

namespace S3Archive.JrodonV3

/-! ## The buffer and its slices -/

structure SharedBuf where
  /-- `Arc::strong_count`. -/
  strongCount : Nat
  bytes : Bytes

namespace SharedBuf

/-- `Arc::clone`. -/
def clone (b : SharedBuf) : SharedBuf := { b with strongCount := b.strongCount + 1 }

/-- One handle is dropped. -/
def drop (b : SharedBuf) : SharedBuf := { b with strongCount := b.strongCount - 1 }

end SharedBuf

structure BufSlice where
  /-- Offset of the first byte in the buffer. -/
  startAt : Nat
  length : Nat

namespace SharedBuf

def withCapacity (len : Nat) : SharedBuf := ⟨1, List.replicate len 0⟩

/-- A slice of the whole buffer, which holds a handle of its own. -/
def slice (b : SharedBuf) : Except String (BufSlice × SharedBuf) :=
  if b.strongCount = 1 then .ok (⟨0, b.bytes.length⟩, b.clone) else .error "Slice already exists"

/-- `Arc::try_unwrap`. -/
def intoInner (b : SharedBuf) : Except SharedBuf Bytes :=
  if b.strongCount = 1 then .ok b.bytes else .error b

end SharedBuf

namespace BufSlice

/-- The left slice gets a new handle and the right one the old handle; `none` when `length - at`
underflows. -/
def split (s : BufSlice) (pos : Nat) (b : SharedBuf) : Option (BufSlice × BufSlice × SharedBuf) :=
  if pos ≤ s.length then some (⟨s.startAt, pos⟩, ⟨s.startAt + pos, s.length - pos⟩, b.clone)
  else none

/-- A write through `deref_mut`, at an offset in the slice. -/
def write (s : BufSlice) (offset : Nat) (data : Bytes) (b : SharedBuf) : SharedBuf :=
  { b with bytes := writeAt b.bytes (s.startAt + offset) data }

def stop (s : BufSlice) : Nat := s.startAt + s.length

/-- The offsets of the buffer that the slice covers. -/
def positions (s : BufSlice) : List Nat := List.range' s.startAt s.length

end BufSlice

/-! ## Executing an upload part -/

/-- The task of an element. -/
structure UploadTask where
  elem : UploadPartElement
  slice : BufSlice
  /-- What its own writes make of zeroed bytes. -/
  content : Bytes
  /-- It has not ended: its slice is not dropped. -/
  running : Bool

structure UploadState where
  buffer : SharedBuf
  /-- The elements without a slice. -/
  elems : List UploadPartElement
  remainBuf : Option BufSlice
  tasks : List UploadTask

namespace UploadState

/-- The buffer is allocated and sliced. -/
def start (partSize : Nat) (elems : List UploadPartElement) : Except String UploadState := do
  let (remainBuf, buffer) ← (SharedBuf.withCapacity partSize).slice
  return ⟨buffer, elems, some remainBuf, []⟩

/-- The slices that hold a handle or have held one. -/
def slices (s : UploadState) : List BufSlice := s.tasks.map UploadTask.slice ++ s.remainBuf.toList

end UploadState

inductive UploadEvent where
  | spawn
  | dropRemain
  | write (task offset : Nat) (data : Bytes)
  | finish (task : Nat)

inductive UploadStep : UploadState → UploadEvent → UploadState → Prop where
  /-- The next element gets its slice and its task. -/
  | spawn {s : UploadState} {e : UploadPartElement} {rest : List UploadPartElement}
      {remainBuf buf remain : BufSlice} {buffer : SharedBuf} :
      s.elems = e :: rest → s.remainBuf = some remainBuf →
      remainBuf.split e.elemSize s.buffer = some (buf, remain, buffer) →
      UploadStep s .spawn
        { buffer := buffer
          elems := rest
          remainBuf := some remain
          tasks := s.tasks ++ [⟨e, buf, List.replicate buf.length 0, true⟩] }
  /-- `drop(remain_buf)` after the loop. -/
  | dropRemain {s : UploadState} {remainBuf : BufSlice} :
      s.elems = [] → s.remainBuf = some remainBuf →
      UploadStep s .dropRemain { s with buffer := s.buffer.drop, remainBuf := none }
  /-- A task writes inside its slice. -/
  | write {s : UploadState} {before after : List UploadTask} {t : UploadTask} {offset : Nat}
      {data : Bytes} :
      s.tasks = before ++ t :: after → t.running = true →
      offset + data.length ≤ t.slice.length →
      UploadStep s (.write before.length offset data)
        { s with
          buffer := t.slice.write offset data s.buffer
          tasks := before ++ { t with content := writeAt t.content offset data } :: after }
  /-- A task returns, fails or panics, and drops its slice. -/
  | finish {s : UploadState} {before after : List UploadTask} {t : UploadTask} :
      s.tasks = before ++ t :: after → t.running = true →
      UploadStep s (.finish before.length)
        { s with
          buffer := s.buffer.drop
          tasks := before ++ { t with running := false } :: after }

/-! ## Consecutive slices -/

/-- One slice for each element, the first one at an offset. -/
def slicesFrom (off : Nat) (elems : List UploadPartElement) : List BufSlice :=
  (offsetsFrom UploadPartElement.elemSize off elems).map fun p => ⟨p.1, p.2.elemSize⟩

/-- The bytes that the elements need. -/
def totalSize (elems : List UploadPartElement) : Nat := (elems.map UploadPartElement.elemSize).sum

@[simp] theorem totalSize_nil : totalSize [] = 0 := rfl

@[simp] theorem totalSize_cons (e : UploadPartElement) (elems : List UploadPartElement) :
    totalSize (e :: elems) = e.elemSize + totalSize elems := rfl

@[simp] theorem totalSize_append (xs ys : List UploadPartElement) :
    totalSize (xs ++ ys) = totalSize xs + totalSize ys := by
  unfold totalSize
  rw [List.map_append, List.sum_append]

theorem slicesFrom_append (off : Nat) (xs ys : List UploadPartElement) :
    slicesFrom off (xs ++ ys) = slicesFrom off xs ++ slicesFrom (off + totalSize xs) ys := by
  unfold slicesFrom
  rw [offsetsFrom_append, List.map_append]
  rfl

theorem positions_slicesFrom (off : Nat) (elems : List UploadPartElement) :
    (slicesFrom off elems).flatMap BufSlice.positions = List.range' off (totalSize elems) := by
  induction elems generalizing off with
  | nil => rfl
  | cons e elems ih =>
    have hrest := ih (off + e.elemSize)
    unfold slicesFrom at hrest ⊢
    rw [offsetsFrom_cons, List.map_cons, List.flatMap_cons, hrest, totalSize_cons]
    exact List.range'_append_1

theorem ordered_slicesFrom (off : Nat) (elems : List UploadPartElement) :
    (slicesFrom off elems).Pairwise fun a b => a.stop ≤ b.startAt := by
  induction elems generalizing off with
  | nil => exact .nil
  | cons e elems ih =>
    refine .cons ?_ (ih _)
    intro b hb
    obtain ⟨p, hp, rfl⟩ := List.mem_map.1 hb
    exact le_of_mem_offsetsFrom _ hp

/-! ## The invariant -/

/-- The tasks that have not ended. -/
def UploadState.live (s : UploadState) : Nat := s.tasks.countP UploadTask.running

/-- The slices lie one behind the other in the order of the elements `elems`, and the buffer is
what the tasks have put into them, then zeroed bytes for the elements to come. -/
structure UploadInv (elems : List UploadPartElement) (s : UploadState) : Prop where
  elems_eq : s.tasks.map UploadTask.elem ++ s.elems = elems
  slices_eq : s.tasks.map UploadTask.slice = slicesFrom 0 (s.tasks.map UploadTask.elem)
  length_content : ∀ t ∈ s.tasks, t.content.length = t.elem.elemSize
  bytes_eq : s.buffer.bytes =
    s.tasks.flatMap UploadTask.content ++ List.replicate (totalSize s.elems) 0
  remain_eq : ∀ r, s.remainBuf = some r →
    r = ⟨totalSize (s.tasks.map UploadTask.elem), totalSize s.elems⟩
  remain_none : s.remainBuf = none → s.elems = []
  count : s.buffer.strongCount = 1 + s.remainBuf.toList.length + s.live

/-- The slice of a task begins behind the elements before it. -/
theorem slice_eq_of_slicesFrom {before after : List UploadTask} {t : UploadTask}
    (h : (before ++ t :: after).map UploadTask.slice =
      slicesFrom 0 ((before ++ t :: after).map UploadTask.elem)) :
    t.slice = ⟨totalSize (before.map UploadTask.elem), t.elem.elemSize⟩ := by
  rw [List.map_append, List.map_append, slicesFrom_append, List.map_cons, List.map_cons] at h
  have hlen : (before.map UploadTask.slice).length =
      (slicesFrom 0 (before.map UploadTask.elem)).length := by
    unfold slicesFrom
    rw [List.length_map, List.length_map, length_offsetsFrom, List.length_map]
  obtain ⟨-, htail⟩ := List.append_inj h hlen
  have hhead := (List.cons.inj htail).1
  rw [Nat.zero_add] at hhead
  exact hhead

theorem length_contents {tasks : List UploadTask}
    (h : ∀ t ∈ tasks, t.content.length = t.elem.elemSize) :
    (tasks.flatMap UploadTask.content).length = totalSize (tasks.map UploadTask.elem) := by
  unfold totalSize
  rw [List.length_flatMap, List.map_map, List.map_congr_left h]
  rfl

namespace UploadInv

variable {elems : List UploadPartElement} {s s' : UploadState} {ev : UploadEvent}

theorem init {partSize : Nat} (h : partSize = totalSize elems) :
    ∃ s₀, UploadState.start partSize elems = .ok s₀ ∧ UploadInv elems s₀ := by
  refine ⟨⟨⟨2, List.replicate partSize 0⟩, elems,
    some ⟨0, (List.replicate partSize (0 : UInt8)).length⟩, []⟩, rfl, ?_⟩
  refine ⟨rfl, rfl, ?_, ?_, ?_, ?_, rfl⟩
  · intro t ht
    cases ht
  · rw [h]
    rfl
  · intro r hr
    cases hr
    rw [List.length_replicate, h]
    rfl
  · intro hr
    cases hr

/-- The next element has room in what remains. -/
theorem room (hinv : UploadInv elems s) {e : UploadPartElement} {rest : List UploadPartElement}
    (he : s.elems = e :: rest) :
    ∃ r, s.remainBuf = some r ∧ e.elemSize ≤ r.length := by
  cases hr : s.remainBuf with
  | none =>
    have := hinv.remain_none hr
    rw [he] at this
    cases this
  | some r =>
    refine ⟨r, rfl, ?_⟩
    rw [hinv.remain_eq r hr, he, totalSize_cons]
    exact Nat.le_add_right _ _

/-- The next element is given the front of what remains. -/
theorem spawn (hinv : UploadInv elems s) {e : UploadPartElement} {rest : List UploadPartElement}
    {r buf remain : BufSlice} {buffer : SharedBuf} (he : s.elems = e :: rest)
    (hr : s.remainBuf = some r)
    (hsplit : r.split e.elemSize s.buffer = some (buf, remain, buffer)) :
    UploadInv elems ⟨buffer, rest, some remain,
      s.tasks ++ [⟨e, buf, List.replicate buf.length 0, true⟩]⟩ := by
  have hstart := hinv.remain_eq r hr
  have hcount := hinv.count
  have helems := hinv.elems_eq
  have hbytes := hinv.bytes_eq
  rw [he] at helems hbytes hstart
  rw [hr] at hcount
  obtain ⟨r', hr', hle⟩ := hinv.room he
  obtain rfl : r = r' := Option.some.inj (hr.symm.trans hr')
  unfold BufSlice.split at hsplit
  rw [if_pos hle] at hsplit
  cases hsplit
  refine ⟨?_, ?_, ?_, ?_, ?_, ?_, ?_⟩
  · rw [List.map_append, List.append_assoc]
    exact helems
  · rw [List.map_append, List.map_append, slicesFrom_append, hinv.slices_eq, hstart, Nat.zero_add]
    rfl
  · intro t ht
    rcases List.mem_append.1 ht with ht | ht
    · exact hinv.length_content t ht
    · rw [List.mem_singleton.1 ht]
      exact List.length_replicate
  · show s.buffer.bytes = _
    rw [hbytes, totalSize_cons, List.replicate_add, List.flatMap_append, List.flatMap_singleton,
      List.append_assoc]
  · intro r' hr'
    cases hr'
    rw [hstart, List.map_append, totalSize_append, totalSize_cons, Nat.add_sub_cancel_left]
    rfl
  · intro hnone
    cases hnone
  · show s.buffer.strongCount + 1 = 1 + 1 + (s.tasks ++ [_]).countP UploadTask.running
    rw [hcount, List.countP_append, List.countP_singleton]
    show 1 + 1 + s.live + 1 = 1 + 1 + (s.live + 1)
    omega

/-- A task changes without moving its slice. -/
theorem replace (hinv : UploadInv elems s) {before after : List UploadTask} {t t' : UploadTask}
    {buffer : SharedBuf} (hts : s.tasks = before ++ t :: after) (helem : t'.elem = t.elem)
    (hslice : t'.slice = t.slice) (hlen : t'.content.length = t.content.length)
    (hbytes : buffer.bytes = (before ++ t' :: after).flatMap UploadTask.content ++
      List.replicate (totalSize s.elems) 0)
    (hcount : buffer.strongCount = 1 + s.remainBuf.toList.length +
      (before ++ t' :: after).countP UploadTask.running) :
    UploadInv elems { s with buffer := buffer, tasks := before ++ t' :: after } := by
  have helems : (before ++ t' :: after).map UploadTask.elem = s.tasks.map UploadTask.elem := by
    rw [hts, List.map_append, List.map_append, List.map_cons, List.map_cons, helem]
  have hslices : (before ++ t' :: after).map UploadTask.slice = s.tasks.map UploadTask.slice := by
    rw [hts, List.map_append, List.map_append, List.map_cons, List.map_cons, hslice]
  refine ⟨?_, ?_, ?_, hbytes, ?_, hinv.remain_none, hcount⟩
  · show (before ++ t' :: after).map UploadTask.elem ++ s.elems = elems
    rw [helems]
    exact hinv.elems_eq
  · show (before ++ t' :: after).map UploadTask.slice =
      slicesFrom 0 ((before ++ t' :: after).map UploadTask.elem)
    rw [helems, hslices]
    exact hinv.slices_eq
  · intro u hu
    have hold := hinv.length_content
    rw [hts] at hold
    rcases List.mem_append.1 hu with hu | hu
    · exact hold u (List.mem_append_left _ hu)
    · rcases List.mem_cons.1 hu with rfl | hu
      · rw [hlen, helem]
        exact hold t (List.mem_append_right _ List.mem_cons_self)
      · exact hold u (List.mem_append_right _ (List.mem_cons_of_mem _ hu))
  · intro r hr
    show r = ⟨totalSize ((before ++ t' :: after).map UploadTask.elem), totalSize s.elems⟩
    rw [helems]
    exact hinv.remain_eq r hr

/-- The buffer around the bytes of one task. -/
theorem bytes_split (hinv : UploadInv elems s) {before after : List UploadTask} {t : UploadTask}
    (hts : s.tasks = before ++ t :: after) :
    ∃ pre post : Bytes, s.buffer.bytes = pre ++ t.content ++ post ∧
      pre = before.flatMap UploadTask.content ∧
      post = after.flatMap UploadTask.content ++ List.replicate (totalSize s.elems) 0 ∧
      pre.length = t.slice.startAt ∧ t.content.length = t.slice.length := by
  have hslices := hinv.slices_eq
  have hlen := hinv.length_content
  have hbytes := hinv.bytes_eq
  rw [hts] at hslices hlen hbytes
  refine ⟨_, _, ?_, rfl, rfl, ?_, ?_⟩
  · rw [hbytes, List.flatMap_append, List.flatMap_cons]
    simp only [List.append_assoc]
  · rw [slice_eq_of_slicesFrom hslices,
      length_contents fun u hu => hlen u (List.mem_append_left _ hu)]
  · rw [slice_eq_of_slicesFrom hslices, hlen t (List.mem_append_right _ List.mem_cons_self)]

theorem step (hinv : UploadInv elems s) (h : UploadStep s ev s') : UploadInv elems s' := by
  cases h with
  | spawn he hr hsplit => exact hinv.spawn he hr hsplit
  | @dropRemain r he hr =>
    have hcount := hinv.count
    rw [hr] at hcount
    refine ⟨hinv.elems_eq, hinv.slices_eq, hinv.length_content, hinv.bytes_eq, ?_, fun _ => he, ?_⟩
    · intro r' hr'
      cases hr'
    · show s.buffer.strongCount - 1 = 1 + 0 + s.live
      rw [hcount]
      show 1 + 1 + s.live - 1 = 1 + 0 + s.live
      omega
  | @write before after t offset data hts hrun hfit =>
    obtain ⟨pre, post, hbytes, hpre, hpost, hstart, hlen⟩ := hinv.bytes_split hts
    have hcount := hinv.count
    unfold UploadState.live at hcount
    rw [hts] at hcount
    refine hinv.replace hts rfl rfl (length_writeAt (by omega)) ?_ ?_
    · show writeAt s.buffer.bytes (t.slice.startAt + offset) data = _
      rw [hbytes, ← hstart, List.append_assoc, writeAt_append_of_le, hpre, hpost,
        List.flatMap_append, List.flatMap_cons]
      simp only [List.append_assoc]
      omega
    · show s.buffer.strongCount = _
      rw [hcount, List.countP_append, List.countP_append, List.countP_cons, List.countP_cons]
  | @finish before after t hts hrun =>
    have hcount := hinv.count
    have hbytes := hinv.bytes_eq
    unfold UploadState.live at hcount
    rw [hts] at hcount hbytes
    refine hinv.replace hts rfl rfl rfl ?_ ?_
    · show s.buffer.bytes = _
      rw [hbytes, List.flatMap_append, List.flatMap_append, List.flatMap_cons, List.flatMap_cons]
    · show s.buffer.strongCount - 1 = _
      rw [hcount, List.countP_append, List.countP_append, List.countP_cons_of_pos hrun,
        List.countP_cons_of_neg (by simp)]
      omega

theorem run {s₀ : UploadState} {evs : List UploadEvent} (hinv : UploadInv elems s₀)
    (h : Run UploadStep s₀ evs s) : UploadInv elems s :=
  h.invariant hinv fun _ _ _ => UploadInv.step

/-- The slices and what remains lie one behind the other. -/
theorem slices_eq_append (hinv : UploadInv elems s) :
    s.slices = slicesFrom 0 (s.tasks.map UploadTask.elem) ++ s.remainBuf.toList := by
  unfold UploadState.slices
  rw [hinv.slices_eq]

theorem totalSize_add (hinv : UploadInv elems s) :
    totalSize (s.tasks.map UploadTask.elem) + totalSize s.elems = totalSize elems := by
  rw [← totalSize_append, hinv.elems_eq]

theorem length_bytes (hinv : UploadInv elems s) : s.buffer.bytes.length = totalSize elems := by
  rw [hinv.bytes_eq, List.length_append, length_contents hinv.length_content,
    List.length_replicate, hinv.totalSize_add]

theorem positions (hinv : UploadInv elems s) :
    s.slices.flatMap BufSlice.positions = List.range (totalSize elems) := by
  have hdealt := positions_slicesFrom 0 (s.tasks.map UploadTask.elem)
  rw [hinv.slices_eq_append, List.flatMap_append, hdealt, List.range_eq_range',
    ← hinv.totalSize_add]
  cases hr : s.remainBuf with
  | none =>
    rw [hinv.remain_none hr]
    exact List.append_nil _
  | some r =>
    rw [hinv.remain_eq r hr, Option.toList_some, List.flatMap_singleton]
    have happend := @List.range'_append_1 0 (totalSize (s.tasks.map UploadTask.elem))
      (totalSize s.elems)
    rwa [Nat.zero_add] at happend

theorem ordered (hinv : UploadInv elems s) :
    s.slices.Pairwise fun a b => a.stop ≤ b.startAt := by
  rw [hinv.slices_eq_append]
  refine List.pairwise_append.2 ⟨ordered_slicesFrom _ _, ?_, ?_⟩
  · cases s.remainBuf with
    | none => exact .nil
    | some r => exact List.pairwise_singleton _ _
  · intro a ha b hb
    obtain ⟨p, hp, rfl⟩ := List.mem_map.1 ha
    have hend := end_le_of_mem_offsetsFrom _ hp
    have hb' := hinv.remain_eq b (Option.mem_toList.1 hb)
    rw [Nat.zero_add] at hend
    rw [hb']
    exact hend

/-- A task finds in its slice what it has written itself. -/
theorem readAt_slice (hinv : UploadInv elems s) {t : UploadTask} (ht : t ∈ s.tasks) :
    readAt s.buffer.bytes t.slice.startAt t.slice.length = t.content := by
  obtain ⟨before, after, hts⟩ := List.append_of_mem ht
  obtain ⟨pre, post, hbytes, -, -, hstart, hlen⟩ := hinv.bytes_split hts
  unfold readAt
  rw [hbytes, ← hstart, ← hlen, List.append_assoc, List.drop_left, List.take_left]

/-- Once all tasks have ended, the buffer's own handle is the last one. -/
theorem intoInner (hinv : UploadInv elems s) (hremain : s.remainBuf = none)
    (hended : ∀ t ∈ s.tasks, t.running = false) :
    s.buffer.intoInner = .ok (s.tasks.flatMap UploadTask.content) := by
  have hlive : s.live = 0 := List.countP_eq_zero.2 fun t ht => by simp [hended t ht]
  have hcount : s.buffer.strongCount = 1 := by
    rw [hinv.count, hremain, hlive]
    rfl
  have hbytes := hinv.bytes_eq
  rw [hinv.remain_none hremain, totalSize_nil, List.replicate_zero, List.append_nil] at hbytes
  unfold SharedBuf.intoInner
  rw [if_pos hcount, hbytes]

end UploadInv

/-! ## Part sizes -/

/-- Entries keep their sizes under another sender. -/
theorem totalSize_entryElems (ch : CdfhChannel) {elems : List UploadPartElement}
    (h : ∀ e ∈ elems, e.isEntry) :
    totalSize (entryElems ch (elems.filterMap UploadPartElement.entry?)) = totalSize elems := by
  induction elems with
  | nil => rfl
  | cons e elems ih =>
    have hrest := ih fun e he => h e (List.mem_cons_of_mem _ he)
    cases e with
    | entryFromS3 e =>
      rw [totalSize_cons, ← hrest]
      rfl
    | centralDirectory total eocd c => cases h _ List.mem_cons_self

/-- A converted job is an upload job of entries, all of which are converted. -/
theorem newFromPartJob_ok {job : PartJob} {d : DelegatedPartJob} {ch : CdfhChannel}
    (h : DelegatedPartJob.newFromPartJob job = .ok (d, ch)) :
    ∃ elems, job.partJobType = .upload elems ∧ (∀ e ∈ elems, e.isEntry) ∧
      d.partSize = job.partSize ∧ d.entriesFromS3 = elems.filterMap UploadPartElement.entry? := by
  obtain ⟨n, size, jobType⟩ := job
  unfold DelegatedPartJob.newFromPartJob at h
  cases jobType with
  | copy source range => cases h
  | upload elems =>
    dsimp only at h
    by_cases hall : elems.all UploadPartElement.isEntry
    · rw [if_pos hall] at h
      rcases List.eq_nil_or_concat elems with rfl | ⟨init, last, rfl⟩
      · cases h
      · rw [List.concat_eq_append] at h hall ⊢
        rw [List.getLast?_concat, List.dropLast_concat] at h
        cases last with
        | entryFromS3 last =>
          cases h
          refine ⟨_, rfl, List.all_eq_true.1 hall, rfl, ?_⟩
          rw [List.filterMap_append]
          rfl
        | centralDirectory total eocd c => cases h
    · rw [if_neg hall] at h
      cases h

theorem totalSize_of_jobList {ch : CdfhChannel} {duos : List Duo} {tail : List FileEntry}
    {job : PartJob} (hjob : job ∈ jobList ch duos tail) (hup : job.isCopy = false) :
    job.partSize = totalSize job.elems := by
  rcases List.mem_append.1 hjob with hjob | hjob
  · exact tiled_duoJobs 0 1 job hjob hup
  · rw [List.mem_singleton.1 hjob]
    exact tiled_uploadJob _ _

/-- A rebuilt job keeps the part size and the sizes of the elements. -/
theorem totalSize_of_new {job : PartJob} {d : DelegatedPartJob} {ch : CdfhChannel}
    (h : DelegatedPartJob.newFromPartJob job = .ok (d, ch))
    (hsize : job.isCopy = false → job.partSize = totalSize job.elems) (cdfhSender : CdfhChannel) :
    (PartJob.new d cdfhSender).partSize = totalSize (PartJob.new d cdfhSender).elems := by
  obtain ⟨elems, htype, hentry, hpart, hentries⟩ := newFromPartJob_ok h
  unfold PartJob.isCopy PartJob.elems at hsize
  rw [htype] at hsize
  show d.partSize = totalSize (entryElems cdfhSender d.entriesFromS3)
  rw [hpart, hsize rfl, hentries, totalSize_entryElems cdfhSender hentry]

/-! ## Every upload part -/

/-- How the buffer of a part of `partSize` bytes with the elements `elems` is carved up. -/
structure Carved (partSize : Nat) (elems : List UploadPartElement) (s : UploadState) : Prop where
  length_bytes : s.buffer.bytes.length = partSize
  /-- Carving the next element does not underflow. -/
  no_underflow : ∀ e rest, s.elems = e :: rest →
    ∃ r, s.remainBuf = some r ∧ (r.split e.elemSize s.buffer).isSome
  in_order : s.tasks.map UploadTask.elem ++ s.elems = elems
  elem_size : ∀ t ∈ s.tasks, t.slice.length = t.elem.elemSize
  disjoint : s.slices.Pairwise fun a b => a.stop ≤ b.startAt
  /-- The slices and what remains have each byte of the buffer exactly once, in order. -/
  covers : s.slices.flatMap BufSlice.positions = List.range partSize
  nothing_left : s.elems = [] → ∀ r, s.remainBuf = some r → r.length = 0
  /-- No task sees what another one writes. -/
  exclusive : ∀ t ∈ s.tasks,
    readAt s.buffer.bytes t.slice.startAt t.slice.length = t.content
  taken_back : s.remainBuf = none → (∀ t ∈ s.tasks, t.running = false) →
    s.tasks.map UploadTask.elem = elems ∧
    s.buffer.intoInner = .ok (s.tasks.flatMap UploadTask.content) ∧
    (s.tasks.flatMap UploadTask.content).length = partSize

theorem UploadInv.carved {elems : List UploadPartElement} {s : UploadState}
    (hinv : UploadInv elems s) : Carved (totalSize elems) elems s where
  length_bytes := hinv.length_bytes
  no_underflow e rest he := by
    obtain ⟨r, hr, hle⟩ := hinv.room he
    refine ⟨r, hr, ?_⟩
    unfold BufSlice.split
    rw [if_pos hle]
    rfl
  in_order := hinv.elems_eq
  elem_size t ht := by
    obtain ⟨before, after, hts⟩ := List.append_of_mem ht
    obtain ⟨-, -, -, -, -, -, hlen⟩ := hinv.bytes_split hts
    rw [← hlen, hinv.length_content t ht]
  disjoint := hinv.ordered
  covers := hinv.positions
  nothing_left he r hr := by
    rw [hinv.remain_eq r hr, he]
    rfl
  exclusive t ht := hinv.readAt_slice ht
  taken_back hremain hended := by
    have helems := hinv.elems_eq
    rw [hinv.remain_none hremain, List.append_nil] at helems
    refine ⟨helems, hinv.intoInner hremain hended, ?_⟩
    rw [length_contents hinv.length_content, helems]

/-- Tasks that have filled their slices leave the output of the job. -/
theorem UploadInv.output {elems : List UploadPartElement} {s : UploadState} {src : Source}
    {received : List CentralDirectoryFileHeader} (hinv : UploadInv elems s)
    (hremain : s.remainBuf = none) (hended : ∀ t ∈ s.tasks, t.running = false)
    (hcontent : ∀ t ∈ s.tasks,
      t.content = intoSlice t.elem.elemSize (t.elem.bytes src received)) :
    ∃ bytes, s.buffer.intoInner = .ok bytes ∧
      writeElems src received (totalSize elems) elems = some bytes := by
  refine ⟨_, hinv.intoInner hremain hended, ?_⟩
  have helems := hinv.elems_eq
  rw [hinv.remain_none hremain, List.append_nil] at helems
  rw [← helems]
  unfold totalSize
  rw [writeElems_sum, List.flatMap_map, List.flatMap_def, List.flatMap_def,
    List.map_congr_left hcontent]

/-- An upload job has the size of its elements, and in every run of its execution the slices
tile the buffer, which can be taken back once all tasks have ended. -/
def PartJob.Carves (job : PartJob) : Prop :=
  ∀ elems, job.partJobType = .upload elems →
    job.partSize = (elems.map UploadPartElement.elemSize).sum ∧
    ∃ s₀, UploadState.start job.partSize elems = .ok s₀ ∧
      ∀ evs s, Run UploadStep s₀ evs s → Carved job.partSize elems s

theorem PartJob.carves_of_totalSize {job : PartJob}
    (h : job.isCopy = false → job.partSize = totalSize job.elems) : job.Carves := by
  intro elems hup
  unfold PartJob.isCopy PartJob.elems at h
  rw [hup] at h
  have hsize : job.partSize = totalSize elems := h rfl
  obtain ⟨s₀, hstart, hinv⟩ := UploadInv.init hsize
  refine ⟨hsize, s₀, hstart, fun evs s hrun => ?_⟩
  rw [hsize]
  exact (hinv.run hrun).carved

/-- Every job of the planner carves up its buffer, and so does every job rebuilt from one. -/
theorem planJobs_carves (ch : CdfhChannel) (files : List FileInfo) :
    ∃ jobs, planJobs ch files = .ok jobs ∧ ∀ job ∈ jobs, job.Carves ∧
      ∀ d sender, DelegatedPartJob.newFromPartJob job = .ok (d, sender) →
        ∀ cdfhSender, (PartJob.new d cdfhSender).Carves := by
  obtain ⟨p, hjobs, -⟩ := planJobs_eq ch files
  refine ⟨_, hjobs, fun job hjob => ?_⟩
  have hsize := totalSize_of_jobList hjob
  refine ⟨PartJob.carves_of_totalSize hsize, fun d sender hconv cdfhSender => ?_⟩
  exact PartJob.carves_of_totalSize fun _ => totalSize_of_new hconv hsize cdfhSender

end S3Archive.JrodonV3
