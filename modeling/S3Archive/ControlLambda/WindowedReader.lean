import S3Archive.ControlLambda.S3ObjectProxy

/-!
# control-lambda: the windowed reader is transparent

`pending` lists the ranges requested and not yet received. The set of incoming
windows holds exactly these (`PendingOk`), and at every lookup it has at most one
element, so that its neighbours are all of it. `ReaderInv` is what a run keeps;
`rank` bounds the steps of a read.
-/

namespace S3Archive.ControlLambda

/-! ## Ranges and lookups -/

namespace WindowRange

@[simp] theorem covers_refl (r : WindowRange) : r.covers r = true := by simp [covers]

theorem contains_of_covers {r r' : WindowRange} {position : Nat} (h : r.covers r' = true)
    (hpos : r'.contains position = true) : r.contains position = true := by
  simp only [covers, contains, Bool.and_eq_true, decide_eq_true_eq] at *
  omega

end WindowRange

namespace WindowRangeSet

variable {r : WindowRange} {p : WindowRange → Bool}

theorem neighbour_singleton (x : WindowRange) :
    neighbour {x} r p = if p x then some x else none := by
  unfold neighbour nextBack next
  rcases lt_or_ge x r with h | h
  · simp [Finset.filter_singleton, h, not_le.2 h, Option.filter]
  · simp [Finset.filter_singleton, h, not_lt.2 h, Option.filter]

/-- Of at most one range, the neighbours are all. -/
theorem isSome_neighbour {l : List WindowRange} (h : l.length ≤ 1) :
    (neighbour l.toFinset r p).isSome = l.any p := by
  match l, h with
  | [], _ => rfl
  | [x], _ =>
    rw [List.toFinset_cons, List.toFinset_nil, insert_empty_eq, neighbour_singleton]
    cases h : p x <;> simp [h]

end WindowRangeSet

/-- The window at a position before the end holds the position. -/
theorem contains_clampWindow {objectSize : Nat} {position : Nat} (hsize : objectSize < 2 ^ 63)
    (hpos : position < objectSize) :
    (clampWindow objectSize position minWindowSize).contains position = true := by
  unfold clampWindow WindowRange.new usizeAdd minWindowSize
  split
  · split
    · simp only [WindowRange.contains, Bool.and_eq_true, decide_eq_true_eq]
      omega
    · simp only [WindowRange.contains, Bool.and_eq_true, decide_eq_true_eq]
      omega
  · simp only [WindowRange.contains, Bool.and_eq_true, decide_eq_true_eq]
    omega

namespace S3ObjectReader

/-! ## Requests -/

def pending (r : S3ObjectReader) : List WindowRange := r.windows.map (·.range) ++ r.windowsRequest

/-- The window that is asked for ahead of the position. -/
def nextRange (r : S3ObjectReader) (cw : S3ObjectReaderWindow) : WindowRange :=
  clampWindow r.objectSize cw.range.stop (min maxWindowSize (cw.range.len * 2))

def positionRange (r : S3ObjectReader) : WindowRange :=
  clampWindow r.objectSize r.position minWindowSize

section

variable (r : S3ObjectReader) (offset : Nat) (size : Nat)

@[simp] theorem currentWindow_askWindow :
    (r.askWindow offset size).currentWindow = r.currentWindow := by
  unfold askWindow
  dsimp only
  split <;> rfl

@[simp] theorem position_askWindow : (r.askWindow offset size).position = r.position := by
  unfold askWindow
  dsimp only
  split <;> rfl

@[simp] theorem objectSize_askWindow : (r.askWindow offset size).objectSize = r.objectSize := by
  unfold askWindow
  dsimp only
  split <;> rfl

@[simp] theorem windows_askWindow : (r.askWindow offset size).windows = r.windows := by
  unfold askWindow
  dsimp only
  split <;> rfl

end

/-- The set of incoming windows is exact, and nothing is requested that is under way. -/
structure PendingOk (r : S3ObjectReader) : Prop where
  incoming : r.incomingWindows = r.pending.toFinset
  uncovered : r.pending.Pairwise fun older newer => ¬ older.covers newer = true

variable {r : S3ObjectReader}

/-- With at most one range pending, a request is made unless a range at hand covers it. -/
theorem PendingOk.pending_askWindow (h : PendingOk r) (hlen : r.pending.length ≤ 1)
    (offset : Nat) (size : Nat) :
    let range := clampWindow r.objectSize offset size
    (r.askWindow offset size).pending = r.pending ∧
        ((∃ cw, r.currentWindow = some cw ∧ cw.range.covers range = true) ∨
          ∃ x ∈ r.pending, x.covers range = true) ∨
      (r.askWindow offset size).pending = r.pending ++ [range] ∧
        ∀ x ∈ r.pending, ¬ x.covers range = true := by
  intro range
  have hcover : (r.incomingWindows.getRangeCover range).isSome = r.pending.any (·.covers range) := by
    rw [h.incoming]
    exact WindowRangeSet.isSome_neighbour hlen
  unfold askWindow
  dsimp only
  rw [hcover]
  split
  · rename_i hsome
    refine .inl ⟨rfl, ?_⟩
    simpa [Option.any_eq_true] using hsome
  · rename_i hnone
    refine .inr ⟨by simp [pending, range], ?_⟩
    simp only [Bool.or_eq_true, not_or, List.any_eq_true, not_exists, not_and] at hnone
    exact hnone.2

theorem PendingOk.askWindow (h : PendingOk r) (hlen : r.pending.length ≤ 1) (offset : Nat)
    (size : Nat) : PendingOk (r.askWindow offset size) := by
  have hcases := h.pending_askWindow hlen offset size
  constructor
  · have hincoming := h.incoming
    unfold S3ObjectReader.askWindow at hcases ⊢
    dsimp only at hcases ⊢
    split
    · exact hincoming
    · simp [hincoming, pending, List.toFinset_append]
  · rcases hcases with ⟨heq, -⟩ | ⟨heq, hnone⟩
    · rw [heq]
      exact h.uncovered
    · rw [heq, List.pairwise_append]
      refine ⟨h.uncovered, List.pairwise_singleton _ _, fun x hx y hy => ?_⟩
      rw [List.mem_singleton.1 hy]
      exact hnone x hx

theorem pending_receive {w : S3ObjectReaderWindow} {rest : List S3ObjectReaderWindow}
    (hrecv : r.windows = w :: rest) : r.pending = w.range :: (r.receive w rest).pending := by
  unfold pending
  rw [hrecv]
  rfl

theorem PendingOk.receive {w : S3ObjectReaderWindow} {rest : List S3ObjectReaderWindow}
    (h : PendingOk r) (hrecv : r.windows = w :: rest) : PendingOk (r.receive w rest) := by
  have hpending := pending_receive hrecv
  have huncovered := h.uncovered
  rw [hpending, List.pairwise_cons] at huncovered
  refine ⟨?_, huncovered.2⟩
  show r.incomingWindows.erase w.range = _
  rw [h.incoming, hpending, List.toFinset_cons, Finset.erase_insert]
  intro hmem
  exact huncovered.1 _ (List.mem_toFinset.1 hmem) (WindowRange.covers_refl _)

theorem PendingOk.nodup (h : PendingOk r) : r.pending.Nodup :=
  h.uncovered.imp fun {older newer} hnot heq => by
    rw [heq] at hnot
    exact hnot (WindowRange.covers_refl _)

/-! ## What a read goes through -/

/-- Nothing is pending but the window after the current one. -/
def Settled (r : S3ObjectReader) : Prop :=
  r.pending = [] ∨ ∃ cw, r.currentWindow = some cw ∧ r.pending = [r.nextRange cw]

/-- Some pending range holds the position. -/
def Coming (r : S3ObjectReader) : Prop := ∃ x ∈ r.pending, x.contains r.position = true

/-- What is pending in the blocking receive. -/
def Awaiting (r : S3ObjectReader) : Prop :=
  r.Settled ∨ r.pending = [r.positionRange] ∨
    ∃ cw, r.currentWindow = some cw ∧ r.pending = [r.nextRange cw, r.positionRange] ∧
      (r.nextRange cw).contains r.position = false

theorem Settled.length_pending (h : r.Settled) : r.pending.length ≤ 1 := by
  rcases h with h | ⟨cw, _, h⟩ <;> simp [h]

/-- Reading ahead leaves one range pending at most. -/
theorem Settled.askNextWindow (h : r.Settled) (hok : PendingOk r) {cw : S3ObjectReaderWindow}
    (hcw : r.currentWindow = some cw) : r.askNextWindow.Settled := by
  unfold S3ObjectReader.askNextWindow
  rw [hcw]
  dsimp only
  rcases hok.pending_askWindow h.length_pending cw.range.stop
    (min maxWindowSize (cw.range.len * 2)) with ⟨heq, -⟩ | ⟨heq, hnone⟩
  · unfold Settled nextRange
    rw [heq, objectSize_askWindow, currentWindow_askWindow]
    exact h
  · refine .inr ⟨cw, by rw [currentWindow_askWindow, hcw], ?_⟩
    rcases h with h | ⟨cw', hcw', h⟩
    · unfold nextRange
      rw [heq, h, objectSize_askWindow]
      rfl
    · rw [hcw] at hcw'
      cases hcw'
      refine absurd (WindowRange.covers_refl _) (hnone (r.nextRange cw) ?_)
      rw [h]
      exact List.mem_singleton_self _

/-- At the head of the loop, the window at the position may also be under way. -/
def Looping (r : S3ObjectReader) : Prop :=
  r.Settled ∨ r.currentWindow = none ∧ r.pending = [r.positionRange]

theorem Looping.length_pending (h : r.Looping) : r.pending.length ≤ 1 := by
  rcases h with h | ⟨_, h⟩
  · exact h.length_pending
  · simp [h]

theorem Looping.awaiting (h : r.Looping) : r.Awaiting := h.imp_right fun h => .inl h.2

theorem Looping.settled (h : r.Looping) {cw : S3ObjectReaderWindow}
    (hcw : r.currentWindow = some cw) : r.Settled := by
  rcases h with h | ⟨hnone, _⟩
  · exact h
  · rw [hcw] at hnone
    cases hnone

theorem awaitPosition_askPositionWindow (hok : PendingOk r) (hlen : r.pending.length ≤ 1) :
    r.awaitPosition = r ∧ r.Coming ∨
      r.awaitPosition = r.askPositionWindow ∧ ∀ x ∈ r.pending, x.contains r.position = false := by
  have hcover : (r.incomingWindows.getPositionCover r.position).isSome =
      r.pending.any (·.contains r.position) := by
    rw [hok.incoming]
    exact WindowRangeSet.isSome_neighbour hlen
  unfold awaitPosition
  rw [← Option.not_isSome, hcover]
  cases hany : r.pending.any (·.contains r.position) with
  | true => exact .inl ⟨rfl, List.any_eq_true.1 hany⟩
  | false => exact .inr ⟨rfl, by simpa using hany⟩

section

variable (r : S3ObjectReader)

@[simp] theorem currentWindow_awaitPosition :
    r.awaitPosition.currentWindow = r.currentWindow := by
  unfold awaitPosition askPositionWindow
  split <;> simp

@[simp] theorem position_awaitPosition : r.awaitPosition.position = r.position := by
  unfold awaitPosition askPositionWindow
  split <;> simp

@[simp] theorem objectSize_awaitPosition : r.awaitPosition.objectSize = r.objectSize := by
  unfold awaitPosition askPositionWindow
  split <;> simp

@[simp] theorem windows_awaitPosition : r.awaitPosition.windows = r.windows := by
  unfold awaitPosition askPositionWindow
  split <;> simp

end

theorem Looping.pendingOk (h : r.Looping) (hok : PendingOk r) : PendingOk r.awaitPosition := by
  rcases awaitPosition_askPositionWindow hok h.length_pending with ⟨heq, -⟩ | ⟨heq, -⟩
  · rw [heq]
    exact hok
  · rw [heq]
    exact hok.askWindow h.length_pending _ _

/-- Before the receive blocks, a window that holds the position is under way. -/
theorem Looping.awaitPosition (h : r.Looping) (hok : PendingOk r) (hsize : r.objectSize < 2 ^ 63)
    (hmiss : ∀ cw, ¬ r.Found cw) :
    r.awaitPosition.Awaiting ∧ (r.position < r.objectSize → r.awaitPosition.Coming) := by
  rcases awaitPosition_askPositionWindow hok h.length_pending with ⟨heq, hcoming⟩ | ⟨heq, hnot⟩
  · rw [heq]
    exact ⟨h.awaiting, fun _ => hcoming⟩
  rw [heq]
  unfold askPositionWindow Coming Awaiting Settled nextRange positionRange
  rw [currentWindow_askWindow, objectSize_askWindow, position_askWindow]
  rcases hok.pending_askWindow h.length_pending r.position minWindowSize with
    ⟨hpending, hcovered⟩ | ⟨hpending, hnone⟩
  · rw [hpending]
    refine ⟨h.awaiting, fun hpos => ?_⟩
    -- a range that covers the requested one holds the position
    have hcontains := contains_clampWindow hsize hpos
    rcases hcovered with ⟨cw, hcw, hcovers⟩ | ⟨x, hx, hcovers⟩
    · exact absurd ⟨hcw, WindowRange.contains_of_covers hcovers hcontains⟩ (hmiss cw)
    · exact ⟨x, hx, WindowRange.contains_of_covers hcovers hcontains⟩
  · rw [hpending]
    refine ⟨.inr ?_, fun hpos => ⟨_, List.mem_append_right _ List.mem_cons_self,
      contains_clampWindow hsize hpos⟩⟩
    rcases h with (h | ⟨cw, hcw, h⟩) | ⟨_, h⟩
    · rw [h]
      exact .inl rfl
    · rw [h]
      refine .inr ⟨cw, hcw, rfl, hnot _ ?_⟩
      rw [h]
      exact List.mem_singleton_self _
    · refine absurd (WindowRange.covers_refl _) (hnone r.positionRange ?_)
      rw [h]
      exact List.mem_singleton_self _

/-- After a receive the loop goes on. -/
theorem Awaiting.receive (h : r.Awaiting) {w : S3ObjectReaderWindow}
    {rest : List S3ObjectReaderWindow} (hrecv : r.windows = w :: rest) :
    (r.receive w rest).Looping := by
  have hpending := pending_receive hrecv
  rcases h with (h | ⟨cw, _, h⟩) | h | ⟨cw, _, h, hnot⟩
  · rw [h] at hpending
    cases hpending
  · rw [h] at hpending
    exact .inl (.inl (List.cons.inj hpending).2.symm)
  · rw [h] at hpending
    exact .inl (.inl (List.cons.inj hpending).2.symm)
  · rw [h] at hpending
    obtain ⟨hrange, hrest⟩ := List.cons.inj hpending
    refine .inr ⟨?_, hrest.symm⟩
    show (if w.range.contains r.position then some w else none) = none
    rw [← hrange, hnot]
    rfl

end S3ObjectReader

/-! ## What a run keeps -/

def PhaseOk (r : S3ObjectReader) : Phase → Prop
  | .idle => r.Settled
  | .looping _ => r.Looping
  | .receiving _ => r.Awaiting ∧ (r.position < r.objectSize → r.Coming)
  | .panicked => True

theorem PhaseOk.congr {r r' : S3ObjectReader} {phase : Phase} (hpending : r'.pending = r.pending)
    (hcurrent : r'.currentWindow = r.currentWindow) (hpos : r'.position = r.position)
    (hsize : r'.objectSize = r.objectSize) (h : PhaseOk r phase) : PhaseOk r' phase := by
  cases phase with
  | panicked => trivial
  | _ =>
    unfold PhaseOk S3ObjectReader.Looping S3ObjectReader.Awaiting S3ObjectReader.Coming
      S3ObjectReader.Settled S3ObjectReader.nextRange S3ObjectReader.positionRange at *
    rwa [hpending, hcurrent, hsize, hpos]

structure ReaderInv (object : Bytes) (s : ReaderState) : Prop where
  size : s.reader.objectSize = object.length
  pendingOk : s.reader.PendingOk
  phase : PhaseOk s.reader s.phase
  /-- A window holds the bytes of its range. -/
  buffers : ∀ w, s.reader.currentWindow = some w ∨ w ∈ s.reader.windows →
    w.buf = fetchRange object w.range

variable {object : Bytes} {s s' : ReaderState} {ev : ReaderEvent}

theorem readerInv_create (object : Bytes) : ReaderInv object (.create object) where
  size := rfl
  pendingOk := ⟨rfl, .nil⟩
  phase := .inl rfl
  buffers := fun w hw => by
    rcases hw with hw | hw
    · cases hw
    · cases hw

/-- A window at hand after a receive was on the channel. -/
theorem mem_windows_of_receive {r : S3ObjectReader} {w w' : S3ObjectReaderWindow}
    {rest : List S3ObjectReaderWindow} (hrecv : r.windows = w :: rest)
    (h : (r.receive w rest).currentWindow = some w' ∨ w' ∈ (r.receive w rest).windows) :
    w' ∈ r.windows := by
  rw [hrecv]
  rcases h with h | h
  · have h : (if w.containsPosition r.position then some w else none) = some w' := h
    split at h
    · cases h
      exact List.mem_cons_self
    · cases h
  · exact List.mem_cons_of_mem _ h

theorem askNextWindow_eq {r : S3ObjectReader} {cw : S3ObjectReaderWindow} (h : r.Found cw) :
    r.askNextWindow = r.askWindow cw.range.stop (min maxWindowSize (cw.range.len * 2)) := by
  unfold S3ObjectReader.askNextWindow
  rw [h.1]

theorem pending_fetch {r : S3ObjectReader} {range : WindowRange} {rest : List WindowRange}
    (hreq : r.windowsRequest = range :: rest) (object : Bytes) :
    S3ObjectReader.pending { r with
      windowsRequest := rest
      windows := r.windows ++ [⟨range, fetchRange object range⟩] } = r.pending := by
  unfold S3ObjectReader.pending
  rw [hreq, List.map_append, List.append_assoc]
  rfl

theorem ReaderInv.step (hlen : object.length < 2 ^ 63) (hinv : ReaderInv object s)
    (h : ReaderStep object s ev s') : ReaderInv object s' := by
  obtain ⟨hsize, hok, hphase, hbufs⟩ := hinv
  cases h with
  | seek => exact ⟨hsize, ⟨hok.incoming, hok.uncovered⟩, hphase, hbufs⟩
  | call => exact ⟨hsize, hok, .inl hphase, hbufs⟩
  | @read r len cw readBuf hfound hbuf =>
    have hsettled := S3ObjectReader.Looping.settled hphase hfound.1
    have hok' := hok.askWindow hsettled.length_pending cw.range.stop
      (min maxWindowSize (cw.range.len * 2))
    have hphase' := hsettled.askNextWindow hok hfound.1
    rw [askNextWindow_eq hfound] at hphase' ⊢
    refine ⟨?_, ⟨hok'.incoming, hok'.uncovered⟩, hphase', fun w hw => hbufs w ?_⟩
    · simpa using hsize
    · simpa using hw
  | @panic r len cw hfound hbuf =>
    have hsettled := S3ObjectReader.Looping.settled hphase hfound.1
    rw [askNextWindow_eq hfound]
    refine ⟨?_, hok.askWindow hsettled.length_pending _ _, trivial, fun w hw => hbufs w ?_⟩
    · simpa using hsize
    · simpa using hw
  | tryRecv hmiss hrecv =>
    exact ⟨hsize, hok.receive hrecv, (S3ObjectReader.Looping.awaiting hphase).receive hrecv,
      fun w' hw' => hbufs w' (.inr (mem_windows_of_receive hrecv hw'))⟩
  | @empty r len hmiss hrecv =>
    have hphase : r.Looping := hphase
    have hsize' : r.objectSize < 2 ^ 63 := by
      rw [hsize]
      exact hlen
    have hawait := hphase.awaitPosition hok hsize' hmiss
    refine ⟨?_, hphase.pendingOk hok, ?_, fun w hw => hbufs w ?_⟩
    · simpa using hsize
    · refine ⟨hawait.1, fun hpos => hawait.2 ?_⟩
      simpa using hpos
    · simpa using hw
  | recv hrecv =>
    exact ⟨hsize, hok.receive hrecv, hphase.1.receive hrecv,
      fun w' hw' => hbufs w' (.inr (mem_windows_of_receive hrecv hw'))⟩
  | @fetch r phase range rest hreq =>
    have hpending := pending_fetch hreq object
    refine ⟨hsize, ⟨?_, ?_⟩, hphase.congr hpending rfl rfl rfl, fun w hw => ?_⟩
    · exact hok.incoming.trans (by rw [hpending])
    · rw [hpending]
      exact hok.uncovered
    · rcases hw with hw | hw
      · exact hbufs w (.inl hw)
      · rcases List.mem_append.1 hw with hw | hw
        · exact hbufs w (.inr hw)
        · rw [List.mem_singleton.1 hw]

theorem readerInv_of_run {evs : List ReaderEvent} (hlen : object.length < 2 ^ 63)
    (h : ReaderRun object (.create object) evs s) : ReaderInv object s :=
  h.invariant (readerInv_create object) fun _ _ _ hinv hstep => hinv.step hlen hstep

/-! ## The bytes of a read -/

theorem bufFrom_of_found {r : S3ObjectReader} {cw : S3ObjectReaderWindow} (hfound : r.Found cw)
    (hbuf : cw.buf = fetchRange object cw.range) :
    (r.position < object.length → cw.bufFrom r.position ≠ none) ∧
      ∀ readBuf, cw.bufFrom r.position = some readBuf →
        readBuf = (object.drop r.position).take (cw.range.stop - r.position) := by
  have hcontains := hfound.2
  simp only [S3ObjectReaderWindow.containsPosition, WindowRange.contains, Bool.and_eq_true,
    decide_eq_true_eq] at hcontains
  unfold S3ObjectReaderWindow.bufFrom
  rw [hbuf]
  unfold fetchRange
  refine ⟨fun hpos => ?_, fun readBuf h => ?_⟩
  · rw [if_pos]
    · exact Option.some_ne_none _
    · rw [List.length_drop, List.length_take]
      omega
  · split at h
    · cases h
      rw [List.drop_drop, Nat.add_sub_cancel' hcontains.1, List.drop_take]
    · cases h

theorem cursorStep_read {r : S3ObjectReader} {cw : S3ObjectReaderWindow} {readBuf : Bytes}
    (hfound : r.Found cw) (hbuf : cw.buf = fetchRange object cw.range)
    (hread : cw.bufFrom r.position = some readBuf) (len : Nat) :
    CursorStep object r.position (.read len (readBuf.take len))
      (r.position + (readBuf.take len).length) := by
  have hstop : r.position < cw.range.stop := by
    have hcontains := hfound.2
    simp only [S3ObjectReaderWindow.containsPosition, WindowRange.contains, Bool.and_eq_true,
      decide_eq_true_eq] at hcontains
    exact hcontains.2
  rw [(bufFrom_of_found hfound hbuf).2 _ hread, List.take_take]
  refine .read ?_ ?_ fun hpos hlen hnil => ?_
  · rw [List.length_take]
    omega
  · rw [List.length_take, ← List.take_eq_take_min]
  · have hnil := congrArg List.length hnil
    rw [List.length_take, List.length_drop, List.length_nil] at hnil
    omega

theorem CursorRun.of_run {evs : List ReaderEvent} (hlen : object.length < 2 ^ 63)
    (h : ReaderRun object (.create object) evs s) :
    CursorRun object 0 (evs.filter ReaderEvent.seen) s.reader.position := by
  induction h with
  | refl => exact .refl _
  | step hrun hlast ih =>
    have hinv := readerInv_of_run hlen hrun
    rw [List.filter_append]
    cases hlast with
    | @seek r pos =>
      have hseek := @CursorStep.seek object r.position pos
      rw [← hinv.size] at hseek
      exact ih.step hseek
    | read hfound hbuf =>
      exact ih.step (cursorStep_read hfound (hinv.buffers _ (.inl hfound.1)) hbuf _)
    | panic hfound hbuf =>
      rw [askNextWindow_eq hfound]
      simpa [ReaderEvent.seen] using ih
    | call => simpa [ReaderEvent.seen] using ih
    | tryRecv => simpa [ReaderEvent.seen, S3ObjectReader.receive] using ih
    | empty => simpa [ReaderEvent.seen] using ih
    | recv => simpa [ReaderEvent.seen, S3ObjectReader.receive] using ih
    | fetch => simpa [ReaderEvent.seen] using ih

/-! ## The steps of a read -/

namespace S3ObjectReader

def hasPosition (r : S3ObjectReader) : Bool := r.currentWindow.any (·.containsPosition r.position)

theorem hasPosition_iff {r : S3ObjectReader} : r.hasPosition = true ↔ ∃ cw, r.Found cw := by
  unfold hasPosition Found
  cases h : r.currentWindow with
  | none => simp
  | some cw => simp

theorem not_hasPosition {r : S3ObjectReader} (hmiss : ∀ cw, ¬ r.Found cw) :
    ¬ r.hasPosition = true := by
  rw [hasPosition_iff]
  exact not_exists.2 hmiss

/-- The receives that are left until the window of the position arrives. -/
def receivesLeft (r : S3ObjectReader) : Nat := r.pending.findIdx (·.contains r.position) + 1

end S3ObjectReader

/-- Bounds the steps of a read that are left. -/
def ReaderState.rank : ReaderState → Nat
  | ⟨r, .looping _⟩ =>
    if r.hasPosition then r.windowsRequest.length
    else r.windowsRequest.length + 2 * r.receivesLeft + 1 +
      if r.pending.any (·.contains r.position) then 0 else 1
  | ⟨r, .receiving _⟩ => r.windowsRequest.length + 2 * r.receivesLeft
  | _ => 0

def Phase.Reading (len : Nat) : Phase → Prop
  | .looping len' => len' = len
  | .receiving len' => len' = len
  | _ => False

namespace S3ObjectReader

variable {r : S3ObjectReader} {w : S3ObjectReaderWindow} {rest : List S3ObjectReaderWindow}

theorem length_pending (r : S3ObjectReader) :
    r.pending.length = r.windows.length + r.windowsRequest.length := by
  unfold pending
  rw [List.length_append, List.length_map]

/-- Either the received window is the one, or one receive less is left. -/
theorem receivesLeft_receive (hrecv : r.windows = w :: rest) :
    (r.receive w rest).hasPosition = true ∨
      (r.receive w rest).hasPosition = false ∧
        r.receivesLeft = (r.receive w rest).receivesLeft + 1 ∧
        r.pending.any (·.contains r.position) =
          (r.receive w rest).pending.any (·.contains (r.receive w rest).position) := by
  unfold receivesLeft
  rw [pending_receive hrecv, List.findIdx_cons, List.any_cons]
  show (Option.any _ (if w.range.contains r.position then some w else none)) = true ∨
    (Option.any _ (if w.range.contains r.position then some w else none)) = false ∧ _
  cases h : w.range.contains r.position with
  | true => exact .inl h
  | false => exact .inr ⟨rfl, rfl, rfl⟩

/-- A request that is made does not change how many receives are left. -/
theorem PendingOk.rank_awaitPosition (hok : PendingOk r) (hlen : r.pending.length ≤ 1)
    (hsize : r.objectSize < 2 ^ 63) (hpos : r.position < r.objectSize) :
    r.awaitPosition.windowsRequest.length + 2 * r.awaitPosition.receivesLeft ≤
      r.windowsRequest.length + 2 * r.receivesLeft +
        if r.pending.any (·.contains r.position) then 0 else 1 := by
  rcases awaitPosition_askPositionWindow hok hlen with ⟨heq, hcoming⟩ | ⟨heq, hnot⟩
  · rw [heq, if_pos (List.any_eq_true.2 hcoming)]
    rfl
  · have hany : ¬ r.pending.any (·.contains r.position) = true := by simpa using hnot
    rw [heq, if_neg hany]
    unfold askPositionWindow
    have hcount := length_pending (r.askWindow r.position minWindowSize)
    have hcount' := length_pending r
    rw [windows_askWindow] at hcount
    unfold receivesLeft
    rw [position_askWindow]
    rcases hok.pending_askWindow hlen r.position minWindowSize with ⟨hpending, -⟩ | ⟨hpending, -⟩
    · rw [hpending] at hcount ⊢
      omega
    · -- the requested window is the first to hold the position, where the search ended before
      have hnone := List.findIdx_eq_length_of_false hnot
      have hhead := contains_clampWindow hsize hpos
      rw [hpending, List.length_append, List.length_singleton] at hcount
      rw [hpending, List.findIdx_append, hnone, if_neg (Nat.lt_irrefl _), List.findIdx_cons, hhead]
      dsimp only [cond_true]
      omega

end S3ObjectReader

/-- Until it returns, every step of a read before the end lowers the rank. -/
theorem ReaderInv.reading_step {len : Nat} (hlen : object.length < 2 ^ 63)
    (hinv : ReaderInv object s) (hreading : s.phase.Reading len)
    (hpos : s.reader.position < object.length) (h : ReaderStep object s ev s')
    (hev : ∀ n bytes, ev ≠ .read n bytes) :
    s'.rank < s.rank ∧ s'.phase.Reading len ∧ s'.reader.position = s.reader.position := by
  cases h with
  | seek => exact absurd hreading id
  | call => exact absurd hreading id
  | read => exact absurd rfl (hev _ _)
  | panic hfound hbuf =>
    exact absurd hbuf ((bufFrom_of_found hfound (hinv.buffers _ (.inl hfound.1))).1 hpos)
  | @tryRecv r len w rest hmiss hrecv =>
    refine ⟨?_, hreading, rfl⟩
    have hnot := S3ObjectReader.not_hasPosition hmiss
    unfold ReaderState.rank
    dsimp only
    rw [if_neg hnot]
    rcases S3ObjectReader.receivesLeft_receive hrecv with hhas | ⟨hhas, hleft, hany⟩
    · rw [if_pos hhas]
      show r.windowsRequest.length < _
      omega
    · rw [hhas, hany, hleft]
      show r.windowsRequest.length + _ + 1 + _ < _
      omega
  | @empty r len hmiss hrecv =>
    refine ⟨?_, hreading, S3ObjectReader.position_awaitPosition r⟩
    have hnot := S3ObjectReader.not_hasPosition hmiss
    have hsize : r.objectSize = object.length := hinv.size
    have hok : r.PendingOk := hinv.pendingOk
    have hrank := hok.rank_awaitPosition (S3ObjectReader.Looping.length_pending hinv.phase)
      (hsize ▸ hlen) (hsize ▸ hpos)
    unfold ReaderState.rank
    dsimp only
    rw [if_neg hnot]
    omega
  | @recv r len w rest hrecv =>
    refine ⟨?_, hreading, rfl⟩
    have hsize : r.objectSize = object.length := hinv.size
    have hcoming : r.pending.any (·.contains r.position) = true :=
      List.any_eq_true.2 (hinv.phase.2 (hsize ▸ hpos))
    unfold ReaderState.rank
    dsimp only
    rcases S3ObjectReader.receivesLeft_receive hrecv with hhas | ⟨hhas, hleft, hany⟩
    · rw [if_pos hhas]
      show r.windowsRequest.length < r.windowsRequest.length + 2 * (_ + 1)
      omega
    · rw [hhas, ← hany, hcoming, hleft]
      show r.windowsRequest.length + _ + 1 + 0 < _
      omega
  | @fetch r phase range rest hreq =>
    refine ⟨?_, hreading, rfl⟩
    have hpending := pending_fetch hreq object
    have hcount : r.windowsRequest.length = rest.length + 1 := by rw [hreq, List.length_cons]
    cases phase with
    | idle => exact absurd hreading id
    | panicked => exact absurd hreading id
    | looping len =>
      unfold ReaderState.rank S3ObjectReader.receivesLeft
      dsimp only
      rw [hpending]
      show (if r.hasPosition then _ else _) < _
      split <;> omega
    | receiving len =>
      unfold ReaderState.rank S3ObjectReader.receivesLeft
      dsimp only
      rw [hpending]
      omega

theorem ReaderInv.reading_run {len : Nat} (hlen : object.length < 2 ^ 63)
    (hinv : ReaderInv object s) (hreading : s.phase.Reading len)
    (hpos : s.reader.position < object.length) {evs : List ReaderEvent}
    (h : ReaderRun object s evs s') (hevs : ∀ n bytes, .read n bytes ∉ evs) :
    evs.length + s'.rank ≤ s.rank ∧ ReaderInv object s' ∧ s'.phase.Reading len ∧
      s'.reader.position = s.reader.position := by
  induction h with
  | refl => exact ⟨by simp, hinv, hreading, rfl⟩
  | step _ hlast ih =>
    obtain ⟨hrank, hinv', hreading', hpos'⟩ := ih fun n bytes hmem =>
      hevs n bytes (List.mem_append_left _ hmem)
    obtain ⟨hrank', hreading'', hpos''⟩ := hinv'.reading_step hlen hreading' (hpos'.symm ▸ hpos)
      hlast fun n bytes heq => hevs n bytes (List.mem_append_right _ (by rw [heq]; simp))
    refine ⟨?_, hinv'.step hlen hlast, hreading'', hpos''.trans hpos'⟩
    rw [List.length_append, List.length_singleton]
    omega

theorem ReaderInv.rank_le {len : Nat} (hinv : ReaderInv object s)
    (hreading : s.phase.Reading len) (hpos : s.reader.position < object.length) :
    s.rank ≤ 7 := by
  obtain ⟨r, phase⟩ := s
  have hcount := r.length_pending
  have hfind : r.pending.findIdx (·.contains r.position) ≤ r.pending.length :=
    List.findIdx_le_length
  cases phase with
  | idle => exact absurd hreading id
  | panicked => exact absurd hreading id
  | looping len =>
    have hpending : r.pending.length ≤ 1 :=
      S3ObjectReader.Looping.length_pending hinv.phase
    unfold ReaderState.rank S3ObjectReader.receivesLeft
    dsimp only
    split
    · omega
    · split <;> omega
  | receiving len =>
    obtain ⟨hawaiting, hcoming⟩ := hinv.phase
    have hpending : r.pending.length ≤ 2 := by
      rcases hawaiting with h | h | ⟨cw, _, h, _⟩
      · exact h.length_pending.trans (Nat.le_succ 1)
      · simp [h]
      · simp [h]
    have hsize : r.objectSize = object.length := hinv.size
    have hlt := List.findIdx_lt_length.2 (hcoming (hsize ▸ hpos))
    unfold ReaderState.rank S3ObjectReader.receivesLeft
    dsimp only at hlt ⊢
    omega

/-- A read before the end is never stuck: it goes on, or waits for a window that was asked for. -/
theorem ReaderInv.progress {len : Nat} (hinv : ReaderInv object s)
    (hreading : s.phase.Reading len) (hpos : s.reader.position < object.length) :
    ∃ ev s', ReaderStep object s ev s' := by
  obtain ⟨r, phase⟩ := s
  cases phase with
  | idle => exact absurd hreading id
  | panicked => exact absurd hreading id
  | looping len =>
    by_cases hfound : ∃ cw, r.Found cw
    · obtain ⟨cw, hfound⟩ := hfound
      cases hbuf : cw.bufFrom r.position with
      | none => exact ⟨_, _, .panic hfound hbuf⟩
      | some readBuf => exact ⟨_, _, .read hfound hbuf⟩
    · have hmiss := not_exists.1 hfound
      cases hrecv : r.windows with
      | nil => exact ⟨_, _, .empty hmiss hrecv⟩
      | cons w rest => exact ⟨_, _, .tryRecv hmiss hrecv⟩
  | receiving len =>
    cases hrecv : r.windows with
    | cons w rest => exact ⟨_, _, .recv hrecv⟩
    | nil =>
      have hsize : r.objectSize = object.length := hinv.size
      obtain ⟨x, hx, _⟩ := hinv.phase.2 (hsize ▸ hpos)
      have hx : x ∈ r.windows.map (·.range) ++ r.windowsRequest := hx
      rw [hrecv] at hx
      obtain ⟨range, rest, hreq⟩ := List.exists_cons_of_ne_nil (List.ne_nil_of_mem hx)
      exact ⟨_, _, .fetch hreq⟩

/-! ## The reader is transparent -/

structure Transparent (object : Bytes) : Prop where
  /-- To its caller the reader is the cursor. -/
  refines : ∀ evs s, ReaderRun object (.create object) evs s →
    CursorRun object 0 (evs.filter ReaderEvent.seen) s.reader.position
  /-- A read before the end returns: it always has a step, and at most seven before the last. -/
  returns : ∀ evs s, ReaderRun object (.create object) evs s → ∀ len, s.phase.Reading len →
    s.reader.position < object.length → ∀ evs' s', ReaderRun object s evs' s' →
      (∀ n bytes, .read n bytes ∉ evs') →
        s'.phase.Reading len ∧ evs'.length ≤ 7 ∧ ∃ ev s'', ReaderStep object s' ev s''
  /-- The incoming windows are the pending ranges, and none was requested while one that covers
  it was pending. -/
  incoming : ∀ evs s, ReaderRun object (.create object) evs s →
    s.reader.incomingWindows = s.reader.pending.toFinset ∧ s.reader.pending.Nodup ∧
      s.reader.pending.Pairwise fun older newer => ¬ older.covers newer = true

theorem reader_transparent (hlen : object.length < 2 ^ 63) : Transparent object where
  refines := fun _ _ hrun => CursorRun.of_run hlen hrun
  returns := fun evs s hrun len hreading hpos evs' s' hrun' hevs => by
    have hinv := readerInv_of_run hlen hrun
    obtain ⟨hrank, hinv', hreading', hpos'⟩ := hinv.reading_run hlen hreading hpos hrun' hevs
    have hbound := hinv.rank_le hreading hpos
    exact ⟨hreading', by omega, hinv'.progress hreading' (hpos'.symm ▸ hpos)⟩
  incoming := fun evs s hrun =>
    have hok := (readerInv_of_run hlen hrun).pendingOk
    ⟨hok.incoming, hok.nodup, hok.uncovered⟩

/-- An object of four bytes. -/
theorem reader_transparent_four : Transparent [0x50, 0x4b, 0x05, 0x06] :=
  reader_transparent (by decide)

end S3Archive.ControlLambda
