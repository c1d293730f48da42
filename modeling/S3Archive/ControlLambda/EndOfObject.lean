import S3Archive.ControlLambda.WindowedReader

/-!
# control-lambda: reads at the end of the object

`ServedStep` is the reader with the service behind its fetching task: a range that the
object does not reach is refused (`GetsRanges`), and then the task ends. `WindowOk` says
which positions a requested range can hold, `Shape` what the reader of a small object goes
through. `read_at_end_iff` says for which positions at or after the end a read returns.
-/

namespace S3Archive.ControlLambda

/-! ## The fetching task and its service -/

/-- Ranges as the service answers them; what it makes of a range whose end is before its
start is left open. -/
structure GetsRanges (object : Bytes) (reply : WindowRange → Option Bytes) : Prop where
  /-- The bytes of the range that are there. -/
  satisfiable : ∀ range : WindowRange, range.start < range.stop → range.start < object.length →
    reply range = some (fetchRange object range)
  /-- 416, `InvalidRange`. -/
  unsatisfiable : ∀ range : WindowRange, range.start < range.stop →
    object.length ≤ range.start → reply range = none

def getObject (object : Bytes) (range : WindowRange) : Option Bytes :=
  if range.stop ≤ range.start then some object
  else if range.start < object.length then some (fetchRange object range) else none

theorem getsRanges_getObject (object : Bytes) : GetsRanges object (getObject object) where
  satisfiable range hrange hstart := by
    unfold getObject
    rw [if_neg (Nat.not_le.2 hrange), if_pos hstart]
  unsatisfiable range hrange hstart := by
    unfold getObject
    rw [if_neg (Nat.not_le.2 hrange), if_neg (Nat.not_lt.2 hstart)]

structure ServedState where
  state : ReaderState
  /-- The fetching task has ended, and its ends of both channels are closed. -/
  ended : Bool

def ServedState.create (object : Bytes) : ServedState := ⟨.create object, false⟩

section

variable (object : Bytes) (reply : WindowRange → Option Bytes)

inductive ServedStep : ServedState → ReaderEvent → ServedState → Prop
  | reader {s s' : ReaderState} {ev : ReaderEvent} (hstep : ReaderStep object s ev s')
      (hfetch : ev ≠ .fetched) :
    ServedStep ⟨s, false⟩ ev ⟨s', false⟩
  | fetch {r : S3ObjectReader} {phase : Phase} {range : WindowRange} {rest : List WindowRange}
      {buf : Bytes} (hreq : r.windowsRequest = range :: rest) (hreply : reply range = some buf) :
    ServedStep ⟨⟨r, phase⟩, false⟩ .fetched
      ⟨⟨{ r with windowsRequest := rest, windows := r.windows ++ [⟨range, buf⟩] }, phase⟩, false⟩
  /-- The error of the request ends the task. -/
  | fail {r : S3ObjectReader} {phase : Phase} {range : WindowRange} {rest : List WindowRange}
      (hreq : r.windowsRequest = range :: rest) (hreply : reply range = none) :
    ServedStep ⟨⟨r, phase⟩, false⟩ .fetched ⟨⟨{ r with windowsRequest := [] }, phase⟩, true⟩
  /-- Without the task the reader goes on as long as it sends nothing. -/
  | alone {s s' : ReaderState} {ev : ReaderEvent} (hstep : ReaderStep object s ev s')
      (hfetch : ev ≠ .fetched) (hmiss : ev ≠ .missed)
      (hsend : s'.reader.windowsRequest = s.reader.windowsRequest) :
    ServedStep ⟨s, true⟩ ev ⟨s', true⟩
  | sendError {s s' : ReaderState} {ev : ReaderEvent} (hstep : ReaderStep object s ev s')
      (hfetch : ev ≠ .fetched) (hmiss : ev ≠ .missed)
      (hsend : s'.reader.windowsRequest ≠ s.reader.windowsRequest) :
    ServedStep ⟨s, true⟩ .panic ⟨⟨s.reader, .panicked⟩, true⟩
  /-- `TryRecvError::Disconnected` -/
  | disconnected {r : S3ObjectReader} {len : Nat} (hmiss : ∀ cw, ¬ r.Found cw)
      (hrecv : r.windows = []) :
    ServedStep ⟨⟨r, .looping len⟩, true⟩ .panic ⟨⟨r, .panicked⟩, true⟩
  | recvError {r : S3ObjectReader} {len : Nat} (hrecv : r.windows = []) :
    ServedStep ⟨⟨r, .receiving len⟩, true⟩ .panic ⟨⟨r, .panicked⟩, true⟩

abbrev ServedRun : ServedState → List ReaderEvent → ServedState → Prop :=
  Run (ServedStep object reply)

/-- The read that begins in `s` returns no bytes after finitely many steps, is never left
without a step and does not panic. -/
structure ReturnsEof (s : ServedState) : Prop where
  soon : ∃ k, ∀ evs t, ServedRun object reply s evs t → (∀ n bytes, .read n bytes ∉ evs) →
    evs.length ≤ k
  goesOn : ∀ evs t, ServedRun object reply s evs t → (∀ n bytes, .read n bytes ∉ evs) →
    t.state.phase ≠ .panicked ∧ ∃ ev t', ServedStep object reply t ev t'
  empty : ∀ evs t n bytes t', ServedRun object reply s evs t →
    (∀ n bytes, .read n bytes ∉ evs) → ServedStep object reply t (.read n bytes) t' → bytes = []

end

/-! ## What the windows hold -/

/-- The window that is asked for in an object of less than `minWindowSize`. -/
def wholeWindow : WindowRange := ⟨0, minWindowSize⟩

/-- The range holds positions before the end only, or it is the window of a small object. -/
def WindowOk (objectSize : Nat) (range : WindowRange) : Prop :=
  range.stop ≤ objectSize ∨ objectSize < minWindowSize ∧ range = wholeWindow

theorem windowOk_clampWindow {objectSize : Nat} (hsize : objectSize < 2 ^ 63) (offset size : Nat) :
    WindowOk objectSize (clampWindow objectSize offset size) := by
  unfold clampWindow WindowOk
  split
  · split
    · left
      unfold WindowRange.new usizeAdd
      unfold minWindowSize at *
      dsimp only
      omega
    · by_cases hsmall : objectSize < minWindowSize
      · refine .inr ⟨hsmall, ?_⟩
        rw [Nat.sub_eq_zero_of_le (Nat.le_of_lt hsmall)]
        rfl
      · left
        unfold WindowRange.new usizeAdd
        unfold minWindowSize at *
        dsimp only
        omega
  · left
    unfold WindowRange.new
    dsimp only
    omega

namespace S3ObjectReader

theorem windowsRequest_askWindow (r : S3ObjectReader) (offset size : Nat) :
    ∀ x ∈ (r.askWindow offset size).windowsRequest,
      x ∈ r.windowsRequest ∨ x = clampWindow r.objectSize offset size := by
  intro x hx
  unfold askWindow at hx
  dsimp only at hx
  split at hx
  · exact .inl hx
  · rcases List.mem_append.1 hx with hx | hx
    · exact .inl hx
    · exact .inr (List.mem_singleton.1 hx)

end S3ObjectReader

variable {object : Bytes} {reply : WindowRange → Option Bytes}

structure ServedInv (object : Bytes) (reply : WindowRange → Option Bytes) (r : S3ObjectReader) :
    Prop where
  size : r.objectSize = object.length
  requests : ∀ x ∈ r.windowsRequest, WindowOk object.length x
  windows : ∀ w, r.currentWindow = some w ∨ w ∈ r.windows →
    WindowOk object.length w.range ∧ reply w.range = some w.buf

theorem ServedInv.askWindow {r : S3ObjectReader} (h : ServedInv object reply r)
    (hlen : object.length < 2 ^ 63) (offset size : Nat) :
    ServedInv object reply (r.askWindow offset size) := by
  refine ⟨?_, fun x hx => ?_, fun w hw => h.windows w ?_⟩
  · rw [S3ObjectReader.objectSize_askWindow]
    exact h.size
  · rcases r.windowsRequest_askWindow offset size x hx with hx | rfl
    · exact h.requests x hx
    · rw [h.size]
      exact windowOk_clampWindow hlen offset size
  · simpa using hw

theorem ServedInv.receive {r : S3ObjectReader} (h : ServedInv object reply r)
    {w : S3ObjectReaderWindow} {rest : List S3ObjectReaderWindow} (hrecv : r.windows = w :: rest) :
    ServedInv object reply (r.receive w rest) := by
  exact ⟨h.size, h.requests, fun w' hw' => h.windows w' (.inr (mem_windows_of_receive hrecv hw'))⟩

theorem ServedInv.reader {s s' : ReaderState} {ev : ReaderEvent} (hlen : object.length < 2 ^ 63)
    (h : ServedInv object reply s.reader) (hstep : ReaderStep object s ev s')
    (hfetch : ev ≠ .fetched) : ServedInv object reply s'.reader := by
  cases hstep with
  | seek => exact ⟨h.size, h.requests, h.windows⟩
  | call => exact h
  | @read r len cw readBuf hfound hbuf =>
    have hask := h.askWindow hlen cw.range.stop (min maxWindowSize (cw.range.len * 2))
    rw [askNextWindow_eq hfound]
    exact ⟨hask.size, hask.requests, hask.windows⟩
  | @panic r len cw hfound hbuf =>
    rw [askNextWindow_eq hfound]
    exact h.askWindow hlen _ _
  | tryRecv hmiss hrecv => exact h.receive hrecv
  | @empty r len hmiss hrecv =>
    dsimp only
    unfold S3ObjectReader.awaitPosition
    split
    · exact h.askWindow hlen _ _
    · exact h
  | recv hrecv => exact h.receive hrecv
  | fetch => exact absurd rfl hfetch

theorem ServedInv.step {s s' : ServedState} {ev : ReaderEvent} (hlen : object.length < 2 ^ 63)
    (h : ServedInv object reply s.state.reader) (hstep : ServedStep object reply s ev s') :
    ServedInv object reply s'.state.reader := by
  cases hstep with
  | reader hstep hfetch => exact h.reader hlen hstep hfetch
  | @fetch r phase range rest buf hreq hreply =>
    have hrequests := h.requests
    dsimp only at hrequests
    rw [hreq, List.forall_mem_cons] at hrequests
    refine ⟨h.size, hrequests.2, fun w hw => ?_⟩
    rcases hw with hw | hw
    · exact h.windows w (.inl hw)
    · rcases List.mem_append.1 hw with hw | hw
      · exact h.windows w (.inr hw)
      · rw [List.mem_singleton.1 hw]
        exact ⟨hrequests.1, hreply⟩
  | fail => exact ⟨h.size, fun x hx => (by cases hx), h.windows⟩
  | alone hstep hfetch => exact h.reader hlen hstep hfetch
  | sendError => exact h
  | disconnected => exact h
  | recvError => exact h

theorem servedInv_run {evs : List ReaderEvent} {s : ServedState} (hlen : object.length < 2 ^ 63)
    (h : ServedRun object reply (.create object) evs s) :
    ServedInv object reply s.state.reader := by
  have hstart : ServedInv object reply (S3ObjectReader.create object) :=
    ⟨rfl, fun x hx => (by cases hx), fun w hw => by rcases hw with hw | hw <;> cases hw⟩
  exact h.invariant (P := fun s => ServedInv object reply s.state.reader) hstart
    fun _ _ _ hinv hstep => hinv.step hlen hstep

/-! ## A read that does not return -/

/-- The window of a small object. -/
def AtEnd (object : Bytes) (position : Nat) : Prop :=
  0 < object.length ∧ object.length < minWindowSize ∧ position = object.length

/-- At or after the end only the window of a small object holds the position, and its buffer
ends where the object does. -/
theorem ServedInv.bufFrom_of_found {r : S3ObjectReader} (h : ServedInv object reply r)
    (hreply : GetsRanges object reply) (hpos : object.length ≤ r.position)
    {cw : S3ObjectReaderWindow} (hfound : r.Found cw) :
    cw = ⟨wholeWindow, object⟩ ∧ 0 < object.length ∧ object.length < minWindowSize ∧
      r.position < minWindowSize := by
  obtain ⟨hok, hbuf⟩ := h.windows cw (.inl hfound.1)
  have hcontains := hfound.2
  simp only [S3ObjectReaderWindow.containsPosition, WindowRange.contains, Bool.and_eq_true,
    decide_eq_true_eq] at hcontains
  rcases hok with hok | ⟨hsmall, hwhole⟩
  · omega
  · have hwindow : wholeWindow.start < wholeWindow.stop := by decide
    rw [hwhole] at hbuf hcontains
    have hnonempty : 0 < object.length := by
      refine Nat.pos_of_ne_zero fun hzero => ?_
      rw [hreply.unsatisfiable _ hwindow (Nat.le_of_eq hzero)] at hbuf
      cases hbuf
    rw [hreply.satisfiable _ hwindow hnonempty] at hbuf
    refine ⟨?_, hnonempty, hsmall, hcontains.2⟩
    obtain ⟨range, buf⟩ := cw
    cases hwhole
    cases hbuf
    congr 1
    exact List.take_of_length_le (Nat.le_of_lt hsmall)

/-- Where the reader can be during a read at `position`. -/
def Reads (len position : Nat) (s : ReaderState) : Prop :=
  s.reader.position = position ∧ (s.phase.Reading len ∨ s.phase = .panicked)

theorem ServedInv.reader_read {s s' : ReaderState} {n : Nat} {bytes : Bytes}
    (h : ServedInv object reply s.reader) (hreply : GetsRanges object reply)
    (hpos : object.length ≤ s.reader.position) (hstep : ReaderStep object s (.read n bytes) s') :
    AtEnd object s.reader.position ∧ bytes = [] := by
  cases hstep with
  | @read r len cw readBuf hfound hbuf =>
    obtain ⟨rfl, hnonempty, hsmall, -⟩ := h.bufFrom_of_found hreply hpos hfound
    dsimp only at hpos
    unfold S3ObjectReaderWindow.bufFrom at hbuf
    split at hbuf
    · rename_i hle
      have hend : r.position = object.length := by
        simp only [wholeWindow, Nat.sub_zero] at hle
        omega
      cases hbuf
      refine ⟨⟨hnonempty, hsmall, hend⟩, ?_⟩
      rw [hend]
      simp [wholeWindow]
    · cases hbuf

theorem ServedInv.step_read {s s' : ServedState} {n : Nat} {bytes : Bytes}
    (h : ServedInv object reply s.state.reader) (hreply : GetsRanges object reply)
    (hpos : object.length ≤ s.state.reader.position)
    (hstep : ServedStep object reply s (.read n bytes) s') :
    AtEnd object s.state.reader.position ∧ bytes = [] := by
  cases hstep with
  | reader hstep => exact h.reader_read hreply hpos hstep
  | alone hstep => exact h.reader_read hreply hpos hstep

theorem Reads.reader {len position : Nat} {s s' : ReaderState} {ev : ReaderEvent}
    (h : Reads len position s) (hstep : ReaderStep object s ev s') (hfetch : ev ≠ .fetched)
    (hread : ∀ n bytes, ev ≠ .read n bytes) : Reads len position s' := by
  obtain ⟨hpos, hreading⟩ := h
  cases hstep with
  | seek => exact absurd hreading (by simp [Phase.Reading])
  | call => exact absurd hreading (by simp [Phase.Reading])
  | read => exact absurd rfl (hread _ _)
  | @panic r len' cw hfound hbuf =>
    refine ⟨?_, .inr rfl⟩
    rw [askNextWindow_eq hfound]
    exact (S3ObjectReader.position_askWindow _ _ _).trans hpos
  | tryRecv => exact ⟨hpos, .inl (hreading.resolve_right (by simp))⟩
  | empty =>
    exact ⟨(S3ObjectReader.position_awaitPosition _).trans hpos,
      .inl (hreading.resolve_right (by simp))⟩
  | recv => exact ⟨hpos, .inl (hreading.resolve_right (by simp))⟩
  | fetch => exact absurd rfl hfetch

theorem Reads.step {len position : Nat} {s s' : ServedState} {ev : ReaderEvent}
    (h : Reads len position s.state) (hstep : ServedStep object reply s ev s')
    (hread : ∀ n bytes, ev ≠ .read n bytes) : Reads len position s'.state := by
  cases hstep with
  | reader hstep hfetch => exact h.reader hstep hfetch hread
  | fetch => exact h
  | fail => exact h
  | alone hstep hfetch => exact h.reader hstep hfetch hread
  | sendError => exact ⟨h.1, .inr rfl⟩
  | disconnected => exact ⟨h.1, .inr rfl⟩
  | recvError => exact ⟨h.1, .inr rfl⟩

/-- Off the one position a read at or after the end does not return. -/
theorem ServedInv.no_read {len position : Nat} {s s' : ServedState} {evs : List ReaderEvent}
    (hlen : object.length < 2 ^ 63) (hreply : GetsRanges object reply)
    (h : ServedInv object reply s.state.reader) (hreads : Reads len position s.state)
    (hpos : object.length ≤ position) (hoff : ¬ AtEnd object position)
    (hrun : ServedRun object reply s evs s') :
    ServedInv object reply s'.state.reader ∧ Reads len position s'.state ∧
      ∀ n bytes, .read n bytes ∉ evs := by
  induction hrun with
  | refl => exact ⟨h, hreads, fun _ _ hmem => (by cases hmem)⟩
  | @step t u evs ev hrun hlast ih =>
    obtain ⟨hinv, hreads', hevs⟩ := ih
    have hread : ∀ n bytes, ev ≠ .read n bytes := by
      rintro n bytes rfl
      have hend := (hinv.step_read hreply (by rw [hreads'.1]; exact hpos) hlast).1
      rw [hreads'.1] at hend
      exact hoff hend
    refine ⟨hinv.step hlen hlast, hreads'.step hlast hread, fun n bytes hmem => ?_⟩
    rcases List.mem_append.1 hmem with hmem | hmem
    · exact hevs n bytes hmem
    · exact hread n bytes (List.mem_singleton.1 hmem).symm

/-- If the read returns, it is at that position. -/
theorem ReturnsEof.atEnd {len : Nat} {s : ServedState} (h : ReturnsEof object reply s)
    (hlen : object.length < 2 ^ 63) (hreply : GetsRanges object reply)
    (hinv : ServedInv object reply s.state.reader) (hphase : s.state.phase = .looping len)
    (hpos : object.length ≤ s.state.reader.position) : AtEnd object s.state.reader.position := by
  by_contra hoff
  have hreads : Reads len s.state.reader.position s.state :=
    ⟨rfl, .inl (by rw [hphase]; rfl)⟩
  -- it goes on for ever
  have hlong (n : Nat) : ∃ evs t, ServedRun object reply s evs t ∧ evs.length = n := by
    induction n with
    | zero => exact ⟨[], s, .refl s, rfl⟩
    | succ n ih =>
      obtain ⟨evs, t, hrun, rfl⟩ := ih
      have hevs := (hinv.no_read hlen hreply hreads hpos hoff hrun).2.2
      obtain ⟨-, ev, t', hstep⟩ := h.goesOn evs t hrun hevs
      exact ⟨evs ++ [ev], t', hrun.step hstep, by simp⟩
  obtain ⟨k, hk⟩ := h.soon
  obtain ⟨evs, t, hrun, hcount⟩ := hlong (k + 1)
  have := hk evs t hrun (hinv.no_read hlen hreply hreads hpos hoff hrun).2.2
  omega

/-! ## A read that returns -/

/-- Where the reader of a small object is on the way to its window. -/
inductive Shape where
  | fresh
  | requested
  | fetched
  | loaded

namespace Shape

def reader (object : Bytes) (position : Nat) : Shape → S3ObjectReader
  | fresh => ⟨none, position, object.length, [], [], ∅⟩
  | requested => ⟨none, position, object.length, [wholeWindow], [], {wholeWindow}⟩
  | fetched => ⟨none, position, object.length, [], [⟨wholeWindow, object⟩], {wholeWindow}⟩
  | loaded => ⟨some ⟨wholeWindow, object⟩, position, object.length, [], [], ∅⟩

def phase (len : Nat) : Shape → Phase
  | fresh => .looping len
  | requested => .receiving len
  | fetched => .receiving len
  | loaded => .looping len

/-- The steps that are left before the read returns. -/
def left : Shape → Nat
  | fresh => 3
  | requested => 2
  | fetched => 1
  | loaded => 0

def reading (object : Bytes) (position len : Nat) (shape : Shape) : ServedState :=
  ⟨⟨shape.reader object position, shape.phase len⟩, false⟩

end Shape

theorem clampWindow_small {objectSize offset size : Nat} (hsmall : objectSize < minWindowSize)
    (hend : objectSize < usizeAdd offset size) :
    clampWindow objectSize offset size = wholeWindow := by
  unfold clampWindow
  rw [if_pos hend, if_neg (by omega), Nat.sub_eq_zero_of_le (Nat.le_of_lt hsmall)]
  rfl

section

variable {position len : Nat}

theorem awaitPosition_fresh (hsmall : object.length < minWindowSize)
    (hpos : position < minWindowSize) :
    (Shape.fresh.reader object position).awaitPosition =
      Shape.requested.reader object position := by
  have hend : object.length < usizeAdd position minWindowSize := by
    unfold usizeAdd
    unfold minWindowSize at *
    omega
  have hnone : (WindowRangeSet.getPositionCover ∅ position).isNone = true := by
    rw [← Option.not_isSome]
    exact congrArg not (@WindowRangeSet.isSome_neighbour _ _ [] (Nat.zero_le _))
  have hcover : (WindowRangeSet.getRangeCover ∅ wholeWindow).isSome = false :=
    @WindowRangeSet.isSome_neighbour _ _ [] (Nat.zero_le _)
  unfold S3ObjectReader.awaitPosition S3ObjectReader.askPositionWindow S3ObjectReader.askWindow
    Shape.reader
  dsimp only
  rw [clampWindow_small hsmall hend, hnone, hcover]
  simp

/-- The next window of a small object is the current one. -/
theorem askNextWindow_loaded (hsmall : object.length < minWindowSize) :
    (Shape.loaded.reader object position).askNextWindow = Shape.loaded.reader object position := by
  have hend : object.length <
      usizeAdd wholeWindow.stop (min maxWindowSize (wholeWindow.len * 2)) := by
    have : usizeAdd wholeWindow.stop (min maxWindowSize (wholeWindow.len * 2)) =
        3 * minWindowSize := by decide
    omega
  unfold S3ObjectReader.askNextWindow S3ObjectReader.askWindow Shape.reader
  dsimp only
  rw [clampWindow_small hsmall hend]
  simp

theorem found_loaded (hpos : position < minWindowSize) :
    (Shape.loaded.reader object position).Found ⟨wholeWindow, object⟩ := by
  refine ⟨rfl, ?_⟩
  unfold S3ObjectReaderWindow.containsPosition WindowRange.contains
  simp [wholeWindow, Shape.reader, hpos]

/-- What a step of a read in a small object can be. -/
theorem Shape.step {shape : Shape} {s' : ServedState} {ev : ReaderEvent}
    (hreply : GetsRanges object reply) (hnonempty : 0 < object.length)
    (hsmall : object.length < minWindowSize) (hpos : position < minWindowSize)
    (hstep : ServedStep object reply (shape.reading object position len) ev s') :
    (∃ shape' : Shape, shape.left = shape'.left + 1 ∧ s' = shape'.reading object position len) ∨
      (∃ n bytes, ev = .read n bytes ∧
        s' = ⟨⟨Shape.loaded.reader object (position + bytes.length), .idle⟩, false⟩) ∨
      (object.length < position ∧ s'.state.phase = .panicked) := by
  have hwhole : reply wholeWindow = some object := by
    rw [hreply.satisfiable _ (by decide) hnonempty]
    exact congrArg some (List.take_of_length_le (Nat.le_of_lt hsmall))
  unfold reading at hstep
  cases shape with
  | fresh =>
    dsimp only [phase, reader] at hstep
    cases hstep with
    | reader hstep hfetch =>
      cases hstep with
      | read hfound => cases hfound.1
      | panic hfound => cases hfound.1
      | tryRecv hmiss hrecv => cases hrecv
      | empty hmiss hrecv =>
        exact .inl ⟨requested, rfl, by
          unfold reading
          rw [← awaitPosition_fresh hsmall hpos]
          rfl⟩
      | fetch => exact absurd rfl hfetch
    | fetch hreq => cases hreq
    | fail hreq => cases hreq
  | requested =>
    dsimp only [phase, reader] at hstep
    cases hstep with
    | reader hstep hfetch =>
      cases hstep with
      | recv hrecv => cases hrecv
      | fetch => exact absurd rfl hfetch
    | fetch hreq hgot =>
      cases hreq
      rw [hwhole] at hgot
      cases hgot
      exact .inl ⟨fetched, rfl, rfl⟩
    | fail hreq hgot =>
      cases hreq
      rw [hwhole] at hgot
      cases hgot
  | fetched =>
    dsimp only [phase, reader] at hstep
    cases hstep with
    | reader hstep hfetch =>
      cases hstep with
      | recv hrecv =>
        cases hrecv
        refine .inl ⟨loaded, rfl, ?_⟩
        have hcontains := (@found_loaded object position hpos).2
        unfold S3ObjectReader.receive
        dsimp only [Shape.reader] at hcontains ⊢
        rw [if_pos hcontains]
        simp [reading, reader, phase]
      | fetch => exact absurd rfl hfetch
    | fetch hreq => cases hreq
    | fail hreq => cases hreq
  | loaded =>
    have hnext := @askNextWindow_loaded object position hsmall
    have hfound' := @found_loaded object position hpos
    dsimp only [phase, reader] at hstep hnext hfound'
    cases hstep with
    | reader hstep hfetch =>
      cases hstep with
      | read hfound hbuf =>
        refine .inr (.inl ⟨_, _, rfl, ?_⟩)
        rw [hnext]
        rfl
      | panic hfound hbuf =>
        refine .inr (.inr ⟨?_, rfl⟩)
        cases hfound.1
        unfold S3ObjectReaderWindow.bufFrom at hbuf
        split at hbuf
        · cases hbuf
        · rename_i hlt
          simpa [wholeWindow] using hlt
      | tryRecv hmiss => exact absurd hfound' (hmiss _)
      | empty hmiss => exact absurd hfound' (hmiss _)
      | fetch => exact absurd rfl hfetch
    | fetch hreq => cases hreq
    | fail hreq => cases hreq

/-- A read in a small object always has a step. -/
theorem Shape.progress {shape : Shape} (hreply : GetsRanges object reply)
    (hnonempty : 0 < object.length) (hpos : position < minWindowSize) :
    ∃ ev s', ServedStep object reply (shape.reading object position len) ev s' := by
  cases shape with
  | fresh =>
    refine ⟨_, _, .reader (.empty (fun cw hfound => ?_) rfl) (by simp)⟩
    cases hfound.1
  | requested =>
    exact ⟨_, _, .fetch rfl (hreply.satisfiable _ (by decide) hnonempty)⟩
  | fetched => exact ⟨_, _, .reader (.recv rfl) (by simp)⟩
  | loaded =>
    have hfound := @found_loaded object position hpos
    cases hbuf : S3ObjectReaderWindow.bufFrom ⟨wholeWindow, object⟩ position with
    | none => exact ⟨_, _, .reader (.panic hfound hbuf) (by simp)⟩
    | some readBuf => exact ⟨_, _, .reader (.read hfound hbuf) (by simp)⟩

end

/-! ## Small objects -/

/-- What a run on a small object can come to. -/
inductive SmallInv (object : Bytes) : ServedState → Prop
  | idle {shape : Shape} {position : Nat} (hrest : shape = .fresh ∨ shape = .loaded) :
    SmallInv object ⟨⟨shape.reader object position, .idle⟩, false⟩
  | reading {shape : Shape} {position len : Nat} (hpos : position < minWindowSize) :
    SmallInv object (shape.reading object position len)
  /-- No window will hold the position. -/
  | lost {s : ServedState} {position len : Nat} (hpos : minWindowSize ≤ position)
      (hreads : Reads len position s.state) : SmallInv object s
  | panicked {s : ServedState} (hphase : s.state.phase = .panicked) : SmallInv object s

theorem ReaderStep.of_panicked {s s' : ReaderState} {ev : ReaderEvent}
    (h : ReaderStep object s ev s') (hphase : s.phase = .panicked) : ev = .fetched := by
  cases h with
  | fetch => rfl
  | _ => cases hphase

theorem ServedStep.panicked {s s' : ServedState} {ev : ReaderEvent}
    (h : ServedStep object reply s ev s') (hphase : s.state.phase = .panicked) :
    s'.state.phase = .panicked := by
  cases h with
  | reader hstep hfetch => exact absurd (hstep.of_panicked hphase) hfetch
  | fetch => exact hphase
  | fail => exact hphase
  | alone hstep hfetch => exact absurd (hstep.of_panicked hphase) hfetch
  | sendError => rfl
  | disconnected => rfl
  | recvError => rfl

theorem SmallInv.step {s s' : ServedState} {ev : ReaderEvent} (hreply : GetsRanges object reply)
    (hnonempty : 0 < object.length) (hsmall : object.length < minWindowSize)
    (hserved : ServedInv object reply s.state.reader) (hinv : SmallInv object s)
    (hstep : ServedStep object reply s ev s') : SmallInv object s' := by
  cases hinv with
  | @idle shape position hrest =>
    have hreq : (shape.reader object position).windowsRequest = [] := by
      rcases hrest with rfl | rfl <;> rfl
    cases hstep with
    | reader hstep hfetch =>
      cases hstep with
      | @seek _ pos =>
        have hseek : (shape.reader object position).seek pos =
            shape.reader object (pos.target object.length position) := by
          rcases hrest with rfl | rfl <;> rfl
        rw [hseek]
        exact .idle hrest
      | @call _ len =>
        by_cases hpos : position < minWindowSize
        · have hcall : (⟨⟨shape.reader object position, .looping len⟩, false⟩ : ServedState) =
              shape.reading object position len := by
            rcases hrest with rfl | rfl <;> rfl
          rw [hcall]
          exact .reading hpos
        · exact .lost (Nat.not_lt.1 hpos) ⟨by rcases hrest with rfl | rfl <;> rfl, .inl rfl⟩
      | fetch => exact absurd rfl hfetch
    | fetch hreq' => rw [hreq] at hreq'; cases hreq'
    | fail hreq' => rw [hreq] at hreq'; cases hreq'
  | @reading shape position len hpos =>
    rcases Shape.step hreply hnonempty hsmall hpos hstep with
      ⟨shape', -, rfl⟩ | ⟨n, bytes, -, rfl⟩ | ⟨-, hphase⟩
    · exact .reading hpos
    · exact .idle (.inr rfl)
    · exact .panicked hphase
  | @lost _ position len hpos hreads =>
    refine .lost hpos (hreads.step hstep ?_)
    rintro n bytes rfl
    have hend := (hserved.step_read hreply (by rw [hreads.1]; omega) hstep).1
    rw [hreads.1] at hend
    exact absurd hend.2.2 (by omega)
  | panicked hphase => exact .panicked (hstep.panicked hphase)

theorem smallInv_run {evs : List ReaderEvent} {s : ServedState} (hreply : GetsRanges object reply)
    (hnonempty : 0 < object.length) (hsmall : object.length < minWindowSize)
    (h : ServedRun object reply (.create object) evs s) : SmallInv object s := by
  have hlen : object.length < 2 ^ 63 := Nat.lt_trans hsmall (by decide)
  induction h with
  | refl => exact @SmallInv.idle object .fresh 0 (.inl rfl)
  | step hrun hlast ih =>
    exact ih.step hreply hnonempty hsmall (servedInv_run hlen hrun) hlast

theorem SmallInv.of_idle {r : S3ObjectReader} {ended : Bool}
    (h : SmallInv object ⟨⟨r, .idle⟩, ended⟩) : ended = false ∧
      ∃ shape : Shape, (shape = .fresh ∨ shape = .loaded) ∧
        r = shape.reader object r.position := by
  generalize hs : (⟨⟨r, .idle⟩, ended⟩ : ServedState) = s at h
  cases h with
  | @idle shape position hrest =>
    cases hs
    exact ⟨rfl, shape, hrest, by rcases hrest with rfl | rfl <;> rfl⟩
  | @reading shape position len hpos =>
    cases shape <;> cases hs
  | lost hpos hreads =>
    cases hs
    rcases hreads.2 with hreading | hphase
    · exact absurd hreading (by simp [Phase.Reading])
    · cases hphase
  | panicked hphase => cases hs; cases hphase

/-- At the end of a small object the read returns after at most three steps. -/
theorem Shape.returnsEof {shape : Shape} {len : Nat} (hreply : GetsRanges object reply)
    (hnonempty : 0 < object.length) (hsmall : object.length < minWindowSize)
    (hinv : ServedInv object reply (shape.reader object object.length)) :
    ReturnsEof object reply (shape.reading object object.length len) := by
  have hlen : object.length < 2 ^ 63 := Nat.lt_trans hsmall (by decide)
  have hshape {evs : List ReaderEvent} {t : ServedState}
      (hrun : ServedRun object reply (shape.reading object object.length len) evs t)
      (hevs : ∀ n bytes, .read n bytes ∉ evs) :
      ∃ shape' : Shape, evs.length + shape'.left = shape.left ∧
        t = shape'.reading object object.length len := by
    induction hrun with
    | refl => exact ⟨shape, Nat.zero_add _, rfl⟩
    | @step t u evs ev hrun hlast ih =>
      obtain ⟨shape', hleft, rfl⟩ := ih fun n bytes hmem =>
        hevs n bytes (List.mem_append_left _ hmem)
      rcases Shape.step hreply hnonempty hsmall hsmall hlast with
        ⟨shape'', hleft', rfl⟩ | ⟨n, bytes, rfl, -⟩ | ⟨hlt, -⟩
      · refine ⟨shape'', ?_, rfl⟩
        rw [List.length_append, List.length_singleton]
        omega
      · exact absurd (List.mem_append_right _ List.mem_cons_self) (hevs n bytes)
      · exact absurd hlt (Nat.lt_irrefl _)
  refine ⟨⟨shape.left, fun evs t hrun hevs => ?_⟩, fun evs t hrun hevs => ?_,
    fun evs t n bytes t' hrun hevs hstep => ?_⟩
  · obtain ⟨shape', hleft, -⟩ := hshape hrun hevs
    omega
  · obtain ⟨shape', -, rfl⟩ := hshape hrun hevs
    refine ⟨?_, Shape.progress hreply hnonempty hsmall⟩
    cases shape' <;> simp [Shape.reading, Shape.phase]
  · have hserved : ServedInv object reply t.state.reader :=
      hrun.invariant (P := fun s => ServedInv object reply s.state.reader) hinv
        fun _ _ _ hinv hstep => hinv.step hlen hstep
    obtain ⟨shape', -, rfl⟩ := hshape hrun hevs
    have hpos : (shape'.reader object object.length).position = object.length := by
      cases shape' <;> rfl
    exact (hserved.step_read hreply (Nat.le_of_eq hpos.symm) hstep).2

/-! ## At and after the end -/

theorem servedRun_seek (object : Bytes) (reply : WindowRange → Option Bytes) (pos : SeekFrom) :
    ServedRun object reply (.create object) [.seek pos (pos.target object.length 0)]
      ⟨⟨(S3ObjectReader.create object).seek pos, .idle⟩, false⟩ :=
  Run.step (.refl _) (ServedStep.reader ReaderStep.seek (by simp))

/-- A read at or after the end returns `Ok(0)` just at the end of a small object that is not
empty. -/
theorem read_at_end_iff (hlen : object.length < 2 ^ 63) (hreply : GetsRanges object reply)
    {evs : List ReaderEvent} {r : S3ObjectReader} {ended : Bool}
    (hrun : ServedRun object reply (.create object) evs ⟨⟨r, .idle⟩, ended⟩)
    (hpos : object.length ≤ r.position) (len : Nat) :
    ReturnsEof object reply ⟨⟨r, .looping len⟩, ended⟩ ↔
      0 < object.length ∧ object.length < minWindowSize ∧ r.position = object.length := by
  have hserved := servedInv_run hlen hrun
  constructor
  · intro h
    exact h.atEnd hlen hreply hserved rfl hpos
  · rintro ⟨hnonempty, hsmall, hend⟩
    obtain ⟨rfl, shape, hrest, hshape⟩ :=
      (smallInv_run hreply hnonempty hsmall hrun).of_idle
    rw [hend] at hshape
    subst hshape
    have hreading := @Shape.returnsEof _ _ shape len hreply hnonempty hsmall hserved
    rcases hrest with rfl | rfl
    · exact hreading
    · exact hreading

/-- A read at the end of an object of four bytes. -/
theorem read_at_end_four :
    ReturnsEof [0x50, 0x4b, 0x05, 0x06] (getObject [0x50, 0x4b, 0x05, 0x06])
      ⟨⟨(S3ObjectReader.create [0x50, 0x4b, 0x05, 0x06]).seek (.end_ 0), .looping 8⟩, false⟩ :=
  (read_at_end_iff (by decide) (getsRanges_getObject _) (servedRun_seek _ _ (.end_ 0)) (by decide)
    8).2 (by decide)

/-- A read one byte after the end of an object of four bytes. -/
theorem read_after_end : ¬ ∀ (object : Bytes) (reply : WindowRange → Option Bytes)
    (evs : List ReaderEvent) (r : S3ObjectReader) (ended : Bool) (len : Nat),
    object.length < 2 ^ 63 → GetsRanges object reply →
      ServedRun object reply (.create object) evs ⟨⟨r, .idle⟩, ended⟩ →
        object.length ≤ r.position → ReturnsEof object reply ⟨⟨r, .looping len⟩, ended⟩ := by
  intro h
  have hreply := getsRanges_getObject [0x50, 0x4b, 0x05, 0x06]
  have hrun := servedRun_seek [0x50, 0x4b, 0x05, 0x06] (getObject [0x50, 0x4b, 0x05, 0x06])
    (.start 5)
  have hserved := servedInv_run (by decide) hrun
  have hend := (h _ _ _ _ _ 1 (by decide) hreply hrun (by decide)).atEnd (by decide) hreply hserved
    rfl (by decide)
  exact absurd hend.2.2 (by decide)

end S3Archive.ControlLambda
