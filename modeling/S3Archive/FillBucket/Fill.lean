import S3Archive.Base.Bucket
import S3Archive.Base.Run
import S3Archive.FillBucket.SampleSize

/-!
# fill-bucket: uploading the objects

`UploadsStep` is the loop of `fill` with its tasks: an upload is spawned when it gets
one of the permits, and after the last one the results are joined. `uploads_run` says
what every run keeps, in whatever order the requests are served: the number of
uploads in flight, the keys that are written, and what a run that succeeds has
stored.
-/

namespace S3Archive.FillBucket

def concurrentUploads : Nat := 20

/-- One digit of `{:02x}`. -/
def hexDigit (n : Nat) : Char := if n < 10 then Char.ofNat (48 + n) else Char.ofNat (87 + n)

def toHex (bytes : Bytes) : String :=
  String.ofList (bytes.flatMap fun b => [hexDigit (b.toNat / 16), hexDigit (b.toNat % 16)])

/-- `{prefix}/{hex}`. -/
def uploadKey (sha256 : Bytes → Bytes) (keyPrefix buf : Bytes) : Key :=
  ⟨keyPrefix ++ utf8 "/" ++ utf8 (toHex (sha256 buf))⟩

inductive UploadPhase where
  /-- The request is out; `landed` when the store has the object. -/
  | running (landed : Bool)
  | finished (ok : Bool)
  deriving DecidableEq, Repr

structure Upload where
  buf : Bytes
  phase : UploadPhase
  deriving DecidableEq, Repr

namespace Upload

/-- The task holds its permit. -/
def isRunning (u : Upload) : Bool :=
  match u.phase with
  | .running _ => true
  | .finished _ => false

/-- The store has the object. -/
def landed (u : Upload) : Bool :=
  match u.phase with
  | .running landed => landed
  | .finished ok => ok

end Upload

structure UploadsState where
  /-- The contents of the objects that are still to be spawned. -/
  left : List Bytes
  set : List Upload
  bucket : Bucket Key Bytes
  ended : Option Bool

def UploadsState.start (bufs : List Bytes) (b : Bucket Key Bytes) : UploadsState :=
  ⟨bufs, [], b, none⟩

def UploadsState.inFlight (s : UploadsState) : Nat := (s.set.filter Upload.isRunning).length

inductive UploadsEvent where
  | spawn
  | land
  | reply (ok : Bool)
  | join
  deriving DecidableEq, Repr

inductive UploadsStep (sha256 : Bytes → Bytes) (keyPrefix : Bytes) :
    UploadsState → UploadsEvent → UploadsState → Prop where
  | spawn {buf : Bytes} {left : List Bytes} {set : List Upload} {b : Bucket Key Bytes}
      (hpermit : (set.filter Upload.isRunning).length < concurrentUploads) :
    UploadsStep sha256 keyPrefix ⟨buf :: left, set, b, none⟩ .spawn
      ⟨left, set ++ [⟨buf, .running false⟩], b, none⟩
  /-- The store takes the object, again when the request is repeated. -/
  | land {left : List Bytes} {us₁ us₂ : List Upload} {b : Bucket Key Bytes} {buf : Bytes}
      {landed : Bool} :
    UploadsStep sha256 keyPrefix ⟨left, us₁ ++ ⟨buf, .running landed⟩ :: us₂, b, none⟩ .land
      ⟨left, us₁ ++ ⟨buf, .running true⟩ :: us₂, b.put (uploadKey sha256 keyPrefix buf) buf, none⟩
  /-- An upload succeeds only when it has landed; it can fail then, too. -/
  | reply {left : List Bytes} {us₁ us₂ : List Upload} {b : Bucket Key Bytes} {buf : Bytes}
      {landed ok : Bool} (hok : ok = true → landed = true) :
    UploadsStep sha256 keyPrefix ⟨left, us₁ ++ ⟨buf, .running landed⟩ :: us₂, b, none⟩ (.reply ok)
      ⟨left, us₁ ++ ⟨buf, .finished ok⟩ :: us₂, b, none⟩
  | join {us₁ us₂ : List Upload} {b : Bucket Key Bytes} {buf : Bytes} :
    UploadsStep sha256 keyPrefix ⟨[], us₁ ++ ⟨buf, .finished true⟩ :: us₂, b, none⟩ .join
      ⟨[], us₁ ++ us₂, b, none⟩
  | joinFails {us₁ us₂ : List Upload} {b : Bucket Key Bytes} {buf : Bytes} :
    UploadsStep sha256 keyPrefix ⟨[], us₁ ++ ⟨buf, .finished false⟩ :: us₂, b, none⟩ .join
      ⟨[], us₁ ++ us₂, b, some false⟩
  | done {b : Bucket Key Bytes} :
    UploadsStep sha256 keyPrefix ⟨[], [], b, none⟩ .join ⟨[], [], b, some true⟩

abbrev UploadsRun (sha256 : Bytes → Bytes) (keyPrefix : Bytes) :
    UploadsState → List UploadsEvent → UploadsState → Prop := Run (UploadsStep sha256 keyPrefix)

/-! ## The invariant -/

section

variable (sha256 : Bytes → Bytes) (keyPrefix : Bytes) (bufs : List Bytes) (b₀ : Bucket Key Bytes)

/-- The key of `buf` has it, or another of the contents with its digest. -/
def Stored (b : Bucket Key Bytes) (buf : Bytes) : Prop :=
  ∃ buf' ∈ bufs, uploadKey sha256 keyPrefix buf' = uploadKey sha256 keyPrefix buf ∧
    b.get (uploadKey sha256 keyPrefix buf) = some buf'

structure UploadsInv (s : UploadsState) : Prop where
  permits : s.inFlight ≤ concurrentUploads
  /-- A content is to be spawned, is in a task or is stored. -/
  spawned : ∀ buf ∈ bufs, buf ∈ s.left ∨ (∃ u ∈ s.set, u.buf = buf) ∨
    Stored sha256 keyPrefix bufs s.bucket buf ∨ s.ended = some false
  known : s.left ⊆ bufs ∧ ∀ u ∈ s.set, u.buf ∈ bufs
  landed : ∀ u ∈ s.set, u.landed = true → Stored sha256 keyPrefix bufs s.bucket u.buf
  bucket : ∀ k, s.bucket.get k = b₀.get k ∨
    ∃ buf ∈ bufs, uploadKey sha256 keyPrefix buf = k ∧ s.bucket.get k = some buf
  ended : s.ended = some true → s.left = [] ∧ s.set = []

end

section

variable {sha256 : Bytes → Bytes} {keyPrefix : Bytes} {bufs : List Bytes} {b₀ b : Bucket Key Bytes}
  {s s' : UploadsState} {ev : UploadsEvent} {buf buf' : Bytes}

/-- Storing a content takes no other from its key. -/
theorem Stored.put (h : Stored sha256 keyPrefix bufs b buf) (hmem : buf' ∈ bufs) :
    Stored sha256 keyPrefix bufs (b.put (uploadKey sha256 keyPrefix buf') buf') buf := by
  obtain ⟨found, hfound, hkey, hget⟩ := h
  by_cases hsame : uploadKey sha256 keyPrefix buf' = uploadKey sha256 keyPrefix buf
  · exact ⟨buf', hmem, hsame, by rw [← hsame, Bucket.get_put_self]⟩
  · exact ⟨found, hfound, hkey, by rw [Bucket.get_put_of_ne (Ne.symm hsame), hget]⟩

theorem filter_middle (us₁ us₂ : List Upload) (u : Upload) :
    ((us₁ ++ u :: us₂).filter Upload.isRunning).length =
      (us₁.filter Upload.isRunning).length + (us₂.filter Upload.isRunning).length +
        if u.isRunning then 1 else 0 := by
  rw [List.filter_append, List.length_append, List.filter_cons]
  cases u.isRunning with
  | true =>
    rw [if_pos rfl, if_pos rfl, List.length_cons]
    omega
  | false =>
    rw [if_neg Bool.false_ne_true, if_neg Bool.false_ne_true]
    omega

/-- A task that moves on keeps its content. -/
theorem exists_middle {us₁ us₂ : List Upload} {u u' : Upload} (hbuf : u'.buf = u.buf)
    (h : ∃ v ∈ us₁ ++ u :: us₂, v.buf = buf) : ∃ v ∈ us₁ ++ u' :: us₂, v.buf = buf := by
  obtain ⟨v, hv, rfl⟩ := h
  rcases mem_replace u' hv with rfl | hv
  · exact ⟨u', List.mem_append_right _ List.mem_cons_self, hbuf⟩
  · exact ⟨v, hv, rfl⟩

theorem mem_removed {us₁ us₂ : List Upload} {u v : Upload} (hv : v ∈ us₁ ++ us₂) :
    v ∈ us₁ ++ u :: us₂ := by
  rcases List.mem_append.1 hv with hv | hv
  · exact List.mem_append_left _ hv
  · exact List.mem_append_right _ (List.mem_cons_of_mem _ hv)

theorem inFlight_removed_le (left left' : List Bytes) (us₁ us₂ : List Upload) (u : Upload)
    (b b' : Bucket Key Bytes) (ended ended' : Option Bool) :
    UploadsState.inFlight ⟨left', us₁ ++ us₂, b', ended'⟩ ≤
      UploadsState.inFlight ⟨left, us₁ ++ u :: us₂, b, ended⟩ := by
  unfold UploadsState.inFlight
  rw [filter_middle, List.filter_append, List.length_append]
  exact Nat.le_add_right _ _

/-! ### Steps -/

namespace UploadsInv

variable {left : List Bytes} {set us₁ us₂ : List Upload} {landed ok : Bool}

theorem spawn (hinv : UploadsInv sha256 keyPrefix bufs b₀ ⟨buf :: left, set, b, none⟩)
    (hpermit : (set.filter Upload.isRunning).length < concurrentUploads) :
    UploadsInv sha256 keyPrefix bufs b₀ ⟨left, set ++ [⟨buf, .running false⟩], b, none⟩ where
  permits := by
    unfold UploadsState.inFlight
    rw [filter_middle]
    simpa [Upload.isRunning] using Nat.succ_le_of_lt hpermit
  spawned c hc := by
    rcases hinv.spawned c hc with hmem | ⟨u, hu, hbuf⟩ | hstored
    · rcases List.mem_cons.1 hmem with rfl | hmem
      · exact .inr (.inl ⟨_, List.mem_append_right _ List.mem_cons_self, rfl⟩)
      · exact .inl hmem
    · exact .inr (.inl ⟨u, List.mem_append_left _ hu, hbuf⟩)
    · exact .inr (.inr hstored)
  known := by
    refine ⟨fun c hc => hinv.known.1 (List.mem_cons_of_mem _ hc), fun u hu => ?_⟩
    rcases List.mem_append.1 hu with hu | hu
    · exact hinv.known.2 u hu
    · rw [List.mem_singleton.1 hu]
      exact hinv.known.1 List.mem_cons_self
  landed u hu hland := by
    rcases List.mem_append.1 hu with hu | hu
    · exact hinv.landed u hu hland
    · rw [List.mem_singleton.1 hu] at hland
      cases hland
  bucket := hinv.bucket
  ended h := by cases h

/-- The store takes an object: no content loses its key by it. -/
theorem land
    (hinv : UploadsInv sha256 keyPrefix bufs b₀ ⟨left, us₁ ++ ⟨buf, .running landed⟩ :: us₂, b, none⟩) :
    UploadsInv sha256 keyPrefix bufs b₀ ⟨left, us₁ ++ ⟨buf, .running true⟩ :: us₂,
      b.put (uploadKey sha256 keyPrefix buf) buf, none⟩ := by
  have hbuf : buf ∈ bufs := hinv.known.2 _ (List.mem_append_right _ List.mem_cons_self)
  refine ⟨?_, fun c hc => ?_, ⟨hinv.known.1, fun u hu => ?_⟩, fun u hu hland => ?_, fun k => ?_,
    fun h => (by cases h)⟩
  · have hpermits := hinv.permits
    unfold UploadsState.inFlight at hpermits ⊢
    rw [filter_middle] at hpermits ⊢
    exact hpermits
  · rcases hinv.spawned c hc with hmem | hmem | hstored | hended
    · exact .inl hmem
    · exact .inr (.inl (exists_middle (u := ⟨buf, .running landed⟩) rfl hmem))
    · exact .inr (.inr (.inl (hstored.put hbuf)))
    · cases hended
  · rcases mem_replace ⟨buf, .running landed⟩ hu with rfl | hu
    · exact hbuf
    · exact hinv.known.2 u hu
  · rcases mem_replace ⟨buf, .running landed⟩ hu with rfl | hu
    · exact ⟨buf, hbuf, rfl, Bucket.get_put_self⟩
    · exact (hinv.landed u hu hland).put hbuf
  · by_cases hkey : k = uploadKey sha256 keyPrefix buf
    · exact .inr ⟨buf, hbuf, hkey.symm, by rw [hkey, Bucket.get_put_self]⟩
    · rw [Bucket.get_put_of_ne hkey]
      exact hinv.bucket k

theorem reply
    (hinv : UploadsInv sha256 keyPrefix bufs b₀ ⟨left, us₁ ++ ⟨buf, .running landed⟩ :: us₂, b, none⟩)
    (hok : ok = true → landed = true) :
    UploadsInv sha256 keyPrefix bufs b₀ ⟨left, us₁ ++ ⟨buf, .finished ok⟩ :: us₂, b, none⟩ := by
  have hbuf : buf ∈ bufs := hinv.known.2 _ (List.mem_append_right _ List.mem_cons_self)
  refine ⟨?_, fun c hc => ?_, ⟨hinv.known.1, fun u hu => ?_⟩, fun u hu hland => ?_, hinv.bucket,
    fun h => (by cases h)⟩
  · have hpermits := hinv.permits
    unfold UploadsState.inFlight at hpermits ⊢
    rw [filter_middle] at hpermits ⊢
    simp only [Upload.isRunning, if_true, Bool.false_eq_true, if_false] at hpermits ⊢
    omega
  · rcases hinv.spawned c hc with hmem | hmem | hstored
    · exact .inl hmem
    · exact .inr (.inl (exists_middle (u := ⟨buf, .running landed⟩) rfl hmem))
    · exact .inr (.inr hstored)
  · rcases mem_replace ⟨buf, .running landed⟩ hu with rfl | hu
    · exact hbuf
    · exact hinv.known.2 u hu
  · rcases mem_replace ⟨buf, .running landed⟩ hu with rfl | hu
    · exact hinv.landed ⟨buf, .running landed⟩ (List.mem_append_right _ List.mem_cons_self)
        (hok hland)
    · exact hinv.landed u hu hland

/-- The content of a task that is joined is stored. -/
theorem join
    (hinv : UploadsInv sha256 keyPrefix bufs b₀ ⟨[], us₁ ++ ⟨buf, .finished true⟩ :: us₂, b, none⟩) :
    UploadsInv sha256 keyPrefix bufs b₀ ⟨[], us₁ ++ us₂, b, none⟩ where
  permits := (inFlight_removed_le _ _ _ _ _ _ _ _ _).trans hinv.permits
  spawned c hc := by
    rcases hinv.spawned c hc with hmem | ⟨u, hu, hbuf⟩ | hstored
    · exact .inl hmem
    · rcases List.mem_append.1 hu with hu | hu
      · exact .inr (.inl ⟨u, List.mem_append_left _ hu, hbuf⟩)
      · rcases List.mem_cons.1 hu with rfl | hu
        · exact .inr (.inr (.inl (hbuf ▸
            hinv.landed _ (List.mem_append_right _ List.mem_cons_self) rfl)))
        · exact .inr (.inl ⟨u, List.mem_append_right _ hu, hbuf⟩)
    · exact .inr (.inr hstored)
  known := ⟨hinv.known.1, fun u hu => hinv.known.2 u (mem_removed hu)⟩
  landed u hu := hinv.landed u (mem_removed hu)
  bucket := hinv.bucket
  ended h := by cases h

theorem joinFails
    (hinv : UploadsInv sha256 keyPrefix bufs b₀ ⟨[], us₁ ++ ⟨buf, .finished false⟩ :: us₂, b, none⟩) :
    UploadsInv sha256 keyPrefix bufs b₀ ⟨[], us₁ ++ us₂, b, some false⟩ where
  permits := (inFlight_removed_le _ _ _ _ _ _ _ _ _).trans hinv.permits
  spawned _ _ := .inr (.inr (.inr rfl))
  known := ⟨hinv.known.1, fun u hu => hinv.known.2 u (mem_removed hu)⟩
  landed u hu := hinv.landed u (mem_removed hu)
  bucket := hinv.bucket
  ended h := by cases h

theorem done (hinv : UploadsInv sha256 keyPrefix bufs b₀ ⟨[], [], b, none⟩) :
    UploadsInv sha256 keyPrefix bufs b₀ ⟨[], [], b, some true⟩ where
  permits := hinv.permits
  spawned c hc := by
    rcases hinv.spawned c hc with hmem | hmem | hstored | hended
    · exact .inl hmem
    · exact .inr (.inl hmem)
    · exact .inr (.inr (.inl hstored))
    · cases hended
  known := hinv.known
  landed := hinv.landed
  bucket := hinv.bucket
  ended _ := ⟨rfl, rfl⟩

theorem step (hinv : UploadsInv sha256 keyPrefix bufs b₀ s)
    (h : UploadsStep sha256 keyPrefix s ev s') : UploadsInv sha256 keyPrefix bufs b₀ s' := by
  cases h with
  | spawn hpermit => exact hinv.spawn hpermit
  | land => exact hinv.land
  | reply hok => exact hinv.reply hok
  | join => exact hinv.join
  | joinFails => exact hinv.joinFails
  | done => exact hinv.done

end UploadsInv

theorem uploadsInv_of_run {evs : List UploadsEvent}
    (h : UploadsRun sha256 keyPrefix (.start bufs b₀) evs s) :
    UploadsInv sha256 keyPrefix bufs b₀ s := by
  refine h.invariant ⟨Nat.zero_le _, fun c hc => .inl hc, ⟨fun c hc => hc, fun u hu => ?_⟩,
    fun u hu => ?_, fun k => .inl rfl, fun h => (by cases h)⟩
    fun _ _ _ hinv hstep => hinv.step hstep
  · cases hu
  · cases hu

/-! ## Progress -/

/-- The most steps that a run still takes, landing objects aside. -/
def UploadsState.stepsLeft (s : UploadsState) : Nat :=
  match s.ended with
  | some _ => 0
  | none => 3 * s.left.length + s.set.length + s.inFlight + 1

theorem UploadsStep.stepsLeft (h : UploadsStep sha256 keyPrefix s ev s') :
    s'.stepsLeft + (if ev = .land then 0 else 1) ≤ s.stepsLeft := by
  cases h with
  | @spawn buf left set b hpermit =>
    show 3 * left.length + (set ++ [(⟨buf, .running false⟩ : Upload)]).length +
      ((set ++ [(⟨buf, .running false⟩ : Upload)]).filter Upload.isRunning).length + 1 + 1 ≤
        3 * (left.length + 1) + set.length + (set.filter Upload.isRunning).length + 1
    rw [filter_middle, List.length_append]
    simp only [Upload.isRunning, if_true, List.filter_nil, List.length_nil, List.length_singleton]
    omega
  | @land left us₁ us₂ b buf landed =>
    show 3 * left.length + (us₁ ++ (⟨buf, .running true⟩ : Upload) :: us₂).length +
      ((us₁ ++ (⟨buf, .running true⟩ : Upload) :: us₂).filter Upload.isRunning).length + 1 ≤
        3 * left.length + (us₁ ++ (⟨buf, .running landed⟩ : Upload) :: us₂).length +
          ((us₁ ++ (⟨buf, .running landed⟩ : Upload) :: us₂).filter Upload.isRunning).length + 1
    rw [filter_middle, filter_middle, List.length_append, List.length_append]
    exact Nat.le_refl _
  | @reply left us₁ us₂ b buf landed ok hok =>
    show 3 * left.length + (us₁ ++ (⟨buf, .finished ok⟩ : Upload) :: us₂).length +
      ((us₁ ++ (⟨buf, .finished ok⟩ : Upload) :: us₂).filter Upload.isRunning).length + 1 + 1 ≤
        3 * left.length + (us₁ ++ (⟨buf, .running landed⟩ : Upload) :: us₂).length +
          ((us₁ ++ (⟨buf, .running landed⟩ : Upload) :: us₂).filter Upload.isRunning).length + 1
    rw [filter_middle, filter_middle, List.length_append, List.length_append]
    simp only [Upload.isRunning, if_true, Bool.false_eq_true, if_false, List.length_cons]
    omega
  | @join us₁ us₂ b buf =>
    show 3 * 0 + (us₁ ++ us₂).length + ((us₁ ++ us₂).filter Upload.isRunning).length + 1 + 1 ≤
      3 * 0 + (us₁ ++ (⟨buf, .finished true⟩ : Upload) :: us₂).length +
        ((us₁ ++ (⟨buf, .finished true⟩ : Upload) :: us₂).filter Upload.isRunning).length + 1
    rw [filter_middle, List.filter_append, List.length_append, List.length_append,
      List.length_append, List.length_cons]
    omega
  | @joinFails us₁ us₂ b buf => exact Nat.le_add_left 1 _
  | done => exact Nat.le_refl _

/-- The replies so far were all good, and so no task has failed. -/
theorem not_failed {evs : List UploadsEvent}
    (h : UploadsRun sha256 keyPrefix (.start bufs b₀) evs s) (hok : .reply false ∉ evs) :
    s.ended ≠ some false ∧ ∀ u ∈ s.set, u.phase ≠ .finished false := by
  induction h with
  | refl => exact ⟨fun h => (by cases h), fun u hu => (by cases hu)⟩
  | @step _ _ _ ev _ hlast ih =>
    obtain ⟨_, hset⟩ := ih fun hmem => hok (List.mem_append_left _ hmem)
    have hne : ev ≠ .reply false := fun h =>
      hok (List.mem_append_right _ (h ▸ List.mem_cons_self))
    cases hlast with
    | spawn hpermit =>
      refine ⟨fun h => (by cases h), fun u hu => ?_⟩
      rcases List.mem_append.1 hu with hu | hu
      · exact hset u hu
      · rw [List.mem_singleton.1 hu]
        exact fun h => (by cases h)
    | @land left us₁ us₂ b buf landed =>
      refine ⟨fun h => (by cases h), fun u hu => ?_⟩
      rcases mem_replace ⟨buf, .running landed⟩ hu with rfl | hu
      · exact fun h => (by cases h)
      · exact hset u hu
    | @reply left us₁ us₂ b buf landed ok _ =>
      refine ⟨fun h => (by cases h), fun u hu => ?_⟩
      rcases mem_replace ⟨buf, .running landed⟩ hu with rfl | hu
      · intro h
        obtain rfl : ok = false := by injection h
        exact hne rfl
      · exact hset u hu
    | join => exact ⟨fun h => (by cases h), fun u hu => hset u (mem_removed hu)⟩
    | joinFails => exact absurd rfl (hset _ (List.mem_append_right _ List.mem_cons_self))
    | done => exact ⟨fun h => (by cases h), fun u hu => (by cases hu)⟩

theorem UploadsInv.progress (hended : s.ended = none) :
    ∃ ev s', ev ≠ .land ∧ UploadsStep sha256 keyPrefix s ev s' := by
  obtain ⟨left, set, b, ended⟩ := s
  obtain rfl : ended = none := hended
  cases hrunning : set.find? Upload.isRunning with
  | some u =>
    obtain ⟨hu, us₁, us₂, rfl, _⟩ := List.find?_eq_some_iff_append.1 hrunning
    obtain ⟨buf, phase⟩ := u
    cases phase with
    | running landed => exact ⟨.reply false, _, by decide, .reply fun h => (by cases h)⟩
    | finished ok => cases hu
  | none =>
    have hnone : set.filter Upload.isRunning = [] :=
      List.filter_eq_nil_iff.2 fun u hu => by simpa using List.find?_eq_none.1 hrunning u hu
    cases left with
    | cons buf left =>
      refine ⟨.spawn, _, by decide, .spawn ?_⟩
      rw [hnone]
      decide
    | nil =>
      cases set with
      | nil => exact ⟨.join, _, by decide, .done⟩
      | cons u us =>
        obtain ⟨buf, phase⟩ := u
        cases phase with
        | running landed => simp [Upload.isRunning] at hnone
        | finished ok =>
          cases ok with
          | true => exact ⟨.join, _, by decide, @UploadsStep.join _ _ [] _ _ _⟩
          | false => exact ⟨.join, _, by decide, @UploadsStep.joinFails _ _ [] _ _ _⟩

end

/-- Every run of the uploads, in whatever order requests land and replies come: never more than
`concurrentUploads` are in flight; a key has what it had, or one of the contents whose digest it
names; the run takes at most three steps for each object and one more besides landings, and goes on
until it has ended. When it ends well every content is stored under its digest, and it ends well
unless an upload fails. -/
theorem uploads_run (sha256 : Bytes → Bytes) (keyPrefix : Bytes) (bufs : List Bytes)
    (b : Bucket Key Bytes) :
    ∀ evs s, UploadsRun sha256 keyPrefix (.start bufs b) evs s →
      s.inFlight ≤ concurrentUploads ∧
      (∀ k, s.bucket.get k = b.get k ∨
        ∃ buf ∈ bufs, uploadKey sha256 keyPrefix buf = k ∧ s.bucket.get k = some buf) ∧
      evs.countP (fun ev => ev ≠ .land) ≤ 3 * bufs.length + 1 ∧
      (s.ended = none → ∃ ev s', ev ≠ .land ∧ UploadsStep sha256 keyPrefix s ev s') ∧
      (s.ended = some true → ∀ buf ∈ bufs, Stored sha256 keyPrefix bufs s.bucket buf) ∧
      (.reply false ∉ evs → s.ended ≠ some false) := by
  intro evs s hrun
  have hinv := uploadsInv_of_run hrun
  refine ⟨hinv.permits, hinv.bucket, ?_, UploadsInv.progress, fun hended buf hbuf => ?_,
    fun hok => (not_failed hrun hok).1⟩
  · have hsteps : s.stepsLeft + evs.countP (fun ev => ev ≠ .land) ≤
        (UploadsState.start bufs b).stepsLeft := by
      clear hinv
      induction hrun with
      | refl => exact Nat.le_refl _
      | @step _ _ _ ev _ hlast ih =>
        have hstep := hlast.stepsLeft
        have hcount : [ev].countP (fun ev => ev ≠ .land) = if ev = .land then 0 else 1 := by
          cases ev <;> rfl
        rw [List.countP_append, hcount]
        omega
    exact (Nat.le_add_left _ _).trans hsteps
  · obtain ⟨hleft, hset⟩ := hinv.ended hended
    rcases hinv.spawned buf hbuf with hmem | ⟨u, hu, _⟩ | hstored | hfailed
    · rw [hleft] at hmem
      cases hmem
    · rw [hset] at hu
      cases hu
    · exact hstored
    · rw [hended] at hfailed
      cases hfailed

/-! ## A run with two uploads -/

def twoContents : List Bytes := [[1, 2, 3], [4, 5]]

/-- The SHA-256 of the two contents. -/
def sha256OfTwo (buf : Bytes) : Bytes :=
  if buf = [1, 2, 3] then
    [0x03, 0x90, 0x58, 0xC6, 0xF2, 0xC0, 0xCB, 0x49, 0x2C, 0x53, 0x3B, 0x0A, 0x4D, 0x14, 0xEF, 0x77,
      0xCC, 0x0F, 0x78, 0xAB, 0xCC, 0xCE, 0xD5, 0x28, 0x7D, 0x84, 0xA1, 0xA2, 0x01, 0x1C, 0xFB, 0x81]
  else
    [0x2F, 0xA1, 0xB3, 0x77, 0xBF, 0x67, 0x30, 0x9F, 0x65, 0xE5, 0xE7, 0xBC, 0x9D, 0x92, 0x43, 0x45,
      0xCA, 0x64, 0x8D, 0xEC, 0x4E, 0x60, 0x1A, 0x39, 0x8A, 0x9C, 0xB4, 0x97, 0xDC, 0xBA, 0x37, 0x65]

/-- Both are in flight together, the second one lands first, and the first one twice. -/
theorem twoUploads :
    UploadsRun sha256OfTwo (utf8 "p") (.start twoContents .empty)
      [.spawn, .spawn, .land, .reply true, .land, .land, .reply true, .join, .join, .join]
      ⟨[], [], (((Bucket.empty.put (uploadKey sha256OfTwo (utf8 "p") [4, 5]) [4, 5]).put
        (uploadKey sha256OfTwo (utf8 "p") [1, 2, 3]) [1, 2, 3]).put
          (uploadKey sha256OfTwo (utf8 "p") [1, 2, 3]) [1, 2, 3]), some true⟩ := by
  have h₂ := ((@Run.refl _ _ (UploadsStep sha256OfTwo (utf8 "p"))
    (.start twoContents .empty)).step (.spawn (by decide))).step (.spawn (by decide))
  have h₄ := (h₂.step (@UploadsStep.land _ _ _ [_] _ _ _ _)).step
    (@UploadsStep.reply _ _ _ [_] _ _ _ _ true fun _ => rfl)
  have h₇ := ((h₄.step (@UploadsStep.land _ _ _ [] _ _ _ _)).step
    (@UploadsStep.land _ _ _ [] _ _ _ _)).step
      (@UploadsStep.reply _ _ _ [] _ _ _ _ true fun _ => rfl)
  have h₉ := (h₇.step (@UploadsStep.join _ _ [_] _ _ _)).step (@UploadsStep.join _ _ [] _ _ _)
  exact h₉.step .done

/-- Both contents are stored under their digests. -/
theorem uploads_run_two :
    ∃ evs s, UploadsRun sha256OfTwo (utf8 "p") (.start twoContents .empty) evs s ∧
      s.ended = some true ∧ Stored sha256OfTwo (utf8 "p") twoContents s.bucket [1, 2, 3] ∧
      Stored sha256OfTwo (utf8 "p") twoContents s.bucket [4, 5] := by
  have hstored := (uploads_run _ _ _ _ _ _ twoUploads).2.2.2.2.1 rfl
  exact ⟨_, _, twoUploads, rfl, hstored _ List.mem_cons_self,
    hstored _ (List.mem_cons_of_mem _ List.mem_cons_self)⟩

end S3Archive.FillBucket
