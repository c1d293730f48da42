import S3Archive.Base.Bytes
import S3Archive.Base.Memory

/-!
# j-nicholson98: the raw S3 client

`getObjectInto` reads an object into a slab, with retries. What the server and the
connection do is the sequence of `Exchange`s, one for each attempt; `Reply.readInto` and
`Reply.read` are what `http.client` makes of one. `attempt_spec` sums up an attempt and
`withRetries_spec` the loop; `getObjectInto_transparent_iff` says when a result is the
body of a successful response.
-/

namespace S3Archive.JNicholson

def retryableStatus : List Nat := [429, 500, 502, 503, 504]

/-- A response of the server, as far as the connection delivers it. -/
structure Reply where
  status : Nat
  contentLength : Option Nat
  body : Bytes
  /-- How many bytes of the body arrive. -/
  received : Nat
  received_le : received ≤ body.length
  framed : ∀ clen, contentLength = some clen → body.length ≤ clen
  /-- How many bytes each `readinto` finds, call by call; all that are there after the last. -/
  pieces : List Nat
  /-- If the body breaks off: does the connection fail, or just end? -/
  aborts : Bool

inductive Exchange where
  /-- The request or the response's head fails with an `HTTPException` or an `OSError`. -/
  | refused
  | reply (r : Reply)

inductive S3Error where
  /-- The exception of the connection. -/
  | dropped
  | status (key : String) (status : Nat) (excerpt : Bytes)
  | shortRead (key : String) (total clen : Nat)
  deriving DecidableEq

namespace Reply

/-- The `k`th `readinto`, of up to `want` bytes after the first `total`: how many bytes it
finds. It finds none only at the end, and fails with `none`. -/
def readInto (r : Reply) (k total want : Nat) : Option Nat :=
  let there := r.received - total
  if there = 0 then
    if r.aborts ∧ r.received < r.body.length then none else some 0
  else some (min want (min there (max 1 (r.pieces.getD k there))))

/-- The whole body, or an exception. -/
def read (r : Reply) : Option Bytes :=
  if r.received = r.body.length then some r.body else none

/-- The loop of `readinto`s: how far it came, or `none` for an exception, and the slab. -/
def fill (r : Reply) (clen k total : Nat) (slab : Bytes) : Option Nat × Bytes :=
  if total < clen then
    match r.readInto k total (clen - total) with
    | none => (none, slab)
    | some 0 => (some total, slab)
    | some (n + 1) =>
      fill r clen (k + 1) (total + (n + 1))
        (writeAt slab total ((r.body.drop total).take (n + 1)))
  else (some total, slab)
termination_by clen - total
decreasing_by omega

end Reply

inductive Outcome where
  /-- `(None, n)`, or `(data, n)`. -/
  | result (data : Option Bytes) (n : Nat)
  /-- `_Retry`, with its cause. -/
  | retry (cause : S3Error)
  | fatal (e : S3Error)
  deriving DecidableEq

/-- This thread's connection, if one is kept: what has not been read of its response. -/
abbrev Conn := Option Bytes

/-- `resp.read()` of a response without an error status. -/
def readFresh (r : Reply) (slab : Bytes) : Outcome × Conn × Bytes :=
  match r.read with
  | none => (.retry .dropped, some r.body, slab)
  | some data => (.result (some data) data.length, some [], slab)

/-- The body of `clen` bytes goes into the slab. -/
def readIntoSlab (key : String) (r : Reply) (clen : Nat) (slab : Bytes) : Outcome × Conn × Bytes :=
  match r.fill clen 0 0 slab with
  | (none, slab) => (.retry .dropped, some r.body, slab)
  | (some total, slab) =>
    if total ≠ clen then
      (.retry (.shortRead key total clen), some (r.body.drop total), slab)
    else
      (.result none total, some (r.body.drop total), slab)

/-- One request. A connection with an unread response does not take another. -/
def attempt (key : String) (conn : Conn) (slab : Bytes) : Exchange → Outcome × Conn × Bytes
  | .refused => (.retry .dropped, some (conn.getD []), slab)
  | .reply r =>
    if conn.getD [] ≠ [] then
      (.retry .dropped, conn, slab)
    else if 400 ≤ r.status then
      match r.read with
      | none => (.retry .dropped, some r.body, slab)
      | some data =>
        if r.status ∈ retryableStatus then
          (.retry (.status key r.status (data.take 200)), some [], slab)
        else
          (.fatal (.status key r.status (data.take 300)), some [], slab)
    else
      match r.contentLength with
      | none => readFresh r slab
      | some clen =>
        if clen ≤ slab.length then readIntoSlab key r clen slab else readFresh r slab

/-- How a call ends, what it leaves behind, and after how many attempts. -/
structure Got where
  outcome : Except S3Error (Option Bytes × Nat)
  conn : Conn
  slab : Bytes
  attempts : Nat

/-- `_with_retries` from attempt `i` on, with `left` more after it. -/
def withRetries (key : String) (exchanges : Nat → Exchange) : Nat → Nat → Conn → Bytes → Got
  | left, i, conn, slab =>
    match attempt key conn slab (exchanges i) with
    | (.result data n, conn, slab) => ⟨.ok (data, n), conn, slab, i + 1⟩
    | (.fatal e, conn, slab) => ⟨.error e, conn, slab, i + 1⟩
    | (.retry cause, _, slab) =>
      -- `_drop_conn`
      match left with
      | 0 => ⟨.error cause, none, slab, i + 1⟩
      | left + 1 => withRetries key exchanges left (i + 1) none slab

/-- `_MAX_ATTEMPTS` of the number in the environment. -/
def maxAttempts (s3MaxAttempts : Int) : Nat := (max 1 s3MaxAttempts).toNat

def getObjectInto (s3MaxAttempts : Int) (key : String) (exchanges : Nat → Exchange) (conn : Conn)
    (slab : Bytes) : Got :=
  withRetries key exchanges (maxAttempts s3MaxAttempts - 1) 0 conn slab

/-! ## Filling the slab -/

namespace Reply

variable {r : Reply} {k total want n clen : Nat} {slab : Bytes}

/-- A `readinto` that finds nothing is at the end of what arrives. -/
theorem readInto_none (h : r.readInto k total want = none) : r.received ≤ total := by
  by_cases hthere : r.received - total = 0
  · omega
  · simp [readInto, hthere] at h

theorem readInto_zero (hwant : 0 < want) (h : r.readInto k total want = some 0) :
    r.received ≤ total := by
  by_cases hthere : r.received - total = 0
  · omega
  · simp only [readInto, if_neg hthere, Option.some.injEq] at h
    omega

theorem readInto_succ (h : r.readInto k total want = some (n + 1)) :
    n + 1 ≤ want ∧ total + (n + 1) ≤ r.received := by
  by_cases hthere : r.received - total = 0
  · by_cases haborts : r.aborts = true ∧ r.received < r.body.length
    · simp [readInto, hthere, haborts] at h
    · simp only [readInto, hthere, if_true, if_neg haborts, Option.some.injEq] at h
      omega
  · simp only [readInto, if_neg hthere, Option.some.injEq] at h
    omega

/-- The next piece goes behind what is there. -/
theorem take_writeAt {m : Nat} (hslab : slab.take total = r.body.take total)
    (hm : total + m ≤ r.body.length) (hlen : total + m ≤ slab.length) :
    (writeAt slab total ((r.body.drop total).take m)).take (total + m) =
      r.body.take (total + m) := by
  have hpiece : ((r.body.drop total).take m).length = m := by
    rw [List.length_take, List.length_drop]
    omega
  have hfront : (slab.take total ++ (r.body.drop total).take m).length = total + m := by
    rw [List.length_append, hpiece, List.length_take]
    omega
  rw [writeAt, List.take_left' hfront, hslab, ← List.take_add]

/-- The loop comes to the end exactly if all bytes arrive, and then they are in the slab. -/
theorem fill_spec (hlen : clen ≤ slab.length) (htotal : total ≤ clen) (hrec : total ≤ r.received)
    (hslab : slab.take total = r.body.take total) :
    (r.fill clen k total slab).2.length = slab.length ∧
      ((r.fill clen k total slab).1 = some clen ↔ clen ≤ r.received) ∧
      ((r.fill clen k total slab).1 = some clen →
        (r.fill clen k total slab).2.take clen = r.body.take clen) := by
  fun_induction Reply.fill r clen k total slab with
  | case1 k total slab hlt hread =>
    have hend := readInto_none hread
    refine ⟨rfl, ⟨fun h => ?_, fun h => ?_⟩, fun h => ?_⟩
    · cases h
    · omega
    · cases h
  | case2 k total slab hlt hread =>
    have hend := readInto_zero (Nat.sub_pos_of_lt hlt) hread
    refine ⟨rfl, ⟨fun h => ?_, fun h => ?_⟩, fun h => ?_⟩
    · cases h
      omega
    · omega
    · cases h
      omega
  | case3 k total slab hlt n hread ih =>
    obtain ⟨hwant, hthere⟩ := readInto_succ hread
    have hbody := r.received_le
    have hpiece : ((r.body.drop total).take (n + 1)).length = n + 1 := by
      rw [List.length_take, List.length_drop]
      omega
    have hlength : (writeAt slab total ((r.body.drop total).take (n + 1))).length = slab.length :=
      length_writeAt (by omega)
    have hrest := ih (by omega) (by omega) hthere
      (take_writeAt hslab (by omega) (by omega))
    rwa [hlength] at hrest
  | case4 k total slab hge =>
    obtain rfl : total = clen := by omega
    exact ⟨rfl, ⟨fun _ => hrec, fun _ => rfl⟩, fun _ => hslab⟩

end Reply

/-! ## One attempt -/

/-- The response is read to its end: with a length that fits the slab that many bytes
arrive, else the whole body. -/
def Reply.Whole (r : Reply) (room : Nat) : Prop :=
  if 400 ≤ r.status then r.received = r.body.length
  else match r.contentLength with
    | none => r.received = r.body.length
    | some clen => if clen ≤ room then clen ≤ r.received else r.received = r.body.length

/-- The attempt is given up, and the next one made if there is one. -/
def Exchange.Retried (room : Nat) : Exchange → Prop
  | .refused => True
  | .reply r => ¬ r.Whole room ∨ r.status ∈ retryableStatus

/-- The result is the body of `r`, in the slab or as bytes of its own. -/
def IsBody (r : Reply) (slab : Bytes) (n : Nat) : Option Bytes → Prop
  | none => n = r.body.length ∧ slab.take n = r.body
  | some data => n = data.length ∧ data = r.body

/-- Nothing unread is on the connection. -/
def Clean (conn : Conn) : Prop := conn.getD [] = []

/-- How an attempt ends. -/
inductive AttemptEnds (ex : Exchange) (slab : Bytes) : Outcome × Conn × Bytes → Prop where
  | retry {cause : S3Error} {conn : Conn} {slab' : Bytes} (hretried : ex.Retried slab.length)
      (hlength : slab'.length = slab.length) : AttemptEnds ex slab (.retry cause, conn, slab')
  | fatal {r : Reply} {e : S3Error} (hreply : ex = .reply r) (hstatus : 400 ≤ r.status)
      (hretried : ¬ ex.Retried slab.length) : AttemptEnds ex slab (.fatal e, some [], slab)
  | result {r : Reply} {data : Option Bytes} {n : Nat} {slab' : Bytes} (hreply : ex = .reply r)
      (hstatus : r.status < 400) (hretried : ¬ ex.Retried slab.length)
      (hbody : IsBody r slab' n data) : AttemptEnds ex slab (.result data n, some [], slab')

theorem not_retryable {r : Reply} (h : r.status < 400) : r.status ∉ retryableStatus := by
  simp only [retryableStatus, List.mem_cons, List.not_mem_nil, or_false]
  omega

theorem readFresh_ends {r : Reply} {slab : Bytes} (hstatus : r.status < 400)
    (hwhole : r.Whole slab.length ↔ r.received = r.body.length) :
    AttemptEnds (.reply r) slab (readFresh r slab) := by
  have hnot := not_retryable hstatus
  by_cases hall : r.received = r.body.length
  · have hends : AttemptEnds (.reply r) slab (.result (some r.body) r.body.length, some [], slab) :=
      .result rfl hstatus (by simp [Exchange.Retried, hwhole, hall, hnot]) ⟨rfl, rfl⟩
    simpa [readFresh, Reply.read, hall] using hends
  · have hends : AttemptEnds (.reply r) slab (.retry .dropped, some r.body, slab) :=
      .retry (.inl (fun h => hall (hwhole.1 h))) rfl
    simpa [readFresh, Reply.read, hall] using hends

theorem readIntoSlab_ends (key : String) {r : Reply} {clen : Nat} {slab : Bytes}
    (hstatus : r.status < 400) (hclen : r.contentLength = some clen) (hfits : clen ≤ slab.length)
    (hwhole : r.Whole slab.length ↔ clen ≤ r.received) :
    AttemptEnds (.reply r) slab (readIntoSlab key r clen slab) := by
  have hspec := @Reply.fill_spec r 0 0 clen slab hfits (Nat.zero_le _) (Nat.zero_le _) rfl
  unfold readIntoSlab
  generalize r.fill clen 0 0 slab = filled at hspec ⊢
  obtain ⟨res, slab'⟩ := filled
  obtain ⟨hlength, hiff, htake⟩ := hspec
  by_cases hall : clen ≤ r.received
  · obtain rfl : res = some clen := hiff.2 hall
    have hreceived := r.received_le
    have hframed := r.framed clen hclen
    have hbody : r.body.length = clen := by omega
    simp only [ne_eq, not_true, if_false, List.drop_of_length_le hframed]
    refine .result rfl hstatus ?_ ⟨hbody.symm, ?_⟩
    · simp [Exchange.Retried, hwhole, hall, not_retryable hstatus]
    · rw [htake rfl, ← hbody, List.take_length]
  · have hretried : (Exchange.reply r).Retried slab.length := .inl fun h => hall (hwhole.1 h)
    cases res with
    | none => exact .retry hretried hlength
    | some total =>
      have hne : total ≠ clen := fun h => hall (hiff.1 (congrArg some h))
      simp only [if_pos hne]
      exact .retry hretried hlength

theorem attempt_ends (key : String) {conn : Conn} (hconn : Clean conn) (slab : Bytes)
    (ex : Exchange) : AttemptEnds ex slab (attempt key conn slab ex) := by
  cases ex with
  | refused => exact .retry trivial rfl
  | reply r =>
    have hidle : ¬ conn.getD [] ≠ [] := not_not_intro hconn
    simp only [attempt, if_neg hidle]
    by_cases hstatus : 400 ≤ r.status
    · rw [if_pos hstatus]
      have hwhole : r.Whole slab.length ↔ r.received = r.body.length := by
        simp [Reply.Whole, hstatus]
      by_cases hall : r.received = r.body.length
      · simp only [Reply.read, hall, if_true]
        by_cases hretry : r.status ∈ retryableStatus
        · rw [if_pos hretry]
          exact .retry (.inr hretry) rfl
        · rw [if_neg hretry]
          exact .fatal rfl hstatus (by simp [Exchange.Retried, hwhole, hall, hretry])
      · simp only [Reply.read, hall, if_false]
        exact .retry (.inl fun h => hall (hwhole.1 h)) rfl
    · rw [if_neg hstatus]
      have hlow : r.status < 400 := Nat.lt_of_not_le hstatus
      cases hclen : r.contentLength with
      | none => exact readFresh_ends hlow (by simp [Reply.Whole, hstatus, hclen])
      | some clen =>
        by_cases hfits : clen ≤ slab.length
        · have hwhole : r.Whole slab.length ↔ clen ≤ r.received := by
            simp [Reply.Whole, hstatus, hclen, hfits]
          simp only [if_pos hfits]
          exact readIntoSlab_ends key hlow hclen hfits hwhole
        · simp only [if_neg hfits]
          exact readFresh_ends hlow (by simp [Reply.Whole, hstatus, hclen, hfits])

/-! ## The retries -/

/-- The attempts up to `k` are given up, and `k` is not. -/
def LastAttempt (exchanges : Nat → Exchange) (room k : Nat) : Prop :=
  (∀ j < k, (exchanges j).Retried room) ∧ ¬ (exchanges k).Retried room

theorem LastAttempt.eq {exchanges : Nat → Exchange} {room k k' : Nat}
    (h : LastAttempt exchanges room k) (h' : LastAttempt exchanges room k') : k = k' := by
  rcases Nat.lt_trichotomy k k' with hlt | heq | hlt
  · exact absurd (h'.1 k hlt) h.2
  · exact heq
  · exact absurd (h.1 k' hlt) h'.2

/-- What a call has done that may make attempts up to `bound`: a result is that of the
last attempt, and there is one if the last attempt is a response without an error status. -/
structure Ended (exchanges : Nat → Exchange) (room bound : Nat) (g : Got) : Prop where
  clean : Clean g.conn
  attempts_le : g.attempts ≤ bound + 1
  of_ok : ∀ data n, g.outcome = .ok (data, n) → ∃ k r, g.attempts = k + 1 ∧
    LastAttempt exchanges room k ∧ exchanges k = .reply r ∧ r.status < 400 ∧ IsBody r g.slab n data
  ok : ∀ k r, k ≤ bound → LastAttempt exchanges room k → exchanges k = .reply r →
    r.status < 400 → ∃ data n, g.outcome = .ok (data, n)

section

variable {exchanges : Nat → Exchange} {room i bound : Nat} {r : Reply} {e : S3Error} {slab : Bytes}

theorem Ended.giveUp (hretried : ∀ j < i + 1, (exchanges j).Retried room) :
    Ended exchanges room i ⟨.error e, none, slab, i + 1⟩ := by
  refine ⟨rfl, Nat.le_refl _, fun data n h => ?_, fun k r hk hlast _ _ => ?_⟩
  · cases h
  · exact absurd (hretried k (Nat.lt_succ_of_le hk)) hlast.2

theorem Ended.fatal (hlast : LastAttempt exchanges room i) (hbound : i ≤ bound)
    (hreply : exchanges i = .reply r) (hstatus : 400 ≤ r.status) :
    Ended exchanges room bound ⟨.error e, some [], slab, i + 1⟩ := by
  refine ⟨rfl, Nat.succ_le_succ hbound, fun data n h => ?_, fun k r' _ hlast' hreply' hlow => ?_⟩
  · cases h
  · obtain rfl := hlast.eq hlast'
    rw [hreply] at hreply'
    cases hreply'
    omega

theorem Ended.result {data : Option Bytes} {n : Nat} (hlast : LastAttempt exchanges room i)
    (hbound : i ≤ bound) (hreply : exchanges i = .reply r) (hstatus : r.status < 400)
    (hbody : IsBody r slab n data) :
    Ended exchanges room bound ⟨.ok (data, n), some [], slab, i + 1⟩ := by
  refine ⟨rfl, Nat.succ_le_succ hbound, fun data' n' h => ?_, fun _ _ _ _ _ _ => ⟨data, n, rfl⟩⟩
  cases h
  exact ⟨i, r, rfl, hlast, hreply, hstatus, hbody⟩

end

theorem withRetries_ended (key : String) {exchanges : Nat → Exchange} {room left i : Nat}
    {conn : Conn} {slab : Bytes} (hconn : Clean conn) (hroom : slab.length = room)
    (hretried : ∀ j < i, (exchanges j).Retried room) :
    Ended exchanges room (i + left) (withRetries key exchanges left i conn slab) := by
  have hends := attempt_ends key hconn slab (exchanges i)
  rw [withRetries.eq_def]
  dsimp only
  generalize attempt key conn slab (exchanges i) = ended at hends ⊢
  subst hroom
  cases hends with
  | retry hnow hlength =>
    have hretried' : ∀ j < i + 1, (exchanges j).Retried slab.length := fun j hj =>
      (Nat.lt_succ_iff_lt_or_eq.1 hj).elim (hretried j) (· ▸ hnow)
    cases left with
    | zero => exact .giveUp hretried'
    | succ left =>
      have hrest := @withRetries_ended key exchanges _ left (i + 1) none _ rfl hlength hretried'
      rwa [show i + 1 + left = i + (left + 1) by omega] at hrest
  | fatal hreply hstatus hnow =>
    exact .fatal ⟨hretried, hnow⟩ (Nat.le_add_right ..) hreply hstatus
  | result hreply hstatus hnow hbody =>
    exact .result ⟨hretried, hnow⟩ (Nat.le_add_right ..) hreply hstatus hbody
termination_by left

/-- What a call promises: an error, or the whole body of one successful response, that of
the last attempt; no more attempts than configured; and no unread response. -/
structure Transparent (exchanges : Nat → Exchange) (attempts : Nat) (g : Got) : Prop where
  clean : Clean g.conn
  attempts_le : g.attempts ≤ attempts
  result : ∀ data n, g.outcome = .ok (data, n) → ∃ k r, g.attempts = k + 1 ∧
    exchanges k = .reply r ∧ (200 ≤ r.status ∧ r.status < 300) ∧ IsBody r g.slab n data

theorem maxAttempts_pos (s3MaxAttempts : Int) : 0 < maxAttempts s3MaxAttempts := by
  unfold maxAttempts
  omega

/-- A call keeps its promise exactly if the response that ends the retries is not one with
a status below 400 that is not a success. -/
theorem getObjectInto_transparent_iff (s3MaxAttempts : Int) (key : String)
    (exchanges : Nat → Exchange) (conn : Conn) (slab : Bytes) (hconn : Clean conn) :
    Transparent exchanges (maxAttempts s3MaxAttempts)
        (getObjectInto s3MaxAttempts key exchanges conn slab) ↔
      ∀ k r, k < maxAttempts s3MaxAttempts → LastAttempt exchanges slab.length k →
        exchanges k = .reply r → r.status < 400 → 200 ≤ r.status ∧ r.status < 300 := by
  have hpos := maxAttempts_pos s3MaxAttempts
  obtain ⟨hclean, hattempts, hof, hok⟩ : Ended exchanges slab.length
      (0 + (maxAttempts s3MaxAttempts - 1)) (getObjectInto s3MaxAttempts key exchanges conn slab) :=
    withRetries_ended key hconn rfl fun j hj => absurd hj (Nat.not_lt_zero j)
  constructor
  · intro h k r hk hlast hreply hlow
    obtain ⟨data, n, houtcome⟩ := hok k r (by omega) hlast hreply hlow
    obtain ⟨k', r', hattempts', hreply', hsuccess, -⟩ := h.result data n houtcome
    obtain ⟨k'', r'', hattempts'', hlast'', -⟩ := hof data n houtcome
    obtain rfl : k' = k'' := by omega
    obtain rfl := hlast.eq hlast''
    rw [hreply] at hreply'
    cases hreply'
    exact hsuccess
  · intro h
    refine ⟨hclean, by omega, fun data n houtcome => ?_⟩
    obtain ⟨k, r, hattempts', hlast, hreply, hlow, hbody⟩ := hof data n houtcome
    exact ⟨k, r, hattempts', hreply, h k r (by omega) hlast hreply hlow, hbody⟩

/-- A complete response of three bytes. -/
def wholeReply (status : Nat) : Reply where
  status
  contentLength := some 3
  body := [1, 2, 3]
  received := 3
  received_le := Nat.le_refl 3
  framed := fun _ h => Nat.le_of_eq (Option.some.inj h)
  pieces := [2]
  aborts := false

/-- A dropped connection, then the object. -/
theorem getObjectInto_after_drop :
    Transparent (fun k => if k = 0 then .refused else .reply (wholeReply 200)) (maxAttempts 6)
      (getObjectInto 6 "files/a"
        (fun k => if k = 0 then .refused else .reply (wholeReply 200)) none [0, 0, 0, 0]) := by
  refine (getObjectInto_transparent_iff 6 "files/a" _ none [0, 0, 0, 0] rfl).2 ?_
  intro k r _ _ hreply _
  split at hreply
  · cases hreply
  · cases hreply
    exact ⟨Nat.le_refl 200, by decide⟩

/-- The body of a redirect is taken for the object. -/
theorem getObjectInto_redirect : ¬ ∀ (s3MaxAttempts : Int) (key : String)
    (exchanges : Nat → Exchange) (conn : Conn) (slab : Bytes), Clean conn →
    Transparent exchanges (maxAttempts s3MaxAttempts)
      (getObjectInto s3MaxAttempts key exchanges conn slab) := by
  intro h
  have hlast : LastAttempt (fun _ => .reply (wholeReply 307)) 4 0 := by
    refine ⟨fun j hj => absurd hj (Nat.not_lt_zero j), ?_⟩
    simp [Exchange.Retried, Reply.Whole, wholeReply, retryableStatus]
  have hended : Ended (fun _ => .reply (wholeReply 307)) 4 (0 + 5)
      (getObjectInto 6 "files/a" (fun _ => .reply (wholeReply 307)) none [0, 0, 0, 0]) :=
    withRetries_ended "files/a" rfl rfl fun j hj => absurd hj (Nat.not_lt_zero j)
  obtain ⟨data, n, houtcome⟩ := hended.ok 0 (wholeReply 307) (Nat.zero_le _) hlast rfl (by decide)
  obtain ⟨k, r, -, hreply, ⟨-, hlow⟩, -⟩ :=
    (h 6 "files/a" (fun _ => .reply (wholeReply 307)) none [0, 0, 0, 0] rfl).result data n houtcome
  cases hreply
  exact absurd hlow (by decide)

end S3Archive.JNicholson
