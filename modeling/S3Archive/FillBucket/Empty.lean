import S3Archive.Base.Bucket
import S3Archive.Base.Run

/-!
# fill-bucket: emptying a prefix

`EmptyStep` is the loop of `empty`: list a page, delete it in one request, go on at
the continuation token. A delete request can succeed and still refuse some of its
keys, which `empty` does not look at. So a run that succeeds leaves exactly those,
and what does not start with the prefix (`empty_run`).
-/

namespace S3Archive.FillBucket

open Bucket (Page)

inductive EmptyPhase where
  | listing (continuationToken : Option Key)
  /-- A page has been listed. -/
  | deleting (objects : List Key) (continuation : Option Key)
  | ended (ok : Bool)
  deriving DecidableEq, Repr

/-- Go on with the next page, or stop. -/
def EmptyPhase.next : Option Key → EmptyPhase
  | some token => .listing (some token)
  | none => .ended true

/-- Only a page with objects is deleted. -/
def EmptyPhase.listed (objects : List Key) (continuation : Option Key) : EmptyPhase :=
  if objects.isEmpty then .next continuation else .deleting objects continuation

structure EmptyState (ω : Type) where
  bucket : Bucket Key ω
  phase : EmptyPhase

inductive EmptyEvent where
  | list
  /-- A delete request and the keys that its reply has errors for. -/
  | delete (errors : List Key)
  | listFails
  | deleteFails

def EmptyEvent.errors : EmptyEvent → List Key
  | .delete errors => errors
  | _ => []

inductive EmptyStep {ω : Type} (keyPrefix : Bytes) :
    EmptyState ω → EmptyEvent → EmptyState ω → Prop where
  | list {b : Bucket Key ω} {token : Option Key} {limit : Nat} {page : Page Key ω}
      (hlimit : 0 < limit) (hpage : page = b.page (Key.startsWith keyPrefix) token limit) :
    EmptyStep keyPrefix ⟨b, .listing token⟩ .list
      ⟨b, .listed (page.reply.contents.map Prod.fst) page.reply.continuation⟩
  | listFails {b : Bucket Key ω} {token : Option Key} :
    EmptyStep keyPrefix ⟨b, .listing token⟩ .listFails ⟨b, .ended false⟩
  | delete {b : Bucket Key ω} {objects errors : List Key} {continuation : Option Key}
      (herrors : errors ⊆ objects) :
    EmptyStep keyPrefix ⟨b, .deleting objects continuation⟩ (.delete errors)
      ⟨b.deleteAll (objects.filter (· ∉ errors)), .next continuation⟩
  /-- The request fails, and may have deleted some of its keys. -/
  | deleteFails {b : Bucket Key ω} {objects gone : List Key} {continuation : Option Key}
      (hgone : gone ⊆ objects) :
    EmptyStep keyPrefix ⟨b, .deleting objects continuation⟩ .deleteFails
      ⟨b.deleteAll gone, .ended false⟩

abbrev EmptyRun {ω : Type} (keyPrefix : Bytes) :
    EmptyState ω → List EmptyEvent → EmptyState ω → Prop := Run (EmptyStep keyPrefix)

/-! ## The invariant -/

/-- The keys that are still to be listed or deleted. -/
def EmptyPhase.Pending : EmptyPhase → Key → Prop
  | .listing token, k => ∀ t, token = some t → t < k
  | .deleting objects continuation, k => k ∈ objects ∨ ∃ t, continuation = some t ∧ t < k
  | .ended _, _ => False

/-- A listed page starts with the prefix and ends at its token. -/
def EmptyPhase.Listed (keyPrefix : Bytes) : EmptyPhase → Prop
  | .deleting objects continuation => (∀ k ∈ objects, k.startsWith keyPrefix = true) ∧
      ∀ t, continuation = some t → ∀ k ∈ objects, k ≤ t
  | _ => True

/-- `refused` are the keys that replies had errors for. -/
structure EmptyInv {ω : Type} (b : Bucket Key ω) (keyPrefix : Bytes) (refused : List Key)
    (s : EmptyState ω) : Prop where
  subset : ∀ x ∈ s.bucket.objects, x ∈ b.objects
  frame : ∀ x ∈ b.objects, x.1.startsWith keyPrefix = false → x ∈ s.bucket.objects
  listed : s.phase.Listed keyPrefix
  settled : ∀ k ∈ refused, ¬ s.phase.Pending k
  kept : s.phase ≠ .ended false → ∀ x ∈ b.objects, x.1.startsWith keyPrefix = true →
    (x ∈ s.bucket.objects ↔ x.1 ∈ refused ∨ s.phase.Pending x.1)

section

variable {ω : Type} {b : Bucket Key ω} {keyPrefix : Bytes} {refused : List Key}
  {s s' : EmptyState ω} {ev : EmptyEvent}

theorem pending_next (continuation : Option Key) (k : Key) :
    (EmptyPhase.next continuation).Pending k ↔ ∃ t, continuation = some t ∧ t < k := by
  cases continuation with
  | none => simp [EmptyPhase.next, EmptyPhase.Pending]
  | some t => simp [EmptyPhase.next, EmptyPhase.Pending]

theorem pending_listed (objects : List Key) (continuation : Option Key) (k : Key) :
    (EmptyPhase.listed objects continuation).Pending k ↔
      k ∈ objects ∨ ∃ t, continuation = some t ∧ t < k := by
  unfold EmptyPhase.listed
  cases objects with
  | nil => simp [pending_next]
  | cons k' ks => rfl

theorem listed_next (continuation : Option Key) :
    (EmptyPhase.next continuation).Listed keyPrefix := by
  cases continuation <;> exact trivial

/-- What a page says of the keys that are pending. -/
theorem pending_page {page : Page Key ω} {token : Option Key} {limit : Nat} (hlimit : 0 < limit)
    (hpage : page = b.page (Key.startsWith keyPrefix) token limit) :
    (∀ x ∈ page.contents, x ∈ b.objects ∧ x.1.startsWith keyPrefix = true ∧
      (EmptyPhase.listing token).Pending x.1) ∧
    (∀ t, page.next = some t → (∀ x ∈ page.contents, x.1 ≤ t) ∧
      ∀ k, t < k → (EmptyPhase.listing token).Pending k) ∧
    ∀ x ∈ b.objects, x.1.startsWith keyPrefix = true → (EmptyPhase.listing token).Pending x.1 →
      x ∈ page.contents ∨ ∃ t, page.next = some t ∧ t < x.1 := by
  have hmem : ∀ x, x ∈ b.list (Key.startsWith keyPrefix) token ↔ x ∈ b.objects ∧
      x.1.startsWith keyPrefix = true ∧ (EmptyPhase.listing token).Pending x.1 :=
    fun x => Bucket.mem_list
  subst hpage
  rcases Bucket.page_cases b (Key.startsWith keyPrefix) token hlimit with
    ⟨hnone, hall⟩ | ⟨k, hsome, hall, hle, hafter, _⟩
  · rw [hnone, hall]
    exact ⟨fun x hx => (hmem x).1 hx, fun t ht => (by cases ht),
      fun x hx hunder hpending => .inl ((hmem x).2 ⟨hx, hunder, hpending⟩)⟩
  · rw [hsome]
    refine ⟨fun x hx => (hmem x).1 (hall ▸ List.mem_append_left _ hx), fun t ht => ?_,
      fun x hx hunder hpending => ?_⟩
    · rw [← Option.some.inj ht]
      exact ⟨hle, fun k' hlt t' ht' => (hafter t' ht').trans hlt⟩
    · have hlist := (hmem x).2 ⟨hx, hunder, hpending⟩
      rw [← hall] at hlist
      rcases List.mem_append.1 hlist with hlist | hlist
      · exact .inl hlist
      · exact .inr ⟨k, rfl, (Bucket.mem_list.1 hlist).2.2 k rfl⟩

theorem EmptyInv.step (hinv : EmptyInv b keyPrefix refused s) (h : EmptyStep keyPrefix s ev s') :
    EmptyInv b keyPrefix (refused ++ ev.errors) s' := by
  cases h with
  | @list b' token limit page hlimit hpage =>
    obtain ⟨hcontents, hnext, hrest⟩ := pending_page hlimit hpage
    have hpending : ∀ k, (EmptyPhase.listed (page.reply.contents.map Prod.fst)
        page.reply.continuation).Pending k ↔
          (∃ x ∈ page.contents, x.1 = k) ∨ ∃ t, page.next = some t ∧ t < k := by
      intro k
      rw [pending_listed, Page.continuation_reply]
      exact or_congr_left List.mem_map
    show EmptyInv b keyPrefix (refused ++ []) _
    rw [List.append_nil]
    refine ⟨hinv.subset, hinv.frame, ?_, fun k hk hp => ?_, fun _ x hx hunder => ?_⟩
    · dsimp only
      unfold EmptyPhase.listed
      split
      · exact listed_next _
      · refine ⟨fun k hk => ?_, fun t ht k hk => ?_⟩
        · obtain ⟨x, hx, rfl⟩ := List.mem_map.1 hk
          exact (hcontents x hx).2.1
        · rw [Page.continuation_reply] at ht
          obtain ⟨x, hx, rfl⟩ := List.mem_map.1 hk
          exact (hnext t ht).1 x hx
    · refine hinv.settled k hk ?_
      rcases (hpending k).1 hp with ⟨x, hx, rfl⟩ | ⟨t, ht, hlt⟩
      · exact (hcontents x hx).2.2
      · exact (hnext t ht).2 k hlt
    · dsimp only
      rw [hpending]
      have hkept := hinv.kept (by simp) x hx hunder
      dsimp only at hkept
      constructor
      · intro hmem
        rcases hkept.1 hmem with hrefused | hp
        · exact .inl hrefused
        · rcases hrest x hmem hunder hp with hin | hlater
          · exact .inr (.inl ⟨x, hin, rfl⟩)
          · exact .inr (.inr hlater)
      · rintro (hrefused | ⟨y, hy, hkey⟩ | ⟨t, ht, hlt⟩)
        · exact hkept.2 (.inl hrefused)
        · have hp := (hcontents y hy).2.2
          rw [hkey] at hp
          exact hkept.2 (.inr hp)
        · exact hkept.2 (.inr ((hnext t ht).2 _ hlt))
  | listFails =>
    show EmptyInv b keyPrefix (refused ++ []) _
    rw [List.append_nil]
    exact ⟨hinv.subset, hinv.frame, trivial, fun k _ h => h, fun h => absurd rfl h⟩
  | @delete b' objects errors continuation herrors =>
    obtain ⟨hunder, hle⟩ : EmptyPhase.Listed keyPrefix (.deleting objects continuation) :=
      hinv.listed
    have hgone : ∀ k, k ∈ objects.filter (· ∉ errors) ↔ k ∈ objects ∧ k ∉ errors := by
      intro k
      rw [List.mem_filter, decide_eq_true_eq]
    refine ⟨fun x hx => hinv.subset x (Bucket.mem_deleteAll.1 hx).1, fun x hx hnot => ?_,
      listed_next _, fun k hk hp => ?_, fun _ x hx hpre => ?_⟩
    · refine Bucket.mem_deleteAll.2 ⟨hinv.frame x hx hnot, fun hmem => ?_⟩
      have hyes := hunder _ ((hgone _).1 hmem).1
      rw [hnot] at hyes
      cases hyes
    · obtain ⟨t, ht, hlt⟩ := (pending_next _ _).1 hp
      rcases List.mem_append.1 hk with hk | hk
      · exact hinv.settled k hk (.inr ⟨t, ht, hlt⟩)
      · exact absurd hlt (not_lt_of_ge (hle t ht k (herrors hk)))
    · have hkept := hinv.kept (by simp) x hx hpre
      dsimp only at hkept ⊢
      rw [Bucket.mem_deleteAll, hgone, pending_next, List.mem_append, hkept]
      constructor
      · rintro ⟨hrefused | hobject | hlater, hnot⟩
        · exact .inl (.inl hrefused)
        · exact .inl (.inr (not_not.1 fun herror => hnot ⟨hobject, herror⟩))
        · exact .inr hlater
      · rintro ((hrefused | herror) | ⟨t, ht, hlt⟩)
        · exact ⟨.inl hrefused, fun h => hinv.settled _ hrefused (.inl h.1)⟩
        · exact ⟨.inr (.inl (herrors herror)), fun h => h.2 herror⟩
        · exact ⟨.inr (.inr ⟨t, ht, hlt⟩), fun h => absurd hlt (not_lt_of_ge (hle t ht _ h.1))⟩
  | @deleteFails b' objects gone continuation hgone =>
    obtain ⟨hunder, _⟩ : EmptyPhase.Listed keyPrefix (.deleting objects continuation) :=
      hinv.listed
    show EmptyInv b keyPrefix (refused ++ []) _
    rw [List.append_nil]
    refine ⟨fun x hx => hinv.subset x (Bucket.mem_deleteAll.1 hx).1, fun x hx hnot => ?_, trivial,
      fun k _ h => h, fun h => absurd rfl h⟩
    refine Bucket.mem_deleteAll.2 ⟨hinv.frame x hx hnot, fun hmem => ?_⟩
    have hyes := hunder _ (hgone hmem)
    rw [hnot] at hyes
    cases hyes

/-- The invariant holds in every run. -/
theorem emptyInv_of_run {evs : List EmptyEvent}
    (h : EmptyRun keyPrefix ⟨b, .listing none⟩ evs s) :
    EmptyInv b keyPrefix (evs.flatMap EmptyEvent.errors) s := by
  induction h with
  | refl =>
    refine ⟨fun x hx => hx, fun x hx _ => hx, trivial, fun k hk => (by cases hk), ?_⟩
    intro _ x hx _
    exact ⟨fun _ => .inr fun t ht => (by cases ht), fun _ => hx⟩
  | step _ hlast ih =>
    rw [List.flatMap_append, List.flatMap_singleton]
    exact ih.step hlast

/-! ## The length of a run -/

/-- The most steps that a run still takes. -/
def stepsLeft (keyPrefix : Bytes) (s : EmptyState ω) : Nat :=
  match s.phase with
  | .listing token => 2 * (s.bucket.list (Key.startsWith keyPrefix) token).length + 2
  | .deleting _ (some t) => 2 * (s.bucket.list (Key.startsWith keyPrefix) (some t)).length + 3
  | .deleting _ none => 1
  | .ended _ => 0

theorem EmptyInv.stepsLeft_lt (hinv : EmptyInv b keyPrefix refused s)
    (h : EmptyStep keyPrefix s ev s') : stepsLeft keyPrefix s' < stepsLeft keyPrefix s := by
  cases h with
  | @list b' token limit page hlimit hpage =>
    have hlisted : stepsLeft keyPrefix ⟨b', .listed (page.reply.contents.map Prod.fst)
        page.reply.continuation⟩ ≤ match page.next with
          | some t => 2 * (b'.list (Key.startsWith keyPrefix) (some t)).length + 3
          | none => 1 := by
      rw [Page.continuation_reply]
      unfold EmptyPhase.listed
      split
      · cases page.next with
        | none => exact Nat.zero_le _
        | some t => exact Nat.le_succ _
      · cases page.next with
        | none => exact Nat.le_refl _
        | some t => exact Nat.le_refl _
    refine Nat.lt_of_le_of_lt hlisted ?_
    show _ < 2 * (b'.list (Key.startsWith keyPrefix) token).length + 2
    rcases Bucket.page_cases b' (Key.startsWith keyPrefix) token hlimit with
      ⟨hnone, _⟩ | ⟨k, hsome, _, _, _, hlt⟩
    · rw [← hpage] at hnone
      rw [hnone]
      dsimp only
      omega
    · rw [← hpage] at hsome
      rw [hsome]
      dsimp only
      omega
  | listFails => exact Nat.succ_pos _
  | @delete b' objects errors continuation herrors =>
    obtain ⟨_, hle⟩ : EmptyPhase.Listed keyPrefix (.deleting objects continuation) := hinv.listed
    cases continuation with
    | none => exact Nat.zero_lt_one
    | some t =>
      -- what follows the page is not touched
      have hlist : (b'.deleteAll (objects.filter (· ∉ errors))).list (Key.startsWith keyPrefix)
          (some t) = b'.list (Key.startsWith keyPrefix) (some t) :=
        Bucket.list_deleteAll fun k hk => hle t rfl k (List.mem_filter.1 hk).1
      show 2 * ((b'.deleteAll (objects.filter (· ∉ errors))).list (Key.startsWith keyPrefix)
        (some t)).length + 2 < 2 * (b'.list (Key.startsWith keyPrefix) (some t)).length + 3
      rw [hlist]
      omega
  | @deleteFails b' objects gone continuation hgone =>
    cases continuation with
    | none => exact Nat.zero_lt_one
    | some t => exact Nat.succ_pos _

end

/-- Every run of `empty`, over any pages: it leaves what does not start with the prefix, adds and
changes nothing, and takes at most two steps for each object below the prefix and two more. One
that succeeds has deleted every object whose key starts with the prefix, except those that a reply
had an error for; one that has not ended goes on. -/
theorem empty_run {ω : Type} (b : Bucket Key ω) (keyPrefix : Bytes) (evs : List EmptyEvent)
    (s : EmptyState ω) (h : EmptyRun keyPrefix ⟨b, .listing none⟩ evs s) :
    evs.length ≤ 2 * (b.list (Key.startsWith keyPrefix) none).length + 2 ∧
    (∀ k, k.startsWith keyPrefix = false → s.bucket.get k = b.get k) ∧
    (∀ k o, s.bucket.get k = some o → b.get k = some o) ∧
    (s.phase = .ended true → ∀ k, k.startsWith keyPrefix = true →
      s.bucket.get k = if k ∈ evs.flatMap EmptyEvent.errors then b.get k else none) ∧
    ((∀ ok, s.phase ≠ .ended ok) → ∃ ev s', EmptyStep keyPrefix s ev s') := by
  have hinv := emptyInv_of_run h
  have hsubset : ∀ k o, s.bucket.get k = some o → b.get k = some o := fun k o hget =>
    Bucket.get_eq_some_iff.2 (hinv.subset _ (Bucket.get_eq_some_iff.1 hget))
  refine ⟨?_, fun k hnot => Option.ext fun o => ⟨hsubset k o, fun hget => ?_⟩, hsubset,
    fun hended k hpre => Option.ext fun o => ?_, fun hne => ?_⟩
  · have hsteps : evs.length + stepsLeft keyPrefix s ≤
        stepsLeft keyPrefix (⟨b, .listing none⟩ : EmptyState ω) := by
      clear hinv hsubset
      induction h with
      | refl => simp
      | step hrun hlast ih =>
        have hlt := (emptyInv_of_run hrun).stepsLeft_lt hlast
        rw [List.length_append, List.length_singleton]
        omega
    exact (Nat.le_add_right _ _).trans hsteps
  · exact Bucket.get_eq_some_iff.2 (hinv.frame _ (Bucket.get_eq_some_iff.1 hget) hnot)
  · have hkept := hinv.kept (by rw [hended]; simp)
    rw [hended] at hkept
    constructor
    · intro hget
      have hb := hsubset k o hget
      rcases (hkept _ (Bucket.get_eq_some_iff.1 hb) hpre).1 (Bucket.get_eq_some_iff.1 hget) with
        hrefused | hp
      · rw [if_pos hrefused]
        exact hb
      · exact hp.elim
    · intro hget
      by_cases hrefused : k ∈ evs.flatMap EmptyEvent.errors
      · rw [if_pos hrefused] at hget
        exact Bucket.get_eq_some_iff.2
          ((hkept _ (Bucket.get_eq_some_iff.1 hget) hpre).2 (.inl hrefused))
      · rw [if_neg hrefused] at hget
        cases hget
  · obtain ⟨b', phase⟩ := s
    cases phase with
    | listing token => exact ⟨_, _, .list Nat.one_pos rfl⟩
    | deleting objects continuation => exact ⟨_, _, .delete (List.nil_subset _)⟩
    | ended ok => exact absurd rfl (hne ok)

/-- A bucket with two objects next to the prefix `files`, and one that does not start with it. -/
def neighbours : Bucket Key Unit :=
  ((Bucket.empty.put ⟨utf8 "files2/a"⟩ ()).put ⟨utf8 "files2/b"⟩ ()).put ⟨utf8 "other"⟩ ()

/-- The prefix has no slash after it: emptying `files`, two pages of one object, deletes `files2/a`;
the delete of `files2/b` is refused, and yet the run ends well. -/
theorem empty_run_neighbours :
    ∃ evs s, EmptyRun (utf8 "files") ⟨neighbours, .listing none⟩ evs s ∧ s.phase = .ended true ∧
      evs.length = 4 ∧ s.bucket.get ⟨utf8 "files2/a"⟩ = none ∧
      s.bucket.get ⟨utf8 "files2/b"⟩ = some () ∧ s.bucket.get ⟨utf8 "other"⟩ = some () := by
  have hfirst : EmptyRun (utf8 "files") ⟨neighbours, .listing none⟩ [.list, .delete []]
      ⟨neighbours.deleteAll [⟨utf8 "files2/a"⟩], .listing (some ⟨utf8 "files2/a"⟩)⟩ :=
    .step (.step (.refl _) (.list Nat.one_pos rfl)) (.delete (List.nil_subset _))
  have hrun := (hfirst.step (.list Nat.one_pos rfl)).step
    (@EmptyStep.delete _ _ _ [⟨utf8 "files2/b"⟩] [⟨utf8 "files2/b"⟩] none (List.Subset.refl _))
  obtain ⟨_, hframe, _, hleft, _⟩ := empty_run _ _ _ _ hrun
  exact ⟨_, _, hrun, rfl, rfl, hleft rfl ⟨utf8 "files2/a"⟩ rfl, hleft rfl ⟨utf8 "files2/b"⟩ rfl,
    hframe ⟨utf8 "other"⟩ rfl⟩

end S3Archive.FillBucket
