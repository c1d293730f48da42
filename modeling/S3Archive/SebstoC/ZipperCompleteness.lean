import S3Archive.SebstoC.ZipperInvariant

/-!
# sebsto C: when the zipper's success means a complete archive

The zipper leaves its loop early when nothing is in flight and the next object
does not fit the byte budget (`Blocked`): it then finishes the archive without the
objects that are left. `zipper_complete_iff` says that this, and what the encoder
cannot record, are the only ways in which a success is not a complete archive.
-/

namespace S3Archive.SebstoC

variable {accepts : Nat → Bool} {objs : List Obj} {crc32 : Bytes → UInt32} {evs : List Event}
  {ev : Event} {s s' : Zipper} {going fed : List Nat}

/-- Nothing is in flight, and the next object does not fit the budget alone. -/
def Blocked (objs : List Obj) (s : Zipper) : Prop :=
  s.phase = .admitting ∧ s.inflight = 0 ∧
    ∃ o, objs[s.nextToStart]? = some o ∧ maxDownloadInflightBytes < o.size

/-- A step from a state that is not blocked. -/
def Unblocked (accepts : Nat → Bool) (crc32 : Bytes → UInt32) (objs : List Obj) (s : Zipper)
    (ev : Event) (s' : Zipper) : Prop := Step accepts crc32 objs s ev s' ∧ ¬ Blocked objs s

/-! ## Nothing in flight -/

theorem Ledger.going_eq_nil (h : Ledger objs evs s going fed) : going = [] ↔ s.inflight = 0 := by
  rw [h.inflight_eq, List.length_eq_zero_iff]

theorem Ledger.not_mrs (h : Ledger objs evs s going fed) (h₀ : s.inflight = 0) (i : Nat) :
    s.mrs i ≠ true := by
  intro hi
  have hmem := (h.mrs_iff i).1 hi
  rw [h.going_eq_nil.2 h₀] at hmem
  cases hmem

/-- Everything that was started was fed, so nothing counts against the budget. -/
theorem Ledger.drained (h : Ledger objs evs s going fed) (h₀ : s.inflight = 0) :
    s.inflightBytes = 0 ∧ s.completed = s.nextToStart := by
  have hnil := h.going_eq_nil.2 h₀
  have hlen := h.length_eq
  rw [h.bytes_eq, h.completed_eq]
  rw [hnil, List.length_nil, Nat.zero_add] at hlen
  rw [hnil]
  exact ⟨rfl, hlen⟩

/-- With nothing in flight, an object is admitted exactly when it fits the budget alone. -/
theorem Ledger.admits_iff (h : Ledger objs evs s going fed) (h₀ : s.inflight = 0) (o : Obj) :
    s.Admits o ↔ ¬ maxDownloadInflightBytes < o.size := by
  rw [Zipper.Admits, h₀, (h.drained h₀).1, UInt64.zero_add, UInt64.not_lt]
  exact and_iff_right (by decide)

/-! ## Runs that were never blocked -/

/-- The thread waits only when something is in flight, and finishes when everything was fed. -/
def Healthy (objs : List Obj) (s : Zipper) : Phase → Prop
  | .scanning _ => s.inflight ≠ 0
  | .awaiting _ => s.inflight ≠ 0
  | .finishing => s.completed = objs.length
  | .cleanup => s.z.user.ok = true → s.completed = objs.length
  | _ => True

/-- Objects are left, nothing is in flight, and the thread is on its way to the end. -/
def Doomed (objs : List Obj) (s : Zipper) : Phase → Prop
  | .scanning _ | .awaiting _ | .finishing | .cleanup =>
    s.inflight = 0 ∧ s.completed < objs.length
  | _ => False

theorem Healthy.update {p : Phase} (h : Healthy objs s p) (i : Nat) (d : Download) :
    Healthy objs (s.update i d) p := by
  cases p <;> exact h

section

variable (h : s.Inv objs crc32 evs going fed) (hstep : Step accepts crc32 objs s ev s')

include h hstep

theorem Healthy.step (hs : Healthy objs s s.phase) (hb : ¬ Blocked objs s) :
    Healthy objs s' s'.phase := by
  have hat {p : Phase} (hp : s.phase = p) : Healthy objs s p := hp ▸ hs
  cases hstep with
  | again | startFails | scanHit | awaitHit | failed | feed | addFails => trivial
  | start hp =>
    rw [Zipper.started, hp]
    trivial
  | leave hp hlt =>
    have hle := h.ledger.next_le
    have hlen := h.ledger.length_eq
    rw [← h.ledger.completed_eq] at hlen
    change s.completed = objs.length
    omega
  | saturated hp hno =>
    -- otherwise the next object is there and does not fit alone
    intro h₀
    have hlt : PhaseInv objs s .admitting := hp ▸ h.phase
    change s.completed < objs.length at hlt
    rw [(h.ledger.drained h₀).2] at hlt
    have hnext : objs[s.nextToStart]? = some objs[s.nextToStart] := List.getElem?_eq_getElem hlt
    have hbig := mt (h.ledger.admits_iff h₀ _).2 (hno _ hnext)
    exact hb ⟨hp, h₀, _, hnext, not_not.1 hbig⟩
  | scanMiss hp => exact hat hp
  | scanEnd hp => exact hat hp
  | awaitMiss hp => exact hat hp
  | giveUp hp hi =>
    -- something is in flight, and its index is below the number of objects
    exfalso
    have hgoing : PhaseInv objs s (.awaiting _) := hp ▸ h.phase
    have hne : going ≠ [] := mt h.ledger.going_eq_nil.1 (hat hp)
    obtain ⟨j, hj⟩ := List.exists_mem_of_ne_nil going hne
    have hlt := h.ledger.lt_next (List.mem_append_left fed hj)
    have hle := h.ledger.next_le
    exact hgoing j (by omega) (h.ledger.going_iff.2 hj)
  | finish hp => exact fun _ => hat hp
  | abort hp =>
    intro hok
    have hno : EncoderInv s (DownloadFailed evs) (filesOf objs crc32 evs fed) .ending :=
      hp ▸ h.encoder
    have hsame : (signalEnd accepts s).z.user.ok = s.z.user.ok := by
      unfold signalEnd
      split
      · rfl
      · exact ok_uploadWriteSync_eof _ _
    rw [hsame, hno.1] at hok
    cases hok
  | recv => exact Healthy.update hs _ _
  | done => exact Healthy.update hs _ _

theorem Doomed.step (hs : Doomed objs s s.phase) : Doomed objs s' s'.phase := by
  have hat {p : Phase} (hp : s.phase = p) : Doomed objs s p := hp ▸ hs
  have h₀ : s.inflight = 0 := by
    cases hp : s.phase with
    | scanning | awaiting | finishing | cleanup => exact (hat hp).1
    | _ => exact (hat hp).elim
  cases hstep with
  | again hp | leave hp | start hp | startFails hp | saturated hp | failed hp | feed hp
  | addFails hp | abort hp => exact (hat hp).elim
  | scanHit hp _ hg | awaitHit hp _ hg => exact absurd hg.1 (h.ledger.not_mrs h₀ _)
  | scanMiss hp => exact hat hp
  | scanEnd hp => exact hat hp
  | awaitMiss hp => exact hat hp
  | giveUp hp => exact hat hp
  | finish hp => exact hat hp
  | recv hi | done hi => exact absurd hi (h.ledger.not_mrs h₀ _)

theorem Doomed.of_blocked (hb : Blocked objs s) : Doomed objs s' s'.phase := by
  obtain ⟨hp, h₀, o, ho, hbig⟩ := hb
  have hno (o' : Obj) (ho' : objs[s.nextToStart]? = some o') (hadm : s.Admits o') : False := by
    rw [ho] at ho'
    cases ho'
    exact (h.ledger.admits_iff h₀ o).1 hadm hbig
  have hlt : PhaseInv objs s .admitting := hp ▸ h.phase
  cases hstep with
  | start _ ho' hadm | startFails _ ho' hadm => exact (hno _ ho' hadm).elim
  | saturated => exact ⟨h₀, hlt⟩
  | recv hi | done hi => exact absurd hi (h.ledger.not_mrs h₀ _)
  | again hq | leave hq | scanHit hq | scanMiss hq | scanEnd hq | awaitHit hq | awaitMiss hq
  | giveUp hq | failed hq | feed hq | addFails hq | finish hq | abort hq =>
    rw [hp] at hq
    cases hq

end

theorem Run.of_unblocked (h : Run (Unblocked accepts crc32 objs) {} evs s) :
    Run (Step accepts crc32 objs) {} evs s := by
  induction h with
  | refl => exact .refl _
  | step _ hlast ih => exact ih.step hlast.1

/-- A run that was never blocked ends only when everything was fed. -/
theorem healthy_of_unblocked (h : Run (Unblocked accepts crc32 objs) {} evs s) :
    Healthy objs s s.phase := by
  induction h with
  | refl => trivial
  | step hrun hlast ih =>
    obtain ⟨going, fed, hinv⟩ := Zipper.Inv.run (Run.of_unblocked hrun)
    exact Healthy.step hinv hlast.1 ih hlast.2

/-- A run was never blocked, or it has left objects behind. -/
theorem unblocked_or_doomed (h : Run (Step accepts crc32 objs) {} evs s) :
    Run (Unblocked accepts crc32 objs) {} evs s ∨ Doomed objs s s.phase := by
  induction h with
  | refl => exact .inl (.refl _)
  | @step t u evs ev hrun hlast ih =>
    obtain ⟨going, fed, hinv⟩ := Zipper.Inv.run hrun
    rcases ih with hun | hdoomed
    · by_cases hb : Blocked objs t
      · exact .inr (Doomed.of_blocked hinv hlast hb)
      · exact .inl (hun.step ⟨hlast, hb⟩)
    · exact .inr (Doomed.step hinv hlast hdoomed)

/-! ## The archive -/

/-- The listed objects with their whole bodies. -/
def itemsOf (objs : List Obj) (evs : List Event) : List Item :=
  (List.range objs.length).map (itemOf objs evs)

/-- A reader of `bs` gets exactly one entry for each listed object, with its whole body. -/
def Complete (objs : List Obj) (evs : List Event) (bs : Bytes) : Prop :=
  ∃ items, readItems bs = some items ∧ items.Perm (itemsOf objs evs)

/-- The names and sizes fit the fields of the archive, and so does the number of entries unless
a ZIP64 end record is written. -/
def Encodable (items : List Item) : Prop :=
  (∀ item ∈ items, item.name.length < 2 ^ 16 ∧ item.data.length < 2 ^ 32) ∧
    (items.length ≤ 65535 ∨ 2 ^ 32 - 1 ≤ contentsLen items ∨
      2 ^ 32 - 1 ≤ plainDirectoryLen items)

theorem filesOf_eq (objs : List Obj) (crc32 : Bytes → UInt32) (evs : List Event)
    (fed : List Nat) :
    filesOf objs crc32 evs fed = (fed.map (itemOf objs evs)).map (stored crc32) := by
  rw [filesOf, List.map_map]
  rfl

theorem countKept_perm_iff {items all : List Item} (hperm : items.Perm all)
    (hfits : ∀ item ∈ all, item.name.length < 2 ^ 16 ∧ item.data.length < 2 ^ 32)
    (hlen : (archive (items.map (stored crc32))).length < 2 ^ 64) :
    CountKept (items.map (stored crc32)) ↔
      all.length ≤ 65535 ∨ 2 ^ 32 - 1 ≤ contentsLen all ∨ 2 ^ 32 - 1 ≤ plainDirectoryLen all := by
  have hname : ∀ item ∈ items, item.name.length ≤ 65535 :=
    fun item hitem => Nat.le_of_lt_succ (hfits item (hperm.mem_iff.1 hitem)).1
  have hcontents : contentsLen items = contentsLen all := (hperm.map _).sum_eq
  have hdirectory : plainDirectoryLen items = plainDirectoryLen all := (hperm.map _).sum_eq
  rw [← emitted_eq] at hlen
  rw [countKept_iff crc32 hname hlen, hperm.length_eq, hcontents]
  by_cases hbig : 2 ^ 32 - 1 ≤ contentsLen all
  · exact ⟨fun _ => .inr (.inl hbig), fun _ => .inr (.inl hbig)⟩
  · have hdir : directoryLen items = plainDirectoryLen items := directoryLen_eq (by omega)
    rw [hdir, hdirectory]

/-- The archive of the fed objects is complete when all were fed and they can be recorded. -/
theorem complete_archive_iff (hlen : (archive (filesOf objs crc32 evs fed)).length < 2 ^ 64)
    (h : Ledger objs evs s going fed) :
    Complete objs evs (archive (filesOf objs crc32 evs fed)) ↔
      s.completed = objs.length ∧ Encodable (itemsOf objs evs) := by
  have hnext := h.length_eq
  have hle := h.next_le
  rw [filesOf_eq] at hlen ⊢
  rw [Complete, readItems_archive crc32 _ hlen, h.completed_eq]
  by_cases hall : fed.length = objs.length
  · have hnil : going = [] := List.length_eq_zero_iff.1 (by omega)
    have hperm : (fed.map (itemOf objs evs)).Perm (itemsOf objs evs) := by
      have hfed := h.perm
      rw [hnil, List.nil_append, ← hnext, hall, hnil, List.length_nil, Nat.zero_add] at hfed
      exact hfed.map _
    have hkept : ((fed.map (itemOf objs evs)).map keptItem).Perm (itemsOf objs evs) ↔
        ∀ item ∈ itemsOf objs evs, item.name.length < 2 ^ 16 ∧ item.data.length < 2 ^ 32 := by
      rw [← perm_keptItem_iff]
      exact ⟨(hperm.map keptItem).symm.trans, (hperm.map keptItem).trans⟩
    rw [and_iff_right hall, Encodable]
    constructor
    · rintro ⟨items, hread, hitems⟩
      split at hread
      case isTrue hcount =>
        cases hread
        have hfits := hkept.1 hitems
        exact ⟨hfits, (countKept_perm_iff hperm hfits hlen).1 hcount⟩
      case isFalse => cases hread
    · rintro ⟨hfits, hcount⟩
      rw [if_pos ((countKept_perm_iff hperm hfits hlen).2 hcount)]
      exact ⟨_, rfl, hkept.2 hfits⟩
  · refine iff_of_false ?_ fun hc => hall hc.1
    rintro ⟨items, hread, hitems⟩
    split at hread
    · cases hread
      have := hitems.length_eq
      simp only [itemsOf, List.length_map, List.length_range] at this
      exact hall this
    · cases hread

/-- A success is a complete archive exactly when the run was never blocked and the objects can be
recorded. -/
theorem zipper_complete_iff (hrun : Run (Step accepts crc32 objs) {} evs s)
    (hdone : s.phase = .cleanup) (hok : s.z.user.ok = true)
    (hlen : s.z.user.uploaded.length < 2 ^ 64) :
    Complete objs evs s.z.user.uploaded ↔
      Run (Unblocked accepts crc32 objs) {} evs s ∧ Encodable (itemsOf objs evs) := by
  obtain ⟨going, fed, hinv⟩ := Zipper.Inv.run hrun
  have henc : EncoderInv s (DownloadFailed evs) (filesOf objs crc32 evs fed) .cleanup :=
    hdone ▸ hinv.encoder
  have huploaded : s.z.user.uploaded = archive (filesOf objs crc32 evs fed) := by
    rcases henc with henc | henc
    · exact henc.2.2
    · rw [hok] at henc
      cases henc.1
  rw [huploaded] at hlen ⊢
  rw [complete_archive_iff hlen hinv.ledger]
  refine and_congr_left fun _ => ?_
  constructor
  · intro hall
    refine (unblocked_or_doomed hrun).resolve_right fun hdoomed => ?_
    rw [hdone] at hdoomed
    exact absurd hall (Nat.ne_of_lt hdoomed.2)
  · intro hun
    have hhealthy := healthy_of_unblocked hun
    rw [hdone] at hhealthy
    exact hhealthy hok

/-- Two objects in flight together, of which `b` is added first. -/
theorem zipper_complete_iff_two : ∃ evs s, bodyOf evs 0 = [1, 2, 3] ∧ bodyOf evs 1 = [4, 5] ∧
    (Complete twoObjects evs s.z.user.uploaded ↔
      Run (Unblocked (fun _ => true) crcOfTwo twoObjects) {} evs s ∧
        Encodable (itemsOf twoObjects evs)) := by
  obtain ⟨evs, s, hrun, hdone, hok, ha, hb, -, hlen⟩ := twoObjects_run
  have hlt := Nat.lt_trans hlen (show 2 ^ 63 < 2 ^ 64 by decide)
  exact ⟨evs, s, ha, hb, zipper_complete_iff hrun hdone hok hlt⟩

/-- An object `a` of one byte more than the budget. -/
def oversized : List Obj := [⟨[0x61], [0x61], 33554433⟩]

/-- The object is never downloaded, and the archive is finished without it. -/
theorem zipper_not_complete : ∃ evs s, Run (Step (fun _ => true) (fun _ => 0) oversized) {} evs s ∧
    s.phase = .cleanup ∧ s.z.user.ok = true ∧ ¬ Complete oversized evs s.z.user.uploaded := by
  have hbig (s : Zipper) (h : s.inflightBytes = 0) (h' : s.nextToStart = 0) (o : Obj)
      (ho : oversized[s.nextToStart]? = some o) : ¬ s.Admits o := by
    rw [h'] at ho
    cases ho
    rw [Zipper.Admits, h, not_and_or]
    exact .inr (by decide)
  have h₁ := (@Run.refl _ _ (Step (fun _ => true) (fun _ => 0) oversized) {}).step
    (.again rfl (by decide))
  have h₂ := h₁.step (.saturated rfl (hbig _ rfl rfl))
  have h₃ := h₂.step (.scanMiss rfl (by decide) (by decide))
  have h₄ := h₃.step (.scanEnd rfl (by decide))
  have h₅ := h₄.step (.awaitMiss rfl (by decide) (by decide))
  have h₆ := h₅.step (.giveUp rfl (by decide))
  have h₇ := h₆.step (@Step.finish _ _ _ _ 0 _ rfl (eq_of_code (by decide +kernel)))
  refine ⟨_, _, h₇, rfl, rfl, ?_⟩
  rintro ⟨items, hread, hperm⟩
  -- the archive has an end record and nothing else
  have hempty : items = [] := Option.some.inj (hread.symm.trans (by decide +kernel))
  rw [hempty] at hperm
  cases hperm.length_eq

/-! ## Sizes within the budget -/

/-- Objects that fit the budget one by one never block the zipper. -/
theorem unblocked_of_sizes (hsize : ∀ o ∈ objs, o.size ≤ maxDownloadInflightBytes)
    (h : Run (Step accepts crc32 objs) {} evs s) :
    Run (Unblocked accepts crc32 objs) {} evs s := by
  induction h with
  | refl => exact .refl _
  | step _ hlast ih =>
    refine ih.step ⟨hlast, ?_⟩
    rintro ⟨-, -, o, ho, hbig⟩
    exact UInt64.not_lt.2 (hsize o (List.mem_of_getElem? ho)) hbig

end S3Archive.SebstoC
