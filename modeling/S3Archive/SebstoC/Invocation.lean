import S3Archive.Base.Listing
import S3Archive.Base.Base64
import S3Archive.SebstoC.ListingPages
import S3Archive.SebstoC.ZipperCompleteness

/-!
# sebsto C: a whole invocation

`handle_invocation` lists what lies below the prefix, starts the upload and runs the
zipper thread; the store answers a download with the object of its path
(`Served`), and keeps what the upload has accepted once the upload has ended well.
`FinishInv` says which downloads have ended with which code, `BudgetInv` that what
was started fits the budget one by one. `invocation_archive` says when the object
that a successful invocation leaves is an archive of the objects.
-/

namespace S3Archive.SebstoC

/-! ## Paths -/

/-- The path of a GET or a PUT: the key, encoded except for its slashes. -/
def objectPath (key : Bytes) : Bytes :=
  47 :: key.flatMap fun c =>
    if unreserved c || c = 47 then [c]
    else [37, hexUpper (c.toNat / 16), hexUpper (c.toNat % 16)]

/-- The key that the server reads off a path. -/
def keyOfPath (path : Bytes) : Bytes := percentDecode path.tail

theorem keyOfPath_objectPath (key : Bytes) : keyOfPath (objectPath key) = key := by
  unfold keyOfPath objectPath
  rw [List.tail_cons]
  induction key with
  | nil => rfl
  | cons c key ih =>
    rw [List.flatMap_cons]
    split_ifs with hc
    · have hne : c ≠ 37 := by
        rintro rfl
        exact absurd hc (by decide)
      rw [List.singleton_append, percentDecode_cons_of_ne hne, ih]
    · rw [List.cons_append, List.cons_append, List.cons_append, List.nil_append,
        percentDecode_hex, ih]

/-! ## The invocation -/

/-- A listing of what lies below the prefix. No character of its continuation tokens is escaped,
and its keys are shorter than 2¹⁶ bytes, as they are written. -/
structure Lists (e : Escaping) (b : S3Bucket) (filesPrefix : List Char) (l : Pages) : Prop where
  objects : l.objects.map (fun o => (encodeText o.name, o.size.toNat)) =
    (jobObjects b (encodeText filesPrefix)).map fun x => (x.1, x.2.body.length)
  tokens : ∀ t ∈ l.tokens, ∀ c ∈ t, e.Plain c
  short : ∀ o ∈ l.objects, (e.text (o.key filesPrefix)).length < 2 ^ 16

/-- A download that ends without an error has delivered the object of its path. -/
def Served (b : S3Bucket) (objs : List Obj) (evs : List Event) : Prop :=
  ∀ i o, objs[i]? = some o → .finish i 0 ∈ evs →
    ∃ x, b.get ⟨keyOfPath (objectPath o.key)⟩ = some x ∧ bodyOf evs i = x.body

/-- An upload that ends without an error has accepted the end of file. -/
def ZipperArgs.Ends (a : ZipperArgs) (errorCode : Int) : Prop :=
  errorCode = 0 → (∃ w ∈ a.accepted, w.2 = true) ∧ a.uploaded.length < 2 ^ 63

/-- `handle_invocation`: the events of the zipper thread, the code that is returned, and what is
left under the key of the archive. -/
inductive InvocationRun (crc32 : Bytes → UInt32) (e : Escaping) (b : S3Bucket)
    (filesPrefix : List Char) : List Event → Int → Option Bytes → Prop
  | notListed {responses : List (Option Bytes)} {paths : List Bytes} {code : Int}
      {objs : List Obj}
      (hlisted : listObjects (encodeText filesPrefix) responses = (paths, some (code, objs)))
      (hcode : code ≠ 0) : InvocationRun crc32 e b filesPrefix [] (-1) none
  | notStarted {l : Pages} (hl : Lists e b filesPrefix l) :
      InvocationRun crc32 e b filesPrefix [] (-1) none
  | ran {l : Pages} {paths : List Bytes} {objs : List Obj} {accepts : Nat → Bool}
      {evs : List Event} {s : Zipper} {errorCode : Int} (hl : Lists e b filesPrefix l)
      (hlisted : listObjects (encodeText filesPrefix) (l.responses e filesPrefix) =
        (paths, some (0, objs)))
      (hrun : Run (Step accepts crc32 objs) {} evs s) (hdone : s.phase = .cleanup)
      (hserved : Served b objs evs) (hends : s.z.user.Ends errorCode) :
      InvocationRun crc32 e b filesPrefix evs
        (if s.z.user.ok = true ∧ errorCode = 0 then 0 else -1)
        (if errorCode = 0 then some s.z.user.uploaded else none)

/-! ## Downloads that have ended -/

/-- What was fed to the encoder, and what is about to be, has ended without an error. -/
structure FinishInv (evs : List Event) (s : Zipper) : Prop where
  done : ∀ i, (s.dls i).done = true → .finish i (s.dls i).errorCode ∈ evs
  feeding : ∀ i, s.phase = .feeding i → (s.dls i).done = true
  finished : ∀ i, s.finishedOrder i = true → .finish i 0 ∈ evs

section

variable {accepts : Nat → Bool} {crc32 : Bytes → UInt32} {objs : List Obj} {evs : List Event}
  {ev : Event} {s s' : Zipper} {going fed : List Nat}

/-- Another body does not change how the downloads ended. -/
theorem update_body (dls : Nat → Download) (i j : Nat) (body : Bytes) :
    (Function.update dls i { dls i with body } j).done = (dls j).done ∧
      (Function.update dls i { dls i with body } j).errorCode = (dls j).errorCode := by
  by_cases hj : j = i
  · subst hj
    rw [Function.update_self]
    exact ⟨rfl, rfl⟩
  · rw [Function.update_of_ne hj]
    exact ⟨rfl, rfl⟩

/-- The end of file changes the encoder only. -/
theorem signalEnd_frame (s : Zipper) :
    signalEnd accepts s = { s with z := (signalEnd accepts s).z } := by
  unfold signalEnd
  split <;> rfl

/-- Nothing ends, and nothing is fed. -/
theorem FinishInv.move (h : FinishInv evs s) (hdls : s'.dls = s.dls)
    (hfinished : s'.finishedOrder = s.finishedOrder)
    (hfeeding : ∀ i, s'.phase = .feeding i → (s.dls i).done = true) :
    FinishInv (evs ++ [ev]) s' := by
  refine ⟨fun i hi => ?_, fun i hi => ?_, fun i hi => ?_⟩
  · rw [hdls] at hi ⊢
    exact List.mem_append_left _ (h.done i hi)
  · rw [hdls]
    exact hfeeding i hi
  · rw [hfinished] at hi
    exact List.mem_append_left _ (h.finished i hi)

/-- The download that was about to be fed is. -/
theorem FinishInv.feed (h : FinishInv evs s) {i : Nat} (hp : s.phase = .feeding i)
    (hcode : (s.dls i).errorCode = 0) {o : Obj} {z : ZipWriter ZipperArgs} {p : Phase}
    (hphase : ∀ j, p ≠ .feeding j) :
    FinishInv (evs ++ [ev]) { s.fed i o z with phase := p } := by
  refine ⟨fun j hj => ?_, fun j hj => absurd hj (hphase j), fun j hj => ?_⟩
  · unfold Zipper.fed at hj ⊢
    rw [(update_body s.dls i j []).1] at hj
    rw [(update_body s.dls i j []).2]
    exact List.mem_append_left _ (h.done j hj)
  · unfold Zipper.fed at hj
    dsimp only at hj
    rw [Function.update_apply] at hj
    split at hj
    · rename_i hij
      have hmem := h.done i (h.feeding i hp)
      rw [hcode] at hmem
      rw [hij]
      exact List.mem_append_left _ hmem
    · exact List.mem_append_left _ (h.finished j hj)

theorem FinishInv.step (h : FinishInv evs s) (hstep : Step accepts crc32 objs s ev s') :
    FinishInv (evs ++ [ev]) s' := by
  cases hstep with
  | again hp | leave hp | startFails hp | saturated hp | scanMiss hp | scanEnd hp | awaitMiss hp
  | giveUp hp | failed hp | finish hp => exact h.move rfl rfl fun _ hi => (by cases hi)
  | start hp =>
    refine h.move rfl rfl fun i hi => ?_
    rw [Zipper.started] at hi
    rw [hp] at hi
    cases hi
  | scanHit hp _ _ hdone | awaitHit hp _ _ hdone =>
    refine h.move rfl rfl fun i hi => ?_
    cases hi
    exact hdone
  | feed hp hcode => exact h.feed hp hcode fun _ hi => (by cases hi)
  | addFails hp hcode => exact h.feed hp hcode fun _ hi => (by cases hi)
  | abort hp =>
    rw [signalEnd_frame]
    exact h.move rfl rfl fun _ hi => (by cases hi)
  | @recv i data hi hnot =>
    have hsame := fun j => update_body s.dls i j ((s.dls i).body ++ data)
    refine ⟨fun j hj => ?_, fun j hj => ?_, fun j hj => List.mem_append_left _ (h.finished j hj)⟩
    · unfold Zipper.update at hj ⊢
      rw [(hsame j).1] at hj
      rw [(hsame j).2]
      exact List.mem_append_left _ (h.done j hj)
    · unfold Zipper.update
      rw [(hsame j).1]
      exact h.feeding j hj
  | @done i errorCode hi hnot =>
    refine ⟨fun j hj => ?_, fun j hj => ?_, fun j hj => List.mem_append_left _ (h.finished j hj)⟩
    · unfold Zipper.update at hj ⊢
      dsimp only at hj ⊢
      rw [Function.update_apply] at hj ⊢
      split at hj
      · rename_i hij
        rw [if_pos hij, hij]
        exact List.mem_append_right _ List.mem_cons_self
      · rename_i hij
        rw [if_neg hij]
        exact List.mem_append_left _ (h.done j hj)
    · have hj' := h.feeding j hj
      unfold Zipper.update
      dsimp only
      rw [Function.update_apply]
      split
      · rfl
      · exact hj'

theorem FinishInv.run (h : Run (Step accepts crc32 objs) {} evs s) : FinishInv evs s := by
  induction h with
  | refl => exact ⟨nofun, nofun, nofun⟩
  | step _ hlast ih => exact ih.step hlast

/-! ## The budget -/

/-- At most 64 downloads are in flight, and each object that was started fits the budget. -/
structure BudgetInv (objs : List Obj) (s : Zipper) : Prop where
  inflight_le : s.inflight ≤ maxConcurrentDownloads
  size_le : ∀ i < s.nextToStart, sizeOfObj objs i ≤ maxDownloadInflightBytes

/-- The bytes in flight do not wrap around. -/
theorem BudgetInv.bytes_le (h : BudgetInv objs s) (hledger : Ledger objs evs s going fed) :
    s.inflightBytes.toNat ≤ 2 ^ 31 := by
  have hlen : going.length ≤ 64 := by
    have hle := h.inflight_le
    rw [hledger.inflight_eq] at hle
    exact hle
  have hsize : ∀ i ∈ going, (sizeOfObj objs i).toNat ≤ 2 ^ 25 := fun i hi =>
    UInt64.le_iff_toNat_le.1 (h.size_le i (hledger.lt_next (List.mem_append_left _ hi)))
  have hsum : ((going.map (sizeOfObj objs)).sum).toNat ≤ going.length * 2 ^ 25 := by
    clear hlen hledger
    induction going with
    | nil => exact Nat.le_refl 0
    | cons i going ih =>
      obtain ⟨hi, hsize⟩ := List.forall_mem_cons.1 hsize
      have hrest := ih hsize
      rw [List.map_cons, List.sum_cons, UInt64.toNat_add, List.length_cons]
      have hmod := Nat.mod_le ((sizeOfObj objs i).toNat +
        ((going.map (sizeOfObj objs)).sum).toNat) (2 ^ 64)
      omega
  rw [hledger.bytes_eq]
  omega

theorem BudgetInv.step (h : BudgetInv objs s) (hinv : s.Inv objs crc32 evs going fed)
    (hsmall : ∀ o ∈ objs, o.size.toNat < 2 ^ 63) (hstep : Step accepts crc32 objs s ev s') :
    BudgetInv objs s' := by
  have hsame {t : Zipper} (hi : t.inflight = s.inflight) (hn : t.nextToStart = s.nextToStart) :
      BudgetInv objs t := ⟨hi ▸ h.inflight_le, hn ▸ h.size_le⟩
  cases hstep with
  | @start o hp ho hadmits =>
    refine ⟨hadmits.1, fun i hi => ?_⟩
    rcases Nat.lt_succ_iff_lt_or_eq.1 hi with hi | rfl
    · exact h.size_le i hi
    · -- the sum with what is in flight does not wrap around
      have hbytes := h.bytes_le hinv.ledger
      have hlt := hsmall o (List.mem_of_getElem? ho)
      have hle := UInt64.le_iff_toNat_le.1 hadmits.2
      have hsize : sizeOfObj objs s.nextToStart = o.size := by
        rw [sizeOfObj, ho]
        rfl
      rw [UInt64.toNat_add, Nat.mod_eq_of_lt (by omega)] at hle
      rw [hsize, UInt64.le_iff_toNat_le]
      omega
  | feed | addFails =>
    refine ⟨?_, h.size_le⟩
    exact Nat.le_trans (Nat.sub_le _ 1) h.inflight_le
  | abort =>
    rw [signalEnd_frame]
    exact hsame rfl rfl
  | _ => exact hsame rfl rfl

theorem BudgetInv.run (hsmall : ∀ o ∈ objs, o.size.toNat < 2 ^ 63)
    (h : Run (Step accepts crc32 objs) {} evs s) : BudgetInv objs s := by
  induction h with
  | refl => exact ⟨Nat.zero_le _, fun i hi => absurd hi (Nat.not_lt_zero i)⟩
  | step hrun hlast ih =>
    obtain ⟨going, fed, hinv⟩ := Zipper.Inv.run hrun
    exact ih.step hinv hsmall hlast

end

/-! ## Names -/

section

variable {e : Escaping} {filesPrefix : List Char}

theorem encodeText_injective : Function.Injective encodeText := by
  intro t t' h
  unfold encodeText at h
  rw [← utf8_ofList, ← utf8_ofList] at h
  have hlist := congrArg String.toList (utf8_injective h)
  rwa [String.toList_ofList, String.toList_ofList] at hlist

/-- Text is as long as its encoding only when no character is escaped. -/
theorem length_text_eq_iff (t : List Char) :
    (e.text t).length = (encodeText t).length ↔ ∀ c ∈ t, e.Plain c := by
  constructor
  · intro h
    induction t with
    | nil => simp
    | cons c t ih =>
      unfold Escaping.text encodeText at h ih
      rw [List.flatMap_cons, List.flatMap_cons, List.length_append, List.length_append] at h
      have hc := e.length_le_escape c
      have ht : (t.flatMap String.utf8EncodeChar).length ≤ (t.flatMap e.escape).length :=
        e.length_le_text t
      refine List.forall_mem_cons.2 ⟨?_, ih (by omega)⟩
      rcases e.spec c with ⟨hplain, -⟩ | href
      · exact hplain
      · have hlt := href.length_lt
        omega
  · intro h
    rw [(e.text_eq_encodeText_iff t).2 h]

theorem name_recovered {o : ListedObject} (h : ∀ c ∈ o.key filesPrefix, e.Plain c) :
    (recovered e filesPrefix o).name = encodeText o.name := by
  unfold recovered
  dsimp only
  rw [(e.text_eq_encodeText_iff _).2 h, encodeText_key, if_pos (List.prefix_append _ _),
    List.drop_left]

theorem key_recovered {o : ListedObject} (h : ∀ c ∈ o.key filesPrefix, e.Plain c) :
    (recovered e filesPrefix o).key = s3Prefix (encodeText filesPrefix) ++ encodeText o.name := by
  unfold recovered
  dsimp only
  rw [(e.text_eq_encodeText_iff _).2 h, encodeText_key]
  rfl

/-- A name is not shorter than that of the object, and longer if a character of the key is
escaped. -/
theorem length_name_recovered (o : ListedObject) :
    (encodeText o.name).length ≤ (recovered e filesPrefix o).name.length ∧
      ((recovered e filesPrefix o).name.length = (encodeText o.name).length →
        ∀ c ∈ o.key filesPrefix, e.Plain c) := by
  have hlen := e.length_le_text (o.key filesPrefix)
  have hiff := @length_text_eq_iff e (o.key filesPrefix)
  rw [encodeText_key, List.length_append] at hlen hiff
  unfold recovered
  dsimp only
  split_ifs
  · rw [List.length_drop]
    exact ⟨by omega, fun h => hiff.1 (by omega)⟩
  · have hpos : 0 < (encodeText filesPrefix ++ [47]).length := by simp
    exact ⟨by omega, fun h => absurd h (by omega)⟩

theorem length_name_lt {o : ListedObject} (h : (e.text (o.key filesPrefix)).length < 2 ^ 16) :
    (recovered e filesPrefix o).name.length < 2 ^ 16 := by
  unfold recovered
  dsimp only
  split_ifs
  · rw [List.length_drop]
    omega
  · exact h

end

/-! ## The archive -/

/-- The objects of the job as items of an archive. -/
def jobItems (b : S3Bucket) (filesPrefix : Bytes) : List Item :=
  (jobObjects b filesPrefix).map fun x => ⟨x.1, x.2.body⟩

/-- A reader gets the objects below the prefix, once each. -/
def HoldsObjects (b : S3Bucket) (filesPrefix archive : Bytes) : Prop :=
  ∃ items, readItems archive = some items ∧ items.Perm (jobItems b filesPrefix)

section

variable {crc32 : Bytes → UInt32} {e : Escaping} {b : S3Bucket} {filesPrefix : List Char}
  {l : Pages} {accepts : Nat → Bool} {objs : List Obj} {evs : List Event} {s : Zipper}
  {going fed : List Nat}

theorem Lists.length_eq (hl : Lists e b filesPrefix l) :
    l.objects.length = (jobObjects b (encodeText filesPrefix)).length := by
  have h := congrArg List.length hl.objects
  rwa [List.length_map, List.length_map] at h

theorem Lists.names_eq (hl : Lists e b filesPrefix l) :
    (jobItems b (encodeText filesPrefix)).map Item.name =
      l.objects.map fun o => encodeText o.name := by
  have h := congrArg (List.map Prod.fst) hl.objects
  rw [List.map_map, List.map_map] at h
  unfold jobItems
  rw [List.map_map]
  exact h.symm

/-- If the archive of what was fed has the objects, no character of a key is escaped. -/
theorem Lists.plain_of_holds (hl : Lists e b filesPrefix l)
    (hfed : (fed.map (itemOf (l.objects.map (recovered e filesPrefix)) evs)).Perm
      (itemsOf (l.objects.map (recovered e filesPrefix)) evs))
    (hitems : ((fed.map (itemOf (l.objects.map (recovered e filesPrefix)) evs)).map
      keptItem).Perm (jobItems b (encodeText filesPrefix))) :
    ∀ o ∈ l.objects, ∀ c ∈ o.key filesPrefix, e.Plain c := by
  have hnames : (itemsOf (l.objects.map (recovered e filesPrefix)) evs).map Item.name =
      l.objects.map fun o => (recovered e filesPrefix o).name := by
    refine List.ext_getElem (by simp [itemsOf]) fun i hi _ => ?_
    have hlt : i < l.objects.length := by simpa [itemsOf] using hi
    simp [itemsOf, itemOf, nameOf, hlt]
  have hkept : (itemsOf (l.objects.map (recovered e filesPrefix)) evs).map
      (Item.name ∘ keptItem) = l.objects.map fun o => (recovered e filesPrefix o).name := by
    rw [← hnames]
    refine List.map_congr_left fun item hitem => ?_
    have hmem : item.name ∈ l.objects.map fun o => (recovered e filesPrefix o).name :=
      hnames ▸ List.mem_map_of_mem hitem
    obtain ⟨o, ho, hname⟩ := List.mem_map.1 hmem
    have hlt := length_name_lt (hl.short o ho)
    rw [hname] at hlt
    rw [Function.comp_apply, keptItem, Nat.mod_eq_of_lt hlt, List.take_length]
  -- the lengths of the names add up to the same number, and none is shorter than it should be
  have hperm := ((hfed.map keptItem).symm.trans hitems).map Item.name
  rw [List.map_map, hkept, hl.names_eq] at hperm
  have hsum := (hperm.map List.length).sum_eq
  rw [List.map_map, List.map_map] at hsum
  intro o ho
  refine (length_name_recovered o).2 ?_
  by_contra hne
  have hlt := List.sum_lt_sum (l := l.objects) (List.length ∘ fun o => encodeText o.name)
    (List.length ∘ fun o => (recovered e filesPrefix o).name)
    (fun o _ => (@length_name_recovered e filesPrefix o).1)
    ⟨o, ho, Nat.lt_of_le_of_ne (length_name_recovered o).1 (Ne.symm hne)⟩
  omega

/-- Once everything was fed, the items are the objects, if no character of a key is escaped. -/
theorem Lists.items_eq (hl : Lists e b filesPrefix l)
    (hplain : ∀ o ∈ l.objects, ∀ c ∈ o.key filesPrefix, e.Plain c)
    (hserved : Served b (l.objects.map (recovered e filesPrefix)) evs)
    (hall : ∀ i < l.objects.length, .finish i 0 ∈ evs) :
    itemsOf (l.objects.map (recovered e filesPrefix)) evs =
      jobItems b (encodeText filesPrefix) := by
  refine List.ext_getElem (by simp [itemsOf, jobItems, hl.length_eq]) fun i hi hi' => ?_
  have hlt : i < l.objects.length := by simpa [itemsOf] using hi
  have hlt' : i < (jobObjects b (encodeText filesPrefix)).length := by simpa [jobItems] using hi'
  obtain ⟨x, hget, hbody⟩ := hserved i (recovered e filesPrefix l.objects[i])
    (by simp [hlt]) (hall i hlt)
  have hname : encodeText l.objects[i].name =
      (jobObjects b (encodeText filesPrefix))[i].1 := by
    have h := congrArg (fun xs => xs[i]?) hl.objects
    simp only [List.getElem?_map, List.getElem?_eq_getElem hlt, List.getElem?_eq_getElem hlt',
      Option.map_some, Option.some.injEq, Prod.mk.injEq] at h
    exact h.1
  have hplain' := hplain _ (List.getElem_mem hlt)
  have hobject : b.get ⟨s3Prefix (encodeText filesPrefix) ++
      (jobObjects b (encodeText filesPrefix))[i].1⟩ =
        some (jobObjects b (encodeText filesPrefix))[i].2 :=
    (mem_jobObjects.1 (List.getElem_mem hlt')).1
  rw [keyOfPath_objectPath, key_recovered hplain', hname, hobject] at hget
  cases hget
  simp [itemsOf, itemOf, nameOf, jobItems, hlt, hbody, name_recovered hplain', hname]

/-- All objects were fed, in some order. -/
theorem Ledger.fed_perm (h : Ledger objs evs s going fed) (hall : fed.length = objs.length) :
    fed.Perm (List.range objs.length) ∧ s.nextToStart = objs.length := by
  have hnext := h.length_eq
  have hle := h.next_le
  have hnil : going = [] := List.length_eq_zero_iff.1 (by omega)
  have hperm := h.perm
  rw [hnil, List.nil_append, ← hnext, hall, hnil, List.length_nil, Nat.zero_add] at hperm
  refine ⟨hperm, ?_⟩
  rw [← hnext, hall, hnil, List.length_nil, Nat.zero_add]

/-- Each listed object has the name and the size of one of the job. -/
theorem Lists.exists_object (hl : Lists e b filesPrefix l) {o : ListedObject}
    (ho : o ∈ l.objects) : ∃ x ∈ jobObjects b (encodeText filesPrefix),
      x.1 = encodeText o.name ∧ x.2.body.length = o.size.toNat := by
  have hmem : (encodeText o.name, o.size.toNat) ∈
      l.objects.map fun o => (encodeText o.name, o.size.toNat) := List.mem_map_of_mem ho
  rw [hl.objects] at hmem
  obtain ⟨x, hx, heq⟩ := List.mem_map.1 hmem
  exact ⟨x, hx, Prod.mk.inj heq⟩

theorem Lists.exists_listed (hl : Lists e b filesPrefix l) {x : Bytes × S3Object}
    (hx : x ∈ jobObjects b (encodeText filesPrefix)) :
    ∃ o ∈ l.objects, x.1 = encodeText o.name ∧ x.2.body.length = o.size.toNat := by
  have hmem : (x.1, x.2.body.length) ∈
      (jobObjects b (encodeText filesPrefix)).map fun x => (x.1, x.2.body.length) :=
    List.mem_map_of_mem hx
  rw [← hl.objects] at hmem
  obtain ⟨o, ho, heq⟩ := List.mem_map.1 hmem
  obtain ⟨hname, hsize⟩ := Prod.mk.inj heq
  exact ⟨o, ho, hname.symm, hsize.symm⟩

/-- The number of entries can be recorded. -/
def CountFits (b : S3Bucket) (filesPrefix : Bytes) : Prop :=
  (jobObjects b filesPrefix).length ≤ 65535 ∨
    2 ^ 32 - 1 ≤ contentsLen (jobItems b filesPrefix) ∨
    2 ^ 32 - 1 ≤ plainDirectoryLen (jobItems b filesPrefix)

/-- Objects within the budget can be recorded when their number can. -/
theorem encodable_jobItems (hb : Bounded b) {pre : Bytes}
    (hsize : ∀ x ∈ jobObjects b pre, x.2.body.length ≤ 2 ^ 25) :
    Encodable (jobItems b pre) ↔ CountFits b pre := by
  unfold Encodable CountFits
  rw [jobItems, List.length_map]
  refine and_iff_right fun item hitem => ?_
  obtain ⟨x, hx, rfl⟩ := List.mem_map.1 hitem
  have hname := hb.length_jobName hx
  have hbody := hsize x hx
  dsimp only
  omega

section

variable (hl : Lists e b filesPrefix l)
  (hserved : Served b (l.objects.map (recovered e filesPrefix)) evs)
  (hrun : Run (Step accepts crc32 (l.objects.map (recovered e filesPrefix))) {} evs s)
  (hinv : s.Inv (l.objects.map (recovered e filesPrefix)) crc32 evs going fed)

include hl hrun hinv

/-- Everything that was fed fits the budget. -/
theorem Lists.size_le (hall : fed.length = l.objects.length) {x : Bytes × S3Object}
    (hx : x ∈ jobObjects b (encodeText filesPrefix)) : x.2.body.length ≤ 2 ^ 25 := by
  have hsmall : ∀ o ∈ l.objects.map (recovered e filesPrefix), o.size.toNat < 2 ^ 63 := by
    intro o ho
    obtain ⟨o', ho', rfl⟩ := List.mem_map.1 ho
    obtain ⟨y, _, _, hsize⟩ := hl.exists_object ho'
    rw [show (recovered e filesPrefix o').size = o'.size from rfl, ← hsize]
    exact y.2.length_lt
  have hnext := (hinv.ledger.fed_perm (by rw [hall, List.length_map])).2
  obtain ⟨o, ho, _, hsize⟩ := hl.exists_listed hx
  obtain ⟨i, hi, hget⟩ := List.getElem_of_mem ho
  have hle := (BudgetInv.run hsmall hrun).size_le i (by rw [hnext, List.length_map]; exact hi)
  have hobj : sizeOfObj (l.objects.map (recovered e filesPrefix)) i = o.size := by
    simp [sizeOfObj, hi, hget, recovered]
  rw [hobj, UInt64.le_iff_toNat_le] at hle
  rw [hsize]
  exact hle

include hserved

/-- With everything fed and no key escaped, the listed objects are those of the job. -/
theorem Lists.items_eq_of_fed (hall : fed.length = l.objects.length)
    (hplain : ∀ o ∈ l.objects, ∀ c ∈ o.key filesPrefix, e.Plain c) :
    itemsOf (l.objects.map (recovered e filesPrefix)) evs =
      jobItems b (encodeText filesPrefix) := by
  have hperm := (hinv.ledger.fed_perm (by rw [hall, List.length_map])).1
  refine hl.items_eq hplain hserved fun i hi => (FinishInv.run hrun).finished i ?_
  refine (hinv.ledger.finished_iff i).2 (hperm.mem_iff.2 (List.mem_range.2 ?_))
  rwa [List.length_map]

/-- What a successful zipper has sent: when an archive of the objects. -/
theorem Lists.holds_iff (hb : Bounded b) (hdone : s.phase = .cleanup)
    (hok : s.z.user.ok = true) (hlen : s.z.user.uploaded.length < 2 ^ 63) :
    HoldsObjects b (encodeText filesPrefix) s.z.user.uploaded ↔
      (∀ o ∈ l.objects, ∀ c ∈ o.key filesPrefix, e.Plain c) ∧
        (∀ x ∈ jobObjects b (encodeText filesPrefix), x.2.body.length ≤ 2 ^ 25) ∧
        CountFits b (encodeText filesPrefix) := by
  have huploaded : s.z.user.uploaded =
      archive (filesOf (l.objects.map (recovered e filesPrefix)) crc32 evs fed) := by
    have henc : EncoderInv s (DownloadFailed evs)
        (filesOf (l.objects.map (recovered e filesPrefix)) crc32 evs fed) .cleanup :=
      hdone ▸ hinv.encoder
    rcases henc with henc | henc
    · exact henc.2.2
    · rw [hok] at henc
      cases henc.1
  rw [huploaded] at hlen ⊢
  have hlen' := Nat.lt_trans hlen (show 2 ^ 63 < 2 ^ 64 by decide)
  have hcomplete := complete_archive_iff hlen' hinv.ledger
  have hread := readItems_archive crc32
    (fed.map (itemOf (l.objects.map (recovered e filesPrefix)) evs))
    (filesOf_eq _ crc32 _ _ ▸ hlen')
  rw [← filesOf_eq] at hread
  constructor
  · rintro ⟨items, hitems, hperm⟩
    have hsame : items =
        (fed.map (itemOf (l.objects.map (recovered e filesPrefix)) evs)).map keptItem := by
      rw [hitems] at hread
      split at hread
      · exact Option.some.inj hread
      · cases hread
    have hall : fed.length = l.objects.length := by
      have hlength := hperm.length_eq
      simp only [hsame, jobItems, List.length_map] at hlength
      rw [hlength, hl.length_eq]
    have hfed := (hinv.ledger.fed_perm (by rw [hall, List.length_map])).1.map
      (itemOf (l.objects.map (recovered e filesPrefix)) evs)
    have hplain := hl.plain_of_holds hfed (hsame ▸ hperm)
    have hsize := fun x hx => hl.size_le hrun hinv hall (x := x) hx
    have heq := hl.items_eq_of_fed hserved hrun hinv hall hplain
    have hfits := hcomplete.1 ⟨items, hitems, heq ▸ hperm⟩
    rw [heq] at hfits
    exact ⟨hplain, hsize, (encodable_jobItems hb hsize).1 hfits.2⟩
  · rintro ⟨hplain, hsize, hcount⟩
    have hfit : ∀ o ∈ l.objects.map (recovered e filesPrefix),
        o.size ≤ maxDownloadInflightBytes := by
      intro o ho
      obtain ⟨o', ho', rfl⟩ := List.mem_map.1 ho
      obtain ⟨x, hx, _, hlength⟩ := hl.exists_object ho'
      rw [UInt64.le_iff_toNat_le, show (recovered e filesPrefix o').size = o'.size from rfl,
        ← hlength]
      exact hsize x hx
    have hhealthy := healthy_of_unblocked (unblocked_of_sizes hfit hrun)
    rw [hdone] at hhealthy
    have hcompleted := hhealthy hok
    have hall : fed.length = l.objects.length := by
      rw [← hinv.ledger.completed_eq, hcompleted, List.length_map]
    have heq := hl.items_eq_of_fed hserved hrun hinv hall hplain
    have hfits := (encodable_jobItems hb hsize).2 hcount
    rw [← heq] at hfits
    obtain ⟨items, hitems, hperm⟩ := hcomplete.2 ⟨hcompleted, hfits⟩
    exact ⟨items, hitems, heq ▸ hperm⟩

end

end

/-- No character of the key of an object is escaped. -/
def PlainKeys (e : Escaping) (b : S3Bucket) (filesPrefix : List Char) : Prop :=
  ∀ x ∈ jobObjects b (encodeText filesPrefix), ∃ name : List Char, x.1 = encodeText name ∧
    ∀ c ∈ filesPrefix ++ '/' :: name, e.Plain c

theorem Lists.plain_iff {e : Escaping} {b : S3Bucket} {filesPrefix : List Char} {l : Pages}
    (hl : Lists e b filesPrefix l) :
    (∀ o ∈ l.objects, ∀ c ∈ o.key filesPrefix, e.Plain c) ↔ PlainKeys e b filesPrefix := by
  constructor
  · intro h x hx
    obtain ⟨o, ho, hname, _⟩ := hl.exists_listed hx
    exact ⟨o.name, hname, h o ho⟩
  · intro h o ho
    obtain ⟨x, hx, hname, _⟩ := hl.exists_object ho
    obtain ⟨name, hname', hplain⟩ := h x hx
    have heq : o.name = name := encodeText_injective (hname.symm.trans hname')
    rw [ListedObject.key, heq]
    exact hplain

section

variable {crc32 : Bytes → UInt32} {e : Escaping} {b : S3Bucket} {filesPrefix : List Char}
  {evs : List Event} {code : Int} {left : Option Bytes}

/-- What a successful invocation leaves. -/
theorem InvocationRun.success (h : InvocationRun crc32 e b filesPrefix evs code left)
    (hb : Bounded b) (hcode : code = 0) : ∃ archive, left = some archive ∧
      (HoldsObjects b (encodeText filesPrefix) archive ↔
        PlainKeys e b filesPrefix ∧
        (∀ x ∈ jobObjects b (encodeText filesPrefix), x.2.body.length ≤ 2 ^ 25) ∧
        CountFits b (encodeText filesPrefix)) := by
  cases h with
  | notListed | notStarted => cases hcode
  | @ran l _ objs _ _ s errorCode hl hlisted hrun hdone hserved hends =>
    rw [listObjects_pages] at hlisted
    obtain rfl : l.objects.map (recovered e filesPrefix) = objs :=
      (Prod.mk.inj (Option.some.inj (Prod.mk.inj hlisted).2)).2
    obtain ⟨going, fed, hinv⟩ := Zipper.Inv.run hrun
    split at hcode
    · rename_i hok
      refine ⟨_, if_pos hok.2, ?_⟩
      rw [hl.holds_iff hserved hrun hinv hb hdone hok.1 (hends hok.2).2, hl.plain_iff]
    · cases hcode

/-- After a failure, an object is left only if the end of file was accepted all the same: a
download has failed. -/
theorem InvocationRun.failure (h : InvocationRun crc32 e b filesPrefix evs code left)
    (hcode : code ≠ 0) (hleft : left ≠ none) : DownloadFailed evs := by
  cases h with
  | notListed | notStarted => exact absurd rfl hleft
  | @ran l _ objs _ _ s errorCode hl hlisted hrun hdone hserved hends =>
    obtain ⟨going, fed, hinv⟩ := Zipper.Inv.run hrun
    have herror : errorCode = 0 := by
      by_contra h
      exact hleft (if_neg h)
    have henc : EncoderInv s (DownloadFailed evs) (filesOf objs crc32 evs fed) .cleanup :=
      hdone ▸ hinv.encoder
    rcases henc with henc | ⟨_, hopen | hsealed⟩
    · exact absurd (if_pos ⟨henc.1, herror⟩) hcode
    · obtain ⟨w, hw, heof⟩ := (hends herror).1
      rw [hopen w hw] at heof
      cases heof
    · exact hsealed.2

end

theorem length_threeBytes : ([1, 2, 3] : Bytes).length < 2 ^ 63 := by decide

theorem length_twoBytes : ([4, 5] : Bytes).length < 2 ^ 63 := by decide

/-- Objects of three and of two bytes below `p/`, and one elsewhere. -/
def twoBucket : S3Bucket :=
  ((Bucket.empty.put ⟨utf8 "p/a"⟩ ⟨[1, 2, 3], none, length_threeBytes⟩).put ⟨utf8 "p/b"⟩
    ⟨[4, 5], none, length_twoBytes⟩).put ⟨utf8 "q/a"⟩ ⟨[4, 5], none, length_twoBytes⟩

theorem noTokens_valid : ∀ t ∈ ([] : List Token), t.Valid := List.forall_mem_nil _

theorem noTokens_other : ∀ name ∈ searchedTags, Token.tag name ∉ ([] : List Token) :=
  fun _ _ => List.not_mem_nil

def noFragment : Fragment := ⟨[], noTokens_valid, noTokens_other⟩

/-- What the listing says of them. -/
def listedA : ListedObject :=
  ⟨['a'], List.cons_ne_nil _ _, 3, noFragment, noFragment, noFragment⟩

def listedB : ListedObject :=
  ⟨['b'], List.cons_ne_nil _ _, 2, noFragment, noFragment, noFragment⟩

theorem truncated_iff_pageA :
    (∃ c ∈ [Child.isTruncated true, .nextToken ['t'], .contents listedA], c = .isTruncated true) ↔
      (some ['t']).isSome = true := by
  simp

theorem truncated_iff_pageB :
    (∃ c ∈ [Child.isTruncated false, .contents listedB], c = .isTruncated true) ↔
      (none : Option (List Char)).isSome = true := by
  simp

def pageA : Page :=
  ⟨some ['t'], [.isTruncated true, .nextToken ['t'], .contents listedA], truncated_iff_pageA, rfl⟩

def pageB : Page := ⟨none, [.isTruncated false, .contents listedB], truncated_iff_pageB, rfl⟩

theorem truncated_pageA : ∀ p ∈ [pageA], p.next.isSome = true := by
  intro p hp
  obtain rfl := List.mem_singleton.1 hp
  rfl

/-- The listing, with one object on each of its pages. -/
def twoPages : Pages := ⟨[pageA], pageB, truncated_pageA, rfl⟩

/-- A character without a reference is written as it is. -/
theorem plain_xmlEscaping {c : Char} (h : c ∉ ['&', '<', '>', '\x22', '\x27', '\r', '\x00']) :
    xmlEscaping.Plain c := by
  simp only [List.mem_cons, List.not_mem_nil, or_false, not_or] at h
  obtain ⟨hamp, hlt, hgt, hquot, hapos, hcr, hnul⟩ := h
  unfold Escaping.Plain xmlEscaping
  dsimp only
  rw [if_neg hamp, if_neg hlt, if_neg hgt, if_neg hquot, if_neg hapos, if_neg hcr, if_neg hnul]

theorem lists_twoPages : Lists xmlEscaping twoBucket ['p'] twoPages := by
  refine ⟨by decide +kernel, fun t ht c hc => ?_, by decide +kernel⟩
  obtain rfl := List.mem_singleton.1 ht
  obtain rfl := List.mem_singleton.1 hc
  exact plain_xmlEscaping (by decide)

theorem objects_twoPages : twoPages.objects.map (recovered xmlEscaping ['p']) = twoObjects := rfl

theorem plainKeys_twoBucket : PlainKeys xmlEscaping twoBucket ['p'] := by
  refine lists_twoPages.plain_iff.1 fun o ho c hc => plain_xmlEscaping ?_
  have hkey : c ∈ ['p', '/', 'a', 'b'] := by
    have ho : o ∈ [listedA, listedB] := ho
    simp only [List.mem_cons, List.not_mem_nil, or_false] at ho
    rcases ho with rfl | rfl
    · exact (show ['p', '/', 'a'] ⊆ ['p', '/', 'a', 'b'] by decide) hc
    · exact (show ['p', '/', 'b'] ⊆ ['p', '/', 'a', 'b'] by decide) hc
  simp only [List.mem_cons, List.not_mem_nil, or_false] at hkey
  rcases hkey with rfl | rfl | rfl | rfl
  all_goals decide

theorem bounded_twoBucket : Bounded twoBucket := by
  have hkeys : ∀ x ∈ twoBucket.objects, x.1.bytes.length ≤ 1024 := by decide +kernel
  exact ⟨hkeys, by decide, by decide⟩

end S3Archive.SebstoC
