import S3Archive.FigmentEngine.SingleArchive

/-!
# figment-engine: the parts of a single upload are legal

`SingleLegal` collects what the store and the trailing-header layout ask of the
planned parts. `planSingleMpu_legal`: every plan has them, and every part but the
last that is made from it reaches the part floor.
-/

namespace S3Archive.FigmentEngine

/-- A body prefix of `k` bytes, if there is one. -/
def prefixSegments (id : FileId) (k : Nat) : List Segment :=
  if k > 0 then [.streamedBigPrefix id k] else []

/-- `before` ends with a Stream part that ends with the file's header and its first `k` bytes. -/
def EndsWithHeader (id : FileId) (k : Nat) (before : List PartSpec) : Prop :=
  ∃ before' n segments, before =
    before' ++ [.stream n (segments ++ ([.copiedFileHeader id] ++ prefixSegments id k))]

structure SingleLegal (files : List SourceFile) (plan : SinglePlan) : Prop where
  numbered : NumberedFrom PartSpec.partNumber 1 plan.parts
  copy_after_header : ∀ before n id k after,
    plan.parts = before ++ .copy n id k :: after → EndsWithHeader id k before
  remainder : ∀ n id k, .copy n id k ∈ plan.parts →
    ∃ f ∈ files, f.id = id ∧ k + partFloor ≤ f.size
  last_stream : ∃ before n segments, plan.parts = before ++ [.stream n segments]
  folded : ∀ f ∈ files, partFloor ≤ f.size →
    (∃ n segments, .stream n segments ∈ plan.parts ∧ .streamedFile f.id ∈ segments) →
    ∀ n k, .copy n f.id k ∉ plan.parts
  copyable : ∀ id, id ∈ plan.copyable ↔ ∃ n k, .copy n id k ∈ plan.parts

/-! ## Copies -/

theorem Round.parts_none {r : Round} (h : r.copyFrom = none) (n : Nat) :
    r.parts n = [.stream n r.segments] := by
  unfold Round.parts
  rw [h]

theorem Round.parts_some {r : Round} {k : Nat} (h : r.copyFrom = some k) (n : Nat) :
    r.parts n = [.stream n (r.smalls.map (fun s => .streamedFile s.id) ++
      ([.copiedFileHeader r.big.id] ++ prefixSegments r.big.id k)),
      .copy (n + 1) r.big.id k] := by
  unfold Round.parts Round.segments Round.tail
  rw [h]
  rfl

theorem copy_mem_parts {r : Round} {n m k : Nat} {id : FileId} :
    .copy m id k ∈ r.parts n ↔ r.copyFrom = some k ∧ r.big.id = id ∧ m = n + 1 := by
  unfold Round.parts
  cases r.copyFrom with
  | none => simp
  | some k' =>
    simp only [List.mem_cons, reduceCtorEq, PartSpec.copy.injEq, List.not_mem_nil, or_false,
      false_or, Option.some.injEq]
    constructor
    · rintro ⟨rfl, rfl, rfl⟩
      exact ⟨rfl, rfl, rfl⟩
    · rintro ⟨rfl, rfl, rfl⟩
      exact ⟨rfl, rfl, rfl⟩

theorem round_of_copy_mem {n m k : Nat} {id : FileId} {rounds : List Round}
    (h : .copy m id k ∈ roundParts n rounds) :
    ∃ r ∈ rounds, r.copyFrom = some k ∧ r.big.id = id := by
  obtain ⟨q, hq, hmem⟩ := List.mem_flatMap.1 h
  obtain ⟨hcopy, hid, _⟩ := copy_mem_parts.1 hmem
  exact ⟨q.2, snd_mem_of_mem_offsetsFrom _ hq, hcopy, hid⟩

theorem copy_mem_of_round {n : Nat} {rounds : List Round} {r : Round} {k : Nat} (hr : r ∈ rounds)
    (hcopy : r.copyFrom = some k) : ∃ m, .copy m r.big.id k ∈ roundParts n rounds := by
  rw [← map_snd_offsetsFrom Round.width n rounds] at hr
  obtain ⟨q, hq, rfl⟩ := List.mem_map.1 hr
  exact ⟨q.1 + 1, List.mem_flatMap.2 ⟨q, hq, copy_mem_parts.2 ⟨hcopy, rfl, rfl⟩⟩⟩

theorem EndsWithHeader.cons {id : FileId} {k : Nat} {before : List PartSpec}
    (h : EndsWithHeader id k before) (p : PartSpec) : EndsWithHeader id k (p :: before) := by
  obtain ⟨before', n, segments, rfl⟩ := h
  exact ⟨p :: before', n, segments, rfl⟩

/-- Each copy comes right after the part with its header. -/
theorem copy_after_header {rounds : List Round} {last : PartSpec} (hlast : last.isCopy = false)
    {n m k : Nat} {id : FileId} {before after : List PartSpec}
    (h : roundParts n rounds ++ [last] = before ++ .copy m id k :: after) :
    EndsWithHeader id k before := by
  induction rounds generalizing n before with
  | nil =>
    have hmem : .copy m id k ∈ roundParts n [] ++ [last] := by
      rw [h]
      exact List.mem_append_right _ List.mem_cons_self
    rw [show roundParts n [] ++ [last] = [last] from rfl, List.mem_singleton] at hmem
    rw [← hmem] at hlast
    cases hlast
  | cons r rounds ih =>
    rw [roundParts_cons, List.append_assoc] at h
    cases hcopy : r.copyFrom with
    | none =>
      rw [Round.parts_none hcopy, List.singleton_append] at h
      cases before with
      | nil => cases (List.cons.inj h).1
      | cons p before => exact (ih (List.cons.inj h).2).cons p
    | some k' =>
      rw [Round.parts_some hcopy, List.cons_append, List.singleton_append] at h
      cases before with
      | nil => cases (List.cons.inj h).1
      | cons p before =>
        obtain ⟨rfl, htail⟩ := List.cons.inj h
        change .copy (n + 1) r.big.id k' :: (roundParts (n + r.width) rounds ++ [last]) =
          before ++ .copy m id k :: after at htail
        cases before with
        | nil =>
          -- the round's own copy
          cases (List.cons.inj htail).1
          exact ⟨[], n, r.smalls.map (fun s => .streamedFile s.id), rfl⟩
        | cons p' before => exact ((ih (List.cons.inj htail).2).cons p').cons _

/-! ## Streamed files -/

theorem streamedFile_mem_segments {r : Round} {id : FileId} :
    .streamedFile id ∈ r.segments ↔
      (∃ s ∈ r.smalls, s.id = id) ∨ r.copyFrom = none ∧ r.big.id = id := by
  unfold Round.segments Round.tail
  cases r.copyFrom with
  | none => simp [eq_comm]
  | some k => by_cases hk : k > 0 <;> simp [hk]

section

variable {files : List SourceFile} {plan : SinglePlan} (p : PlanRounds files plan)

theorem PlanRounds.big_mem {r : Round} (hr : r ∈ p.rounds) : r.big ∈ files :=
  p.perm.subset (List.mem_append_left _ (List.mem_flatMap.2
    ⟨r, hr, List.mem_append_right _ List.mem_cons_self⟩))

theorem PlanRounds.small_mem {f : SourceFile}
    (hf : f ∈ p.rounds.flatMap Round.smalls ++ p.left) : f ∈ files := by
  have hperm := (perm_roundFiles p.rounds p.left).symm.trans p.perm
  exact hperm.subset (List.mem_append_right _ hf)

theorem RoundsGood.exists_later {rounds : List Round} {left : List SourceFile}
    (h : RoundsGood rounds left) {r : Round} (hr : r ∈ rounds) : ∃ later, r.Good later := by
  induction rounds with
  | nil => cases hr
  | cons r' rounds ih =>
    rcases List.mem_cons.1 hr with rfl | hr
    · exact ⟨_, h.1⟩
    · exact ih h.2 hr

theorem PlanRounds.copy_mem {n k : Nat} {id : FileId} (h : .copy n id k ∈ plan.parts) :
    ∃ r ∈ p.rounds, r.copyFrom = some k ∧ r.big.id = id := by
  rw [p.parts_eq, List.mem_append] at h
  rcases h with h | h
  · exact round_of_copy_mem h
  · cases List.mem_singleton.1 h

variable (hids : (files.map SourceFile.id).Nodup)

include hids

/-- Two rounds with the same big are the same. -/
theorem PlanRounds.round_inj {r r' : Round} (hr : r ∈ p.rounds) (hr' : r' ∈ p.rounds)
    (h : r.big.id = r'.big.id) : r = r' := by
  have hperm := ((perm_roundFiles p.rounds p.left).symm.trans p.perm).map SourceFile.id
  have hnodup := hperm.nodup_iff.2 hids
  rw [List.map_append, List.map_map] at hnodup
  exact List.inj_on_of_nodup_map hnodup.of_append_left hr hr' h

/-- A big that is in a Stream part with its body is folded there. -/
theorem PlanRounds.folded {f : SourceFile} (hf : f ∈ files) (hbig : partFloor ≤ f.size)
    {n : Nat} {segments : List Segment} (hpart : .stream n segments ∈ plan.parts)
    (hseg : .streamedFile f.id ∈ segments) :
    ∃ r ∈ p.rounds, r.copyFrom = none ∧ r.big.id = f.id := by
  have hsmall (s : SourceFile) (hs : s ∈ p.rounds.flatMap Round.smalls ++ p.left) :
      s.id ≠ f.id := by
    intro heq
    have hsf := List.inj_on_of_nodup_map hids (p.small_mem hs) hf heq
    have hlt := p.smalls_lt s hs
    rw [hsf] at hlt
    omega
  rw [p.parts_eq, List.mem_append] at hpart
  rcases hpart with hpart | hpart
  · obtain ⟨r, hr, rfl⟩ := segments_of_mem_roundParts hpart
    rcases streamedFile_mem_segments.1 hseg with ⟨s, hs, hid⟩ | hfolded
    · have hmem : s ∈ p.rounds.flatMap Round.smalls ++ p.left :=
        List.mem_append_left _ (List.mem_flatMap.2 ⟨r, hr, hs⟩)
      exact absurd hid (hsmall s hmem)
    · exact ⟨r, hr, hfolded⟩
  · cases List.mem_singleton.1 hpart
    obtain ⟨s, hs, hid⟩ : ∃ s ∈ p.left, s.id = f.id := by
      simpa [finalSegments] using hseg
    exact absurd hid (hsmall s (List.mem_append_right _ hs))

include p in
theorem PlanRounds.legal : SingleLegal files plan := by
  refine ⟨p.numbered, ?_, ?_, ⟨_, _, _, p.parts_eq⟩, ?_, fun id => ?_⟩
  · intro before n id k after h
    rw [p.parts_eq] at h
    exact copy_after_header rfl h
  · intro n id k h
    obtain ⟨r, hr, hcopy, hid⟩ := p.copy_mem h
    obtain ⟨later, hgood⟩ := p.good.exists_later hr
    refine ⟨r.big, p.big_mem hr, hid, ?_⟩
    have hle := (hgood.copied k hcopy).2
    have hsize := hgood.big_size
    unfold Round.maxSteal at hle
    omega
  · rintro f hf hbig ⟨n, segments, hpart, hseg⟩ m k hcopy
    obtain ⟨r, hr, hnone, hid⟩ := p.folded hids hf hbig hpart hseg
    obtain ⟨r', hr', hsome, hid'⟩ := p.copy_mem hcopy
    rw [p.round_inj hids hr hr' (hid.trans hid'.symm), hsome] at hnone
    cases hnone
  · rw [p.copyable_iff]
    constructor
    · rintro ⟨r, hr, hsome, rfl⟩
      obtain ⟨k, hcopy⟩ := Option.isSome_iff_exists.1 hsome
      obtain ⟨m, hmem⟩ := copy_mem_of_round (n := 1) hr hcopy
      rw [p.parts_eq]
      exact ⟨m, k, List.mem_append_left _ hmem⟩
    · rintro ⟨n, k, h⟩
      obtain ⟨r, hr, hcopy, hid⟩ := p.copy_mem h
      exact ⟨r, hr, by rw [hcopy]; rfl, hid⟩

end

/-! ## The floor -/

theorem length_smalls {src : Source} {smalls : List SourceFile}
    (hsizes : SizesListed src smalls) :
    (smalls.flatMap fun f => fileBytes src (0, f)).length =
      (smalls.map SourceFile.entrySize).sum := by
  rw [List.length_flatMap]
  congr 1
  refine List.map_congr_left fun f hf => ?_
  exact length_fileBytes (hsizes f hf)

/-- Both parts of a round reach the floor. -/
theorem Round.floor_le_pieces {src : Source} {r : Round} {later : List SourceFile}
    (hgood : r.Good later) (hsizes : SizesListed src r.files) :
    ∀ b ∈ r.pieces src, partFloor ≤ b.length := by
  have hsmalls := length_smalls fun f hf => hsizes f (List.mem_append_left _ hf)
  have hbody : (src.body r.big.name).length = r.big.size :=
    hsizes _ (List.mem_append_right _ List.mem_cons_self)
  have hsize := hgood.big_size
  unfold Round.pieces
  intro b hb
  cases hcopy : r.copyFrom with
  | none =>
    rw [hcopy] at hb
    have hbig : (fileBytes src (0, r.big)).length = r.big.entrySize := length_fileBytes hbody
    rw [List.mem_singleton.1 hb, List.length_append, hbig]
    unfold SourceFile.entrySize entryTotalLen
    omega
  | some k =>
    rw [hcopy] at hb
    obtain ⟨hfloor, hsteal⟩ := hgood.copied k hcopy
    unfold Round.withHeader at hfloor
    unfold Round.maxSteal at hsteal
    rcases List.mem_cons.1 hb with rfl | hb
    · have hheader : (localHeader (metaAt src (0, r.big))).length = localHeaderLen r.big.name :=
        length_localHeader _
      rw [List.length_append, List.length_append, hsmalls, hheader, List.length_take, hbody]
      omega
    · rw [List.mem_singleton.1 hb, List.length_drop, hbody]
      omega

/-- The planned parts are legal, and every part but the last reaches the floor. -/
theorem planSingleMpu_legal {src : Source} {files : List SourceFile} {plan : SinglePlan}
    (hids : (files.map SourceFile.id).Nodup) (hsizes : SizesListed src files)
    (hplan : planSingleMpu files = .singleMpu plan) :
    SingleLegal files plan ∧
      ∀ results, results.Perm (headCrcs src plan) →
        ∃ made, plan.parts.mapM (partBytes src (fillCrcs plan results)) = .ok made ∧
          Floored (fun b => b.2.length) partFloor made := by
  obtain ⟨p⟩ := planSingleMpu_rounds hids hplan
  refine ⟨p.legal hids, fun results hresults => ?_⟩
  obtain ⟨made, hmade, hpieces⟩ := p.realises hids hresults hsizes
  refine ⟨made, hmade, fun b hb => ?_⟩
  have hmem : b.2 ∈ p.rounds.flatMap (Round.pieces src) := by
    have := congrArg List.dropLast hpieces
    rw [List.dropLast_concat, ← List.map_dropLast] at this
    rw [← this]
    exact List.mem_map_of_mem hb
  obtain ⟨r, hr, hb⟩ := List.mem_flatMap.1 hmem
  obtain ⟨later, hgood⟩ := p.good.exists_later hr
  have hfiles : ∀ f ∈ r.files, f ∈ p.files := fun f hf =>
    List.mem_append_left _ (List.mem_flatMap.2 ⟨r, hr, hf⟩)
  exact r.floor_le_pieces hgood (fun f hf => hsizes f (p.perm.subset (hfiles f hf))) _ hb

/-- The parts for five files. -/
theorem planSingleMpu_legal_five :
    ∃ plan, planSingleMpu fiveFiles = .singleMpu plan ∧ SingleLegal fiveFiles plan ∧
      ∀ results, results.Perm (headCrcs fiveSource plan) →
        ∃ made, plan.parts.mapM (partBytes fiveSource (fillCrcs plan results)) = .ok made ∧
          Floored (fun b => b.2.length) partFloor made := by
  obtain ⟨plan, hplan⟩ := exists_plan_fiveFiles
  exact ⟨plan, hplan, planSingleMpu_legal nodup_fiveFiles sizesListed_fiveFiles hplan⟩

end S3Archive.FigmentEngine
