import S3Archive.FigmentEngine.SingleLegality

/-!
# figment-engine: the plan streams no more of the bigs than needed

`StreamsNoMore` says where bytes of a big may be streamed: a prefix fills its
part to the floor and does not replace a small, a big is folded only when
nothing else is left, and the last small that is pulled for a big was needed.
`planSingleMpu_streamsNoMore`: every plan is of that kind.
-/

namespace S3Archive.FigmentEngine

open SourceFile (entrySize)

/-- The small is streamed in one of the parts. -/
def StreamedIn (parts : List PartSpec) (s : SourceFile) : Prop :=
  ∃ n segments, .stream n segments ∈ parts ∧ .streamedFile s.id ∈ segments

/-- The part consists of the smalls, then the body of `f`, or its header and a prefix of it. -/
def Serves (segments : List Segment) (smalls : List SourceFile) (f : SourceFile) : Prop :=
  ∃ tail, segments = smalls.map (fun s => .streamedFile s.id) ++ tail ∧
    (tail = [.streamedFile f.id] ∨ ∃ k, tail = [.copiedFileHeader f.id] ++ prefixSegments f.id k)

structure StreamsNoMore (files : List SourceFile) (plan : SinglePlan) : Prop where
  /-- A part with a prefix is filled exactly, and has a small while there is one. -/
  stolen : ∀ before n segments after, plan.parts = before ++ .stream n segments :: after →
    (∃ id len, .streamedBigPrefix id len ∈ segments) →
    (∀ src results, SizesListed src files → results.Perm (headCrcs src plan) →
      ∃ bytes, buildStreamPartBytes src (fillCrcs plan results) segments = .ok bytes ∧
        bytes.length = partFloor) ∧
    ((∃ s ∈ files, s.size < partFloor ∧ .streamedFile s.id ∈ segments) ∨
      ∀ s ∈ files, s.size < partFloor → StreamedIn before s)
  /-- A big is folded when no small comes later and it cannot bridge the gap. -/
  folded : ∀ before n segments after, plan.parts = before ++ .stream n segments :: after →
    ∀ f ∈ files, partFloor ≤ f.size → .streamedFile f.id ∈ segments →
    (∀ s ∈ files, s.size < partFloor → ¬ StreamedIn after s) ∧
    ∃ smalls, (∀ s ∈ smalls, s ∈ files ∧ s.size < partFloor) ∧ Serves segments smalls f ∧
      f.size - partFloor < partFloor - ((smalls.map entrySize).sum + localHeaderLen f.name)
  /-- Without its last small a part has no small, or its big cannot bridge the gap. -/
  minimal : ∀ n segments, .stream n segments ∈ plan.parts →
    ∀ f ∈ files, partFloor ≤ f.size →
    (.streamedFile f.id ∈ segments ∨ .copiedFileHeader f.id ∈ segments) →
    ∃ smalls, (∀ s ∈ smalls, s ∈ files ∧ s.size < partFloor) ∧ Serves segments smalls f ∧
      ∀ t s, smalls = t ++ [s] → t = [] ∨
        f.size - partFloor < partFloor - ((t.map entrySize).sum + localHeaderLen f.name)

/-! ## A part among the rounds -/

theorem Round.parts_eq (n : Nat) (r : Round) :
    ∃ copies, r.parts n = .stream n r.segments :: copies ∧ ∀ p ∈ copies, p.isCopy = true := by
  unfold Round.parts
  cases r.copyFrom with
  | none => exact ⟨[], rfl, nofun⟩
  | some k =>
    refine ⟨_, rfl, ?_⟩
    intro p hp
    rw [List.mem_singleton.1 hp]
    rfl

theorem split_after_copies {copies parts before after : List PartSpec} {m : Nat}
    {segments : List Segment} (hcopies : ∀ p ∈ copies, p.isCopy = true)
    (h : copies ++ parts = before ++ .stream m segments :: after) :
    ∃ before', before = copies ++ before' ∧ parts = before' ++ .stream m segments :: after := by
  induction copies generalizing before with
  | nil => exact ⟨before, rfl, h⟩
  | cons p copies ih =>
    cases before with
    | nil =>
      obtain ⟨rfl, _⟩ := List.cons.inj h
      cases hcopies _ List.mem_cons_self
    | cons q before =>
      obtain ⟨rfl, htail⟩ := List.cons.inj h
      obtain ⟨before', rfl, hparts⟩ := ih (fun p hp => hcopies p (List.mem_cons_of_mem _ hp)) htail
      exact ⟨before', rfl, hparts⟩

/-- The parts of the rounds before a stream part, and those after it. -/
structure SplitAt (rounds : List Round) (last segments : List Segment)
    (before after : List PartSpec) (r : Round) (later : List Round) : Prop where
  segments_eq : segments = r.segments
  smalls : ∀ s ∈ rounds.flatMap Round.smalls,
    StreamedIn before s ∨ s ∈ r.smalls ∨ s ∈ later.flatMap Round.smalls
  later_subset : later ⊆ rounds
  after : ∀ m segs, .stream m segs ∈ after → (∃ r' ∈ later, segs = r'.segments) ∨ segs = last

/-- A stream part is the last one or that of a round. -/
theorem exists_split {n l m : Nat} {rounds : List Round} {last segments : List Segment}
    {left : List SourceFile} (hgood : RoundsGood rounds left) {before after : List PartSpec}
    (h : roundParts n rounds ++ [.stream l last] = before ++ .stream m segments :: after) :
    (∃ r ∈ rounds, ∃ later, r.Good (later.flatMap Round.smalls ++ left) ∧
      SplitAt rounds last segments before after r later) ∨ segments = last := by
  induction rounds generalizing n before with
  | nil =>
    right
    have hmem : .stream m segments ∈ roundParts n [] ++ [.stream l last] := by
      rw [h]
      exact List.mem_append_right _ List.mem_cons_self
    cases List.mem_singleton.1 hmem
    rfl
  | cons r rounds ih =>
    obtain ⟨copies, hparts, hcopies⟩ := r.parts_eq n
    rw [roundParts_cons, hparts, List.append_assoc, List.cons_append] at h
    cases before with
    | nil =>
      -- the part of the first round
      left
      obtain ⟨hhead, htail⟩ := List.cons.inj h
      cases hhead
      refine ⟨r, List.mem_cons_self, rounds, hgood.1, rfl, ?_, List.subset_cons_self _ _, ?_⟩
      · intro s hs
        rw [List.flatMap_cons] at hs
        exact .inr (List.mem_append.1 hs)
      · intro k segs hk
        rw [← htail] at hk
        rcases List.mem_append.1 hk with hk | hk
        · cases hcopies _ hk
        rcases List.mem_append.1 hk with hk | hk
        · exact .inl (segments_of_mem_roundParts hk)
        · cases List.mem_singleton.1 hk
          exact .inr rfl
    | cons p before =>
      obtain ⟨rfl, htail⟩ := List.cons.inj h
      obtain ⟨before', rfl, hrest⟩ := split_after_copies hcopies htail
      refine (ih hgood.2 hrest).imp_left ?_
      rintro ⟨r', hr', later, hgood', hseg, hsmalls, hsub, hafter⟩
      refine ⟨r', List.mem_cons_of_mem _ hr', later, hgood', hseg, ?_,
        List.Subset.trans hsub (List.subset_cons_self _ _), hafter⟩
      intro s hs
      rw [List.flatMap_cons] at hs
      rcases List.mem_append.1 hs with hs | hs
      · refine .inl ⟨n, r.segments, List.mem_cons_self, ?_⟩
        exact streamedFile_mem_segments.2 (.inl ⟨s, hs, rfl⟩)
      · refine (hsmalls s hs).imp_left ?_
        rintro ⟨k, segs, hk, hmem⟩
        exact ⟨k, segs, List.mem_cons_of_mem _ (List.mem_append_right _ hk), hmem⟩

theorem Round.serves (r : Round) : Serves r.segments r.smalls r.big := by
  refine ⟨r.tail, rfl, ?_⟩
  unfold Round.tail
  cases r.copyFrom with
  | none => exact .inl rfl
  | some k => exact .inr ⟨k, rfl⟩

theorem Round.copiedFrom_of_prefix {r : Round} {id : FileId} {len : Nat}
    (h : .streamedBigPrefix id len ∈ r.segments) : ∃ k, r.copyFrom = some k ∧ 0 < k := by
  unfold Round.segments Round.tail at h
  cases hcopy : r.copyFrom with
  | none => simp [hcopy] at h
  | some k =>
    refine ⟨k, rfl, Nat.pos_of_ne_zero ?_⟩
    rintro rfl
    simp [hcopy] at h

theorem Round.copyFrom_of_folded {r : Round} (hsmalls : ∀ s ∈ r.smalls, s.id ≠ r.big.id)
    (h : .streamedFile r.big.id ∈ r.segments) : r.copyFrom = none := by
  rcases streamedFile_mem_segments.1 h with ⟨s, hs, hid⟩ | ⟨hnone, _⟩
  · exact absurd hid (hsmalls s hs)
  · exact hnone

/-- The stream part of a round with a prefix is made with the bytes of the smalls, the header and
the prefix. -/
theorem Round.length_stream {src : Source} {order : List SourceFile} {plan : SinglePlan}
    (hfilled : Filled src order plan) (hsizes : SizesListed src order) {r : Round}
    {later : List SourceFile} (hgood : r.Good later) (hfiles : ∀ f ∈ r.files, f ∈ order) {k : Nat}
    (hcopy : r.copyFrom = some k) :
    ∃ bytes, buildStreamPartBytes src plan r.segments = .ok bytes ∧
      bytes.length = r.withHeader + k := by
  obtain ⟨made, hmade, hpieces⟩ := r.realises hfilled hsizes hgood hfiles 1
  obtain ⟨copies, hparts, _⟩ := r.parts_eq 1
  rw [hparts, List.mapM_cons] at hmade
  cases hbytes : buildStreamPartBytes src plan r.segments with
  | error e =>
    have hpart : partBytes src plan (.stream 1 r.segments) = .error e := by
      unfold partBytes
      dsimp only
      rw [hbytes]
      rfl
    rw [hpart] at hmade
    cases hmade
  | ok bytes =>
    have hpart : partBytes src plan (.stream 1 r.segments) = .ok (1, bytes) := by
      unfold partBytes
      dsimp only
      rw [hbytes]
      rfl
    rw [hpart] at hmade
    cases hrest : copies.mapM (partBytes src plan) with
    | error e =>
      rw [hrest] at hmade
      cases hmade
    | ok rest =>
      rw [hrest] at hmade
      obtain rfl : (1, bytes) :: rest = made := Except.ok.inj hmade
      unfold Round.pieces at hpieces
      rw [hcopy] at hpieces
      obtain ⟨hhead, _⟩ := List.cons.inj hpieces
      have hbody : (src.body r.big.name).length = r.big.size :=
        hsizes _ (hfiles _ (List.mem_append_right _ List.mem_cons_self))
      have hsmalls := length_smalls fun f hf =>
        hsizes f (hfiles f (List.mem_append_left _ hf))
      have hheader : (localHeader (metaAt src (0, r.big))).length = localHeaderLen r.big.name :=
        length_localHeader _
      have hsteal := (hgood.copied k hcopy).2
      unfold Round.maxSteal at hsteal
      refine ⟨bytes, rfl, ?_⟩
      rw [show bytes = _ from hhead, List.length_append, List.length_append, hsmalls, hheader,
        List.length_take, hbody]
      unfold Round.withHeader
      omega

/-! ## The plan -/

section

variable {files : List SourceFile} {plan : SinglePlan} (p : PlanRounds files plan)
  (hids : (files.map SourceFile.id).Nodup)

/-- The smalls of the rounds and those left over are the small files. -/
theorem PlanRounds.mem_smalls {s : SourceFile} (hs : s ∈ files) (hlt : s.size < partFloor) :
    s ∈ p.rounds.flatMap Round.smalls ++ p.left := by
  have hperm := (perm_roundFiles p.rounds p.left).symm.trans p.perm
  rcases List.mem_append.1 (hperm.symm.subset hs) with hbig | hsmall
  · obtain ⟨r, hr, rfl⟩ := List.mem_map.1 hbig
    obtain ⟨later, hgood⟩ := p.good.exists_later hr
    have := hgood.big_size
    omega
  · exact hsmall

theorem PlanRounds.small_of_round {r : Round} (hr : r ∈ p.rounds) :
    ∀ s ∈ r.smalls, s ∈ files ∧ s.size < partFloor := by
  intro s hs
  have hmem : s ∈ p.rounds.flatMap Round.smalls ++ p.left :=
    List.mem_append_left _ (List.mem_flatMap.2 ⟨r, hr, hs⟩)
  exact ⟨p.small_mem hmem, p.smalls_lt s hmem⟩

include hids

theorem PlanRounds.id_ne {s f : SourceFile} (hs : s ∈ files) (hlt : s.size < partFloor)
    (hf : f ∈ files) (hbig : partFloor ≤ f.size) : s.id ≠ f.id := by
  intro heq
  have := List.inj_on_of_nodup_map hids hs hf heq
  subst this
  omega

/-- A part with a big's header or body is that of its round. -/
theorem PlanRounds.round_of_big {r : Round} (hr : r ∈ p.rounds) {f : SourceFile} (hf : f ∈ files)
    (hbig : partFloor ≤ f.size)
    (h : .streamedFile f.id ∈ r.segments ∨ .copiedFileHeader f.id ∈ r.segments) : r.big = f := by
  refine List.inj_on_of_nodup_map hids (p.big_mem hr) hf ?_
  rcases h with h | h
  · rcases streamedFile_mem_segments.1 h with ⟨s, hs, hid⟩ | ⟨_, hid⟩
    · obtain ⟨hmem, hlt⟩ := p.small_of_round hr s hs
      exact absurd hid (PlanRounds.id_ne hids hmem hlt hf hbig)
    · exact hid
  · unfold Round.segments Round.tail at h
    cases hcopy : r.copyFrom with
    | none => simp [hcopy] at h
    | some k =>
      by_cases hk : k > 0 <;> simpa [hcopy, hk, eq_comm] using h

/-- The last part has neither a big nor a prefix. -/
theorem PlanRounds.final_segments :
    (∀ id len, .streamedBigPrefix id len ∉ finalSegments p.left) ∧
    ∀ f ∈ files, partFloor ≤ f.size →
      .streamedFile f.id ∉ finalSegments p.left ∧ .copiedFileHeader f.id ∉ finalSegments p.left := by
  refine ⟨fun id len => by simp [finalSegments], fun f hf hbig => ⟨?_, by simp [finalSegments]⟩⟩
  intro h
  obtain ⟨s, hs, hid⟩ : ∃ s ∈ p.left, s.id = f.id := by simpa [finalSegments] using h
  have hmem : s ∈ p.rounds.flatMap Round.smalls ++ p.left := List.mem_append_right _ hs
  exact PlanRounds.id_ne hids (p.small_mem hmem) (p.smalls_lt s hmem) hf hbig hid

include p in
theorem PlanRounds.streamsNoMore : StreamsNoMore files plan := by
  obtain ⟨hnoPrefix, hnoBig⟩ := p.final_segments hids
  constructor
  · rintro before n segments after h ⟨id, len, hprefix⟩
    rw [p.parts_eq] at h
    rcases exists_split p.good h with ⟨r, hr, later, hgood, hsplit⟩ | rfl
    swap
    · exact absurd hprefix (hnoPrefix id len)
    obtain ⟨rfl, hsmalls, _, _⟩ := hsplit
    obtain ⟨k, hcopy, hpos⟩ := r.copiedFrom_of_prefix hprefix
    obtain ⟨hexact, hfirst⟩ := hgood.stolen k hcopy hpos
    constructor
    · intro src results hsizes hresults
      rw [← hexact]
      refine Round.length_stream (p.filled hids hresults)
        (fun f hf => hsizes f (p.perm.subset hf)) hgood ?_ hcopy
      exact fun f hf => List.mem_append_left _ (List.mem_flatMap.2 ⟨r, hr, hf⟩)
    · by_cases hne : r.smalls = []
      · -- no small remains, so each is in an earlier part
        have hlater := hfirst.resolve_left fun h => h hne
        rw [List.append_eq_nil_iff] at hlater
        right
        intro s hs hlt
        have hmem := p.mem_smalls hs hlt
        rw [hlater.2, List.append_nil] at hmem
        rcases hsmalls s hmem with hin | hin | hin
        · exact hin
        · rw [hne] at hin
          cases hin
        · rw [hlater.1] at hin
          cases hin
      · left
        obtain ⟨s, hs⟩ := List.exists_mem_of_ne_nil _ hne
        obtain ⟨hmem, hlt⟩ := p.small_of_round hr s hs
        exact ⟨s, hmem, hlt, streamedFile_mem_segments.2 (.inl ⟨s, hs, rfl⟩)⟩
  · intro before n segments after h f hf hbig hseg
    rw [p.parts_eq] at h
    rcases exists_split p.good h with ⟨r, hr, later, hgood, hsplit⟩ | rfl
    swap
    · exact absurd hseg (hnoBig f hf hbig).1
    obtain ⟨rfl, _, hsub, hafter⟩ := hsplit
    obtain rfl := p.round_of_big hids hr hf hbig (.inl hseg)
    have hnone := r.copyFrom_of_folded (fun s hs =>
      PlanRounds.id_ne hids (p.small_of_round hr s hs).1 (p.small_of_round hr s hs).2 hf hbig) hseg
    obtain ⟨hlater, hgap⟩ := hgood.folded hnone
    rw [List.append_eq_nil_iff] at hlater
    refine ⟨?_, r.smalls, p.small_of_round hr, r.serves, hgap⟩
    rintro s hs hlt ⟨m, segs, hm, hmem⟩
    rcases hafter m segs hm with ⟨r', hr', rfl⟩ | rfl
    · rcases streamedFile_mem_segments.1 hmem with ⟨t, ht, _⟩ | ⟨_, hid⟩
      · have hin := List.mem_flatMap.2 ⟨r', hr', ht⟩
        rw [hlater.1] at hin
        cases hin
      · have hr'' := hsub hr'
        obtain ⟨_, hgood'⟩ := p.good.exists_later hr''
        exact PlanRounds.id_ne hids hs hlt (p.big_mem hr'') hgood'.big_size hid.symm
    · rw [hlater.2] at hmem
      simp [finalSegments] at hmem
  · intro n segments hpart f hf hbig hseg
    rw [p.parts_eq, List.mem_append] at hpart
    rcases hpart with hpart | hpart
    · obtain ⟨r, hr, rfl⟩ := segments_of_mem_roundParts hpart
      obtain rfl := p.round_of_big hids hr hf hbig hseg
      obtain ⟨later, hgood⟩ := p.good.exists_later hr
      exact ⟨r.smalls, p.small_of_round hr, r.serves, hgood.minimal⟩
    · cases List.mem_singleton.1 hpart
      rcases hseg with hseg | hseg
      · exact absurd hseg (hnoBig f hf hbig).1
      · exact absurd hseg (hnoBig f hf hbig).2

end

/-- A plan streams no more of the bigs, and no more smalls with them, than its rule needs. -/
theorem planSingleMpu_streamsNoMore {files : List SourceFile} {plan : SinglePlan}
    (hids : (files.map SourceFile.id).Nodup) (hplan : planSingleMpu files = .singleMpu plan) :
    StreamsNoMore files plan := by
  obtain ⟨p⟩ := planSingleMpu_rounds hids hplan
  exact p.streamsNoMore hids

/-- A plan with two bigs and a small. -/
theorem planSingleMpu_streamsNoMore_three :
    StreamsNoMore
      [⟨⟨7⟩, [0x61], 20971520⟩, ⟨⟨8⟩, [0x62], 5242881⟩, ⟨⟨9⟩, [0x63], 1000⟩]
      (planSorted [⟨⟨7⟩, [0x61], 20971520⟩, ⟨⟨8⟩, [0x62], 5242881⟩] [⟨⟨9⟩, [0x63], 1000⟩]) := by
  refine planSingleMpu_streamsNoMore (by decide) ?_
  have hbigs := @List.mergeSort_of_pairwise _ bigsLe
    [⟨⟨7⟩, [0x61], 20971520⟩, ⟨⟨8⟩, [0x62], 5242881⟩] (by decide)
  simp [planSingleMpu, SourceFile.isBig, partFloor, viabilityMinTotal, hbigs]

end S3Archive.FigmentEngine
