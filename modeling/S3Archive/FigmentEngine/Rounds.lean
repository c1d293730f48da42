import S3Archive.Base.Upload
import S3Archive.FigmentEngine.Archive

/-!
# figment-engine: the plan as rounds

What the planner decides: for each big, the smalls that are streamed with it and
where its copy starts, if it is copied at all (`Round`). `Round.Good` is what the
decisions guarantee. `planSingleMpu_rounds` says that a plan is the rendering of
such rounds.
-/

namespace S3Archive.FigmentEngine

open SourceFile (entrySize)

/-- One big with the smalls that are pulled for it. -/
structure Round where
  smalls : List SourceFile
  big : SourceFile
  /-- Where the copy of the big starts; `none` when the big is streamed whole. -/
  copyFrom : Option Nat

namespace Round

def files (r : Round) : List SourceFile := r.smalls ++ [r.big]

/-- The bytes of the smalls and the big's header. -/
def withHeader (r : Round) : Nat := (r.smalls.map entrySize).sum + localHeaderLen r.big.name

def maxSteal (r : Round) : Nat := r.big.size - partFloor

/-- The segments that serve the big. -/
def tail (r : Round) : List Segment :=
  match r.copyFrom with
  | none => [.streamedFile r.big.id]
  | some k =>
    [.copiedFileHeader r.big.id] ++ if k > 0 then [.streamedBigPrefix r.big.id k] else []

def segments (r : Round) : List Segment := r.smalls.map (fun s => .streamedFile s.id) ++ r.tail

/-- The number of parts. -/
def width (r : Round) : Nat := if r.copyFrom.isSome then 2 else 1

/-- The parts, numbered from `n`. -/
def parts (n : Nat) (r : Round) : List PartSpec :=
  match r.copyFrom with
  | none => [.stream n r.segments]
  | some k => [.stream n r.segments, .copy (n + 1) r.big.id k]

theorem length_parts (n : Nat) (r : Round) : (r.parts n).length = r.width := by
  unfold parts width
  cases r.copyFrom <;> rfl

/-- What holds of a round after which the smalls `later` remain. -/
structure Good (r : Round) (later : List SourceFile) : Prop where
  big_size : partFloor ≤ r.big.size
  /-- The stream part and the copied remainder clear the floor. -/
  copied : ∀ k, r.copyFrom = some k → partFloor ≤ r.withHeader + k ∧ k ≤ r.maxSteal
  /-- A prefix only fills the gap, and not in place of a small. -/
  stolen : ∀ k, r.copyFrom = some k → 0 < k →
    r.withHeader + k = partFloor ∧ (r.smalls ≠ [] ∨ later = [])
  /-- A big is folded only when it cannot bridge the gap and no small is left. -/
  folded : r.copyFrom = none → later = [] ∧ r.maxSteal < partFloor - r.withHeader
  /-- The last small was needed. -/
  minimal : ∀ t s, r.smalls = t ++ [s] → t = [] ∨
    r.maxSteal < partFloor - ((t.map entrySize).sum + localHeaderLen r.big.name)

end Round

/-- Every round is good, with the smalls of the later rounds and `left` remaining after it. -/
def RoundsGood : List Round → List SourceFile → Prop
  | [], _ => True
  | r :: rs, left => r.Good (rs.flatMap Round.smalls ++ left) ∧ RoundsGood rs left

/-- The parts of the rounds, numbered from `n`. -/
def roundParts (n : Nat) (rounds : List Round) : List PartSpec :=
  (offsetsFrom Round.width n rounds).flatMap fun p => p.2.parts p.1

/-- The number after the last part of the rounds, which are numbered from `n`. -/
def nextPart (n : Nat) (rounds : List Round) : Nat := n + (rounds.map Round.width).sum

theorem roundParts_cons (n : Nat) (r : Round) (rounds : List Round) :
    roundParts n (r :: rounds) = r.parts n ++ roundParts (n + r.width) rounds := rfl

theorem length_roundParts (n : Nat) (rounds : List Round) :
    (roundParts n rounds).length = (rounds.map Round.width).sum := by
  induction rounds generalizing n with
  | nil => rfl
  | cons r rounds ih =>
    rw [roundParts_cons, List.length_append, Round.length_parts, ih, List.map_cons,
      List.sum_cons]

theorem Round.numbered_parts (n : Nat) (r : Round) :
    NumberedFrom PartSpec.partNumber n (r.parts n) := by
  unfold Round.parts
  cases r.copyFrom with
  | none => exact .cons rfl (.nil _ _)
  | some k => exact .cons rfl (.cons rfl (.nil _ _))

theorem numbered_roundParts (n : Nat) (rounds : List Round) :
    NumberedFrom PartSpec.partNumber n (roundParts n rounds) := by
  induction rounds generalizing n with
  | nil => exact .nil _ _
  | cons r rounds ih =>
    rw [roundParts_cons]
    apply (r.numbered_parts n).append
    rw [Round.length_parts]
    exact ih _

/-! ## The inner loop -/

/-- The sizes of the files are those listed. -/
def SizesOf (sizeOf : SizeOf) (files : List SourceFile) : Prop :=
  ∀ f ∈ files, sizeOf[f.id]! = (f.name, f.size)

theorem SizesOf.subset {sizeOf : SizeOf} {files gs : List SourceFile} (h : SizesOf sizeOf files)
    (hsub : gs ⊆ files) : SizesOf sizeOf gs := fun f hf => h f (hsub hf)

/-- Distinct ids are looked up with their own sizes. -/
theorem sizesOf_sizeMap {files : List SourceFile} (hids : (files.map SourceFile.id).Nodup) :
    SizesOf (sizeMap files) files := by
  intro f hf
  have hget : (sizeMap files)[f.id]? = some (f.name, f.size) := getElem?_insertEach hids hf
  rw [Std.HashMap.getElem!_eq_get!_getElem?, hget]
  rfl

namespace Planner

variable {sizeOf : SizeOf} {headerBig maxSteal : Nat}

/-- The state after pulling `taken`, with `rest` left. -/
def pulled (st : Planner) (taken rest : List SourceFile) : Planner :=
  { st with
    smallIter := rest
    curSegs := st.curSegs ++ taken.map (fun s => .streamedFile s.id)
    order := st.order ++ taken.map SourceFile.id
    curBytes := st.curBytes + (taken.map entrySize).sum }

/-- Why pulling stopped after `taken`, and why it did not stop before. -/
structure Stopped (headerBig maxSteal bytes : Nat) (pulledSmall : Bool)
    (taken rest : List SourceFile) : Prop where
  stop : partFloor ≤ bytes + (taken.map entrySize).sum + headerBig ∨
    (partFloor - (bytes + (taken.map entrySize).sum + headerBig) ≤ maxSteal ∧
      (pulledSmall = true ∨ taken ≠ [])) ∨ rest = []
  needed : ∀ t s, taken = t ++ [s] → (t = [] ∧ pulledSmall = false) ∨
    maxSteal < partFloor - (bytes + (t.map entrySize).sum + headerBig)

theorem Stopped.nil {bytes : Nat} {pulledSmall : Bool} {smalls : List SourceFile}
    (h : partFloor ≤ bytes + headerBig ∨
      (partFloor - (bytes + headerBig) ≤ maxSteal ∧ (pulledSmall = true ∨ smalls = [])) ∨
      smalls = []) :
    Stopped headerBig maxSteal bytes pulledSmall [] smalls := by
  refine ⟨?_, fun t s h => absurd h (by simp)⟩
  simp only [List.map_nil, List.sum_nil, Nat.add_zero]
  rcases h with h | ⟨h, hp | hs⟩ | hs
  · exact .inl h
  · exact .inr (.inl ⟨h, .inl hp⟩)
  · exact .inr (.inr hs)
  · exact .inr (.inr hs)

/-- Pulling a small that is needed. -/
theorem Stopped.cons {bytes : Nat} {pulledSmall : Bool} {s : SourceFile}
    {taken rest : List SourceFile}
    (h : Stopped headerBig maxSteal (bytes + s.entrySize) true taken rest)
    (hs : pulledSmall = false ∨ maxSteal < partFloor - (bytes + headerBig)) :
    Stopped headerBig maxSteal bytes pulledSmall (s :: taken) rest := by
  have hsum (t : List SourceFile) : bytes + ((s :: t).map entrySize).sum =
      bytes + s.entrySize + (t.map entrySize).sum := by
    rw [List.map_cons, List.sum_cons, Nat.add_assoc]
  constructor
  · rw [hsum]
    rcases h.stop with hfloor | ⟨hgap, _⟩ | hrest
    · exact .inl hfloor
    · exact .inr (.inl ⟨hgap, .inr (List.cons_ne_nil _ _)⟩)
    · exact .inr (.inr hrest)
  · intro t u ht
    cases t with
    | nil =>
      rw [List.map_nil, List.sum_nil, Nat.add_zero]
      rcases hs with hs | hs
      · exact .inl ⟨rfl, hs⟩
      · exact .inr hs
    | cons v t =>
      rw [List.cons_append, List.cons.injEq] at ht
      obtain ⟨rfl, ht⟩ := ht
      rcases h.needed t u ht with ⟨_, hfalse⟩ | hlt
      · cases hfalse
      · rw [hsum]
        exact .inr hlt

theorem pull_eq {st : Planner} {s : SourceFile} {rest : List SourceFile}
    (hs : sizeOf[s.id]! = (s.name, s.size)) : st.pull sizeOf s rest = st.pulled [s] rest := by
  unfold pull pulled
  rw [hs]
  simp [entrySize, entryTotalLen]

theorem pulled_nil {st : Planner} {smalls : List SourceFile} (h : st.smallIter = smalls) :
    st.pulled [] smalls = st := by
  subst h
  simp [pulled]

theorem pulled_pulled (st : Planner) (s : SourceFile) (taken mid rest : List SourceFile) :
    (st.pulled [s] mid).pulled taken rest = st.pulled (s :: taken) rest := by
  simp [pulled, Nat.add_assoc]

/-- The inner loop takes smalls from the front and no more than needed. -/
theorem pullSmalls_spec {smalls : List SourceFile} (hsizes : SizesOf sizeOf smalls)
    (pulledSmall : Bool) (st : Planner) (hst : st.smallIter = smalls) :
    ∃ taken rest, smalls = taken ++ rest ∧
      st.pullSmalls sizeOf headerBig maxSteal smalls pulledSmall =
        (st.pulled taken rest, pulledSmall || !taken.isEmpty) ∧
      Stopped headerBig maxSteal st.curBytes pulledSmall taken rest := by
  induction smalls generalizing pulledSmall st with
  | nil =>
    refine ⟨[], [], rfl, ?_, .nil (.inr (.inr rfl))⟩
    unfold pullSmalls
    rw [pulled_nil hst]
    simp
  | cons s smalls ih =>
    have hnone := pulled_nil hst
    unfold pullSmalls
    dsimp only
    by_cases hfloor : st.curBytes + headerBig ≥ partFloor
    · refine ⟨[], s :: smalls, rfl, ?_, .nil (.inl hfloor)⟩
      rw [if_pos hfloor, hnone]
      simp
    · rw [if_neg hfloor]
      by_cases hgap : partFloor - (st.curBytes + headerBig) ≤ maxSteal ∧
          (pulledSmall || !!(s :: smalls).isEmpty) = true
      · refine ⟨[], s :: smalls, rfl, ?_, .nil (.inr (.inl ⟨hgap.1, .inl ?_⟩))⟩
        · rw [if_pos hgap, hnone]
          simp
        · simpa using hgap.2
      · -- the gap is too wide, or no small has been pulled yet
        have hneed : pulledSmall = false ∨
            maxSteal < partFloor - (st.curBytes + headerBig) := by
          cases pulledSmall
          · exact .inl rfl
          · simp only [Bool.true_or, and_true] at hgap
            exact .inr (by omega)
        have hs : pull sizeOf st s smalls = st.pulled [s] smalls :=
          pull_eq (hsizes s List.mem_cons_self)
        obtain ⟨taken, rest, htake, heq, hstop⟩ :=
          ih (hsizes.subset (List.subset_cons_self _ _)) true (st.pulled [s] smalls) rfl
        refine ⟨s :: taken, rest, by rw [htake, List.cons_append], ?_, ?_⟩
        · rw [if_neg hgap, hs, heq, pulled_pulled]
          simp
        · have hbytes : (st.pulled [s] smalls).curBytes = st.curBytes + s.entrySize := by
            simp [pulled]
          rw [hbytes] at hstop
          exact hstop.cons hneed

/-! ## One big -/

/-- The state after a round, with `rest` left. -/
def push (st : Planner) (r : Round) (rest : List SourceFile) : Planner where
  order := st.order ++ r.files.map SourceFile.id
  parts := st.parts ++ r.parts st.partNumber
  partNumber := st.partNumber + r.width
  smallIter := rest
  curSegs := []
  curBytes := 0
  streamedBigs := if r.copyFrom.isSome then st.streamedBigs else st.streamedBigs.insert r.big.id
  stolenCount := if r.copyFrom.any (· > 0) then st.stolenCount + 1 else st.stolenCount

/-- Nothing is left mid-batch. -/
def Flushed (st : Planner) : Prop := st.curSegs = [] ∧ st.curBytes = 0

theorem pushCopied_pulled {st : Planner} (hst : st.Flushed) (taken rest : List SourceFile)
    (big : SourceFile) (k : Nat) :
    (st.pulled taken rest).pushCopied big k = st.push ⟨taken, big, some k⟩ rest := by
  obtain ⟨hsegs, hbytes⟩ := hst
  unfold pushCopied pulled push Round.parts Round.segments Round.tail Round.files Round.width
  rw [hsegs]
  by_cases hk : k > 0 <;> simp [hk]

theorem pushFolded_pulled {st : Planner} (hst : st.Flushed) (taken rest : List SourceFile)
    (big : SourceFile) :
    (st.pulled taken rest).pushFolded big = st.push ⟨taken, big, none⟩ rest := by
  obtain ⟨hsegs, hbytes⟩ := hst
  unfold pushFolded pulled push Round.parts Round.segments Round.tail Round.files Round.width
  rw [hsegs]
  simp

/-- The body of the loop makes one good round. -/
theorem planBig_spec {st : Planner} {big : SourceFile} (hst : st.Flushed)
    (hbig : sizeOf[big.id]! = (big.name, big.size)) (hfloor : partFloor ≤ big.size)
    (hsmalls : SizesOf sizeOf st.smallIter) :
    ∃ r rest, r.big = big ∧ st.smallIter = r.smalls ++ rest ∧ r.Good rest ∧
      st.planBig sizeOf big = st.push r rest := by
  obtain ⟨taken, rest, hsplit, hpull, hstop⟩ :=
    @pullSmalls_spec sizeOf (localHeaderLen big.name) (big.size - partFloor) _ hsmalls false st rfl
  have hbytes : (st.pulled taken rest).curBytes = (taken.map entrySize).sum := by
    simp [pulled, hst.2]
  have hstop₀ := hstop.stop
  rw [hst.2, Nat.zero_add] at hstop₀
  have hneeded (t : List SourceFile) (s : SourceFile) (ht : taken = t ++ [s]) : t = [] ∨
      big.size - partFloor <
        partFloor - ((t.map entrySize).sum + localHeaderLen big.name) := by
    have := hstop.needed t s ht
    rw [hst.2, Nat.zero_add] at this
    exact this.imp_left And.left
  unfold planBig
  rw [hbig]
  dsimp only
  rw [hpull]
  dsimp only
  rw [hbytes, show (st.pulled taken rest).smallIter = rest from rfl]
  generalize hwith : (taken.map entrySize).sum + localHeaderLen big.name = withHeader at hstop₀ ⊢
  generalize hk : (if (false || !taken.isEmpty || !!rest.isEmpty) = true then
    min (partFloor - withHeader) (big.size - partFloor) else 0) = k
  have hkle : k ≤ big.size - partFloor := by
    rw [← hk]
    split <;> omega
  have hkpos (h : 0 < k) : taken ≠ [] ∨ rest = [] := by
    by_cases hp : (false || !taken.isEmpty || !!rest.isEmpty) = true
    · simpa using hp
    · rw [if_neg hp] at hk
      omega
  have hkgap : k ≤ partFloor - withHeader := by
    rw [← hk]
    split <;> omega
  by_cases hclear : withHeader + k ≥ partFloor
  · refine ⟨⟨taken, big, some k⟩, rest, rfl, hsplit, ⟨hfloor, ?_, ?_, ?_, hneeded⟩, ?_⟩
    · intro k' hk'
      cases hk'
      exact ⟨by rw [Round.withHeader, hwith]; exact hclear, hkle⟩
    · intro k' hk' hpos
      cases hk'
      refine ⟨?_, hkpos hpos⟩
      rw [Round.withHeader, hwith]
      omega
    · intro h
      cases h
    · rw [if_pos hclear, pushCopied_pulled hst]
  · -- neither the batch nor a steal clears the floor, so the smalls have run out
    have hout : rest = [] ∧ big.size - partFloor < partFloor - withHeader := by
      rcases hstop₀ with h | ⟨hgap, hp⟩ | hrest
      · omega
      · have hpulled : (false || !taken.isEmpty || !!rest.isEmpty) = true := by
          rcases hp with hp | hp
          · cases hp
          · simp [hp]
        rw [if_pos hpulled] at hk
        omega
      · rw [hrest, List.isEmpty_nil, Bool.not_not, Bool.or_true, if_pos rfl] at hk
        exact ⟨hrest, by omega⟩
    refine ⟨⟨taken, big, none⟩, rest, rfl, hsplit, ⟨hfloor, ?_, ?_, ?_, hneeded⟩, ?_⟩
    · intro k' hk'
      cases hk'
    · intro k' hk'
      cases hk'
    · intro _
      refine ⟨hout.1, ?_⟩
      rw [Round.withHeader, hwith]
      exact hout.2
    · rw [if_neg hclear, pushFolded_pulled hst]

/-! ## All bigs -/

/-- `st'` is `st` after the rounds, with `left` left. -/
structure Rendered (st : Planner) (rounds : List Round) (left : List SourceFile)
    (st' : Planner) : Prop where
  order : st'.order = st.order ++ (rounds.flatMap Round.files).map SourceFile.id
  parts : st'.parts = st.parts ++ roundParts st.partNumber rounds
  partNumber : st'.partNumber = nextPart st.partNumber rounds
  smallIter : st'.smallIter = left
  flushed : st'.Flushed
  streamed : ∀ id, id ∈ st'.streamedBigs ↔
    id ∈ st.streamedBigs ∨ ∃ r ∈ rounds, r.copyFrom = none ∧ r.big.id = id

theorem mem_push_streamedBigs {st : Planner} {r : Round} {rest : List SourceFile} {id : FileId} :
    id ∈ (st.push r rest).streamedBigs ↔
      id ∈ st.streamedBigs ∨ r.copyFrom = none ∧ r.big.id = id := by
  unfold push
  cases r.copyFrom with
  | some k => simp
  | none => simp [or_comm]

theorem Rendered.refl {st : Planner} (hst : st.Flushed) : st.Rendered [] st.smallIter st := by
  refine ⟨by simp, ?_, ?_, rfl, hst, by simp⟩
  · simp [roundParts]
  · simp [nextPart]

theorem Rendered.cons {st st' : Planner} {r : Round} {rounds : List Round}
    {rest left : List SourceFile} (h : (st.push r rest).Rendered rounds left st') :
    st.Rendered (r :: rounds) left st' := by
  refine ⟨?_, ?_, ?_, h.smallIter, h.flushed, fun id => ?_⟩
  · rw [h.order]
    simp [push]
  · rw [h.parts]
    simp [push, roundParts]
  · rw [h.partNumber]
    simp [push, nextPart, Nat.add_assoc]
  · rw [h.streamed, mem_push_streamedBigs, or_assoc]
    simp

/-- The loop renders good rounds, one for each big. -/
theorem planBigs_spec {bigs : List SourceFile} (hbigs : SizesOf sizeOf bigs)
    (hfloor : ∀ f ∈ bigs, partFloor ≤ f.size) (st : Planner) (hst : st.Flushed)
    (hsmalls : SizesOf sizeOf st.smallIter) :
    ∃ rounds left, rounds.map Round.big = bigs ∧
      st.smallIter = rounds.flatMap Round.smalls ++ left ∧ RoundsGood rounds left ∧
      st.Rendered rounds left (bigs.foldl (planBig sizeOf) st) := by
  induction bigs generalizing st with
  | nil => exact ⟨[], st.smallIter, rfl, rfl, trivial, .refl hst⟩
  | cons big bigs ih =>
    have hmem : big ∈ big :: bigs := List.mem_cons_self
    obtain ⟨r, rest, rfl, hsplit, hgood, hstep⟩ :=
      planBig_spec hst (hbigs big hmem) (hfloor big hmem) hsmalls
    have hrest : SizesOf sizeOf rest := by
      refine hsmalls.subset ?_
      rw [hsplit]
      exact List.subset_append_right _ _
    obtain ⟨rounds, left, hmap, hleft, hrounds, hrender⟩ :=
      ih (hbigs.subset (List.subset_cons_self _ _))
        (fun f hf => hfloor f (List.mem_cons_of_mem _ hf)) (st.push r rest) ⟨rfl, rfl⟩ hrest
    have hleft : rest = rounds.flatMap Round.smalls ++ left := hleft
    refine ⟨r :: rounds, left, by rw [List.map_cons, hmap], ?_, ⟨hleft ▸ hgood, hrounds⟩, ?_⟩
    · rw [hsplit, hleft, List.flatMap_cons, List.append_assoc]
    · rw [List.foldl_cons, hstep]
      exact hrender.cons

end Planner

/-! ## The plan -/

/-- The last part: the leftover smalls and the directory. -/
def finalSegments (left : List SourceFile) : List Segment :=
  left.map (fun s => .streamedFile s.id) ++ [.centralDirectory]

/-- The rounds and leftover smalls that a plan of the files renders. -/
structure PlanRounds (files : List SourceFile) (plan : SinglePlan) where
  rounds : List Round
  left : List SourceFile
  perm : (rounds.flatMap Round.files ++ left).Perm files
  good : RoundsGood rounds left
  smalls_lt : ∀ f ∈ rounds.flatMap Round.smalls ++ left, f.size < partFloor
  order_eq : plan.order = (rounds.flatMap Round.files ++ left).map SourceFile.id
  parts_eq : plan.parts =
    roundParts 1 rounds ++ [.stream (nextPart 1 rounds) (finalSegments left)]
  /-- Each file is recorded with its offset, without a checksum. -/
  entry : ∀ p ∈ placed (rounds.flatMap Round.files ++ left), ∃ streamed,
    plan.entries[p.2.id]? = some ⟨p.2.id, p.2.name, p.2.size, p.1, none, streamed⟩
  copyable_iff : ∀ id, id ∈ plan.copyable ↔ ∃ r ∈ rounds, r.copyFrom.isSome ∧ r.big.id = id

/-- The files in archive order. -/
def PlanRounds.files {files : List SourceFile} {plan : SinglePlan} (p : PlanRounds files plan) :
    List SourceFile := p.rounds.flatMap Round.files ++ p.left

theorem PlanRounds.numbered {files : List SourceFile} {plan : SinglePlan}
    (p : PlanRounds files plan) : NumberedFrom PartSpec.partNumber 1 plan.parts := by
  rw [p.parts_eq]
  apply (numbered_roundParts 1 p.rounds).append
  apply NumberedFrom.cons _ (.nil _ _)
  rw [length_roundParts]
  rfl

/-- Rounds place their smalls and bigs once. -/
theorem perm_roundFiles (rounds : List Round) (left : List SourceFile) :
    (rounds.flatMap Round.files ++ left).Perm
      (rounds.map Round.big ++ (rounds.flatMap Round.smalls ++ left)) := by
  have hrounds := List.flatMap_append_perm rounds Round.smalls fun r => [r.big]
  have hleft := (List.perm_append_comm.trans hrounds).symm.append_right left
  rwa [← List.map_eq_flatMap, List.append_assoc] at hleft

theorem getElem?_planEntries {sizeOf : SizeOf} {order : List SourceFile}
    (hsizes : SizesOf sizeOf order) (hids : (order.map SourceFile.id).Nodup)
    (copied : FileId → Bool) {p : Nat × SourceFile} (hp : p ∈ placed order) :
    (planEntries (order.map SourceFile.id) sizeOf copied)[p.2.id]? =
      some ⟨p.2.id, p.2.name, p.2.size, p.1, none, !copied p.2.id⟩ := by
  have hmem : (p.2.id, p.1) ∈ (placed order).map fun p => (p.2.id, p.1) :=
    List.mem_map_of_mem hp
  unfold planEntries
  rw [zip_computeOffsets hsizes, getElem?_insertEach (nodup_placed_ids hids) hmem]
  dsimp only
  rw [hsizes p.2 (mem_of_mem_placed hp)]

/-- The bigs that are not folded are those that are copied. -/
theorem mem_filter_notMem_streamed {rounds : List Round} {streamed : Std.HashSet FileId}
    (hids : (rounds.map fun r => r.big.id).Nodup)
    (h : ∀ id, id ∈ streamed ↔ ∃ r ∈ rounds, r.copyFrom = none ∧ r.big.id = id) (id : FileId) :
    id ∈ (rounds.map fun r => r.big.id).filter (fun id => !streamed.contains id) ↔
      ∃ r ∈ rounds, r.copyFrom.isSome ∧ r.big.id = id := by
  have hinj := List.inj_on_of_nodup_map hids
  rw [List.mem_filter, List.mem_map, Bool.not_eq_true', ← Bool.not_eq_true,
    Std.HashSet.contains_iff_mem, h]
  constructor
  · rintro ⟨⟨r, hr, rfl⟩, hnot⟩
    refine ⟨r, hr, ?_, rfl⟩
    by_contra hnone
    exact hnot ⟨r, hr, by simpa using hnone, rfl⟩
  · rintro ⟨r, hr, hsome, rfl⟩
    refine ⟨⟨r, hr, rfl⟩, ?_⟩
    rintro ⟨r', hr', hnone, hid⟩
    rw [hinj hr' hr hid] at hnone
    rw [hnone] at hsome
    cases hsome

theorem planSorted_rounds {bigs smalls : List SourceFile}
    (hids : ((bigs ++ smalls).map SourceFile.id).Nodup) (hbigs : ∀ f ∈ bigs, partFloor ≤ f.size)
    (hsmalls : ∀ f ∈ smalls, f.size < partFloor) :
    Nonempty (PlanRounds (bigs ++ smalls) (planSorted bigs smalls)) := by
  have hsizes := sizesOf_sizeMap hids
  obtain ⟨rounds, left, rfl, hsplit, hgood, hrender⟩ :=
    Planner.planBigs_spec (hsizes.subset (List.subset_append_left _ _)) hbigs (.init smalls)
      ⟨rfl, rfl⟩ (hsizes.subset (List.subset_append_right _ _))
  have hperm : (rounds.flatMap Round.files ++ left).Perm (rounds.map Round.big ++ smalls) := by
    have := perm_roundFiles rounds left
    rwa [← hsplit] at this
  have horder : (planSorted (rounds.map Round.big) smalls).order =
      (rounds.flatMap Round.files ++ left).map SourceFile.id := by
    unfold planSorted planParts Planner.pushFinal
    dsimp only
    rw [hrender.order, hrender.smallIter, List.map_append]
    rfl
  refine ⟨⟨rounds, left, hperm, hgood, ?_, horder, ?_, fun p hp => ?_, fun id => ?_⟩⟩
  · rw [← hsplit]
    exact hsmalls
  · unfold planSorted planParts Planner.pushFinal
    dsimp only
    rw [hrender.parts, hrender.smallIter, hrender.partNumber, hrender.flushed.1]
    rfl
  · have hnodup := (hperm.map SourceFile.id).nodup_iff.2 hids
    have hentries : (planSorted (rounds.map Round.big) smalls).entries =
        planEntries (planSorted (rounds.map Round.big) smalls).order
          (sizeMap (rounds.map Round.big ++ smalls)) (isCopied (rounds.map Round.big)
            (planParts (sizeMap (rounds.map Round.big ++ smalls)) (rounds.map Round.big)
              smalls).streamedBigs) := rfl
    rw [hentries, horder]
    exact ⟨_, getElem?_planEntries (hsizes.subset hperm.subset) hnodup _ hp⟩
  · have hnodup : (rounds.map fun r => r.big.id).Nodup := by
      have := (List.sublist_append_left (rounds.map Round.big) smalls).map SourceFile.id
      rw [List.map_map] at this
      exact hids.sublist this
    unfold planSorted planParts Planner.pushFinal
    dsimp only
    rw [List.map_map]
    refine mem_filter_notMem_streamed hnodup (fun id => ?_) id
    rw [hrender.streamed id]
    simp [Planner.init]

theorem planSingleMpu_rounds {files : List SourceFile} {plan : SinglePlan}
    (hids : (files.map SourceFile.id).Nodup) (hplan : planSingleMpu files = .singleMpu plan) :
    Nonempty (PlanRounds files plan) := by
  have hperm := perm_sorted files bigsLe smallsLe
  have hids' := (hperm.map SourceFile.id).nodup_iff.2 hids
  obtain ⟨p⟩ := planSorted_rounds hids' (fun _ => floor_le_of_mem_bigs)
    fun _ => lt_floor_of_mem_smalls
  unfold planSingleMpu at hplan
  dsimp only at hplan
  split at hplan
  · cases hplan
  · cases hplan
    exact ⟨{ p with perm := p.perm.trans hperm }⟩

end S3Archive.FigmentEngine
