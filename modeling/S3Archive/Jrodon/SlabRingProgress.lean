import S3Archive.Jrodon.SlabRingInvariant

/-!
# jrodon: the slab ring goes on

Every step of the ring lowers its `work`, but for the search of a free slab
(`Searches`), which keeps it. A search finds a slab as soon as no lease is alive,
so the work can always be brought down to the end (`RingInv.lowers`).
-/

namespace S3Archive.Jrodon

/-! ## The work that is left -/

namespace RingState

variable (slabSize : Nat) (s s' : RingState)

/-- The writer is done and everything has been received. -/
def Finished : Prop := s.calls = [] ∧ s.pc = .idle ∧ s.channel = []

/-- How far the writer is from the next copy, or from the end of its call. -/
def distance : Nat :=
  match s.pc with
  | .idle => 0
  | .copying _ => if s.offset < slabSize then 1 else 8
  | .sealing _ => 7
  | .sending _ => 6
  | .scanning _ _ => 3
  | .sleeping _ => 3
  | .claiming _ _ => 2

/-- A byte to be copied weighs more than the sealing and the search that it may need. -/
def work : Nat :=
  9 * s.calls.length + 8 * s.rest.length + s.distance slabSize + 2 * s.channel.length +
    s.held.length

def Searching : Prop :=
  match s.pc with
  | .scanning _ _ => True
  | .sleeping _ => True
  | _ => False

/-- A step of the search: the writer looks at the next slab, sleeps or wakes. -/
def Searches : Prop := s.Searching ∧ s'.Searching ∧ s' = { s with pc := s'.pc }

end RingState

section

variable {slabSize : Nat} {total : Bytes} {s s' : RingState}

theorem RingState.rest_of_calls {call : Call} {calls : List Call} (hpc : s.pc = .idle)
    (hcalls : s.calls = call :: calls) :
    s.rest.length = call.bytes.length + (calls.flatMap Call.bytes).length := by
  unfold rest
  rw [hpc, hcalls, List.flatMap_cons, ← List.length_append]
  rfl

/-- The writer takes its next call. -/
theorem RingState.work_call {call : Call} {calls : List Call} {pc : WriterPc}
    (hidle : s.pc = .idle) (hcalls : s.calls = call :: calls) (hpc : pc.rest = call.bytes)
    (hdistance : RingState.distance slabSize { s with pc, calls } ≤ 8) :
    RingState.work slabSize { s with pc, calls } < s.work slabSize := by
  have hrest : (RingState.rest { s with pc, calls }).length = s.rest.length := by
    rw [rest_of_calls hidle hcalls, ← hpc, ← List.length_append]
    rfl
  unfold work
  rw [hrest, hcalls, List.length_cons]
  dsimp only
  omega

/-- The writer moves on within a call. -/
theorem RingState.work_move {pc : WriterPc} (hpc : pc.rest = s.pc.rest)
    (hdistance : RingState.distance slabSize { s with pc } < s.distance slabSize) :
    RingState.work slabSize { s with pc } < s.work slabSize := by
  have hrest : (RingState.rest { s with pc }).length = s.rest.length := by
    unfold rest
    rw [hpc]
  unfold work
  rw [hrest]
  dsimp only
  omega

theorem RingInv.work_copy (hinv : RingInv slabSize total s) {rest : Bytes}
    (hpc : s.pc = .copying rest) (hrest : rest ≠ []) (hroom : slabSize - s.offset ≠ 0) :
    RingState.work slabSize
      { s with
        buf := writeAt s.buf (slabStart slabSize s.slabIdx + s.offset)
          (rest.take (min rest.length (slabSize - s.offset)))
        offset := s.offset + min rest.length (slabSize - s.offset)
        pc := .copying (rest.drop (min rest.length (slabSize - s.offset))) } <
      s.work slabSize := by
  have hoff := hinv.off
  have hlen : 0 < rest.length := List.length_pos_iff.2 hrest
  have hold : s.distance slabSize = 1 := by
    unfold RingState.distance
    rw [hpc]
    exact if_pos (by omega)
  unfold RingState.work
  rw [hold]
  unfold RingState.rest RingState.distance
  simp only [hpc, WriterPc.rest, List.length_append, List.length_drop]
  split <;> omega

theorem RingState.work_sealing {rest : Option Bytes} (hpc : s.pc = .sealing rest) :
    RingState.work slabSize
      { s with slabs := s.slabs.set s.slabIdx .ready, pc := .sending rest } < s.work slabSize := by
  unfold work RingState.rest distance
  simp only [hpc, WriterPc.rest]
  omega

theorem RingState.work_send {rest : Option Bytes} (hpc : s.pc = .sending rest) :
    RingState.work slabSize
      { s with channel := s.channel ++ [s.lease slabSize], pc := afterSeal s.slabIdx rest } <
      s.work slabSize := by
  unfold work RingState.rest distance
  simp only [hpc, List.length_append, List.length_singleton]
  cases rest with
  | none =>
    simp only [afterSeal, WriterPc.rest, Option.getD_none]
    omega
  | some rest =>
    simp only [afterSeal, WriterPc.rest, Option.getD_some]
    omega

/-- A slab that has been claimed has room. -/
theorem RingState.work_claim (hsize : 1 ≤ slabSize) {rest : Bytes} {nextIdx : Nat}
    (hpc : s.pc = .claiming rest nextIdx) :
    RingState.work slabSize
      { s with
        slabs := s.slabs.set nextIdx .filling
        slabIdx := nextIdx
        offset := 0
        pc := .copying rest } < s.work slabSize := by
  unfold work RingState.rest distance
  simp only [hpc, WriterPc.rest]
  rw [if_pos (by omega)]
  omega

theorem RingState.work_recv {l : SlabLease} {channel : List SlabLease}
    (hchannel : s.channel = l :: channel) :
    RingState.work slabSize
      { s with channel, held := s.held ++ [l], received := s.received ++ [l.asSlice s.buf] } <
      s.work slabSize := by
  unfold work RingState.rest distance
  simp only [hchannel, List.length_append, List.length_cons, List.length_nil]
  omega

theorem RingState.work_drop {l : SlabLease} {held₁ held₂ : List SlabLease}
    (hheld : s.held = held₁ ++ l :: held₂) :
    RingState.work slabSize
      { s with slabs := s.slabs.set l.slabIdx .free, held := held₁ ++ held₂ } <
      s.work slabSize := by
  unfold work RingState.rest distance
  simp only [hheld, List.length_append, List.length_cons]
  omega

theorem RingState.distance_le (s : RingState) : s.distance slabSize ≤ 8 := by
  unfold distance
  split <;> try split
  all_goals omega

theorem RingState.distance_searching (h : s.Searching) : s.distance slabSize = 3 := by
  unfold Searching at h
  unfold distance
  cases hpc : s.pc <;> simp_all

/-- A step of the search keeps the work. -/
theorem RingState.work_search {pc : WriterPc} (hsearch : s.Searching)
    (hsearch' : RingState.Searching { s with pc }) (hrest : pc.rest = s.pc.rest) :
    s.Searches { s with pc } ∧ RingState.work slabSize { s with pc } = s.work slabSize := by
  refine ⟨⟨hsearch, hsearch', rfl⟩, ?_⟩
  unfold work
  rw [distance_searching hsearch, distance_searching hsearch']
  unfold RingState.rest
  rw [hrest]

/-- A step lowers the work, or it is one of the search. -/
def RingState.Works (slabSize : Nat) (s s' : RingState) : Prop :=
  s'.work slabSize < s.work slabSize ∨ (s.Searches s' ∧ s'.work slabSize = s.work slabSize)

theorem RingInv.work_writer (hinv : RingInv slabSize total s) (hsize : 1 ≤ slabSize)
    (hstep : WriterStep slabSize s s') : s.Works slabSize s' := by
  have hpcInv := hinv.pc
  unfold RingState.PcInv at hpcInv
  cases hstep with
  | write hpc hcalls =>
    exact .inl (RingState.work_call hpc hcalls rfl (RingState.distance_le _))
  | @flushNothing calls hpc hcalls hoff =>
    left
    have hsame : { s with calls } = { s with pc := .idle, calls } := by rw [← hpc]
    rw [hsame]
    exact RingState.work_call hpc hcalls rfl (RingState.distance_le _)
  | flush hpc hcalls hoff =>
    exact .inl (RingState.work_call hpc hcalls rfl (RingState.distance_le _))
  | written hpc =>
    refine .inl (RingState.work_move (by rw [hpc]; rfl) ?_)
    unfold RingState.distance
    rw [hpc]
    dsimp only
    split <;> omega
  | full hpc hrest hroom =>
    refine .inl (RingState.work_move (by rw [hpc]; rfl) ?_)
    unfold RingState.distance
    rw [hpc]
    dsimp only
    rw [if_neg (by omega)]
    omega
  | copy hpc hrest hroom => exact .inl (hinv.work_copy hpc hrest hroom)
  | markReady hpc hprev => exact .inl (RingState.work_sealing hpc)
  | alreadySealed hpc hprev =>
    rw [hpc] at hpcInv
    exact absurd hpcInv.1 hprev
  | send hpc => exact .inl (RingState.work_send hpc)
  | looped hpc hloop =>
    exact .inr (RingState.work_search (by simp [RingState.Searching, hpc]) trivial (by rw [hpc]; rfl))
  | found hpc hloop hfree =>
    refine .inl (RingState.work_move (by rw [hpc]; rfl) ?_)
    unfold RingState.distance
    rw [hpc]
    exact Nat.lt_succ_self 2
  | taken hpc hloop htaken =>
    exact .inr (RingState.work_search (by simp [RingState.Searching, hpc]) trivial (by rw [hpc]; rfl))
  | wake hpc =>
    exact .inr (RingState.work_search (by simp [RingState.Searching, hpc]) trivial (by rw [hpc]; rfl))
  | claim hpc hprev => exact .inl (RingState.work_claim hsize hpc)
  | raced hpc hprev =>
    rw [hpc] at hpcInv
    exact absurd hpcInv.2 hprev

theorem RingInv.work_step (hinv : RingInv slabSize total s) (hsize : 1 ≤ slabSize) {ev : RingEvent}
    (hstep : RingStep slabSize s ev s') : s.Works slabSize s' := by
  cases hstep with
  | writer hok hstep => exact hinv.work_writer hsize hstep
  | recv hok hchannel => exact .inl (RingState.work_recv hchannel)
  | drop hok hheld hprev => exact .inl (RingState.work_drop hheld)
  | dropRaced hok hheld hprev =>
    refine absurd ((hinv.ready _).2 (List.mem_map_of_mem ?_)) hprev
    refine List.mem_append_left _ ?_
    rw [hheld]
    exact List.mem_append_right _ List.mem_cons_self

/-! ## The search -/

/-- When no lease is alive every slab but the current one is free. -/
theorem RingInv.candidate_free (hinv : RingInv slabSize total s) (hsearch : s.Searching)
    (halive : s.alive = []) {nextIdx : Nat} (hne : s.candidate nextIdx ≠ s.slabIdx) :
    s.slabs[s.candidate nextIdx]? = some .free := by
  have hlt : s.candidate nextIdx < s.slabs.length := Nat.mod_lt _ (Nat.zero_lt_of_lt hinv.idx)
  have hsend : ∀ rest, s.pc ≠ .sending rest := by
    intro rest hpc
    unfold RingState.Searching at hsearch
    rw [hpc] at hsearch
    exact hsearch
  have hleases : s.leases slabSize = [] := by
    unfold RingState.leases
    rw [RingState.pending_of_ne hsend, List.append_nil]
    exact halive
  rw [List.getElem?_eq_getElem hlt]
  cases hst : s.slabs[s.candidate nextIdx] with
  | free => rfl
  | filling =>
    refine absurd (hinv.filling _ ?_) hne
    rw [List.getElem?_eq_getElem hlt, hst]
  | ready =>
    have := (hinv.ready (s.candidate nextIdx)).1 (by rw [List.getElem?_eq_getElem hlt, hst])
    rw [hleases] at this
    cases this

/-- The first slab that a search looks at is not the current one. -/
theorem RingInv.candidate_ne (hinv : RingInv slabSize total s) (hcount : 2 ≤ s.slabs.length) :
    s.candidate s.slabIdx ≠ s.slabIdx := by
  have hidx := hinv.idx
  unfold RingState.candidate
  by_cases hlast : s.slabIdx + 1 = s.slabs.length
  · rw [hlast, Nat.mod_self]
    omega
  · rw [Nat.mod_eq_of_lt (by omega)]
    omega

theorem WriterStep.of_scanning {rest : Bytes} {nextIdx : Nat} (h : WriterStep slabSize s s')
    (hpc : s.pc = .scanning rest nextIdx) (hne : s.candidate nextIdx ≠ s.slabIdx)
    (hfree : s.slabs[s.candidate nextIdx]? = some .free) :
    s' = { s with pc := .claiming rest (s.candidate nextIdx) } := by
  cases h <;> simp_all

theorem WriterStep.of_claiming {rest : Bytes} {nextIdx : Nat} (h : WriterStep slabSize s s')
    (hpc : s.pc = .claiming rest nextIdx) (hfree : s.slabs[nextIdx]? = some .free) :
    s' = { s with
      slabs := s.slabs.set nextIdx .filling
      slabIdx := nextIdx
      offset := 0
      pc := .copying rest } := by
  cases h <;> simp_all

/-- While no lease is alive only the writer moves. -/
theorem RingStep.of_not_alive {ev : RingEvent} (h : RingStep slabSize s ev s')
    (halive : s.alive = []) : WriterStep slabSize s s' := by
  obtain ⟨hheld, hchannel⟩ := List.append_eq_nil_iff.1 halive
  cases h with
  | writer hok h => exact h
  | recv hok h =>
    rw [hchannel] at h
    cases h
  | drop hok h =>
    rw [hheld] at h
    simp at h
  | dropRaced hok h =>
    rw [hheld] at h
    simp at h

/-- The search finds and claims a free slab in its next two steps. -/
def ClaimsNext (slabSize : Nat) (s : RingState) (rest : Bytes) : Prop :=
  (∃ s', RingStep slabSize s .writer s') ∧ ∀ ev s', RingStep slabSize s ev s' →
    (∃ s'', RingStep slabSize s' .writer s'') ∧ ∀ ev' s'', RingStep slabSize s' ev' s'' →
      s''.pc = .copying rest ∧ s''.slabIdx ≠ s.slabIdx ∧ s''.Owned ∧ s''.offset = 0

theorem RingInv.claimsNext (hinv : RingInv slabSize total s) (hcount : 2 ≤ s.slabs.length)
    {rest : Bytes} (hpc : s.pc = .scanning rest s.slabIdx) (halive : s.alive = []) :
    ClaimsNext slabSize s rest := by
  have hne := hinv.candidate_ne hcount
  have hfree := hinv.candidate_free (by simp [RingState.Searching, hpc]) halive hne
  have hlt : s.candidate s.slabIdx < s.slabs.length := (List.getElem?_eq_some_iff.1 hfree).1
  refine ⟨⟨_, .writer hinv.ok (.found hpc hne hfree)⟩, fun ev s' h => ?_⟩
  obtain rfl := (h.of_not_alive halive).of_scanning hpc hne hfree
  refine ⟨⟨_, .writer hinv.ok (.claim rfl hfree)⟩, fun ev' s'' h' => ?_⟩
  obtain rfl := (h'.of_not_alive halive).of_claiming rfl hfree
  exact ⟨rfl, hne, RingState.owned_of_claimed rfl hlt, rfl⟩

/-! ## The end -/

/-- There is always a step while the writer has calls or the reader leases to receive. -/
theorem RingInv.progress (hinv : RingInv slabSize total s) :
    s.Finished ∨ ∃ ev s', RingStep slabSize s ev s' := by
  have hwriter {s' : RingState} (h : WriterStep slabSize s s') :
      s.Finished ∨ ∃ ev s', RingStep slabSize s ev s' := .inr ⟨.writer, s', .writer hinv.ok h⟩
  cases hpc : s.pc with
  | idle =>
    cases hcalls : s.calls with
    | nil =>
      cases hchannel : s.channel with
      | nil => exact .inl ⟨hcalls, hpc, hchannel⟩
      | cons l channel => exact .inr ⟨.recv, _, .recv hinv.ok hchannel⟩
    | cons call calls =>
      cases call with
      | write buf => exact hwriter (.write hpc hcalls)
      | flush =>
        by_cases hoff : s.offset = 0
        · exact hwriter (.flushNothing hpc hcalls hoff)
        · exact hwriter (.flush hpc hcalls hoff)
  | copying rest =>
    by_cases hrest : rest = []
    · exact hwriter (.written (hrest ▸ hpc))
    · by_cases hroom : slabSize - s.offset = 0
      · exact hwriter (.full hpc hrest hroom)
      · exact hwriter (.copy hpc hrest hroom)
  | sealing rest =>
    by_cases hprev : s.slabs[s.slabIdx]? = some .filling
    · exact hwriter (.markReady hpc hprev)
    · exact hwriter (.alreadySealed hpc hprev)
  | sending rest => exact hwriter (.send hpc)
  | scanning rest nextIdx =>
    by_cases hloop : s.candidate nextIdx = s.slabIdx
    · exact hwriter (.looped hpc hloop)
    · by_cases hfree : s.slabs[s.candidate nextIdx]? = some .free
      · exact hwriter (.found hpc hloop hfree)
      · exact hwriter (.taken hpc hloop hfree)
  | sleeping rest => exact hwriter (.wake hpc)
  | claiming rest nextIdx =>
    by_cases hprev : s.slabs[nextIdx]? = some .free
    · exact hwriter (.claim hpc hprev)
    · exact hwriter (.raced hpc hprev)

/-- A lease that is held can be dropped, one that is sent can be received. -/
theorem RingInv.reads (hinv : RingInv slabSize total s) (halive : s.alive ≠ []) :
    ∃ ev s', RingStep slabSize s ev s' ∧ s'.work slabSize < s.work slabSize := by
  cases hheld : s.held with
  | cons l held =>
    have hmem : l ∈ s.leases slabSize := by
      unfold RingState.leases
      rw [hheld]
      exact List.mem_append_left _ List.mem_cons_self
    refine ⟨.drop, _, @RingStep.drop _ _ l [] held hinv.ok hheld ?_, ?_⟩
    · exact (hinv.ready l.slabIdx).2 (List.mem_map_of_mem hmem)
    · exact RingState.work_drop hheld
  | nil =>
    cases hchannel : s.channel with
    | nil => exact absurd (by rw [RingState.alive, hheld, hchannel]; rfl) halive
    | cons l channel =>
      exact ⟨.recv, _, .recv hinv.ok hchannel, RingState.work_recv hchannel⟩

/-- With no lease alive a search ends: a free slab is looked at, at once or after a sleep. -/
theorem RingInv.search_ends (hinv : RingInv slabSize total s) (hcount : 2 ≤ s.slabs.length)
    (hsearch : s.Searching) (halive : s.alive = []) :
    ∃ evs s', RingRun slabSize s evs s' ∧ s'.work slabSize < s.work slabSize := by
  have hok := hinv.ok
  have hne := hinv.candidate_ne hcount
  have hfree := hinv.candidate_free hsearch halive hne
  have hclaiming (rest : Bytes) (nextIdx : Nat) (hrest : rest = s.pc.rest) :
      RingState.work slabSize { s with pc := .claiming rest nextIdx } < s.work slabSize := by
    refine RingState.work_move hrest ?_
    rw [RingState.distance_searching hsearch]
    exact Nat.lt_succ_self 2
  cases hpc : s.pc with
  | scanning rest nextIdx =>
    have hrest : rest = s.pc.rest := by
      rw [hpc]
      rfl
    by_cases hloop : s.candidate nextIdx = s.slabIdx
    · refine ⟨[.writer, .writer, .writer], _, ?_, hclaiming rest (s.candidate s.slabIdx) hrest⟩
      refine .cons (.writer hok (.looped hpc hloop)) ?_
      refine .cons (.writer hok (.wake rfl)) ?_
      exact .cons (.writer hok (.found rfl hne hfree)) (.refl _)
    · have hfound := hinv.candidate_free hsearch halive hloop
      refine ⟨[.writer], _, ?_, hclaiming rest (s.candidate nextIdx) hrest⟩
      exact .cons (.writer hok (.found hpc hloop hfound)) (.refl _)
  | sleeping rest =>
    have hrest : rest = s.pc.rest := by
      rw [hpc]
      rfl
    refine ⟨[.writer, .writer], _, ?_, hclaiming rest (s.candidate s.slabIdx) hrest⟩
    refine .cons (.writer hok (.wake hpc)) ?_
    exact .cons (.writer hok (.found rfl hne hfree)) (.refl _)
  | _ =>
    unfold RingState.Searching at hsearch
    rw [hpc] at hsearch
    cases hsearch

/-- Before the end the work can be lowered: by the reader, or else by the writer. -/
theorem RingInv.lowers (hinv : RingInv slabSize total s) (hsize : 1 ≤ slabSize)
    (hcount : 2 ≤ s.slabs.length) :
    s.Finished ∨ ∃ evs s', RingRun slabSize s evs s' ∧ s'.work slabSize < s.work slabSize := by
  by_cases halive : s.alive = []
  · rcases hinv.progress with hfin | ⟨ev, s', hstep⟩
    · exact .inl hfin
    · right
      rcases hinv.work_step hsize hstep with hlt | ⟨⟨hsearch, -, -⟩, -⟩
      · exact ⟨_, _, .cons hstep (.refl _), hlt⟩
      · exact hinv.search_ends hcount hsearch halive
  · obtain ⟨ev, s', hstep, hlt⟩ := hinv.reads halive
    exact .inr ⟨_, _, .cons hstep (.refl _), hlt⟩

theorem length_slabs {ev : RingEvent} (h : RingStep slabSize s ev s') :
    s'.slabs.length = s.slabs.length := by
  cases h with
  | writer hok h => cases h <;> simp
  | recv => rfl
  | drop => simp
  | dropRaced => simp

end

end S3Archive.Jrodon
