import S3Archive.Jrodon.SlabRingLossless

/-!
# jrodon: writes after a flush

`flush` seals the current slab and leaves the writer on it. `view` is the state as the
ring's invariant knows it: a writer on a sealed slab counts as one that searches, and a
slab that was sealed once more after its lease was dropped counts as lent for good
(`leaked`). `ringWriter_sound_iff` says in which runs the writer fills only slabs that it
owns: those in which a flush with bytes still to come finds its slab empty or full.
-/

namespace S3Archive.Jrodon

section

variable (slabSize : Nat)

/-- A step with the check of `is_zero_space` in front of the calls. -/
inductive CheckedStep : RingState → RingEvent → RingState → Prop where
  | ring {s s' : RingState} {ev : RingEvent} (hspace : s.buf ≠ []) (h : RingStep slabSize s ev s') :
    CheckedStep s ev s'
  /-- `write` returns an error, `flush` does nothing. -/
  | zeroSpace {s : RingState} {call : Call} {calls : List Call} (hzero : s.buf = [])
      (hpc : s.pc = .idle) (hcalls : s.calls = call :: calls) :
    CheckedStep s .writer { s with calls }

/-- What the calls of `write` report as accepted. -/
def accepted (slabCount : Nat) (calls : List Call) : Bytes :=
  if slabSize * slabCount = 0 then [] else calls.flatMap Call.bytes

/-- A flush with bytes still to come finds its slab empty or full. -/
def FlushFits (s : RingState) : Prop :=
  s.pc = .idle → ∀ calls, s.calls = .flush :: calls →
    s.offset = 0 ∨ s.offset = slabSize ∨ calls.flatMap Call.bytes = []

def FittingStep (s : RingState) (ev : RingEvent) (s' : RingState) : Prop :=
  CheckedStep slabSize s ev s' ∧ (ev = .writer → FlushFits slabSize s)

namespace RingState

/-- What `write` copies next goes into a slab that is `filling`. -/
def FillsOwned (s : RingState) : Prop :=
  ∀ rest, s.pc = .copying rest → rest ≠ [] → s.offset < slabSize → s.Owned

/-- A writer on a sealed slab has already to search for the next one. -/
def settled (s : RingState) : WriterPc :=
  if s.Owned then s.pc else
    match s.pc with
    | .copying [] => .idle
    | .copying (b :: rest) => .scanning (b :: rest) s.slabIdx
    | .sealing rest => afterSeal s.slabIdx rest
    | pc => pc

def view (leaked : List SlabLease) (s : RingState) : RingState :=
  { s with held := leaked ++ s.held, pc := s.settled }

/-- On a slab that is or will be sealed: it is full, or there is nothing more to write. -/
def Sealable (s : RingState) : Prop := s.offset = slabSize ∨ s.rest = []

/-- Where the writer is with respect to `Sealable`. -/
def Fits (s : RingState) : Prop :=
  match s.pc with
  | .idle => s.Owned ∨ s.Sealable slabSize
  | .copying _ => s.Owned ∨ s.Sealable slabSize
  | .sealing _ => s.Sealable slabSize
  | .sending _ => s.Sealable slabSize
  | _ => True

/-- The last call is a flush: it is still to come, or it has sealed what was left. -/
def Flushed (s : RingState) : Prop :=
  s.calls.getLast? = some .flush ∨ (s.calls = [] ∧
    match s.pc with
    | .idle => s.Owned → s.offset = 0
    | .sealing none => True
    | .sending none => True
    | _ => False)

end RingState

end

variable {slabSize : Nat} {total : Bytes} {s s' : RingState} {leaked : List SlabLease}

/-! ## The view -/

namespace RingState

theorem settled_of_owned (h : s.Owned) : s.settled = s.pc := if_pos h

/-- Only in front of a copy or a seal it matters that the slab is sealed. -/
theorem settled_of_ne (hcopy : ∀ rest, s.pc ≠ .copying rest)
    (hseal : ∀ rest, s.pc ≠ .sealing rest) : s.settled = s.pc := by
  unfold settled
  split
  · rfl
  · split
    · rename_i hpc
      exact absurd hpc (hcopy _)
    · rename_i hpc
      exact absurd hpc (hcopy _)
    · rename_i hpc
      exact absurd hpc (hseal _)
    · rfl

theorem settled_of_idle (h : s.pc = .idle) : s.settled = .idle := by
  rw [settled_of_ne (by simp [h]) (by simp [h]), h]

theorem settled_of_sealing {rest : Option Bytes} (h : ¬ s.Owned) (hpc : s.pc = .sealing rest) :
    s.settled = afterSeal s.slabIdx rest := by
  unfold settled
  rw [if_neg h, hpc]

theorem settled_rest (s : RingState) : s.settled.rest = s.pc.rest := by
  unfold settled
  split
  · rfl
  · cases hpc : s.pc with
    | copying rest => cases rest <;> rfl
    | sealing rest => cases rest <;> rfl
    | _ => rfl

/-- On a sealed slab the view has returned or searches. -/
theorem settled_of_sealed (h : ¬ s.Owned)
    (hpc : s.pc = .idle ∨ (∃ rest, s.pc = .copying rest) ∨ ∃ rest, s.pc = .sealing rest) :
    ∃ rest, s.settled = afterSeal s.slabIdx rest := by
  rcases hpc with hpc | ⟨rest, hpc⟩ | ⟨rest, hpc⟩
  · exact ⟨none, settled_of_idle hpc⟩
  · unfold settled
    rw [if_neg h, hpc]
    cases rest with
    | nil => exact ⟨none, rfl⟩
    | cons b rest => exact ⟨some (b :: rest), rfl⟩
  · exact ⟨rest, settled_of_sealing h hpc⟩

end RingState

theorem afterSeal_ne_sending (idx : Nat) (rest : Option Bytes) (r : Option Bytes) :
    afterSeal idx rest ≠ .sending r := by
  cases rest <;> simp [afterSeal]

/-- After `seal` the writer has left the slab. -/
theorem RingState.settled_of_afterSeal {idx : Nat} {rest : Option Bytes}
    (h : s.pc = afterSeal idx rest) : s.settled = s.pc := by
  apply settled_of_ne
  · cases rest <;> simp [h, afterSeal]
  · cases rest <;> simp [h, afterSeal]

/-- The reader's leases are no concern of the writer. -/
theorem WriterStep.held (h : WriterStep slabSize s s') (leases : List SlabLease) :
    WriterStep slabSize { s with held := leases ++ s.held }
      { s' with held := leases ++ s'.held } := by
  cases h with
  | write hpc hcalls => exact .write hpc hcalls
  | flushNothing hpc hcalls hoff => exact .flushNothing hpc hcalls hoff
  | flush hpc hcalls hoff => exact .flush hpc hcalls hoff
  | written hpc => exact .written hpc
  | full hpc hrest hroom => exact .full hpc hrest hroom
  | copy hpc hrest hroom => exact .copy hpc hrest hroom
  | markReady hpc hprev => exact .markReady hpc hprev
  | alreadySealed hpc hprev => exact .alreadySealed hpc hprev
  | send hpc => exact .send hpc
  | looped hpc hloop => exact .looped hpc hloop
  | found hpc hloop hfree => exact .found hpc hloop hfree
  | taken hpc hloop htaken => exact .taken hpc hloop htaken
  | wake hpc => exact .wake hpc
  | claim hpc hprev => exact .claim hpc hprev
  | raced hpc hprev => exact .raced hpc hprev

/-- Where the view is the state itself, its step is a step of the ring. -/
theorem RingInv.view_writer (hview : RingInv slabSize total (s.view leaked)) (hcall : CallOk s)
    (hstep : WriterStep slabSize s s') (hs : s.settled = s.pc) (hs' : s'.settled = s'.pc) :
    RingInv slabSize total (s'.view leaked) := by
  unfold RingState.view at hview ⊢
  rw [hs] at hview
  rw [hs']
  exact hview.writer hcall (hstep.held leaked)

/-- On a sealed slab the view moves on or stays where it is. -/
theorem RingInv.view_move (hview : RingInv slabSize total (s.view leaked)) (howned : ¬ s.Owned)
    {pc : WriterPc} {calls : List Call} (hold : ∀ rest, s.pc ≠ .sending rest)
    (hnew : pc = .idle ∨ (∃ rest, pc = .copying rest) ∨ ∃ rest, pc = .sealing rest)
    (hrest : pc.rest ++ calls.flatMap Call.bytes = s.rest) :
    RingInv slabSize total (RingState.view leaked { s with pc, calls }) := by
  obtain ⟨rest, hsettled⟩ := @RingState.settled_of_sealed { s with pc, calls } howned hnew
  have hmove : RingInv slabSize total
      { s.view leaked with pc := afterSeal s.slabIdx rest, calls } := by
    apply hview.move
    · intro r hr
      unfold RingState.view RingState.settled at hr
      rw [if_neg howned] at hr
      cases hpc : s.pc with
      | sending rest => exact hold rest hpc
      | copying rest => rw [hpc] at hr; cases rest <;> cases hr
      | sealing rest => rw [hpc] at hr; exact afterSeal_ne_sending _ _ _ hr
      | _ => rw [hpc] at hr; cases hr
    · exact afterSeal_ne_sending _ _
    · rw [← hsettled, RingState.settled_rest, hrest]
      show _ = s.settled.rest ++ _
      rw [RingState.settled_rest]
      rfl
    · cases rest with
      | none => trivial
      | some rest => exact howned
  unfold RingState.view
  rw [hsettled]
  exact hmove

/-- A slab without a lease is sealed once more. -/
theorem RingInv.leak (hinv : RingInv slabSize total s) {rest : Option Bytes}
    (hpc : s.pc = afterSeal s.slabIdx rest) (hfree : s.slabs[s.slabIdx]? = some .free) :
    RingInv slabSize total
      { s with
        slabs := s.slabs.set s.slabIdx .ready
        held := ⟨s.slabIdx, slabStart slabSize s.slabIdx, 0⟩ :: s.held } := by
  have hset (i : Nat) (st : SlabState) : (s.slabs.set s.slabIdx st)[i]? =
      if s.slabIdx = i then some st else s.slabs[i]? := getElem?_set_slab hinv.idx
  have howned : ¬ s.Owned := by
    unfold RingState.Owned
    simp [hfree]
  have howned' : ¬ RingState.Owned
      { s with
        slabs := s.slabs.set s.slabIdx .ready
        held := ⟨s.slabIdx, slabStart slabSize s.slabIdx, 0⟩ :: s.held } :=
    RingState.not_owned_of_sealed rfl hinv.idx
  have hnew : RingState.leases slabSize
      { s with
        slabs := s.slabs.set s.slabIdx .ready
        held := ⟨s.slabIdx, slabStart slabSize s.slabIdx, 0⟩ :: s.held } =
      ⟨s.slabIdx, slabStart slabSize s.slabIdx, 0⟩ :: s.leases slabSize := rfl
  have hfresh : s.slabIdx ∉ (s.leases slabSize).map SlabLease.slabIdx := by
    intro hmem
    have hready := (hinv.ready _).2 hmem
    rw [hfree] at hready
    cases hready
  refine ⟨?_, ?_, hinv.off, hinv.ok, fun i hi => ?_, fun i => ?_, ?_, ?_, ?_, ?_⟩
  · rw [List.length_set]
    exact hinv.buf
  · rw [List.length_set]
    exact hinv.idx
  · dsimp only at hi
    rw [hset] at hi
    split at hi
    · cases hi
    · exact hinv.filling i hi
  · rw [hnew, List.map_cons, List.mem_cons, ← hinv.ready i]
    dsimp only
    rw [hset]
    by_cases hi : s.slabIdx = i
    · rw [if_pos hi]
      exact iff_of_true rfl (.inl hi.symm)
    · rw [if_neg hi]
      exact (or_iff_right fun h => hi h.symm).symm
  · rw [hnew]
    exact List.nodup_cons.2 ⟨hfresh, hinv.nodup⟩
  · rw [hnew]
    exact List.forall_mem_cons.2 ⟨⟨rfl, Nat.zero_le _⟩, hinv.lease⟩
  · unfold RingState.PcInv
    dsimp only
    rw [hpc]
    cases rest with
    | none => trivial
    | some rest => exact howned'
  · have hbytes := hinv.bytes
    rw [RingState.filled_of_not howned] at hbytes
    rw [RingState.filled_of_not howned']
    exact hbytes

/-! ## Steps -/

theorem CallOk.of_ne (h : s.pc ≠ .idle) : CallOk s := fun hpc _ => absurd hpc h

theorem RingState.Sealable.not_copy {rest : Bytes} (h : s.Sealable slabSize)
    (hpc : s.pc = .copying rest) (hrest : rest ≠ []) : slabSize - s.offset = 0 := by
  rcases h with h | h
  · omega
  · unfold RingState.rest at h
    rw [hpc] at h
    exact absurd (List.append_eq_nil_iff.1 h).1 hrest

/-- The slab is sealed already: a lease of it is alive, or it is lent for good. -/
theorem RingInv.view_alreadySealed (hview : RingInv slabSize total (s.view leaked))
    {rest : Option Bytes} (hpc : s.pc = .sealing rest) (howned : ¬ s.Owned) :
    ∃ leaked', RingInv slabSize total (RingState.view leaked'
      { s with slabs := s.slabs.set s.slabIdx .ready, pc := afterSeal s.slabIdx rest }) := by
  have hidx : s.slabIdx < s.slabs.length := hview.idx
  have hsettled : RingState.settled
      { s with slabs := s.slabs.set s.slabIdx .ready, pc := afterSeal s.slabIdx rest } =
      afterSeal s.slabIdx rest :=
    RingState.settled_of_afterSeal rfl
  have hold : s.settled = afterSeal s.slabIdx rest := RingState.settled_of_sealing howned hpc
  cases hslab : s.slabs[s.slabIdx] with
  | filling => exact absurd (by rw [RingState.Owned, List.getElem?_eq_getElem hidx, hslab]) howned
  | ready =>
    refine ⟨leaked, ?_⟩
    have hset : s.slabs.set s.slabIdx .ready = s.slabs := by
      rw [← hslab]
      exact List.set_getElem_self hidx
    unfold RingState.view at hview ⊢
    rw [hsettled]
    rw [hold] at hview
    dsimp only
    rw [hset]
    exact hview
  | free =>
    refine ⟨⟨s.slabIdx, slabStart slabSize s.slabIdx, 0⟩ :: leaked, ?_⟩
    have hleak := hview.leak hold (by
      show s.slabs[s.slabIdx]? = _
      rw [List.getElem?_eq_getElem hidx, hslab])
    unfold RingState.view at hleak ⊢
    rw [hsettled]
    rw [hold] at hleak
    exact hleak

theorem RingInv.view_step (hview : RingInv slabSize total (s.view leaked))
    (hfits : s.Fits slabSize) (hstep : WriterStep slabSize s s') :
    ∃ leaked', RingInv slabSize total (s'.view leaked') := by
  have hpcInv := hview.pc
  unfold RingState.PcInv RingState.view at hpcInv
  dsimp only at hpcInv
  -- a move of the writer on its own slab, or on one that is sealed
  have hmove {pc : WriterPc} {calls : List Call} (hs' : s' = { s with pc, calls })
      (hold : ∀ rest, s.pc ≠ .sending rest)
      (hnew : pc = .idle ∨ (∃ rest, pc = .copying rest) ∨ ∃ rest, pc = .sealing rest)
      (hrest : pc.rest ++ calls.flatMap Call.bytes = s.rest) :
      ∃ leaked', RingInv slabSize total (s'.view leaked') := by
    by_cases howned : s.Owned
    · refine ⟨leaked, hview.view_writer (fun _ _ => howned) hstep
        (RingState.settled_of_owned howned) (RingState.settled_of_owned ?_)⟩
      rw [hs']
      exact howned
    · rw [hs']
      exact ⟨leaked, hview.view_move howned hold hnew hrest⟩
  -- a step that the view takes as it is
  have hsame (hidle : s.pc ≠ .idle) (hs : s.settled = s.pc) (hs' : s'.settled = s'.pc) :
      ∃ leaked', RingInv slabSize total (s'.view leaked') :=
    ⟨leaked, hview.view_writer (.of_ne hidle) hstep hs hs'⟩
  cases hstep with
  | write hpc hcalls =>
    apply hmove rfl (by simp [hpc]) (.inr (.inl ⟨_, rfl⟩))
    simp [RingState.rest, hpc, hcalls, WriterPc.rest, Call.bytes]
  | @flushNothing calls hpc hcalls hoff =>
    apply hmove (by rw [← hpc]) (by simp [hpc]) (.inl rfl)
    simp [RingState.rest, hpc, hcalls, WriterPc.rest, Call.bytes]
  | flush hpc hcalls hoff =>
    apply hmove rfl (by simp [hpc]) (.inr (.inr ⟨_, rfl⟩))
    simp [RingState.rest, hpc, hcalls, WriterPc.rest, Call.bytes]
  | written hpc =>
    apply hmove rfl (by simp [hpc]) (.inl rfl)
    simp [RingState.rest, hpc, WriterPc.rest]
  | full hpc hrest hroom =>
    apply hmove rfl (by simp [hpc]) (.inr (.inr ⟨_, rfl⟩))
    simp [RingState.rest, hpc, WriterPc.rest]
  | copy hpc hrest hroom =>
    unfold RingState.Fits at hfits
    rw [hpc] at hfits
    have howned := hfits.resolve_right fun h => hroom (h.not_copy hpc hrest)
    exact hsame (by simp [hpc]) (RingState.settled_of_owned howned)
      (RingState.settled_of_owned howned)
  | markReady hpc hprev =>
    exact hsame (by simp [hpc]) (RingState.settled_of_owned hprev)
      (RingState.settled_of_ne (by simp) (by simp))
  | alreadySealed hpc hprev => exact hview.view_alreadySealed hpc hprev
  | @send rest hpc =>
    exact hsame (by simp [hpc]) (RingState.settled_of_ne (by simp [hpc]) (by simp [hpc]))
      (RingState.settled_of_afterSeal rfl)
  | looped hpc hloop =>
    exact hsame (by simp [hpc]) (RingState.settled_of_ne (by simp [hpc]) (by simp [hpc]))
      (RingState.settled_of_ne (by simp) (by simp))
  | found hpc hloop hfree =>
    exact hsame (by simp [hpc]) (RingState.settled_of_ne (by simp [hpc]) (by simp [hpc]))
      (RingState.settled_of_ne (by simp) (by simp))
  | taken hpc hloop htaken =>
    exact hsame (by simp [hpc]) (RingState.settled_of_ne (by simp [hpc]) (by simp [hpc]))
      (RingState.settled_of_ne (by simp) (by simp))
  | wake hpc =>
    exact hsame (by simp [hpc]) (RingState.settled_of_ne (by simp [hpc]) (by simp [hpc]))
      (RingState.settled_of_ne (by simp) (by simp))
  | claim hpc hprev =>
    exact hsame (by simp [hpc]) (RingState.settled_of_ne (by simp [hpc]) (by simp [hpc]))
      (RingState.settled_of_owned
        (RingState.owned_of_claimed rfl (List.getElem?_eq_some_iff.1 hprev).1))
  | raced hpc hprev =>
    rw [RingState.settled_of_ne (by simp [hpc]) (by simp [hpc]), hpc] at hpcInv
    exact absurd hpcInv.2 hprev

theorem RingState.Sealable.congr (h : s.Sealable slabSize) (hoff : s'.offset = s.offset)
    (hrest : s'.rest = s.rest) : s'.Sealable slabSize := by
  unfold Sealable
  rw [hoff, hrest]
  exact h

theorem RingState.Fits.writer (h : s.Fits slabSize) (hflush : FlushFits slabSize s)
    (hoff : s.offset ≤ slabSize) (hstep : WriterStep slabSize s s') : s'.Fits slabSize := by
  unfold Fits at h ⊢
  cases hstep with
  | write hpc hcalls =>
    rw [hpc] at h
    refine h.imp_right fun hseal => hseal.congr rfl ?_
    simp [rest, hpc, hcalls, WriterPc.rest, Call.bytes]
  | flushNothing hpc hcalls hzero =>
    dsimp only
    rw [hpc] at h ⊢
    refine h.imp_right fun hseal => hseal.congr rfl ?_
    simp [rest, hpc, hcalls, Call.bytes]
  | flush hpc hcalls hpos =>
    rcases hflush hpc _ hcalls with hzero | hfull | hnil
    · exact absurd hzero hpos
    · exact .inl hfull
    · exact .inr hnil
  | written hpc =>
    rw [hpc] at h
    refine h.imp_right fun hseal => hseal.congr rfl ?_
    simp [rest, hpc, WriterPc.rest]
  | full hpc hrest hroom => exact .inl (by dsimp only; omega)
  | copy hpc hrest hroom =>
    rw [hpc] at h
    exact .inl (h.resolve_right fun hseal => hroom (hseal.not_copy hpc hrest))
  | markReady hpc hprev =>
    rw [hpc] at h
    refine h.congr rfl ?_
    simp [rest, hpc, WriterPc.rest]
  | @alreadySealed rest hpc hprev =>
    rw [hpc] at h
    cases rest with
    | none =>
      refine .inr (h.congr rfl ?_)
      simp [RingState.rest, hpc, WriterPc.rest, afterSeal]
    | some rest => trivial
  | @send rest hpc =>
    rw [hpc] at h
    cases rest with
    | none =>
      refine .inr (h.congr rfl ?_)
      simp [RingState.rest, hpc, WriterPc.rest, afterSeal]
    | some rest => trivial
  | looped => trivial
  | found => trivial
  | taken => trivial
  | wake => trivial
  | claim hpc hprev => exact .inl (owned_of_claimed rfl (List.getElem?_eq_some_iff.1 hprev).1)
  | raced hpc hprev =>
    dsimp only
    rw [hpc]
    trivial

theorem getLast?_of_cons {call : Call} {calls : List Call}
    (h : (call :: calls).getLast? = some .flush) :
    calls.getLast? = some .flush ∨ (calls = [] ∧ call = .flush) := by
  cases calls with
  | nil => exact .inr ⟨rfl, Option.some.inj h⟩
  | cons c calls => exact .inl (by rwa [List.getLast?_cons_cons] at h)

theorem RingState.Flushed.writer (h : s.Flushed) (hstep : WriterStep slabSize s s')
    (hsent : ∀ rest, s.pc = .sending rest → ¬ s.Owned) (hidx : s.slabIdx < s.slabs.length) :
    s'.Flushed := by
  unfold Flushed at h ⊢
  cases hstep with
  | write hpc hcalls =>
    rw [hcalls] at h
    rcases getLast?_of_cons (h.resolve_right (by simp)) with hlast | ⟨-, hcall⟩
    · exact .inl hlast
    · cases hcall
  | flushNothing hpc hcalls hzero =>
    rw [hcalls] at h
    dsimp only
    rw [hpc]
    exact (getLast?_of_cons (h.resolve_right (by simp))).imp_right fun hlast =>
      ⟨hlast.1, fun _ => hzero⟩
  | flush hpc hcalls hpos =>
    rw [hcalls] at h
    exact (getLast?_of_cons (h.resolve_right (by simp))).imp_right fun hlast =>
      ⟨hlast.1, trivial⟩
  | @markReady rest hpc hprev =>
    rw [hpc] at h
    cases rest with
    | none => exact h
    | some rest => exact h
  | @alreadySealed rest hpc hprev =>
    rw [hpc] at h
    cases rest with
    | none =>
      exact h.imp_right fun hlast =>
        ⟨hlast.1, fun howned => absurd howned (not_owned_of_sealed rfl hidx)⟩
    | some rest => exact h
  | @send rest hpc =>
    have howned := hsent rest hpc
    rw [hpc] at h
    cases rest with
    | none => exact h.imp_right fun hlast => ⟨hlast.1, fun h => absurd h howned⟩
    | some rest => exact h
  | raced hpc hprev =>
    dsimp only
    rw [hpc] at h ⊢
    exact h
  | written hpc => rw [hpc] at h; exact .inl (h.resolve_right (by simp))
  | full hpc => rw [hpc] at h; exact .inl (h.resolve_right (by simp))
  | copy hpc => rw [hpc] at h; exact .inl (h.resolve_right (by simp))
  | looped hpc => rw [hpc] at h; exact .inl (h.resolve_right (by simp))
  | found hpc => rw [hpc] at h; exact .inl (h.resolve_right (by simp))
  | taken hpc => rw [hpc] at h; exact .inl (h.resolve_right (by simp))
  | wake hpc => rw [hpc] at h; exact .inl (h.resolve_right (by simp))
  | claim hpc => rw [hpc] at h; exact .inl (h.resolve_right (by simp))

structure FlushInv (slabSize : Nat) (total : Bytes) (last : Prop) (s : RingState) : Prop where
  view : ∃ leaked, RingInv slabSize total (s.view leaked)
  fits : s.Fits slabSize
  flushed : last → s.Flushed

variable {last : Prop}

theorem FlushInv.of_owned_iff (h : FlushInv slabSize total last s)
    (hview : ∃ leaked, RingInv slabSize total (s'.view leaked)) (hpc : s'.pc = s.pc)
    (hcalls : s'.calls = s.calls) (hoff : s'.offset = s.offset) (howned : s'.Owned ↔ s.Owned) :
    FlushInv slabSize total last s' := by
  refine ⟨hview, ?_, fun hlast => ?_⟩
  · have hfits := h.fits
    unfold RingState.Fits RingState.Sealable RingState.rest at hfits ⊢
    rw [hpc, hcalls, hoff, howned]
    exact hfits
  · have hflushed := h.flushed hlast
    unfold RingState.Flushed at hflushed ⊢
    rw [hpc, hcalls, hoff, howned]
    exact hflushed

theorem FlushInv.writer (h : FlushInv slabSize total last s) (hflush : FlushFits slabSize s)
    (hstep : WriterStep slabSize s s') : FlushInv slabSize total last s' := by
  obtain ⟨leaked, hview⟩ := h.view
  have hsent : ∀ rest, s.pc = .sending rest → ¬ s.Owned := by
    intro rest hpc
    have hpcInv := hview.pc
    unfold RingState.PcInv RingState.view at hpcInv
    dsimp only at hpcInv
    rw [RingState.settled_of_ne (by simp [hpc]) (by simp [hpc]), hpc] at hpcInv
    exact hpcInv.1
  exact ⟨hview.view_step h.fits hstep, h.fits.writer hflush hview.off hstep,
    fun hlast => (h.flushed hlast).writer hstep hsent hview.idx⟩

theorem FlushInv.step (h : FlushInv slabSize total last s) {ev : RingEvent}
    (hflush : ev = .writer → FlushFits slabSize s) (hstep : RingStep slabSize s ev s') :
    FlushInv slabSize total last s' := by
  obtain ⟨leaked, hview⟩ := h.view
  cases hstep with
  | writer hok hstep => exact h.writer (hflush rfl) hstep
  | @recv l channel hok hchannel =>
    refine h.of_owned_iff ⟨leaked, ?_⟩ rfl rfl rfl Iff.rfl
    have hrecv := hview.recv hchannel
    unfold RingState.view at hrecv ⊢
    dsimp only at hrecv ⊢
    rw [← List.append_assoc]
    exact hrecv
  | @drop l held₁ held₂ hok hheld hprev =>
    have howned := @RingState.owned_drop s l.slabIdx hprev (held₁ ++ held₂)
    refine h.of_owned_iff ⟨leaked, ?_⟩ rfl rfl rfl howned
    have hmem : (s.view leaked).held = (leaked ++ held₁) ++ l :: held₂ := by
      rw [List.append_assoc, ← hheld]
      rfl
    have hdrop := hview.drop hmem
    unfold RingState.view RingState.settled at hdrop ⊢
    dsimp only at hdrop ⊢
    rw [List.append_assoc] at hdrop
    simp only [howned]
    exact hdrop
  | @dropRaced l held₁ held₂ hok hheld hprev =>
    refine absurd ((hview.ready l.slabIdx).2 (List.mem_map_of_mem ?_)) hprev
    refine List.mem_append_left _ (List.mem_append_right _ ?_)
    rw [hheld]
    exact List.mem_append_right _ List.mem_cons_self

theorem FlushInv.fillsOwned (h : FlushInv slabSize total last s) : s.FillsOwned slabSize := by
  intro rest hpc hrest hroom
  have hfits := h.fits
  unfold RingState.Fits at hfits
  rw [hpc] at hfits
  refine hfits.resolve_right fun hseal => ?_
  have := hseal.not_copy hpc hrest
  omega

theorem FlushInv.received (h : FlushInv slabSize total last s) (hlast : last)
    (hfin : s.Finished) : s.received.flatten = total := by
  obtain ⟨leaked, hview⟩ := h.view
  obtain ⟨hcalls, hpc, hchannel⟩ := hfin
  have hflushed := h.flushed hlast
  unfold RingState.Flushed at hflushed
  rw [hpc, hcalls] at hflushed
  have hempty := (hflushed.resolve_left (by simp)).2
  have hsettled := RingState.settled_of_idle hpc
  have hfilled : (s.view leaked).filled slabSize = [] := by
    unfold RingState.filled
    split
    · rename_i howned
      show readAt s.buf _ s.offset = []
      rw [hempty howned, readAt_zero]
    · rfl
  have hbytes := hview.bytes
  rw [hfilled, RingState.pending_of_ne (by simp [RingState.view, hsettled])] at hbytes
  rw [← hbytes]
  simp [RingState.view, RingState.rest, hchannel, hcalls, hsettled, WriterPc.rest]

/-- What a lease lends does not change while it is alive. -/
theorem FlushInv.stable (h : FlushInv slabSize total last s) {ev : RingEvent}
    (hstep : RingStep slabSize s ev s') {l : SlabLease} (hl : l ∈ s.alive) :
    l.asSlice s'.buf = l.asSlice s.buf := by
  cases hstep with
  | writer hok hstep =>
    cases hstep with
    | @copy rest hpc hrest hroom =>
      obtain ⟨leaked, hview⟩ := h.view
      have howned := h.fillsOwned rest hpc hrest (by omega)
      have hoff := hview.off
      have hlen : (rest.take (min rest.length (slabSize - s.offset))).length ≤
          slabSize - s.offset := by
        rw [List.length_take]
        omega
      have hmem : l ∈ (s.view leaked).leases slabSize := by
        unfold RingState.leases
        rw [← List.append_assoc]
        refine List.mem_append_left _ ?_
        rcases List.mem_append.1 hl with hl | hl
        · exact List.mem_append_left _ (List.mem_append_right _ hl)
        · exact List.mem_append_right _ hl
      refine hview.asSlice_copy howned ?_ hmem
      show s.offset + _ ≤ slabSize
      have : s.offset ≤ slabSize := hoff
      omega
    | _ => rfl
  | _ => rfl

/-! ## Runs -/

variable {slabCount : Nat} {calls : List Call} {evs : List RingEvent}

theorem flushInv_create (hcount : 1 ≤ slabCount) (calls : List Call) :
    FlushInv slabSize (calls.flatMap Call.bytes) (calls.getLast? = some .flush)
      (.create slabSize slabCount calls) := by
  have howned := @RingState.owned_create slabSize _ hcount calls
  refine ⟨⟨[], ?_⟩, .inl howned, .inl⟩
  unfold RingState.view
  rw [RingState.settled_of_owned howned]
  exact ringInv_create hcount calls

theorem flushInv_run (hspace : slabSize * slabCount ≠ 0)
    (h : Run (FittingStep slabSize) (.create slabSize slabCount calls) evs s) :
    FlushInv slabSize (calls.flatMap Call.bytes) (calls.getLast? = some .flush) s ∧
      s.slabs.length = slabCount := by
  have hcount : 1 ≤ slabCount := Nat.pos_of_ne_zero fun h => hspace (by rw [h, Nat.mul_zero])
  refine h.invariant (P := fun s =>
    FlushInv slabSize (calls.flatMap Call.bytes) (calls.getLast? = some .flush) s ∧
      s.slabs.length = slabCount) ⟨flushInv_create hcount calls, by simp [RingState.create]⟩ ?_
  rintro s ev s' ⟨hinv, hlen⟩ ⟨hstep, hflush⟩
  cases hstep with
  | ring _ hstep => exact ⟨hinv.step hflush hstep, (length_slabs hstep).trans hlen⟩
  | zeroSpace hzero =>
    obtain ⟨leaked, hview⟩ := hinv.view
    have hbuf : s.buf.length = slabSize * s.slabs.length := hview.buf
    rw [hlen, hzero] at hbuf
    exact absurd hbuf.symm hspace

/-- On a ring without space nothing happens. -/
structure Spaceless (s : RingState) : Prop where
  buf : s.buf = []
  pc : s.pc = .idle
  off : s.offset = 0
  received : s.received = []

theorem Spaceless.step (h : Spaceless s) {ev : RingEvent} (hstep : CheckedStep slabSize s ev s') :
    Spaceless s' := by
  cases hstep with
  | ring hspace => exact absurd h.buf hspace
  | zeroSpace => exact ⟨h.buf, h.pc, h.off, h.received⟩

theorem spaceless_run (hspace : slabSize * slabCount = 0)
    (h : Run (FittingStep slabSize) (.create slabSize slabCount calls) evs s) : Spaceless s := by
  have hstart : Spaceless (.create slabSize slabCount calls) := by
    refine ⟨?_, rfl, rfl, rfl⟩
    unfold RingState.create
    rw [hspace]
    rfl
  exact h.invariant hstart fun _ _ _ hinv hstep => hinv.step hstep.1

theorem WriterStep.of_flush (h : WriterStep slabSize s s') (hpc : s.pc = .idle)
    (hcalls : s.calls = .flush :: calls) (hoff : s.offset ≠ 0) :
    s' = { s with pc := .sealing none, calls } := by
  cases h <;> simp_all

/-- A writer that stays on a sealed slab with room, and still has bytes to write, comes to
fill it. -/
theorem exists_fills_sealed (hok : s.panicked = false) (hspace : s.buf ≠ []) (hpc : s.pc = .idle)
    (howned : ¬ s.Owned) (hpos : s.offset ≠ 0) (hroom : s.offset < slabSize)
    (hcalls : s.calls = calls) (hbytes : calls.flatMap Call.bytes ≠ []) :
    ∃ evs t, Run (CheckedStep slabSize) s evs t ∧ ¬ t.FillsOwned slabSize := by
  induction calls generalizing s with
  | nil => exact absurd rfl hbytes
  | cons call calls ih =>
    cases call with
    | write buf =>
      by_cases hbuf : buf = []
      · subst hbuf
        obtain ⟨evs, t, hrun, hfills⟩ := @ih { s with pc := .idle, calls } hok hspace rfl howned
          hpos hroom rfl hbytes
        have hwrite : CheckedStep slabSize s .writer { s with pc := .copying [], calls } :=
          .ring hspace (.writer hok (.write hpc hcalls))
        have hwritten : CheckedStep slabSize { s with pc := .copying [], calls } .writer
            { s with pc := .idle, calls } := .ring hspace (.writer hok (.written rfl))
        exact ⟨_, t, (hrun.cons hwritten).cons hwrite, hfills⟩
      · exact ⟨_, _, (Run.refl _).step (.ring hspace (.writer hok (.write hpc hcalls))),
          fun h => howned (h buf rfl hbuf hroom)⟩
    | flush =>
      have hsealed : ¬ RingState.Owned
          { s with slabs := s.slabs.set s.slabIdx .ready, pc := .idle, calls } := by
        unfold RingState.Owned
        simp [List.getElem?_set]
      obtain ⟨evs, t, hrun, hfills⟩ := @ih
        { s with slabs := s.slabs.set s.slabIdx .ready, pc := .idle, calls } hok hspace rfl
        hsealed hpos hroom rfl hbytes
      have hflush : CheckedStep slabSize s .writer { s with pc := .sealing none, calls } :=
        .ring hspace (.writer hok (.flush hpc hcalls hpos))
      have hagain : CheckedStep slabSize { s with pc := .sealing none, calls } .writer
          { s with slabs := s.slabs.set s.slabIdx .ready, pc := .idle, calls } :=
        .ring hspace (.writer hok (@WriterStep.alreadySealed _ { s with pc := .sealing none, calls }
          none rfl howned))
      exact ⟨_, t, (hrun.cons hagain).cons hflush, hfills⟩

/-- The flush of a partly filled slab, with bytes still to come. -/
theorem exists_fills_flushed (hok : s.panicked = false) (hspace : s.buf ≠ [])
    (hpc : s.pc = .sealing none) (hpos : s.offset ≠ 0) (hroom : s.offset < slabSize)
    (hbytes : s.calls.flatMap Call.bytes ≠ []) :
    ∃ evs t, Run (CheckedStep slabSize) s evs t ∧ ¬ t.FillsOwned slabSize := by
  have hsealed (channel : List SlabLease) : ¬ RingState.Owned
      { s with slabs := s.slabs.set s.slabIdx .ready, channel, pc := .idle } := by
    unfold RingState.Owned
    simp [List.getElem?_set]
  by_cases howned : s.Owned
  · obtain ⟨evs, t, hrun, hfills⟩ := @exists_fills_sealed slabSize
      { s with
        slabs := s.slabs.set s.slabIdx .ready
        channel := s.channel ++ [s.lease slabSize]
        pc := .idle }
      s.calls hok hspace rfl (hsealed _) hpos hroom rfl hbytes
    have hmark : CheckedStep slabSize s .writer
        { s with slabs := s.slabs.set s.slabIdx .ready, pc := .sending none } :=
      .ring hspace (.writer hok (.markReady hpc howned))
    have hsend : CheckedStep slabSize
        { s with slabs := s.slabs.set s.slabIdx .ready, pc := .sending none } .writer
        { s with
          slabs := s.slabs.set s.slabIdx .ready
          channel := s.channel ++ [s.lease slabSize]
          pc := .idle } :=
      .ring hspace (.writer hok (@WriterStep.send _
        { s with slabs := s.slabs.set s.slabIdx .ready, pc := .sending none } none rfl))
    exact ⟨_, t, (hrun.cons hsend).cons hmark, hfills⟩
  · obtain ⟨evs, t, hrun, hfills⟩ := @exists_fills_sealed slabSize
      { s with slabs := s.slabs.set s.slabIdx .ready, pc := .idle } s.calls hok hspace rfl
      (hsealed s.channel) hpos hroom rfl hbytes
    have hagain : CheckedStep slabSize s .writer
        { s with slabs := s.slabs.set s.slabIdx .ready, pc := .idle } :=
      .ring hspace (.writer hok (@WriterStep.alreadySealed _ s none hpc howned))
    exact ⟨_, t, hrun.cons hagain, hfills⟩

/-- In the runs whose flushes fit, the writer fills only its own slab, and what is received
after the last flush are all accepted bytes, which stay while they are lent. After a flush
that does not fit the writer can come to fill a slab that it has sealed. -/
theorem ringWriter_sound_iff (slabSize slabCount : Nat) (calls : List Call) :
    (∀ evs s, Run (FittingStep slabSize) (.create slabSize slabCount calls) evs s →
      s.FillsOwned slabSize ∧
      (calls.getLast? = some .flush → s.Finished →
        s.received.flatten = accepted slabSize slabCount calls) ∧
      ∀ ev s', CheckedStep slabSize s ev s' → ∀ l ∈ s.alive, l.asSlice s'.buf = l.asSlice s.buf) ∧
    ∀ evs s ev s', Run (FittingStep slabSize) (.create slabSize slabCount calls) evs s →
      CheckedStep slabSize s ev s' → ¬ FittingStep slabSize s ev s' →
      ∃ evs' t, Run (CheckedStep slabSize) s' evs' t ∧ ¬ t.FillsOwned slabSize := by
  unfold accepted
  by_cases hspace : slabSize * slabCount = 0
  · rw [if_pos hspace]
    refine ⟨fun evs s hrun => ?_, fun evs s ev s' hrun hstep hfits => ?_⟩
    · have hinv := spaceless_run hspace hrun
      refine ⟨fun rest hpc => ?_, fun _ _ => by rw [hinv.received]; rfl, fun ev s' hstep l hl => ?_⟩
      · rw [hinv.pc] at hpc
        cases hpc
      · rw [(hinv.step hstep).buf, hinv.buf]
    · exact absurd ⟨hstep, fun _ _ _ _ => .inl (spaceless_run hspace hrun).off⟩ hfits
  · rw [if_neg hspace]
    refine ⟨fun evs s hrun => ?_, fun evs s ev s' hrun hstep hfits => ?_⟩
    · obtain ⟨hinv, -⟩ := flushInv_run hspace hrun
      refine ⟨hinv.fillsOwned, hinv.received, fun ev s' hstep l hl => ?_⟩
      cases hstep with
      | ring _ hstep => exact hinv.stable hstep hl
      | zeroSpace => rfl
    · obtain ⟨hinv, -⟩ := flushInv_run hspace hrun
      obtain ⟨leaked, hview⟩ := hinv.view
      have hoff : s.offset ≤ slabSize := hview.off
      have hflush : ev = .writer ∧ ¬ FlushFits slabSize s := by
        by_contra h
        exact hfits ⟨hstep, fun hev => by_contra fun hnot => h ⟨hev, hnot⟩⟩
      obtain ⟨rfl, hnot⟩ := hflush
      simp only [FlushFits, not_forall, not_or] at hnot
      obtain ⟨hpc, cs, hcalls, hpos, hfull, hbytes⟩ := hnot
      cases hstep with
      | ring hbuf hstep =>
        cases hstep with
        | writer hok hstep =>
          rw [hstep.of_flush hpc hcalls hpos]
          exact exists_fills_flushed hok hbuf rfl hpos (by dsimp only; omega) hbytes
      | zeroSpace hzero =>
        have hbuf : s.buf.length = slabSize * s.slabs.length := hview.buf
        rw [(flushInv_run hspace hrun).2, hzero] at hbuf
        exact absurd hbuf.symm hspace

/-- Two slabs of two bytes: the byte that is written after a flush is lost. -/
theorem ringWriter_not_sound : ¬ ∀ (slabSize slabCount : Nat) (calls : List Call)
    (evs : List RingEvent) (s : RingState),
    Run (CheckedStep slabSize) (.create slabSize slabCount calls) evs s →
      s.FillsOwned slabSize ∧ (calls.getLast? = some .flush → s.Finished →
        s.received.flatten = accepted slabSize slabCount calls) := by
  intro h
  have hrun : Run (CheckedStep 2) (.create 2 2 [.write [1], .flush, .write [2], .flush])
      [.writer, .writer, .writer, .writer, .writer, .writer, .writer, .writer, .writer, .writer,
        .writer, .recv]
      ⟨[1, 2, 0, 0], [.ready, .free], 0, 2, .idle, [], [], [⟨0, 0, 1⟩], [[1]], false⟩ := by
    refine .cons (.ring (by decide) (.writer rfl (.write rfl rfl))) ?_
    refine .cons (.ring (by decide) (.writer rfl (.copy rfl (by simp) (by decide)))) ?_
    refine .cons (.ring (by decide) (.writer rfl (.written rfl))) ?_
    refine .cons (.ring (by decide) (.writer rfl (.flush rfl rfl (by decide)))) ?_
    refine .cons (.ring (by decide) (.writer rfl (.markReady rfl rfl))) ?_
    refine .cons (.ring (by decide) (.writer rfl (.send rfl))) ?_
    refine .cons (.ring (by decide) (.writer rfl (.write rfl rfl))) ?_
    refine .cons (.ring (by decide) (.writer rfl (.copy rfl (by simp) (by decide)))) ?_
    refine .cons (.ring (by decide) (.writer rfl (.written rfl))) ?_
    refine .cons (.ring (by decide) (.writer rfl (.flush rfl rfl (by decide)))) ?_
    refine .cons (.ring (by decide) (.writer rfl (.alreadySealed rfl (by decide)))) ?_
    exact .cons (.ring (by decide) (.recv rfl rfl)) (.refl _)
  exact absurd ((h _ _ _ _ _ hrun).2 rfl ⟨rfl, rfl, rfl⟩) (by decide)

end S3Archive.Jrodon
