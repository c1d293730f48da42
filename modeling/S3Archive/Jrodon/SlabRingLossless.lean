import S3Archive.Jrodon.SlabRingProgress

/-!
# jrodon: the slab ring is a lossless FIFO

Writes followed by one flush. `OneFlush` adds to the ring's invariant that all
leases but the last are full. `slabRing_lossless` collects what holds of every
interleaving with the reader.
-/

namespace S3Archive.Jrodon

/-- Writes, then one flush. -/
def Fed (calls : List Call) : Prop := ∃ bufs : List Bytes, calls = bufs.map .write ++ [.flush]

theorem Fed.ne_nil {calls : List Call} (h : Fed calls) : calls ≠ [] := by
  obtain ⟨bufs, rfl⟩ := h
  simp

theorem Fed.write {calls : List Call} {buf : Bytes} (h : Fed (.write buf :: calls)) :
    Fed calls := by
  obtain ⟨bufs, h⟩ := h
  cases bufs with
  | nil => simp at h
  | cons b bufs => exact ⟨bufs, (List.cons.inj h).2⟩

theorem Fed.flush {calls : List Call} (h : Fed (.flush :: calls)) : calls = [] := by
  obtain ⟨bufs, h⟩ := h
  cases bufs with
  | nil => exact (List.cons.inj h).2
  | cons b bufs => cases (List.cons.inj h).1

namespace RingState

variable (slabSize : Nat) (s : RingState)

/-- The lengths of the leases, in the order of their sealing. -/
def sizes : List Nat :=
  s.received.map List.length ++ (s.channel ++ s.pending slabSize).map SlabLease.len

/-- Where the writer is among its calls. -/
def Shape : Prop :=
  match s.pc with
  | .idle => (s.calls = [] ∧ (s.Owned → s.offset = 0)) ∨ (Fed s.calls ∧ s.Owned)
  | .sealing none => s.calls = []
  | .sending none => s.calls = []
  | _ => Fed s.calls

/-- The flush has not sealed its slab. -/
def Unflushed : Prop := s.calls ≠ [] ∨ s.pc = .sealing none

end RingState

structure OneFlush (slabSize : Nat) (s : RingState) : Prop where
  shape : s.Shape
  full : s.Unflushed → ∀ n ∈ s.sizes slabSize, n = slabSize
  last : ∀ n ∈ (s.sizes slabSize).dropLast, n = slabSize

section

variable {slabSize : Nat} {total : Bytes} {s s' : RingState}

theorem OneFlush.callOk (h : OneFlush slabSize s) : CallOk s := by
  intro hpc hcalls
  have hshape := h.shape
  unfold RingState.Shape at hshape
  rw [hpc] at hshape
  rcases hshape with hnil | hfed
  · exact absurd hnil.1 hcalls
  · exact hfed.2

theorem OneFlush.of_sizes (h : OneFlush slabSize s)
    (hsizes : s'.sizes slabSize = s.sizes slabSize) (hshape : s'.Shape)
    (hopen : s'.Unflushed → s.Unflushed) : OneFlush slabSize s' := by
  refine ⟨hshape, ?_, ?_⟩
  · rw [hsizes]
    exact fun h' => h.full (hopen h')
  · rw [hsizes]
    exact h.last

theorem RingState.sizes_congr (hreceived : s'.received = s.received)
    (hchannel : s'.channel = s.channel) (hold : ∀ rest, s.pc ≠ .sending rest)
    (hnew : ∀ rest, s'.pc ≠ .sending rest) : s'.sizes slabSize = s.sizes slabSize := by
  unfold sizes
  rw [hreceived, hchannel, pending_of_ne hold, pending_of_ne hnew]

/-- The leases in the ring have the lengths of their slices. -/
theorem RingInv.length_asSlice (hinv : RingInv slabSize total s) {l : SlabLease}
    (hl : l ∈ s.leases slabSize) : (l.asSlice s.buf).length = l.len := by
  obtain ⟨hstart, hlen⟩ := hinv.lease l hl
  have hready := (hinv.ready l.slabIdx).2 (List.mem_map_of_mem hl)
  have hend : slabStart slabSize l.slabIdx + slabSize ≤ slabSize * s.slabs.length :=
    slabStart_add_le (List.getElem?_eq_some_iff.1 hready).1
  unfold SlabLease.asSlice
  apply length_readAt
  rw [hinv.buf, hstart]
  omega

/-- A step that seals nothing and sends nothing, with calls still to make. -/
theorem OneFlush.keeps (h : OneFlush slabSize s) (hreceived : s'.received = s.received)
    (hchannel : s'.channel = s.channel) (hold : ∀ rest, s.pc ≠ .sending rest)
    (hnew : ∀ rest, s'.pc ≠ .sending rest) (hshape : s'.Shape) (hcalls : s.calls ≠ []) :
    OneFlush slabSize s' :=
  h.of_sizes (RingState.sizes_congr hreceived hchannel hold hnew) hshape fun _ => .inl hcalls

theorem OneFlush.markReady (h : OneFlush slabSize s) {rest : Option Bytes}
    (hpc : s.pc = .sealing rest) (hfull : rest ≠ none → s.offset = slabSize) :
    OneFlush slabSize { s with slabs := s.slabs.set s.slabIdx .ready, pc := .sending rest } := by
  have hshape := h.shape
  unfold RingState.Shape at hshape
  rw [hpc] at hshape
  have hold : s.pending slabSize = [] := RingState.pending_of_ne (by simp [hpc])
  have hsizes : RingState.sizes slabSize
      { s with slabs := s.slabs.set s.slabIdx .ready, pc := .sending rest } =
      s.sizes slabSize ++ [s.offset] := by
    unfold RingState.sizes
    rw [hold, List.append_nil, List.append_assoc]
    show _ ++ (s.channel ++ [s.lease slabSize]).map _ = _
    rw [List.map_append]
    rfl
  have hopen : s.Unflushed := by
    cases rest with
    | none => exact .inr hpc
    | some rest => exact .inl (Fed.ne_nil hshape)
  refine ⟨?_, fun hopen' => ?_, ?_⟩
  · unfold RingState.Shape
    cases rest <;> exact hshape
  · rw [hsizes]
    intro n hn
    rcases List.mem_append.1 hn with hn | hn
    · exact h.full hopen n hn
    · rw [List.mem_singleton.1 hn]
      apply hfull
      rintro rfl
      exact hopen'.elim (absurd hshape) (by simp)
  · rw [hsizes, List.dropLast_concat]
    exact h.full hopen

theorem OneFlush.send (h : OneFlush slabSize s) {rest : Option Bytes}
    (hpc : s.pc = .sending rest) (hnotOwned : ¬ s.Owned) :
    OneFlush slabSize
      { s with channel := s.channel ++ [s.lease slabSize], pc := afterSeal s.slabIdx rest } := by
  have hshape := h.shape
  unfold RingState.Shape at hshape
  rw [hpc] at hshape
  have hpending : s.pending slabSize = [s.lease slabSize] := by
    unfold RingState.pending
    rw [hpc]
  have hnone : RingState.pending slabSize
      { s with channel := s.channel ++ [s.lease slabSize], pc := afterSeal s.slabIdx rest } =
      [] := RingState.pending_of_ne fun r => by cases rest <;> simp [afterSeal]
  refine h.of_sizes ?_ ?_ ?_
  · unfold RingState.sizes
    rw [hnone, hpending, List.append_nil]
  · cases rest with
    | none => exact .inl ⟨hshape, fun howned => absurd howned hnotOwned⟩
    | some rest => exact hshape
  · rintro (hcalls | hseal)
    · exact .inl hcalls
    · cases rest <;> simp [afterSeal] at hseal

theorem OneFlush.flushNothing (h : OneFlush slabSize s) {calls : List Call} (hpc : s.pc = .idle)
    (hcalls : s.calls = .flush :: calls) (hoff : s.offset = 0) :
    OneFlush slabSize { s with calls } := by
  have hshape := h.shape
  unfold RingState.Shape at hshape
  rw [hpc, hcalls] at hshape
  refine h.of_sizes rfl ?_ fun _ => .inl (by simp [hcalls])
  unfold RingState.Shape
  dsimp only
  rw [hpc]
  exact .inl ⟨(hshape.resolve_left (by simp)).1.flush, fun _ => hoff⟩

theorem OneFlush.writer (h : OneFlush slabSize s) (hinv : RingInv slabSize total s)
    (hstep : WriterStep slabSize s s') : OneFlush slabSize s' := by
  have hshape := h.shape
  have hpcInv := hinv.pc
  unfold RingState.Shape at hshape
  unfold RingState.PcInv at hpcInv
  cases hstep with
  | write hpc hcalls =>
    rw [hpc, hcalls] at hshape
    exact h.keeps rfl rfl (by simp [hpc]) (by simp) (hshape.resolve_left (by simp)).1.write
      (by simp [hcalls])
  | flushNothing hpc hcalls hoff => exact h.flushNothing hpc hcalls hoff
  | flush hpc hcalls hoff =>
    rw [hpc, hcalls] at hshape
    exact h.keeps rfl rfl (by simp [hpc]) (by simp) (hshape.resolve_left (by simp)).1.flush
      (by simp [hcalls])
  | written hpc =>
    rw [hpc] at hshape hpcInv
    exact h.keeps rfl rfl (by simp [hpc]) (by simp) (.inr ⟨hshape, hpcInv⟩) hshape.ne_nil
  | markReady hpc hprev =>
    rw [hpc] at hpcInv
    exact h.markReady hpc hpcInv.2
  | alreadySealed hpc hprev =>
    rw [hpc] at hpcInv
    exact absurd hpcInv.1 hprev
  | send hpc =>
    rw [hpc] at hpcInv
    exact h.send hpc hpcInv.1
  | raced hpc hprev =>
    rw [hpc] at hpcInv
    exact absurd hpcInv.2 hprev
  -- the other steps are within a write
  | full hpc | copy hpc | looped hpc | found hpc | taken hpc | wake hpc | claim hpc =>
    rw [hpc] at hshape
    exact h.keeps rfl rfl (by simp [hpc]) (by simp) hshape hshape.ne_nil

theorem OneFlush.step (h : OneFlush slabSize s) (hinv : RingInv slabSize total s) {ev : RingEvent}
    (hstep : RingStep slabSize s ev s') : OneFlush slabSize s' := by
  cases hstep with
  | writer hok hstep => exact h.writer hinv hstep
  | @recv l channel hok hchannel =>
    refine h.of_sizes ?_ h.shape fun hopen => hopen
    have hmem : l ∈ s.leases slabSize := by
      unfold RingState.leases
      rw [hchannel]
      exact List.mem_append_right _ List.mem_cons_self
    unfold RingState.sizes
    rw [hchannel, List.map_append, List.map_singleton, hinv.length_asSlice hmem, List.append_assoc]
    rfl
  | @drop l held₁ held₂ hok hheld hprev =>
    refine h.of_sizes rfl ?_ fun hopen => hopen
    have hshape := h.shape
    unfold RingState.Shape at *
    rw [RingState.owned_drop hprev]
    exact hshape
  | @dropRaced l held₁ held₂ hok hheld hprev =>
    refine absurd ((hinv.ready l.slabIdx).2 (List.mem_map_of_mem ?_)) hprev
    refine List.mem_append_left _ ?_
    rw [hheld]
    exact List.mem_append_right _ List.mem_cons_self

theorem flatMap_bytes_fed (bufs : List Bytes) :
    (bufs.map Call.write ++ [Call.flush]).flatMap Call.bytes = bufs.flatten := by
  rw [List.flatMap_append, List.flatMap_map]
  simp [Call.bytes, List.flatMap_def]

/-- What holds in every run on writes and one flush. -/
structure FedInv (slabSize slabCount : Nat) (total : Bytes) (s : RingState) : Prop where
  inv : RingInv slabSize total s
  one : OneFlush slabSize s
  slabs : s.slabs.length = slabCount

theorem fedInv_create {slabCount : Nat} (hcount : 1 ≤ slabCount) (bufs : List Bytes) :
    FedInv slabSize slabCount bufs.flatten
      (.create slabSize slabCount (bufs.map .write ++ [.flush])) := by
  refine ⟨?_, ⟨?_, fun _ n hn => (by cases hn), fun n hn => (by cases hn)⟩, ?_⟩
  · rw [← flatMap_bytes_fed bufs]
    exact ringInv_create hcount _
  · exact .inr ⟨⟨bufs, rfl⟩, RingState.owned_create hcount _⟩
  · simp [RingState.create]

theorem FedInv.step {slabCount : Nat} {ev : RingEvent} (h : FedInv slabSize slabCount total s)
    (hstep : RingStep slabSize s ev s') : FedInv slabSize slabCount total s' :=
  ⟨h.inv.step (fun _ => h.one.callOk) hstep, h.one.step h.inv hstep,
    (length_slabs hstep).trans h.slabs⟩

theorem FedInv.run {slabCount : Nat} {evs : List RingEvent} (h : FedInv slabSize slabCount total s)
    (hrun : RingRun slabSize s evs s') : FedInv slabSize slabCount total s' :=
  hrun.invariant h fun _ _ _ => FedInv.step

/-! ## The ring -/

/-- At the end everything that was written has been received. -/
theorem FedInv.received {slabCount : Nat} (h : FedInv slabSize slabCount total s)
    (hfin : s.Finished) : s.received.flatten = total := by
  obtain ⟨hcalls, hpc, hchannel⟩ := hfin
  have hbytes := h.inv.bytes
  have hshape := h.one.shape
  unfold RingState.Shape at hshape
  rw [hpc, hcalls] at hshape
  have hempty : s.filled slabSize = [] := by
    unfold RingState.filled
    split
    · rename_i howned
      rw [(hshape.resolve_right fun hfed => hfed.1.ne_nil rfl).2 howned, readAt_zero]
    · rfl
  rw [hchannel, RingState.pending_of_ne (by simp [hpc]), hempty] at hbytes
  rw [← hbytes]
  simp [RingState.rest, hpc, hcalls, WriterPc.rest]

theorem OneFlush.full_but_last (h : OneFlush slabSize s) :
    ∀ n ∈ (s.received.map List.length ++ s.channel.map SlabLease.len).dropLast, n = slabSize := by
  intro n hn
  have hlast := h.last
  unfold RingState.sizes at hlast
  rw [List.map_append, ← List.append_assoc] at hlast
  cases hpending : s.pending slabSize with
  | nil =>
    rw [hpending, List.map_nil, List.append_nil] at hlast
    exact hlast n hn
  | cons l rest =>
    rw [hpending, List.map_cons] at hlast
    apply hlast
    rw [List.dropLast_append_cons]
    exact List.mem_append_left _ (List.dropLast_subset _ hn)

/-- From every state of a run the end can be reached. -/
theorem FedInv.reaches {slabCount : Nat} (h : FedInv slabSize slabCount total s)
    (hsize : 1 ≤ slabSize) (hcount : 2 ≤ slabCount) :
    ∃ evs s', RingRun slabSize s evs s' ∧ s'.Finished := by
  have hlower (t : RingState) (ht : FedInv slabSize slabCount total t) : t.Finished ∨
      ∃ evs t', RingRun slabSize t evs t' ∧ FedInv slabSize slabCount total t' ∧
        t'.work slabSize < t.work slabSize := by
    rcases ht.inv.lowers hsize (ht.slabs.symm ▸ hcount) with hfin | ⟨evs, t', hrun, hlt⟩
    · exact .inl hfin
    · exact .inr ⟨evs, t', hrun, ht.run hrun, hlt⟩
  obtain ⟨evs, s', hrun, -, hfin⟩ := Run.exists_final h hlower
  exact ⟨evs, s', hrun, hfin⟩

theorem RingState.work_create {slabCount : Nat} {bufs : List Bytes} :
    (RingState.create slabSize slabCount (bufs.map .write ++ [.flush])).work slabSize =
      9 * (bufs.length + 1) + 8 * bufs.flatten.length := by
  have hrest : (RingState.create slabSize slabCount (bufs.map .write ++ [.flush])).rest =
      bufs.flatten := flatMap_bytes_fed bufs
  unfold work
  rw [hrest]
  simp [RingState.create, distance]

/-- The work never exceeds that of the calls. -/
theorem FedInv.work_le {slabCount : Nat} {evs : List RingEvent}
    (h : FedInv slabSize slabCount total s) (hsize : 1 ≤ slabSize)
    (hrun : RingRun slabSize s evs s') : s'.work slabSize ≤ s.work slabSize := by
  refine (hrun.invariant (P := fun t => FedInv slabSize slabCount total t ∧
    t.work slabSize ≤ s.work slabSize) ⟨h, Nat.le_refl _⟩ fun a ev b ha hstep => ?_).2
  refine ⟨ha.1.step hstep, ?_⟩
  rcases ha.1.inv.work_step hsize hstep with hlt | ⟨-, heq⟩
  · exact Nat.le_trans (Nat.le_of_lt hlt) ha.2
  · exact Nat.le_trans (Nat.le_of_eq heq) ha.2

/-- Every interleaving of writes and one flush with a reader. -/
theorem slabRing_lossless {slabSize slabCount : Nat} (hsize : 1 ≤ slabSize)
    (hcount : 2 ≤ slabCount) {bufs : List Bytes} {evs : List RingEvent} {s : RingState}
    (h : RingRun slabSize (.create slabSize slabCount (bufs.map .write ++ [.flush])) evs s) :
    s.panicked = false ∧
      (∃ unreceived, bufs.flatten = s.received.flatten ++ unreceived) ∧
      (s.Finished → s.received.flatten = bufs.flatten) ∧
      (s.Finished ∨ ∃ ev s', RingStep slabSize s ev s') ∧
      s.work slabSize ≤ 9 * (bufs.length + 1) + 8 * bufs.flatten.length ∧
      (∀ ev s', RingStep slabSize s ev s' → s.Works slabSize s') ∧
      (∃ evs' s', RingRun slabSize s evs' s' ∧ s'.Finished ∧
        s'.received.flatten = bufs.flatten) ∧
      (∀ n ∈ (s.received.map List.length ++ s.channel.map SlabLease.len).dropLast, n = slabSize) ∧
      (∀ ev s', RingStep slabSize s ev s' → ∀ l ∈ s.alive,
        readAt s'.buf (slabStart slabSize l.slabIdx) slabSize =
          readAt s.buf (slabStart slabSize l.slabIdx) slabSize) ∧
      ∀ rest, s.pc = .scanning rest s.slabIdx → s.alive = [] → ClaimsNext slabSize s rest := by
  have hcreate := @fedInv_create slabSize slabCount (Nat.le_of_succ_le hcount) bufs
  have hfed := hcreate.run h
  have hinv := hfed.inv
  have hwork := hcreate.work_le hsize h
  rw [RingState.work_create] at hwork
  obtain ⟨evs', s', hrun, hfin⟩ := hfed.reaches hsize hcount
  exact ⟨hinv.ok, ⟨_, hinv.bytes.symm⟩, hfed.received, hinv.progress, hwork,
    fun _ _ => hinv.work_step hsize, ⟨evs', s', hrun, hfin, (hfed.run hrun).received hfin⟩,
    hfed.one.full_but_last, fun _ _ hstep _ hl => hinv.stable hstep hl,
    fun _ hpc halive => hinv.claimsNext (hfed.slabs.symm ▸ hcount) hpc halive⟩

/-- Two writes through two slabs of two bytes: both writes seal a slab midway, and the second one
sleeps until the first lease has been received and dropped. -/
theorem slabRing_lossless_two_slabs :
    ∃ evs s, RingRun 2 (.create 2 2 ([[1, 2, 3], [4, 5]].map .write ++ [.flush])) evs s ∧
      s.Finished ∧ s.received = [[1, 2], [3, 4], [5]] ∧
      s.received.flatten = [[1, 2, 3], [4, 5]].flatten := by
  have hrun : RingRun 2 (.create 2 2 ([[1, 2, 3], [4, 5]].map .write ++ [.flush]))
      (List.replicate 16 .writer ++ [.recv, .drop] ++ List.replicate 8 .writer ++ [.recv, .recv])
      ⟨[5, 2, 3, 4], [.ready, .ready], 0, 1, .idle, [], [], [⟨1, 2, 2⟩, ⟨0, 0, 1⟩],
        [[1, 2], [3, 4], [5]], false⟩ := by
    refine .cons (.writer rfl (.write rfl rfl)) ?_
    refine .cons (.writer rfl (.copy rfl (by decide) (by decide))) ?_
    -- the first slab is sealed, the second one claimed
    refine .cons (.writer rfl (.full rfl (by decide) (by decide))) ?_
    refine .cons (.writer rfl (.markReady rfl rfl)) ?_
    refine .cons (.writer rfl (.send rfl)) ?_
    refine .cons (.writer rfl (.found rfl (by decide) rfl)) ?_
    refine .cons (.writer rfl (.claim rfl rfl)) ?_
    refine .cons (.writer rfl (.copy rfl (by decide) (by decide))) ?_
    refine .cons (.writer rfl (.written rfl)) ?_
    refine .cons (.writer rfl (.write rfl rfl)) ?_
    refine .cons (.writer rfl (.copy rfl (by decide) (by decide))) ?_
    refine .cons (.writer rfl (.full rfl (by decide) (by decide))) ?_
    refine .cons (.writer rfl (.markReady rfl rfl)) ?_
    refine .cons (.writer rfl (.send rfl)) ?_
    -- no slab is free
    refine .cons (.writer rfl (.taken rfl (by decide) (by decide))) ?_
    refine .cons (.writer rfl (.looped rfl rfl)) ?_
    refine .cons (.recv rfl rfl) ?_
    refine .cons (@RingStep.drop _ _ _ [] [] rfl rfl rfl) ?_
    refine .cons (.writer rfl (.wake rfl)) ?_
    refine .cons (.writer rfl (.found rfl (by decide) rfl)) ?_
    refine .cons (.writer rfl (.claim rfl rfl)) ?_
    refine .cons (.writer rfl (.copy rfl (by decide) (by decide))) ?_
    refine .cons (.writer rfl (.written rfl)) ?_
    refine .cons (.writer rfl (.flush rfl rfl (by decide))) ?_
    refine .cons (.writer rfl (.markReady rfl rfl)) ?_
    refine .cons (.writer rfl (.send rfl)) ?_
    refine .cons (.recv rfl rfl) ?_
    exact .cons (.recv rfl rfl) (.refl _)
  have hfin : RingState.Finished
      ⟨[5, 2, 3, 4], [.ready, .ready], 0, 1, .idle, [], [], [⟨1, 2, 2⟩, ⟨0, 0, 1⟩],
        [[1, 2], [3, 4], [5]], false⟩ := ⟨rfl, rfl, rfl⟩
  exact ⟨_, _, hrun, hfin, rfl, (slabRing_lossless (by decide) (by decide) hrun).2.2.1 hfin⟩

end

end S3Archive.Jrodon
