import Mathlib.Data.List.Nodup
import S3Archive.Jrodon.SlabRing

/-!
# jrodon: what the slab ring keeps

`RingInv`: the slabs that are `ready` are those with a lease, the only slab that
can be `filling` is the writer's, and what has been received, what is sealed,
what is in the current slab and what is still to be written make up all bytes.
Every step keeps it, provided that no call begins on a sealed slab.
-/

namespace S3Archive.Jrodon

/-! ## Slabs in the buffer -/

theorem slabStart_add_le {slabSize idx count : Nat} (h : idx < count) :
    slabStart slabSize idx + slabSize ≤ slabSize * count := by
  have := Nat.mul_le_mul_right slabSize (Nat.succ_le_of_lt h)
  unfold slabStart
  rw [Nat.mul_comm slabSize]
  rwa [Nat.succ_mul] at this

theorem slabStart_disjoint {slabSize i j : Nat} (h : i ≠ j) :
    slabStart slabSize i + slabSize ≤ slabStart slabSize j ∨
      slabStart slabSize j + slabSize ≤ slabStart slabSize i := by
  have hlt {a b : Nat} (hab : a < b) : slabStart slabSize a + slabSize ≤ slabStart slabSize b := by
    have : slabStart slabSize a + slabSize ≤ slabSize * b := slabStart_add_le hab
    rwa [Nat.mul_comm] at this
  rcases Nat.lt_or_gt_of_ne h with h | h
  · exact .inl (hlt h)
  · exact .inr (hlt h)

/-- What the slabs of a list hold after one has changed. -/
theorem getElem?_set_slab {slabs : List SlabState} {i j : Nat} {st : SlabState}
    (h : i < slabs.length) : (slabs.set i st)[j]? = if i = j then some st else slabs[j]? := by
  rw [List.getElem?_set]
  by_cases hij : i = j
  · subst hij
    rw [if_pos rfl, if_pos rfl, if_pos h]
  · rw [if_neg hij, if_neg hij]

namespace RingState

/-- The current slab is the writer's. -/
def Owned (s : RingState) : Prop := s.slabs[s.slabIdx]? = some .filling

instance (s : RingState) : Decidable s.Owned := inferInstanceAs (Decidable (_ = _))

variable (slabSize : Nat) (s : RingState)

/-- The lease of a slab that is sealed but not sent. -/
def pending : List SlabLease :=
  match s.pc with
  | .sending _ => [s.lease slabSize]
  | _ => []

def leases : List SlabLease := s.held ++ (s.channel ++ s.pending slabSize)

/-- What is in the current slab and not yet sealed. -/
def filled : Bytes :=
  if s.Owned then readAt s.buf (slabStart slabSize s.slabIdx) s.offset else []

/-- What is still to be written. -/
def rest : Bytes := s.pc.rest ++ s.calls.flatMap Call.bytes

/-- What the writer knows where it is. -/
def PcInv : Prop :=
  match s.pc with
  | .idle => True
  | .copying _ => s.Owned
  | .sealing rest => s.Owned ∧ (rest ≠ none → s.offset = slabSize)
  | .sending rest => ¬ s.Owned ∧ (rest ≠ none → s.offset = slabSize)
  | .scanning _ _ => ¬ s.Owned
  | .sleeping _ => ¬ s.Owned
  | .claiming _ nextIdx => ¬ s.Owned ∧ s.slabs[nextIdx]? = some .free

end RingState

structure RingInv (slabSize : Nat) (total : Bytes) (s : RingState) : Prop where
  buf : s.buf.length = slabSize * s.slabs.length
  idx : s.slabIdx < s.slabs.length
  off : s.offset ≤ slabSize
  ok : s.panicked = false
  filling : ∀ i : Nat, s.slabs[i]? = some .filling → i = s.slabIdx
  ready : ∀ i : Nat, s.slabs[i]? = some .ready ↔ i ∈ (s.leases slabSize).map SlabLease.slabIdx
  nodup : ((s.leases slabSize).map SlabLease.slabIdx).Nodup
  lease : ∀ l ∈ s.leases slabSize, l.start = slabStart slabSize l.slabIdx ∧ l.len ≤ slabSize
  pc : s.PcInv slabSize
  bytes : s.received.flatten ++
    ((s.channel ++ s.pending slabSize).flatMap (SlabLease.asSlice s.buf) ++
      (s.filled slabSize ++ s.rest)) = total

/-- A call begins only on a slab that is the writer's. -/
def CallOk (s : RingState) : Prop := s.pc = .idle → s.calls ≠ [] → s.Owned

section

variable {slabSize : Nat} {total : Bytes} {s s' : RingState}

theorem RingState.pending_of_ne (h : ∀ rest, s.pc ≠ .sending rest) : s.pending slabSize = [] := by
  unfold pending
  split
  · rename_i rest hpc
    exact absurd hpc (h rest)
  · rfl

/-- A slab that is claimed is the writer's. -/
theorem RingState.owned_of_claimed {slabs : List SlabState}
    (hset : s.slabs = slabs.set s.slabIdx .filling) (hidx : s.slabIdx < slabs.length) :
    s.Owned := by
  unfold Owned
  rw [hset, getElem?_set_slab hidx, if_pos rfl]

theorem RingState.not_owned_of_sealed {slabs : List SlabState}
    (hset : s.slabs = slabs.set s.slabIdx .ready) (hidx : s.slabIdx < slabs.length) :
    ¬ s.Owned := by
  unfold Owned
  rw [hset, getElem?_set_slab hidx, if_pos rfl]
  simp

theorem RingState.owned_create {slabCount : Nat} (hcount : 1 ≤ slabCount) (calls : List Call) :
    (RingState.create slabSize slabCount calls).Owned :=
  RingState.owned_of_claimed rfl (by rw [List.length_replicate]; exact hcount)

/-- A drop frees a slab that was not the writer's. -/
theorem RingState.owned_drop {idx : Nat} (hready : s.slabs[idx]? = some .ready)
    {held : List SlabLease} :
    RingState.Owned { s with slabs := s.slabs.set idx .free, held } ↔ s.Owned := by
  unfold Owned
  dsimp only
  rw [getElem?_set_slab (List.getElem?_eq_some_iff.1 hready).1]
  by_cases heq : idx = s.slabIdx
  · rw [if_pos heq, ← heq, hready]
    simp
  · rw [if_neg heq]

theorem RingState.filled_of_not (h : ¬ s.Owned) : s.filled slabSize = [] := if_neg h

/-- A slab with a lease is not the writer's. -/
theorem RingInv.ne_of_lease (hinv : RingInv slabSize total s) (howned : s.Owned) {l : SlabLease}
    (hl : l ∈ s.leases slabSize) : l.slabIdx ≠ s.slabIdx := by
  intro heq
  have hready := (hinv.ready l.slabIdx).2 (List.mem_map_of_mem hl)
  rw [heq, howned] at hready
  cases hready

/-- A copy into the writer's slab is not seen in another slab. -/
theorem RingInv.readAt_copy (hinv : RingInv slabSize total s) {xs : Bytes}
    (hxs : s.offset + xs.length ≤ slabSize) {i k len : Nat} (hi : i ≠ s.slabIdx)
    (hlen : k + len ≤ slabSize) :
    readAt (writeAt s.buf (slabStart slabSize s.slabIdx + s.offset) xs)
      (slabStart slabSize i + k) len = readAt s.buf (slabStart slabSize i + k) len := by
  have hend : slabStart slabSize s.slabIdx + slabSize ≤ s.buf.length := by
    rw [hinv.buf]
    exact slabStart_add_le hinv.idx
  apply readAt_writeAt_of_disjoint
  · omega
  · rcases @slabStart_disjoint slabSize _ _ hi with h | h
    · exact .inl (by omega)
    · exact .inr (by omega)

theorem RingInv.asSlice_copy (hinv : RingInv slabSize total s) (howned : s.Owned) {xs : Bytes}
    (hxs : s.offset + xs.length ≤ slabSize) {l : SlabLease} (hl : l ∈ s.leases slabSize) :
    l.asSlice (writeAt s.buf (slabStart slabSize s.slabIdx + s.offset) xs) = l.asSlice s.buf := by
  obtain ⟨hstart, hlen⟩ := hinv.lease l hl
  unfold SlabLease.asSlice
  rw [hstart, ← Nat.add_zero (slabStart slabSize l.slabIdx)]
  apply hinv.readAt_copy hxs (hinv.ne_of_lease howned hl)
  omega

theorem RingState.PcInv.congr (h : s.PcInv slabSize) (hpc : s'.pc = s.pc)
    (hoff : s'.offset = s.offset) (howned : s'.Owned ↔ s.Owned)
    (hfree : ∀ i : Nat, s.slabs[i]? = some .free → s'.slabs[i]? = some .free) :
    s'.PcInv slabSize := by
  unfold PcInv at *
  rw [hpc, hoff]
  cases hs : s.pc with
  | idle => trivial
  | claiming rest nextIdx =>
    rw [hs] at h
    exact ⟨fun h' => h.1 (howned.1 h'), hfree nextIdx h.2⟩
  | _ =>
    rw [hs] at h
    simp only [howned]
    exact h

/-! ## The steps of the writer -/

/-- The writer moves without touching a slab. -/
theorem RingInv.move (hinv : RingInv slabSize total s) {pc : WriterPc} {calls : List Call}
    (hold : ∀ rest, s.pc ≠ .sending rest) (hnew : ∀ rest, pc ≠ .sending rest)
    (hrest : pc.rest ++ calls.flatMap Call.bytes = s.rest)
    (hpc : RingState.PcInv slabSize { s with pc, calls }) :
    RingInv slabSize total { s with pc, calls } := by
  have hpending : RingState.pending slabSize { s with pc, calls } = s.pending slabSize := by
    rw [RingState.pending_of_ne hold, RingState.pending_of_ne hnew]
  have hleases : RingState.leases slabSize { s with pc, calls } = s.leases slabSize := by
    unfold RingState.leases
    rw [hpending]
  refine ⟨hinv.buf, hinv.idx, hinv.off, hinv.ok, hinv.filling, ?_, ?_, ?_, hpc, ?_⟩
  · rw [hleases]
    exact hinv.ready
  · rw [hleases]
    exact hinv.nodup
  · rw [hleases]
    exact hinv.lease
  · rw [hpending]
    show _ ++ (_ ++ (s.filled slabSize ++ (pc.rest ++ calls.flatMap Call.bytes))) = total
    rw [hrest]
    exact hinv.bytes

theorem RingInv.copy (hinv : RingInv slabSize total s) {rest : Bytes} (hpc : s.pc = .copying rest)
    (howned : s.Owned) :
    RingInv slabSize total
      { s with
        buf := writeAt s.buf (slabStart slabSize s.slabIdx + s.offset)
          (rest.take (min rest.length (slabSize - s.offset)))
        offset := s.offset + min rest.length (slabSize - s.offset)
        pc := .copying (rest.drop (min rest.length (slabSize - s.offset))) } := by
  have hoff := hinv.off
  have hend : slabStart slabSize s.slabIdx + slabSize ≤ s.buf.length := by
    rw [hinv.buf]
    exact slabStart_add_le hinv.idx
  generalize hn : min rest.length (slabSize - s.offset) = n
  have hle : n ≤ rest.length := by omega
  have hlen : (rest.take n).length = n := List.length_take_of_le hle
  have hroom : s.offset + (rest.take n).length ≤ slabSize := by omega
  have hsend : ∀ r, s.pc ≠ .sending r := by
    intro r
    rw [hpc]
    simp
  refine ⟨?_, hinv.idx, by dsimp only; omega, hinv.ok, hinv.filling, ?_, ?_, ?_, howned, ?_⟩
  · rw [length_writeAt (by omega)]
    exact hinv.buf
  · have := hinv.ready
    unfold RingState.leases at *
    rwa [RingState.pending_of_ne hsend] at this
  · have := hinv.nodup
    unfold RingState.leases at *
    rwa [RingState.pending_of_ne hsend] at this
  · have := hinv.lease
    unfold RingState.leases at *
    rwa [RingState.pending_of_ne hsend] at this
  · have hslices : ∀ l ∈ s.channel,
        l.asSlice (writeAt s.buf (slabStart slabSize s.slabIdx + s.offset) (rest.take n)) =
          l.asSlice s.buf := fun l hl =>
      hinv.asSlice_copy howned hroom (List.mem_append_right _ (List.mem_append_left _ hl))
    have hread : readAt (writeAt s.buf (slabStart slabSize s.slabIdx + s.offset) (rest.take n))
        (slabStart slabSize s.slabIdx) (s.offset + (rest.take n).length) =
          readAt s.buf (slabStart slabSize s.slabIdx) s.offset ++ rest.take n :=
      readAt_writeAt_append (by omega)
    rw [hlen] at hread
    have hfilled : RingState.filled slabSize
        { s with
          buf := writeAt s.buf (slabStart slabSize s.slabIdx + s.offset) (rest.take n)
          offset := s.offset + n
          pc := .copying (rest.drop n) } = s.filled slabSize ++ rest.take n := by
      unfold RingState.filled
      rw [if_pos howned, ← hread]
      exact if_pos howned
    have hbytes := hinv.bytes
    rw [RingState.pending_of_ne hsend, List.append_nil] at hbytes
    unfold RingState.rest at hbytes
    rw [hpc] at hbytes
    rw [hfilled, ← hbytes]
    show _ ++ (List.flatMap _ (s.channel ++ []) ++ (_ ++ (rest.drop n ++ _))) = _
    rw [List.append_nil, List.flatMap_congr hslices, List.append_assoc (s.filled slabSize),
      ← List.append_assoc (rest.take n), List.take_append_drop]
    rfl

theorem RingInv.markReady (hinv : RingInv slabSize total s) {rest : Option Bytes}
    (hpc : s.pc = .sealing rest) (howned : s.Owned)
    (hfull : rest ≠ none → s.offset = slabSize) :
    RingInv slabSize total
      { s with slabs := s.slabs.set s.slabIdx .ready, pc := .sending rest } := by
  have hset (i : Nat) (st : SlabState) : (s.slabs.set s.slabIdx st)[i]? =
      if s.slabIdx = i then some st else s.slabs[i]? := getElem?_set_slab hinv.idx
  have hsend : ∀ r, s.pc ≠ .sending r := by
    intro r
    rw [hpc]
    simp
  have hold : s.leases slabSize = s.held ++ s.channel := by
    unfold RingState.leases
    rw [RingState.pending_of_ne hsend, List.append_nil]
  have hnew : RingState.leases slabSize
      { s with slabs := s.slabs.set s.slabIdx .ready, pc := .sending rest } =
      s.leases slabSize ++ [s.lease slabSize] := by
    rw [hold, List.append_assoc]
    rfl
  have hne : s.slabIdx ∉ (s.leases slabSize).map SlabLease.slabIdx := by
    intro hmem
    obtain ⟨l, hl, heq⟩ := List.mem_map.1 hmem
    exact hinv.ne_of_lease howned hl heq
  have hnotOwned : ¬ RingState.Owned
      { s with slabs := s.slabs.set s.slabIdx .ready, pc := .sending rest } :=
    RingState.not_owned_of_sealed rfl hinv.idx
  refine ⟨?_, ?_, hinv.off, hinv.ok, fun i hi => ?_, fun i => ?_, ?_, ?_, ⟨hnotOwned, hfull⟩, ?_⟩
  · rw [List.length_set]
    exact hinv.buf
  · rw [List.length_set]
    exact hinv.idx
  · dsimp only at hi
    rw [hset] at hi
    split at hi
    · cases hi
    · exact hinv.filling i hi
  · rw [hnew, List.map_append, List.mem_append, ← hinv.ready i]
    dsimp only
    rw [hset]
    by_cases hi : s.slabIdx = i
    · rw [if_pos hi]
      exact iff_of_true rfl (.inr (List.mem_singleton.2 hi.symm))
    · rw [if_neg hi]
      exact (or_iff_left fun h => hi (List.mem_singleton.1 h).symm).symm
  · rw [hnew, List.map_append]
    refine List.nodup_append.2 ⟨hinv.nodup, List.nodup_singleton _, ?_⟩
    rintro a ha b hb rfl
    rw [List.mem_singleton.1 hb] at ha
    exact hne ha
  · rw [hnew]
    intro l hl
    rcases List.mem_append.1 hl with hl | hl
    · exact hinv.lease l hl
    · rw [List.mem_singleton.1 hl]
      exact ⟨rfl, hinv.off⟩
  · have hbytes := hinv.bytes
    rw [RingState.pending_of_ne hsend, List.append_nil] at hbytes
    rw [RingState.filled_of_not hnotOwned, List.nil_append, ← hbytes]
    show _ ++ (List.flatMap _ (s.channel ++ [s.lease slabSize]) ++ (rest.getD [] ++ _)) = _
    unfold RingState.filled RingState.rest
    rw [if_pos howned, hpc, List.flatMap_append, List.append_assoc, List.flatMap_singleton]
    rfl

theorem RingInv.send (hinv : RingInv slabSize total s) {rest : Option Bytes}
    (hpc : s.pc = .sending rest) (hnotOwned : ¬ s.Owned) :
    RingInv slabSize total
      { s with channel := s.channel ++ [s.lease slabSize], pc := afterSeal s.slabIdx rest } := by
  have hpending : s.pending slabSize = [s.lease slabSize] := by
    unfold RingState.pending
    rw [hpc]
  have hafter : ∀ r, afterSeal s.slabIdx rest ≠ .sending r := by
    intro r
    cases rest <;> simp [afterSeal]
  have hnone : RingState.pending slabSize
      { s with channel := s.channel ++ [s.lease slabSize], pc := afterSeal s.slabIdx rest } =
      [] := RingState.pending_of_ne hafter
  have hleases : RingState.leases slabSize
      { s with channel := s.channel ++ [s.lease slabSize], pc := afterSeal s.slabIdx rest } =
      s.leases slabSize := by
    unfold RingState.leases
    rw [hnone, hpending, List.append_nil]
  refine ⟨hinv.buf, hinv.idx, hinv.off, hinv.ok, hinv.filling, ?_, ?_, ?_, ?_, ?_⟩
  · rw [hleases]
    exact hinv.ready
  · rw [hleases]
    exact hinv.nodup
  · rw [hleases]
    exact hinv.lease
  · cases rest with
    | none => trivial
    | some rest => exact hnotOwned
  · have hbytes := hinv.bytes
    have hrest : (afterSeal s.slabIdx rest).rest = s.pc.rest := by
      rw [hpc]
      cases rest <;> rfl
    rw [hpending] at hbytes
    rw [hnone, List.append_nil, ← hbytes]
    unfold RingState.rest
    rw [← hrest]
    rfl

theorem RingInv.claim (hinv : RingInv slabSize total s) {rest : Bytes} {nextIdx : Nat}
    (hpc : s.pc = .claiming rest nextIdx) (hnotOwned : ¬ s.Owned)
    (hfree : s.slabs[nextIdx]? = some .free) :
    RingInv slabSize total
      { s with
        slabs := s.slabs.set nextIdx .filling
        slabIdx := nextIdx
        offset := 0
        pc := .copying rest } := by
  have hlt : nextIdx < s.slabs.length := (List.getElem?_eq_some_iff.1 hfree).1
  have hset (i : Nat) (st : SlabState) : (s.slabs.set nextIdx st)[i]? =
      if nextIdx = i then some st else s.slabs[i]? := getElem?_set_slab hlt
  have hsend : ∀ r, s.pc ≠ .sending r := by
    intro r
    rw [hpc]
    simp
  have hold : s.leases slabSize = s.held ++ (s.channel ++ []) := by
    unfold RingState.leases
    rw [RingState.pending_of_ne hsend]
  have howned : RingState.Owned
      { s with
        slabs := s.slabs.set nextIdx .filling
        slabIdx := nextIdx
        offset := 0
        pc := .copying rest } :=
    RingState.owned_of_claimed rfl hlt
  have hready := hinv.ready
  have hnodup := hinv.nodup
  have hlease := hinv.lease
  rw [hold] at hready hnodup hlease
  refine ⟨?_, ?_, Nat.zero_le _, hinv.ok, fun i hi => ?_, fun i => ?_, hnodup, hlease, howned, ?_⟩
  · rw [List.length_set]
    exact hinv.buf
  · rw [List.length_set]
    exact hlt
  · dsimp only at hi
    rw [hset] at hi
    split at hi
    · rename_i h
      exact h.symm
    · have heq := hinv.filling i hi
      rw [heq] at hi
      exact absurd hi hnotOwned
  · refine Iff.trans ?_ (hready i)
    dsimp only
    rw [hset]
    by_cases hi : nextIdx = i
    · rw [if_pos hi, ← hi, hfree]
      simp
    · rw [if_neg hi]
  · have hbytes := hinv.bytes
    rw [RingState.pending_of_ne hsend, RingState.filled_of_not hnotOwned] at hbytes
    unfold RingState.rest at hbytes
    rw [hpc] at hbytes
    rw [← hbytes]
    unfold RingState.filled RingState.rest
    rw [if_pos howned]
    rfl

theorem RingInv.writer (hinv : RingInv slabSize total s) (hcall : CallOk s)
    (h : WriterStep slabSize s s') : RingInv slabSize total s' := by
  have hpcInv := hinv.pc
  unfold RingState.PcInv at hpcInv
  cases h with
  | write hpc hcalls =>
    have howned := hcall hpc (by simp [hcalls])
    apply hinv.move
    · simp [hpc]
    · simp
    · simp [RingState.rest, hpc, hcalls, WriterPc.rest, Call.bytes]
    · exact howned
  | @flushNothing calls hpc hcalls hoff =>
    have hmove : RingInv slabSize total { s with pc := .idle, calls } := by
      apply hinv.move
      · simp [hpc]
      · simp
      · simp [RingState.rest, hpc, hcalls, WriterPc.rest, Call.bytes]
      · trivial
    rw [← hpc] at hmove
    exact hmove
  | flush hpc hcalls hoff =>
    have howned := hcall hpc (by simp [hcalls])
    apply hinv.move
    · simp [hpc]
    · simp
    · simp [RingState.rest, hpc, hcalls, WriterPc.rest, Call.bytes]
    · exact ⟨howned, fun h => absurd rfl h⟩
  | written hpc =>
    apply hinv.move
    · simp [hpc]
    · simp
    · simp [RingState.rest, hpc, WriterPc.rest]
    · trivial
  | full hpc hrest hroom =>
    rw [hpc] at hpcInv
    have hoff := hinv.off
    apply hinv.move
    · simp [hpc]
    · simp
    · simp [RingState.rest, hpc, WriterPc.rest]
    · exact ⟨hpcInv, fun _ => by dsimp only; omega⟩
  | copy hpc hrest hroom =>
    rw [hpc] at hpcInv
    exact hinv.copy hpc hpcInv
  | markReady hpc hprev =>
    rw [hpc] at hpcInv
    exact hinv.markReady hpc hpcInv.1 hpcInv.2
  | alreadySealed hpc hprev =>
    rw [hpc] at hpcInv
    exact absurd hpcInv.1 hprev
  | send hpc =>
    rw [hpc] at hpcInv
    exact hinv.send hpc hpcInv.1
  | looped hpc hloop =>
    rw [hpc] at hpcInv
    apply hinv.move
    · simp [hpc]
    · simp
    · simp [RingState.rest, hpc, WriterPc.rest]
    · exact hpcInv
  | found hpc hloop hfree =>
    rw [hpc] at hpcInv
    apply hinv.move
    · simp [hpc]
    · simp
    · simp [RingState.rest, hpc, WriterPc.rest]
    · exact ⟨hpcInv, hfree⟩
  | taken hpc hloop htaken =>
    rw [hpc] at hpcInv
    apply hinv.move
    · simp [hpc]
    · simp
    · simp [RingState.rest, hpc, WriterPc.rest]
    · exact hpcInv
  | wake hpc =>
    rw [hpc] at hpcInv
    apply hinv.move
    · simp [hpc]
    · simp
    · simp [RingState.rest, hpc, WriterPc.rest]
    · exact hpcInv
  | claim hpc hprev =>
    rw [hpc] at hpcInv
    exact hinv.claim hpc hpcInv.1 hprev
  | raced hpc hprev =>
    rw [hpc] at hpcInv
    exact absurd hpcInv.2 hprev

/-! ## The steps of the reader -/

theorem RingInv.recv (hinv : RingInv slabSize total s) {l : SlabLease} {channel : List SlabLease}
    (hchannel : s.channel = l :: channel) :
    RingInv slabSize total
      { s with channel, held := s.held ++ [l], received := s.received ++ [l.asSlice s.buf] } := by
  have hleases : RingState.leases slabSize
      { s with channel, held := s.held ++ [l], received := s.received ++ [l.asSlice s.buf] } =
      s.leases slabSize := by
    unfold RingState.leases
    rw [hchannel, List.append_assoc]
    rfl
  refine ⟨hinv.buf, hinv.idx, hinv.off, hinv.ok, hinv.filling, ?_, ?_, ?_, hinv.pc, ?_⟩
  · rw [hleases]
    exact hinv.ready
  · rw [hleases]
    exact hinv.nodup
  · rw [hleases]
    exact hinv.lease
  · have hbytes := hinv.bytes
    rw [hchannel, List.cons_append, List.flatMap_cons] at hbytes
    rw [List.flatten_append, List.flatten_singleton, List.append_assoc, ← hbytes]
    simp only [List.append_assoc]
    rfl

theorem RingInv.drop (hinv : RingInv slabSize total s) {l : SlabLease}
    {held₁ held₂ : List SlabLease} (hheld : s.held = held₁ ++ l :: held₂) :
    RingInv slabSize total
      { s with slabs := s.slabs.set l.slabIdx .free, held := held₁ ++ held₂ } := by
  have hold : s.leases slabSize = held₁ ++ l :: (held₂ ++ (s.channel ++ s.pending slabSize)) := by
    unfold RingState.leases
    rw [hheld, List.append_assoc, List.cons_append]
  have hnew : RingState.leases slabSize
      { s with slabs := s.slabs.set l.slabIdx .free, held := held₁ ++ held₂ } =
      held₁ ++ (held₂ ++ (s.channel ++ s.pending slabSize)) := List.append_assoc ..
  have hready := hinv.ready
  have hnodup := hinv.nodup
  rw [hold, List.map_append, List.map_cons] at hready hnodup
  rw [List.nodup_middle, List.nodup_cons, ← List.map_append] at hnodup
  have hl : s.slabs[l.slabIdx]? = some .ready :=
    (hready _).2 (List.mem_append_right _ List.mem_cons_self)
  have hlt : l.slabIdx < s.slabs.length := (List.getElem?_eq_some_iff.1 hl).1
  have hset (i : Nat) (st : SlabState) : (s.slabs.set l.slabIdx st)[i]? =
      if l.slabIdx = i then some st else s.slabs[i]? := getElem?_set_slab hlt
  have howned : RingState.Owned
      { s with slabs := s.slabs.set l.slabIdx .free, held := held₁ ++ held₂ } ↔ s.Owned :=
    RingState.owned_drop hl
  refine ⟨?_, ?_, hinv.off, hinv.ok, fun i hi => ?_, fun i => ?_, ?_, ?_, ?_, ?_⟩
  · rw [List.length_set]
    exact hinv.buf
  · rw [List.length_set]
    exact hinv.idx
  · dsimp only at hi
    rw [hset] at hi
    split at hi
    · cases hi
    · exact hinv.filling i hi
  · rw [hnew]
    dsimp only
    rw [hset]
    by_cases hi : l.slabIdx = i
    · rw [if_pos hi, ← hi]
      exact iff_of_false (by simp) hnodup.1
    · have hne : i ≠ l.slabIdx := fun h => hi h.symm
      rw [if_neg hi, hready i]
      simp only [List.map_append, List.mem_append, List.mem_cons, hne, false_or]
  · rw [hnew]
    exact hnodup.2
  · rw [hnew]
    intro m hm
    apply hinv.lease
    rw [hold]
    rcases List.mem_append.1 hm with hm | hm
    · exact List.mem_append_left _ hm
    · exact List.mem_append_right _ (List.mem_cons_of_mem _ hm)
  · refine hinv.pc.congr rfl rfl howned fun i hi => ?_
    dsimp only
    rw [hset]
    split
    · rfl
    · exact hi
  · rw [← hinv.bytes]
    congr 2
    unfold RingState.filled
    by_cases h : s.Owned
    · rw [if_pos h, if_pos (howned.2 h)]
      rfl
    · rw [if_neg h, if_neg fun h' => h (howned.1 h')]
      rfl

/-- Every step keeps the invariant. -/
theorem RingInv.step (hinv : RingInv slabSize total s) {ev : RingEvent}
    (hcall : ev = .writer → CallOk s) (h : RingStep slabSize s ev s') :
    RingInv slabSize total s' := by
  cases h with
  | writer hok h => exact hinv.writer (hcall rfl) h
  | recv hok hchannel => exact hinv.recv hchannel
  | drop hok hheld hprev => exact hinv.drop hheld
  | @dropRaced l held₁ held₂ hok hheld hprev =>
    refine absurd ((hinv.ready l.slabIdx).2 (List.mem_map_of_mem ?_)) hprev
    refine List.mem_append_left _ ?_
    rw [hheld]
    exact List.mem_append_right _ List.mem_cons_self

/-- What a lease lends does not change while it is alive. -/
theorem RingInv.stable (hinv : RingInv slabSize total s) {ev : RingEvent}
    (h : RingStep slabSize s ev s') {l : SlabLease} (hl : l ∈ s.alive) :
    readAt s'.buf (slabStart slabSize l.slabIdx) slabSize =
      readAt s.buf (slabStart slabSize l.slabIdx) slabSize := by
  cases h with
  | writer hok h =>
    cases h with
    | @copy rest hpc hrest hroom =>
      have howned := hinv.pc
      unfold RingState.PcInv at howned
      rw [hpc] at howned
      have hmem : l ∈ s.leases slabSize := by
        unfold RingState.leases
        rw [← List.append_assoc]
        exact List.mem_append_left _ hl
      have hoff := hinv.off
      have hlen : (rest.take (min rest.length (slabSize - s.offset))).length ≤
          slabSize - s.offset := by
        rw [List.length_take]
        omega
      have hzero : 0 + slabSize ≤ slabSize := by omega
      exact hinv.readAt_copy (by omega) (hinv.ne_of_lease howned hmem) hzero
    | _ => rfl
  | _ => rfl

/-- The start of a ring. -/
theorem ringInv_create {slabCount : Nat} (hcount : 1 ≤ slabCount) (calls : List Call) :
    RingInv slabSize (calls.flatMap Call.bytes) (.create slabSize slabCount calls) := by
  have hlen : (List.replicate slabCount SlabState.free).length = slabCount :=
    List.length_replicate
  have hset (i : Nat) : (RingState.create slabSize slabCount calls).slabs[i]? =
      if 0 = i then some .filling else (List.replicate slabCount SlabState.free)[i]? :=
    getElem?_set_slab (by omega)
  refine ⟨?_, ?_, Nat.zero_le _, rfl, fun i hi => ?_, fun i => ?_, .nil, ?_, trivial, ?_⟩
  · simp [RingState.create]
  · simp [RingState.create]
    omega
  · rw [hset] at hi
    split at hi
    · rename_i h
      exact h.symm
    · rw [List.getElem?_replicate] at hi
      split at hi <;> cases hi
  · rw [hset]
    refine iff_of_false ?_ (by simp [RingState.create, RingState.leases, RingState.pending])
    split
    · simp
    · rw [List.getElem?_replicate]
      split <;> simp
  · intro l hl
    cases hl
  · unfold RingState.filled RingState.rest
    split <;> simp [RingState.create, RingState.pending, WriterPc.rest]

end

end S3Archive.Jrodon
