import S3Archive.Sebsto.ChunkProgress

/-!
# sebsto Typescript and Swift: what the chunk producer delivers

`Delivers` says what the consumer sees in a state of a run, and `chunkProducers_deliver` that it
holds in every run of both producers.
-/

namespace S3Archive.Sebsto

variable {κ : Type} {chunkSize maxInFlight : Nat} {stream : StreamSemantics κ UploadChunk}
  {total : Bytes} {s s' : ProducerState κ}

/-- What the consumer sees after the events `evs` of a run. -/
structure Delivers (chunkSize maxInFlight : Nat) (stream : StreamSemantics κ UploadChunk)
    (calls : List Append) (evs : List ChunkEvent) (s : ProducerState κ) : Prop where
  /-- No more chunks are outstanding than there are slots. -/
  outstanding : (stream.contents s.channel).length + s.held.length ≤ maxInFlight
  numbered : NumberedFrom UploadChunk.partNumber 1 s.received
  full : ∀ c ∈ s.received.dropLast, c.data.length = chunkSize
  nonempty : ∀ c ∈ s.received, c.data ≠ [] ∧ c.data.length ≤ chunkSize
  inOrder : ∃ rest, (s.received.map UploadChunk.data).flatten ++ rest =
    calls.flatMap Append.bytes
  complete : s.ended = true →
    (s.received.map UploadChunk.data).flatten = calls.flatMap Append.bytes
  /-- Every step brings the end nearer, so that each run comes to it. -/
  bounded : evs.length + s.work stream ≤
    7 * (calls.flatMap Append.bytes).length + 2 * calls.length + 8
  lowers : ∀ ev s', ChunkStep chunkSize maxInFlight stream s ev s' →
    s'.work stream < s.work stream
  goesOn : s.ended = true ∨ ∃ ev s', ChunkStep chunkSize maxInFlight stream s ev s'

theorem ProducerInv.lengths (hinv : ProducerInv chunkSize maxInFlight stream total s) :
    (∀ c ∈ (s.sent stream).dropLast, c.data.length = chunkSize) ∧
      (∀ c ∈ s.sent stream, c.data.length ≤ chunkSize) ∧
      ∃ rest, ((s.sent stream).map UploadChunk.data).flatten ++ rest = total := by
  by_cases hall : s.phase.AllSent
  · obtain ⟨hflatten, hfull, hle⟩ := hinv.chunking hall
    refine ⟨fun c hc => hfull _ ?_, fun c hc => hle _ (List.mem_map_of_mem hc), [], ?_⟩
    · rw [← List.map_dropLast]
      exact List.mem_map_of_mem hc
    · rw [List.append_nil, hflatten]
  · obtain ⟨hflatten, hfull⟩ := hinv.chunked hall
    have hlen : ∀ c ∈ s.sent stream, c.data.length = chunkSize := fun c hc =>
      hfull _ (List.mem_map_of_mem hc)
    exact ⟨fun c hc => hlen c (List.dropLast_subset _ hc), fun c hc => Nat.le_of_eq (hlen c hc),
      _, hflatten⟩

theorem mem_dropLast_append {α : Type} {xs ys : List α} {x : α} (h : x ∈ xs.dropLast) :
    x ∈ (xs ++ ys).dropLast := by
  cases ys with
  | nil => rwa [List.append_nil]
  | cons y ys =>
    rw [List.dropLast_append_cons]
    exact List.mem_append_left _ (List.dropLast_subset _ h)

theorem delivers {calls : List Append} {evs : List ChunkEvent} (hchunk : 1 ≤ chunkSize)
    (hslots : 1 ≤ maxInFlight)
    (h : ChunkRun chunkSize maxInFlight stream (.create stream calls) evs s) :
    Delivers chunkSize maxInFlight stream calls evs s := by
  have hinv := producerInv_run hchunk h
  obtain ⟨hfull, hle, rest, hrest⟩ := hinv.lengths
  refine ⟨hinv.slots ▸ hinv.bound, hinv.numbered.left, fun c hc => ?_, fun c hc => ⟨?_, ?_⟩, ?_,
    fun hended => ?_, ?_, fun _ _ hstep => hinv.work_step hchunk hstep, ?_⟩
  · exact hfull c (mem_dropLast_append hc)
  · exact hinv.nonempty c (List.mem_append_left _ hc)
  · exact hle c (List.mem_append_left _ hc)
  · unfold ProducerState.sent at hrest
    rw [List.map_append, List.flatten_append, List.append_assoc] at hrest
    exact ⟨_, hrest⟩
  · obtain ⟨hfinished, hempty⟩ := hinv.ended hended
    have hchunking := hinv.chunking (by rw [hinv.finished.1 hfinished]; trivial)
    unfold ProducerState.sent at hchunking
    rw [hempty, List.append_nil] at hchunking
    exact hchunking.flatten_eq
  · exact Nat.le_trans ((producerInv_create hchunk calls).length_le hchunk h)
      (ProducerState.work_create calls)
  · cases hopen : s.ended with
    | true => exact .inl rfl
    | false => exact .inr (hinv.progress hslots hopen)

/-- Both producers: in any interleaving the chunks arrive in order, numbered from 1, make up the
appended bytes and are full but for the last, and no more are outstanding than there are slots.
All runs are bounded, and the end is received in those that cannot go on. -/
theorem chunkProducers_deliver {chunkSize maxInFlight : Nat} (hchunk : 1 ≤ chunkSize)
    (hslots : 1 ≤ maxInFlight) :
    (∀ (srcs : List Bytes) evs s,
      ChunkRun chunkSize maxInFlight chunkChannel (.create chunkChannel (srcs.map .data)) evs s →
        Delivers chunkSize maxInFlight chunkChannel (srcs.map .data) evs s) ∧
    ∀ (calls : List Append) evs s,
      ChunkRun chunkSize maxInFlight (asyncStream _) (.create (asyncStream _) calls) evs s →
        Delivers chunkSize maxInFlight (asyncStream _) calls evs s :=
  ⟨fun _ _ _ => delivers hchunk hslots, fun _ _ _ => delivers hchunk hslots⟩

/-- In Typescript, three chunks of two bytes through one slot; the producer waits twice. -/
theorem chunkChannel_run :
    ChunkRun 2 1 chunkChannel (.create chunkChannel ([[1, 2, 3], [4, 5]].map .data))
      (List.replicate 9 .producer ++ [.consumer, .consumer, .released] ++
        List.replicate 5 .producer ++ [.consumer, .consumer, .released] ++
        List.replicate 2 .producer ++ List.replicate 4 .consumer)
      ⟨[], 4, 1, 0, ⟨[], .idle, true⟩, .closed, [], [⟨1, [1, 2]⟩, ⟨2, [3, 4]⟩, ⟨3, [5]⟩],
        [⟨3, [5]⟩], true⟩ := by
  refine .cons (.append rfl rfl) ?_
  refine .cons (.copy rfl (by decide)) ?_
  refine .cons (.pass rfl (by decide)) ?_
  refine .cons (.emit rfl) ?_
  refine .cons (.copy rfl (by decide)) ?_
  refine .cons (.appended rfl) ?_
  refine .cons (.append rfl rfl) ?_
  refine .cons (.copy rfl (by decide)) ?_
  refine .cons (.wait rfl (by decide)) ?_
  refine .cons (.pending rfl (.recv rfl)) ?_
  refine .cons (.receive rfl (.resume rfl)) ?_
  refine .cons (@ChunkStep.release _ _ _ _ _ ⟨1, [1, 2]⟩ [] [] rfl) ?_
  refine .cons (.emit rfl) ?_
  refine .cons (.copy rfl (by decide)) ?_
  refine .cons (.appended rfl) ?_
  refine .cons (.finish rfl rfl) ?_
  refine .cons (.wait rfl (by decide)) ?_
  refine .cons (.pending rfl (.recv rfl)) ?_
  refine .cons (.receive rfl (.resume rfl)) ?_
  refine .cons (@ChunkStep.release _ _ _ _ _ ⟨2, [3, 4]⟩ [] [] rfl) ?_
  refine .cons (.emit rfl) ?_
  refine .cons (.close rfl) ?_
  refine .cons (.pending rfl (.recv rfl)) ?_
  refine .cons (.receive rfl (.resume rfl)) ?_
  refine .cons (.pending rfl (.recv rfl)) ?_
  exact .cons (.done rfl (.resumeNull rfl)) (.refl _)

/-- In Swift, the same chunks, of two calls with a `ByteBuffer`, the second of which does not fit,
and one with `Data`. -/
theorem asyncStream_run :
    ChunkRun 2 1 (asyncStream _)
      (.create (asyncStream _) [.byteBuffer [1], .byteBuffer [2, 3, 4], .data [5]])
      (List.replicate 8 .producer ++ [.consumer, .released] ++ List.replicate 7 .producer ++
        [.consumer, .released] ++ List.replicate 2 .producer ++ List.replicate 2 .consumer)
      ⟨[], 4, 1, 0, ⟨[], true⟩, .closed, [], [⟨1, [1, 2]⟩, ⟨2, [3, 4]⟩, ⟨3, [5]⟩],
        [⟨3, [5]⟩], true⟩ := by
  refine .cons (.append rfl rfl) ?_
  refine .cons (.appended rfl) ?_
  refine .cons (.append rfl rfl) ?_
  refine .cons (.copy rfl (by decide)) ?_
  refine .cons (.pass rfl (by decide)) ?_
  refine .cons (.emit rfl) ?_
  refine .cons (.copy rfl (by decide)) ?_
  refine .cons (.wait rfl (by decide)) ?_
  refine .cons (.receive rfl (.next rfl)) ?_
  refine .cons (@ChunkStep.release _ _ _ _ _ ⟨1, [1, 2]⟩ [] [] rfl) ?_
  refine .cons (.emit rfl) ?_
  refine .cons (.appended rfl) ?_
  refine .cons (.append rfl rfl) ?_
  refine .cons (.copy rfl (by decide)) ?_
  refine .cons (.appended rfl) ?_
  refine .cons (.finish rfl rfl) ?_
  refine .cons (.wait rfl (by decide)) ?_
  refine .cons (.receive rfl (.next rfl)) ?_
  refine .cons (@ChunkStep.release _ _ _ _ _ ⟨2, [3, 4]⟩ [] [] rfl) ?_
  refine .cons (.emit rfl) ?_
  refine .cons (.close rfl) ?_
  refine .cons (.receive rfl (.next rfl)) ?_
  exact .cons (.done rfl (.finished rfl rfl)) (.refl _)

/-- Three chunks through one slot, from both producers. -/
theorem chunkProducers_deliver_three_chunks :
    (∃ evs s, ChunkRun 2 1 chunkChannel (.create chunkChannel ([[1, 2, 3], [4, 5]].map .data)) evs
        s ∧
      s.ended = true ∧ (s.received.map UploadChunk.data).flatten = [1, 2, 3, 4, 5]) ∧
    ∃ evs s, ChunkRun 2 1 (asyncStream _)
        (.create (asyncStream _) [.byteBuffer [1], .byteBuffer [2, 3, 4], .data [5]]) evs s ∧
      s.ended = true ∧ (s.received.map UploadChunk.data).flatten = [1, 2, 3, 4, 5] :=
  ⟨⟨_, _, chunkChannel_run, rfl,
    ((chunkProducers_deliver (by decide) (by decide)).1 _ _ _ chunkChannel_run).complete rfl⟩,
    ⟨_, _, asyncStream_run, rfl,
      ((chunkProducers_deliver (by decide) (by decide)).2 _ _ _ asyncStream_run).complete rfl⟩⟩

end S3Archive.Sebsto
