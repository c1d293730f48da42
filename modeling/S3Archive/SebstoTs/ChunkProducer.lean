import S3Archive.Base.Bytes
import S3Archive.Base.ChunkBuffer

/-!
# sebsto TypeScript: the chunk producer

`ChunkProducer` is where the archive writer and the uploader meet: a chunk that is
being filled, a queue of sealed chunks, and the count of chunks that hold a slot.
An `await` is not a part of it: who waits for a slot or for a chunk is a step of its
stage that is enabled once `hasSlot` holds or a chunk is queued.
-/

namespace S3Archive.SebstoTs

def chunkSizeBytes : Nat := 10 * 1024 * 1024
def bufferChunksCount : Nat := 3

structure UploadChunk where
  partNumber : Nat
  data : Bytes
  deriving DecidableEq

structure ChunkProducer where
  chunkSize : Nat
  maxInFlight : Nat
  /-- The filled portion of `buffer`; its length is `cursor`. -/
  buffer : Bytes := []
  nextPartNumber : Nat := 1
  inFlight : Nat := 0
  chunkQueue : List UploadChunk := []
  closed : Bool := false
  deriving DecidableEq

namespace ChunkProducer

def new (chunkSize maxInFlight : Nat) : ChunkProducer := { chunkSize, maxInFlight }

/-- `waitForSlot` goes on. A waiter that `releaseSlot` has woken finds its slot free. -/
def hasSlot (p : ChunkProducer) : Bool := p.inFlight < p.maxInFlight

/-- One turn of the loop of `append`, up to `emitFullChunk`: the bytes of `src` that fit. -/
def fill (p : ChunkProducer) (src : Bytes) : ChunkProducer × Bytes :=
  let (buffer, rest) := fillChunk p.chunkSize p.buffer src
  ({ p with buffer }, rest)

/-- `emitFullChunk` after `waitForSlot`. -/
def emitFullChunk (p : ChunkProducer) : ChunkProducer :=
  { p with
    nextPartNumber := p.nextPartNumber + 1
    inFlight := p.inFlight + 1
    buffer := []
    chunkQueue := p.chunkQueue ++ [⟨p.nextPartNumber, p.buffer⟩] }

/-- The end of `finish`. -/
def close (p : ChunkProducer) : ChunkProducer := { p with closed := true }

def releaseSlot (p : ChunkProducer) : ChunkProducer := { p with inFlight := p.inFlight - 1 }

end ChunkProducer

end S3Archive.SebstoTs
