import S3Archive.SebstoTs.ZipStage
import S3Archive.SebstoSwift.ZipFormat

/-!
# sebsto Swift: the archive writer

`runZipStage` of the Swift contender on the downloaded files in arrival order.
`runZipStage_eq_some_iff` says when it does not trap and that it appends the same
archive as the TypeScript stage; `zipStages_readBack` reads that archive.
-/

namespace S3Archive.SebstoSwift

structure DownloadedFile where
  name : String
  buffer : Bytes
  crc32 : UInt32
  releaseBytes : Nat

structure ZipLocals where
  entries : List ZipEntry := []
  offset : UInt64 := 0

/-- The same file in TypeScript. -/
def DownloadedFile.toTs (f : DownloadedFile) : SebstoTs.DownloadedFile :=
  ⟨f.name, f.buffer, f.crc32, f.releaseBytes⟩

def DownloadedFile.ofTs (f : SebstoTs.DownloadedFile) : DownloadedFile :=
  ⟨f.name, f.body, f.crc32, f.releaseBytes⟩

theorem DownloadedFile.map_toTs_ofTs (files : List SebstoTs.DownloadedFile) :
    (files.map ofTs).map toTs = files := by
  rw [List.map_map]
  exact List.map_id files

/-- The loop body: the variables after it and the bytes appended to the producer. -/
def zipFile : ZipLocals × Bytes → DownloadedFile → Option (ZipLocals × Bytes)
  | (z, out), file => do
    let bodySize ← uint64 file.buffer.length
    let lfh ← localFileHeader file.name
    let lfhOffset := z.offset
    let dd := dataDescriptor file.crc32 bodySize
    let added ← addU64 (← addU64 (← uint64 lfh.length) bodySize) (← uint64 dd.length)
    let offset ← addU64 z.offset added
    let entries := z.entries ++ [⟨file.name, file.crc32, bodySize, lfhOffset⟩]
    return (⟨entries, offset⟩, out ++ lfh ++ file.buffer ++ dd)

/-- The central directory, the ZIP64 end record, the locator and the end record. -/
def endBytes (z : ZipLocals) : Option Bytes := do
  let cdOffset := z.offset
  let cd := (← z.entries.mapM centralDirectoryHeader).flatten
  let cdSize ← uint64 cd.length
  let offset ← addU64 z.offset cdSize
  let zip64Eocd := zip64EndOfCentralDirectory (← uint64 z.entries.length) cdSize cdOffset
  let zip64EocdOffset := offset
  let _offset ← addU64 offset (← uint64 zip64Eocd.length)
  return cd ++ zip64Eocd ++ zip64EndOfCentralDirectoryLocator zip64EocdOffset ++
    endOfCentralDirectory

/-- The bytes appended for the files that arrive, unless something traps. -/
def runZipStage (files : List DownloadedFile) : Option Bytes := do
  let (z, out) ← files.foldlM zipFile ({}, [])
  return out ++ (← endBytes z)

/-! ## The same steps in TypeScript -/

def ZipLocals.toTs (z : ZipLocals) : SebstoTs.ZipLocals :=
  ⟨z.entries.map ZipEntry.toTs, z.offset.toNat⟩

theorem addU64_eq_some {a b c : UInt64} : addU64 a b = some c ↔ a.toNat + b.toNat = c.toNat :=
  uint64_eq_some

theorem exists_uint64 {n : Nat} (h : n < 2 ^ 64) : ∃ v : UInt64, n = v.toNat :=
  ⟨.ofNat n, (UInt64.toNat_ofNat_of_lt' h).symm⟩

section

variable {z z' : ZipLocals} {out out' : Bytes} {file : DownloadedFile} {buffers : List Bytes}

/-- The loop body appends the TypeScript buffers and keeps the TypeScript variables. -/
theorem zipFile_toTs (h : zipFile (z, out) file = some (z', out')) :
    ∃ buffers, SebstoTs.fileBuffers file.toTs = some buffers ∧
      z'.toTs = z.toTs.add file.toTs buffers ∧ out' = out ++ buffers.flatten := by
  simp only [zipFile, Option.bind_eq_bind, Option.bind_eq_some_iff, uint64_eq_some, addU64_eq_some,
    Option.pure_def, Option.some.injEq, Prod.mk.injEq] at h
  obtain ⟨size, hsize, lfh, hlfh, n₁, hn₁, n₂, hn₂, n₃, hn₃, n₄, hn₄, off, hoff, rfl, rfl⟩ := h
  refine ⟨[lfh, file.buffer, dataDescriptor file.crc32 size], ?_, ?_, ?_⟩
  · have hdd := dataDescriptor_eq file.crc32 size
    rw [← hsize] at hdd
    simp only [SebstoTs.fileBuffers, DownloadedFile.toTs, ← localFileHeader_eq, hlfh, hdd,
      Option.bind_eq_bind, Option.bind_some, Option.pure_def]
  · simp only [ZipLocals.toTs, SebstoTs.ZipLocals.add, DownloadedFile.toTs, List.map_append,
      List.map_cons, List.map_nil, ZipEntry.toTs, ← hsize, ← hoff, List.sum_cons, List.sum_nil]
    congr 1
    omega
  · simp

/-- If the offset stays in 64 bits, the loop body does not trap. -/
theorem exists_zipFile (h : SebstoTs.fileBuffers file.toTs = some buffers)
    (hlen : z.offset.toNat + (buffers.map List.length).sum < 2 ^ 64) :
    ∃ z', zipFile (z, out) file = some (z', out ++ buffers.flatten) := by
  simp only [SebstoTs.fileBuffers, DownloadedFile.toTs, ← localFileHeader_eq, Option.bind_eq_bind,
    Option.bind_eq_some_iff, Option.pure_def, Option.some.injEq] at h
  obtain ⟨lfh, hlfh, dd, hdd, rfl⟩ := h
  simp only [List.map_cons, List.map_nil, List.sum_cons, List.sum_nil] at hlen
  obtain ⟨size, hsize⟩ := exists_uint64 (n := file.buffer.length) (by omega)
  rw [hsize, dataDescriptor_eq, Option.some.injEq] at hdd
  subst hdd
  obtain ⟨n₁, hn₁⟩ := exists_uint64 (n := lfh.length) (by omega)
  obtain ⟨n₂, hn₂⟩ := exists_uint64 (n := n₁.toNat + size.toNat) (by omega)
  obtain ⟨n₃, hn₃⟩ := exists_uint64 (n := (dataDescriptor file.crc32 size).length) (by omega)
  obtain ⟨n₄, hn₄⟩ := exists_uint64 (n := n₂.toNat + n₃.toNat) (by omega)
  obtain ⟨off, hoff⟩ := exists_uint64 (n := z.offset.toNat + n₄.toNat) (by omega)
  refine ⟨⟨z.entries ++ [⟨file.name, file.crc32, size, z.offset⟩], off⟩, ?_⟩
  simp only [zipFile, Option.bind_eq_bind, Option.bind_eq_some_iff, uint64_eq_some, addU64_eq_some,
    Option.pure_def, Option.some.injEq, Prod.mk.injEq]
  exact ⟨size, hsize, lfh, hlfh, n₁, hn₁, n₂, hn₂, n₃, hn₃, n₄, hn₄, off, hoff, rfl, by simp⟩

end

/-- The loops over the files agree. -/
theorem zipFiles_toTs {files : List DownloadedFile} {z : ZipLocals} {out : Bytes}
    (h : files.foldlM zipFile ({}, []) = some (z, out)) :
    ∃ buffers, (files.map DownloadedFile.toTs).foldlM SebstoTs.zipFile ({}, []) =
      some (z.toTs, buffers) ∧ out = buffers.flatten := by
  induction files using List.reverseRecOn generalizing z out with
  | nil =>
    cases h
    exact ⟨[], rfl, rfl⟩
  | append_singleton files file ih =>
    simp only [List.foldlM_append, List.foldlM_cons, List.foldlM_nil, Option.bind_eq_bind,
      Option.bind_eq_some_iff, Option.pure_def, Option.some.injEq, exists_eq_right] at h
    obtain ⟨⟨z₁, out₁⟩, h₁, h₂⟩ := h
    obtain ⟨buffers₁, hb₁, rfl⟩ := ih h₁
    obtain ⟨buffers₂, hb₂, hz, rfl⟩ := zipFile_toTs h₂
    refine ⟨buffers₁ ++ buffers₂, ?_, by simp⟩
    simp only [List.map_append, List.map_cons, List.map_nil, List.foldlM_append, List.foldlM_cons,
      List.foldlM_nil, hb₁, Option.bind_eq_bind, Option.bind_some, SebstoTs.zipFile, hb₂, hz,
      Option.pure_def]

theorem exists_zipFiles {files : List DownloadedFile} {zt : SebstoTs.ZipLocals}
    {buffers : List Bytes}
    (h : (files.map DownloadedFile.toTs).foldlM SebstoTs.zipFile ({}, []) = some (zt, buffers))
    (hlen : zt.offset < 2 ^ 64) :
    ∃ z, files.foldlM zipFile ({}, []) = some (z, buffers.flatten) ∧ z.toTs = zt := by
  induction files using List.reverseRecOn generalizing zt buffers with
  | nil =>
    cases h
    exact ⟨{}, rfl, rfl⟩
  | append_singleton files file ih =>
    simp only [List.map_append, List.map_cons, List.map_nil, List.foldlM_append, List.foldlM_cons,
      List.foldlM_nil, Option.bind_eq_bind, Option.bind_eq_some_iff, Option.pure_def,
      Option.some.injEq, exists_eq_right, SebstoTs.zipFile, Prod.exists, Prod.mk.injEq] at h
    obtain ⟨zt₁, buffers₁, h₁, buffers₂, hb₂, rfl, rfl⟩ := h
    unfold SebstoTs.ZipLocals.add at hlen
    dsimp only at hlen
    obtain ⟨z₁, hz₁, rfl⟩ := ih h₁ (by omega)
    obtain ⟨z, hz⟩ : ∃ z, zipFile (z₁, buffers₁.flatten) file =
        some (z, buffers₁.flatten ++ buffers₂.flatten) := exists_zipFile hb₂ hlen
    obtain ⟨_, hb, hadd, -⟩ := zipFile_toTs hz
    rw [hb₂, Option.some.injEq] at hb
    subst hb
    refine ⟨z, ?_, hadd⟩
    simp only [List.foldlM_append, List.foldlM_cons, List.foldlM_nil, hz₁, Option.bind_eq_bind,
      Option.bind_some, hz, List.flatten_append, Option.pure_def]

/-! ## The directory and the end records -/

theorem headers_toTs (entries : List ZipEntry) :
    entries.mapM centralDirectoryHeader =
      (entries.map ZipEntry.toTs).mapM SebstoTs.centralDirectoryHeader := by
  rw [List.mapM_map]
  congr 1
  funext e
  exact centralDirectoryHeader_eq e

theorem endBytes_toTs {z : ZipLocals} {bs : Bytes} (h : endBytes z = some bs) :
    ∃ ends, SebstoTs.endBuffers z.toTs = some ends ∧ bs = ends.flatten := by
  simp only [endBytes, Option.bind_eq_bind, Option.bind_eq_some_iff, uint64_eq_some, addU64_eq_some,
    Option.pure_def, Option.some.injEq, headers_toTs] at h
  obtain ⟨headers, hheaders, cdSize, hsize, off, hoff, count, hcount, -, -, -, -, rfl⟩ := h
  rw [List.length_flatten] at hsize
  refine ⟨headers ++ [zip64EndOfCentralDirectory count cdSize z.offset,
    zip64EndOfCentralDirectoryLocator off, endOfCentralDirectory], ?_, by simp⟩
  simp only [SebstoTs.endBuffers, ZipLocals.toTs, hheaders, Option.bind_eq_bind, Option.bind_some,
    hsize, List.length_map, hcount, zip64EndOfCentralDirectory_eq, hoff,
    zip64EndOfCentralDirectoryLocator_eq, endOfCentralDirectory_eq, Option.pure_def]

theorem exists_endBytes {z : ZipLocals} {ends : List Bytes}
    (h : SebstoTs.endBuffers z.toTs = some ends)
    (hlen : z.offset.toNat + ends.flatten.length < 2 ^ 64) : endBytes z = some ends.flatten := by
  simp only [SebstoTs.endBuffers, ZipLocals.toTs, Option.bind_eq_bind, Option.bind_eq_some_iff,
    Option.pure_def, Option.some.injEq, ← List.length_flatten] at h
  obtain ⟨headers, hheaders, z64, hz64, locator, hlocator, rfl⟩ := h
  have hz64len : z64.length = 56 := by
    rw [(SebstoTs.zip64EndOfCentralDirectory_eq_some.1 hz64).2, Zip.EndHeader.length_encode64]
  simp only [List.flatten_append, List.flatten_cons, List.length_append, hz64len] at hlen
  obtain ⟨cdSize, hsize⟩ := exists_uint64 (n := headers.flatten.length) (by omega)
  obtain ⟨off, hoff⟩ := exists_uint64 (n := z.offset.toNat + cdSize.toNat) (by omega)
  obtain ⟨count, hcount⟩ := exists_uint64
    (SebstoTs.zip64EndOfCentralDirectory_eq_some.1 hz64).1.1
  obtain ⟨n, hn⟩ := exists_uint64 (n := 56) (by omega)
  obtain ⟨last, hlast⟩ := exists_uint64 (n := off.toNat + n.toNat) (by omega)
  rw [hcount, hsize, zip64EndOfCentralDirectory_eq, Option.some.injEq] at hz64
  rw [hsize, hoff, zip64EndOfCentralDirectoryLocator_eq, Option.some.injEq] at hlocator
  subst hz64 hlocator
  rw [← hz64len] at hn
  simp only [endBytes, Option.bind_eq_bind, Option.bind_eq_some_iff, uint64_eq_some,
    addU64_eq_some, Option.pure_def, Option.some.injEq, headers_toTs]
  rw [List.length_map] at hcount
  refine ⟨headers, hheaders, cdSize, hsize, off, hoff, count, hcount, n, hn, last, hlast, ?_⟩
  simp [endOfCentralDirectory_eq]

/-! ## The stages -/

/-- What the Swift stage appends, the TypeScript stage appends for the same files. -/
theorem runZipStage_toTs {files : List DownloadedFile} {bs : Bytes}
    (h : runZipStage files = some bs) :
    SebstoTs.runZipStage (files.map DownloadedFile.toTs) = some bs := by
  simp only [runZipStage, Option.bind_eq_bind, Option.bind_eq_some_iff, Option.pure_def,
    Option.some.injEq, Prod.exists] at h
  obtain ⟨z, out, hfiles, endBs, hendBs, rfl⟩ := h
  obtain ⟨buffers, hbuffers, rfl⟩ := zipFiles_toTs hfiles
  obtain ⟨ends, hends, rfl⟩ := endBytes_toTs hendBs
  simp only [SebstoTs.runZipStage, hbuffers, hends, Option.bind_eq_bind, Option.bind_some,
    List.flatten_append, Option.pure_def]

/-- What the TypeScript stage appends, the Swift stage appends when it fits in 64 bits. -/
theorem runZipStage_of_toTs {files : List DownloadedFile} {bs : Bytes}
    (h : SebstoTs.runZipStage (files.map DownloadedFile.toTs) = some bs)
    (hlen : bs.length < 2 ^ 64) : runZipStage files = some bs := by
  simp only [SebstoTs.runZipStage, Option.bind_eq_bind, Option.bind_eq_some_iff, Option.pure_def,
    Option.some.injEq, Prod.exists] at h
  obtain ⟨zt, buffers, hbuffers, ends, hends, rfl⟩ := h
  have hzt : zt.offset = buffers.flatten.length := by
    obtain ⟨-, heq⟩ := (SebstoTs.zipFiles_guarded _ _).1 hbuffers
    cases heq
    rw [SebstoTs.flatten_buffersOf]
    rfl
  rw [List.flatten_append, List.length_append, ← hzt] at hlen
  obtain ⟨z, hz, rfl⟩ := exists_zipFiles hbuffers (by omega)
  have hbs := exists_endBytes hends hlen
  simp only [runZipStage, hz, hbs, Option.bind_eq_bind, Option.bind_some, List.flatten_append,
    Option.pure_def]

/-- The stage does not trap when the names have at most 65535 bytes and the archive fits in 64
bits. -/
theorem exists_runZipStage {files : List DownloadedFile}
    (hname : ∀ f ∈ files, (utf8 f.name).length < 2 ^ 16)
    (hlen : SebstoTs.archiveLength (files.map DownloadedFile.toTs) < 2 ^ 64) :
    ∃ bs, runZipStage files = some bs := by
  rw [← SebstoTs.length_streamedArchive] at hlen
  refine ⟨_, runZipStage_of_toTs (SebstoTs.runZipStage_eq_some_iff.2 ⟨?_, ?_, rfl⟩) hlen⟩
  · intro f hf
    obtain ⟨g, hg, rfl⟩ := List.mem_map.1 hf
    exact hname g hg
  · simp only [Zip.streamedArchive, List.length_append] at hlen
    omega

/-- For the same files in the same order the two stages append the same archive, which reads back;
they do so whenever the names have at most 65535 bytes and the archive fits in 64 bits. -/
theorem zipStages_readBack (files : List SebstoTs.DownloadedFile) :
    (∀ bs, SebstoTs.runZipStage files = some bs →
      Zip.StreamedReadsBack bs (files.map SebstoTs.streamed)) ∧
    (∀ bs, runZipStage (files.map .ofTs) = some bs → SebstoTs.runZipStage files = some bs) ∧
    ((∀ f ∈ files, (utf8 f.name).length ≤ 65535) → SebstoTs.archiveLength files < 2 ^ 64 →
      ∃ bs, SebstoTs.runZipStage files = some bs ∧ runZipStage (files.map .ofTs) = some bs) := by
  have hback {bs : Bytes} (h : runZipStage (files.map .ofTs) = some bs) :
      SebstoTs.runZipStage files = some bs := by
    have hts := runZipStage_toTs h
    rwa [DownloadedFile.map_toTs_ofTs] at hts
  refine ⟨fun bs h => SebstoTs.runZipStage_readsBack h, fun bs h => hback h, fun hname hlen => ?_⟩
  obtain ⟨bs, hbs⟩ : ∃ bs, runZipStage (files.map .ofTs) = some bs := by
    refine exists_runZipStage (fun f hf => ?_) (by rwa [DownloadedFile.map_toTs_ofTs])
    obtain ⟨g, hg, rfl⟩ := List.mem_map.1 hf
    exact Nat.lt_succ_of_le (hname g hg)
  exact ⟨bs, hback hbs, hbs⟩

/-- A file named `a` of three bytes and a file named `b` of two. -/
def twoFiles : List SebstoTs.DownloadedFile :=
  [⟨"a", [1, 2, 3], 0x55BC801D, 3⟩, ⟨"b", [4, 5], 0x55DF2374, 2⟩]

/-- Both stages append the same archive of two files. -/
theorem zipStages_readBack_two : ∃ bs, SebstoTs.runZipStage twoFiles = some bs ∧
    runZipStage (twoFiles.map .ofTs) = some bs ∧
    Zip.StreamedReadsBack bs (twoFiles.map SebstoTs.streamed) := by
  obtain ⟨hread, -, hboth⟩ := zipStages_readBack twoFiles
  obtain ⟨bs, hts, hswift⟩ := hboth (by decide) (by decide)
  exact ⟨bs, hts, hswift, hread bs hts⟩

end S3Archive.SebstoSwift
