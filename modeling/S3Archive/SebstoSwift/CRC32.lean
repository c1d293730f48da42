import S3Archive.Base.Bytes
import S3Archive.Base.ReflectedCrc

/-!
# sebsto Swift: CRC-32 by slicing

`CRC32Tables.makeTables` builds eight tables and `CRC32Tables.update` uses them for
eight bytes a turn. `makeTables_get` says what the tables hold: table `k` shifts a byte
past `k` more bytes. `CRC32.update_spec` is the result: the update is the fold of
`byteStep`, the definition of the checksum one bit at a time, and no index traps.
-/

namespace S3Archive.SebstoSwift

/-- One bit of the reflected polynomial division. -/
def bitStep (c : UInt32) : UInt32 :=
  if c &&& 1 ≠ 0 then (0xEDB88320 : UInt32) ^^^ (c >>> 1) else c >>> 1

/-- The definition: a byte goes into the low end, and its eight bits are shifted out. -/
def byteStep (c : UInt32) (b : UInt8) : UInt32 := bitStep^[8] (c ^^^ b.toUInt32)

namespace CRC32Tables

abbrev Table := Vector UInt32 256
abbrev Tables := Vector Table 8

/-- `t[k][n] = c` -/
def store (t : Tables) (k : Fin 8) (n : Fin 256) (c : UInt32) : Tables :=
  t.set k (t[k].set n c)

/-- The loop over the bits. -/
def storeByte (t : Tables) (n : Fin 256) : Tables := store t 0 n (bitStep^[8] (UInt32.ofNat n))

/-- `Int(c & 0xFF)` -/
def lowIndex (c : UInt32) : Fin 256 := ⟨(c &&& 0xFF).toNat, by
  rw [UInt32.toNat_and]
  exact Nat.lt_succ_of_le Nat.and_le_right⟩

/-- One turn of the loop over `1..<8`; `c` is its running value. -/
def storeNext (n : Fin 256) (tc : Tables × UInt32) (k : Fin 8) : Tables × UInt32 :=
  let c := tc.1[0][lowIndex tc.2] ^^^ (tc.2 >>> 8)
  (store tc.1 k n c, c)

def storeColumn (t : Tables) (n : Fin 256) : Tables :=
  (([1, 2, 3, 4, 5, 6, 7] : List (Fin 8)).foldl (storeNext n) (t, t[0][n])).1

def makeTables : Tables :=
  let t : Tables := .replicate 8 (.replicate 256 0)
  let t := (List.finRange 256).foldl storeByte t
  (List.finRange 256).foldl storeColumn t

/-- An array access: it traps past the end. -/
def look (t : Table) (i : UInt32) : Option UInt32 := t[i.toNat]?

/-- One turn of the loop over eight bytes. -/
def step8 (t : Tables) (c : UInt32) (b0 b1 b2 b3 b4 b5 b6 b7 : UInt8) : Option UInt32 := do
  let c0 := c &&& 0xFF
  let c1 := (c >>> 8) &&& 0xFF
  let c2 := (c >>> 16) &&& 0xFF
  let c3 := c >>> 24
  return (← look t[7] (c0 ^^^ b0.toUInt32))
    ^^^ (← look t[6] (c1 ^^^ b1.toUInt32))
    ^^^ (← look t[5] (c2 ^^^ b2.toUInt32))
    ^^^ (← look t[4] (c3 ^^^ b3.toUInt32))
    ^^^ (← look t[3] b4.toUInt32)
    ^^^ (← look t[2] b5.toUInt32)
    ^^^ (← look t[1] b6.toUInt32)
    ^^^ (← look t[0] b7.toUInt32)

/-- One turn of the loop over the remainder. -/
def step1 (t : Tables) (c : UInt32) (b : UInt8) : Option UInt32 := do
  return (← look t[0] ((c ^^^ b.toUInt32) &&& 0xFF)) ^^^ (c >>> 8)

/-- Both loops: eight bytes a turn as long as there are eight, then one at a time. -/
def drain (t : Tables) : UInt32 → Bytes → Option UInt32
  | c, b0 :: b1 :: b2 :: b3 :: b4 :: b5 :: b6 :: b7 :: rest => do
    drain t (← step8 t c b0 b1 b2 b3 b4 b5 b6 b7) rest
  | c, rest => rest.foldlM (step1 t) c

def update (crc : UInt32) (data : Bytes) : Option UInt32 := do
  let c ← drain makeTables (crc ^^^ 0xFFFFFFFF) data
  return c ^^^ 0xFFFFFFFF

end CRC32Tables

structure CRC32 where
  value : UInt32 := 0
  deriving DecidableEq

/-- Both overloads: the one for sequences copies them into an array first. -/
def CRC32.update (crc : CRC32) (bytes : Bytes) : Option CRC32 := do
  if bytes.isEmpty then
    return crc
  return { value := ← CRC32Tables.update crc.value bytes }

/-! ## Linearity -/

def poly : BitVec 32 := 0xEDB88320

theorem toBitVec_bitStep (c : UInt32) :
    (bitStep c).toBitVec = ReflectedCrc.bitStep poly c.toBitVec := by
  have hbit : c &&& 1 ≠ 0 ↔ c.toBitVec.getLsbD 0 = true := by
    rw [ne_eq, ← UInt32.toBitVec_inj]
    simp only [UInt32.toBitVec_and, UInt32.toBitVec_one, UInt32.toBitVec_zero,
      BitVec.and_one_eq_setWidth_ofBool_getLsbD]
    cases c.toBitVec.getLsbD 0 <;> simp
  unfold bitStep ReflectedCrc.bitStep
  by_cases h : c &&& 1 ≠ 0
  · rw [if_pos h, if_pos (hbit.1 h)]
    simp [poly]
  · rw [if_neg h, if_neg fun h' => h (hbit.2 h')]
    simp

theorem toBitVec_bitStep_iterate (n : Nat) (c : UInt32) :
    (bitStep^[n] c).toBitVec = ReflectedCrc.shift poly n c.toBitVec := by
  induction n generalizing c with
  | zero => rfl
  | succ n ih =>
    rw [Function.iterate_succ_apply, ih, toBitVec_bitStep]
    rfl

theorem toBitVec_byteStep (c : UInt32) (b : UInt8) :
    (byteStep c b).toBitVec = ReflectedCrc.byteStep poly c.toBitVec b.toBitVec := by
  rw [byteStep, toBitVec_bitStep_iterate]
  simp [ReflectedCrc.byteStep]

namespace CRC32Tables

theorem store_get (t : Tables) (k k' : Fin 8) (n n' : Fin 256) (c : UInt32) :
    (store t k n c)[k'][n'] = if k = k' ∧ n = n' then c else t[k'][n'] := by
  simp only [store, Fin.getElem_fin, Vector.getElem_set, Fin.ext_iff]
  by_cases hk : k.val = k'.val
  · by_cases hn : n.val = n'.val <;> simp [hk, hn]
  · simp [hk]

theorem and_255 (c : UInt32) : (c &&& 0xFF).toBitVec = ReflectedCrc.low c.toBitVec := by
  apply BitVec.eq_of_toNat_eq
  have hmod : c.toNat % 256 < 4294967296 := by omega
  simp [ReflectedCrc.low, Nat.and_two_pow_sub_one_eq_mod c.toNat 8, Nat.mod_eq_of_lt hmod]

theorem ofNat_lowIndex (c : UInt32) :
    BitVec.ofNat 32 (lowIndex c) = ReflectedCrc.low c.toBitVec := by
  rw [← and_255]
  apply BitVec.eq_of_toNat_eq
  simp [lowIndex]

/-- The entry `n` of table `k`. -/
def entry (k : Fin 8) (n : Fin 256) : UInt32 := bitStep^[8 * (k.val + 1)] (UInt32.ofNat n)

theorem toBitVec_entry (k : Fin 8) (n : Fin 256) :
    (entry k n).toBitVec = ReflectedCrc.shift poly (8 * (k + 1)) (BitVec.ofNat 32 n) :=
  toBitVec_bitStep_iterate ..

/-- One more byte is one more look into table 0. -/
theorem entry_succ {k k' : Fin 8} (hk : k'.val = k.val + 1) (n : Fin 256) :
    entry k' n = entry 0 (lowIndex (entry k n)) ^^^ (entry k n >>> 8) := by
  apply UInt32.toBitVec_inj.1
  have hsum : 8 * (k'.val + 1) = 8 + 8 * (k + 1) := by omega
  rw [UInt32.toBitVec_xor, toBitVec_entry k', toBitVec_entry 0, ofNat_lowIndex, hsum,
    ReflectedCrc.shift_add, ← toBitVec_entry, ReflectedCrc.shift_low_byte]
  simp

/-! ## The loops -/

theorem storeBytes_get (ns : List (Fin 256)) (t : Tables) (n : Fin 256)
    (h : n ∈ ns ∨ t[(0 : Fin 8)][n] = entry 0 n) :
    (ns.foldl storeByte t)[(0 : Fin 8)][n] = entry 0 n := by
  induction ns generalizing t with
  | nil => simpa using h
  | cons m ns ih =>
    apply ih
    by_cases hmn : m = n
    · right
      rw [storeByte, store_get, if_pos ⟨rfl, hmn⟩, hmn]
      rfl
    · rcases h with h | h
      · left
        exact (List.mem_cons.1 h).resolve_left (Ne.symm hmn)
      · right
        rw [storeByte, store_get, if_neg fun h' => hmn h'.2, h]

/-- The inner loop of column `n` after table `k`. -/
def Column (n : Fin 256) (t : Tables) (k : Fin 8) (tc : Tables × UInt32) : Prop :=
  tc.2 = entry k n ∧
  ∀ k' n', tc.1[k'][n'] = if n = n' ∧ k' ≤ k then entry k' n' else t[k'][n']

theorem Column.next {n : Fin 256} {t : Tables} {k : Fin 8} {tc : Tables × UInt32}
    (h : Column n t k tc) (ht : ∀ n, t[(0 : Fin 8)][n] = entry 0 n) (k' : Fin 8)
    (hk : k'.val = k.val + 1) :
    Column n t k' (storeNext n tc k') := by
  obtain ⟨hc, hget⟩ := h
  have hzero : ∀ m, tc.1[(0 : Fin 8)][m] = entry 0 m := fun m => by
    rw [hget]
    split
    · rfl
    · exact ht m
  have hnext : (storeNext n tc k').2 = entry k' n := by
    rw [entry_succ hk, ← hzero, ← hc]
    rfl
  refine ⟨hnext, fun j m => ?_⟩
  have hstore : (storeNext n tc k').1 = store tc.1 k' n (storeNext n tc k').2 := rfl
  rw [hstore, store_get, hnext, hget]
  by_cases hj : k' = j ∧ n = m
  · obtain ⟨rfl, rfl⟩ := hj
    simp
  · rw [if_neg hj]
    by_cases hm : n = m
    · have hne : j.val ≠ k'.val := fun h => hj ⟨Fin.ext h.symm, hm⟩
      have hiff : j ≤ k ↔ j ≤ k' := by omega
      simp only [hm, hiff, true_and]
    · simp only [hm, false_and, if_false]

theorem storeColumn_get {t : Tables} (ht : ∀ n, t[(0 : Fin 8)][n] = entry 0 n) (n n' : Fin 256)
    (k : Fin 8) : (storeColumn t n)[k][n'] = if n = n' then entry k n' else t[k][n'] := by
  have h0 : Column n t 0 (t, t[(0 : Fin 8)][n]) := by
    refine ⟨ht n, fun k' n' => ?_⟩
    split
    · rename_i h
      obtain rfl : k' = 0 := Fin.le_zero_iff.1 h.2
      exact ht n'
    · rfl
  have h3 := ((h0.next ht 1 rfl).next ht 2 rfl).next ht 3 rfl
  have h6 := ((h3.next ht 4 rfl).next ht 5 rfl).next ht 6 rfl
  have h7 := (h6.next ht 7 rfl).2 k n'
  have hle : k ≤ 7 := Fin.le_last k
  simp only [hle, and_true] at h7
  exact h7

theorem storeColumns_get (ns : List (Fin 256)) (t : Tables) (n : Fin 256) (k : Fin 8)
    (ht : ∀ n, t[(0 : Fin 8)][n] = entry 0 n) (h : n ∈ ns ∨ t[k][n] = entry k n) :
    (ns.foldl storeColumn t)[k][n] = entry k n := by
  induction ns generalizing t with
  | nil => simpa using h
  | cons m ns ih =>
    apply ih
    · intro n
      rw [storeColumn_get ht]
      split
      · rfl
      · exact ht n
    · by_cases hmn : m = n
      · right
        rw [storeColumn_get ht, if_pos hmn]
      · rcases h with h | h
        · left
          exact (List.mem_cons.1 h).resolve_left (Ne.symm hmn)
        · right
          rw [storeColumn_get ht, if_neg hmn, h]

theorem makeTables_get (k : Fin 8) (n : Fin 256) : makeTables[k][n] = entry k n := by
  apply storeColumns_get
  · intro n
    exact storeBytes_get _ _ _ (.inl (List.mem_finRange n))
  · exact .inl (List.mem_finRange n)

/-! ## The steps -/

theorem look_makeTables (k : Fin 8) {i : UInt32} (hi : i.toNat < 256) :
    look makeTables[k] i = some (bitStep^[8 * (k.val + 1)] i) := by
  have hget := makeTables_get k ⟨i.toNat, hi⟩
  simp only [entry, UInt32.ofNat_toNat] at hget
  rw [← hget, look]
  exact Vector.getElem?_eq_getElem hi

theorem toNat_and_lt (c : UInt32) : (c &&& 0xFF).toNat < 256 := (lowIndex c).isLt

theorem toNat_toUInt32_lt (b : UInt8) : b.toUInt32.toNat < 256 := by
  rw [UInt8.toNat_toUInt32]
  exact b.toNat_lt

theorem toNat_xor_lt {c : UInt32} (hc : c.toNat < 256) (b : UInt8) :
    (c ^^^ b.toUInt32).toNat < 256 := by
  rw [UInt32.toNat_xor]
  exact @Nat.xor_lt_two_pow _ _ 8 hc (toNat_toUInt32_lt b)

theorem toNat_shiftRight_24_lt (c : UInt32) : (c >>> 24).toNat < 256 := by
  have hlt := c.toNat_lt
  have h24 : UInt32.toNat 24 % 32 = 24 := rfl
  rw [UInt32.toNat_shiftRight, h24, Nat.shiftRight_eq_div_pow]
  omega

theorem toBitVec_foldl (c : UInt32) (bs : Bytes) : (bs.foldl byteStep c).toBitVec =
    (bs.map UInt8.toBitVec).foldl (ReflectedCrc.byteStep poly) c.toBitVec := by
  induction bs generalizing c with
  | nil => rfl
  | cons b bs ih => rw [List.foldl_cons, ih, toBitVec_byteStep, List.map_cons, List.foldl_cons]

/-- The four bytes of a remainder, each with a table of its own. -/
theorem shift_four_bytes (c : UInt32) : ReflectedCrc.shift poly 64 c.toBitVec =
    ReflectedCrc.shift poly 64 (ReflectedCrc.low c.toBitVec) ^^^
    (ReflectedCrc.shift poly 56 (ReflectedCrc.low (c >>> 8).toBitVec) ^^^
    (ReflectedCrc.shift poly 48 (ReflectedCrc.low (c >>> 16).toBitVec) ^^^
    ReflectedCrc.shift poly 40 (c >>> 24).toBitVec)) := by
  have h64 := ReflectedCrc.shift_succ_byte poly c.toBitVec 7
  have h56 := ReflectedCrc.shift_succ_byte poly (c.toBitVec >>> 8) 6
  have h48 := ReflectedCrc.shift_succ_byte poly (c.toBitVec >>> 16) 5
  rw [← BitVec.shiftRight_add] at h56 h48
  rw [h56, h48] at h64
  exact h64

theorem step8_makeTables (c : UInt32) (b0 b1 b2 b3 b4 b5 b6 b7 : UInt8) :
    step8 makeTables c b0 b1 b2 b3 b4 b5 b6 b7 =
      some ([b0, b1, b2, b3, b4, b5, b6, b7].foldl byteStep c) := by
  have h7 : look makeTables[7] _ = some (bitStep^[64] _) :=
    look_makeTables 7 (toNat_xor_lt (toNat_and_lt c) b0)
  have h6 : look makeTables[6] _ = some (bitStep^[56] _) :=
    look_makeTables 6 (toNat_xor_lt (toNat_and_lt (c >>> 8)) b1)
  have h5 : look makeTables[5] _ = some (bitStep^[48] _) :=
    look_makeTables 5 (toNat_xor_lt (toNat_and_lt (c >>> 16)) b2)
  have h4 : look makeTables[4] _ = some (bitStep^[40] _) :=
    look_makeTables 4 (toNat_xor_lt (toNat_shiftRight_24_lt c) b3)
  have h3 : look makeTables[3] _ = some (bitStep^[32] _) :=
    look_makeTables 3 (toNat_toUInt32_lt b4)
  have h2 : look makeTables[2] _ = some (bitStep^[24] _) :=
    look_makeTables 2 (toNat_toUInt32_lt b5)
  have h1 : look makeTables[1] _ = some (bitStep^[16] _) :=
    look_makeTables 1 (toNat_toUInt32_lt b6)
  have h0 : look makeTables[0] _ = some (bitStep^[8] _) :=
    look_makeTables 0 (toNat_toUInt32_lt b7)
  simp only [step8, h7, h6, h5, h4, h3, h2, h1, h0, Option.bind_eq_bind, Option.bind_some,
    Option.pure_def, Option.some.injEq]
  apply UInt32.toBitVec_inj.1
  rw [toBitVec_foldl, ReflectedCrc.foldl_byteStep]
  -- both sides are sums of shifted bytes, in different orders
  simp only [UInt32.toBitVec_xor, toBitVec_bitStep_iterate, ReflectedCrc.shift_xor, and_255,
    List.map_cons, List.map_nil, ReflectedCrc.sliced, List.length_cons, List.length_nil,
    UInt8.toBitVec_toUInt32, Nat.reduceAdd, Nat.reduceMul, shift_four_bytes]
  ac_rfl

theorem step1_makeTables (c : UInt32) (b : UInt8) :
    step1 makeTables c b = some (byteStep c b) := by
  have h0 : look makeTables[0] _ = some (bitStep^[8] _) :=
    look_makeTables 0 (toNat_and_lt (c ^^^ b.toUInt32))
  have hhigh : (c ^^^ b.toUInt32).toBitVec >>> 8 = (c >>> 8).toBitVec := by
    apply BitVec.eq_of_getLsbD_eq
    intro i hi
    simp
  have hbyte := ReflectedCrc.shift_low_byte poly (c ^^^ b.toUInt32).toBitVec
  simp only [step1, h0, Option.bind_eq_bind, Option.bind_some, Option.pure_def,
    Option.some.injEq]
  apply UInt32.toBitVec_inj.1
  rw [byteStep, UInt32.toBitVec_xor, toBitVec_bitStep_iterate, toBitVec_bitStep_iterate,
    hbyte, and_255, hhigh]

theorem foldlM_step1 (c : UInt32) (rest : Bytes) :
    rest.foldlM (step1 makeTables) c = some (rest.foldl byteStep c) := by
  induction rest generalizing c with
  | nil => rfl
  | cons b rest ih =>
    rw [List.foldlM_cons, step1_makeTables]
    exact ih ..

theorem drain_makeTables (c : UInt32) (data : Bytes) :
    drain makeTables c data = some (data.foldl byteStep c) := by
  fun_induction drain makeTables c data with
  | case1 c b0 b1 b2 b3 b4 b5 b6 b7 rest ih =>
    simp only [step8_makeTables, Option.bind_eq_bind, Option.bind_some, ih, List.foldl_cons,
      List.foldl_nil]
  | case2 c rest => exact foldlM_step1 c rest

theorem update_eq (crc : UInt32) (data : Bytes) :
    update crc data = some (data.foldl byteStep (crc ^^^ 0xFFFFFFFF) ^^^ 0xFFFFFFFF) := by
  rw [update, drain_makeTables]
  rfl

end CRC32Tables

/-! ## The checksum -/

theorem xor_xor_cancel (a b : UInt32) : a ^^^ b ^^^ b = a := by
  rw [UInt32.xor_assoc, UInt32.xor_self, UInt32.xor_zero]

theorem CRC32.update_eq (crc : CRC32) (bytes : Bytes) : crc.update bytes =
    some ⟨bytes.foldl byteStep (crc.value ^^^ 0xFFFFFFFF) ^^^ 0xFFFFFFFF⟩ := by
  cases bytes with
  | nil =>
    obtain ⟨value⟩ := crc
    exact congrArg (fun v => some (CRC32.mk v)) (xor_xor_cancel value 0xFFFFFFFF).symm
  | cons b bs => simp [CRC32.update, CRC32Tables.update_eq]

/-- The fast path is the definition: no index traps, and the value is the fold of the
bytewise step between the two complements. So updates may be cut anywhere. -/
theorem CRC32.update_spec (crc : CRC32) :
    (∀ bytes : Bytes, crc.update bytes =
      some ⟨bytes.foldl byteStep (crc.value ^^^ 0xFFFFFFFF) ^^^ 0xFFFFFFFF⟩) ∧
    ∀ a b : Bytes, (crc.update a).bind (·.update b) = crc.update (a ++ b) := by
  refine ⟨crc.update_eq, fun a b => ?_⟩
  simp only [CRC32.update_eq, Option.bind_some, xor_xor_cancel, List.foldl_append]

end S3Archive.SebstoSwift
