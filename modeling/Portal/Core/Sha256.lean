import Portal.Core.CString
import Portal.Lib.Fips180

/-!
SHA-256: `lib/sha256/sha256.c`. A message comes in pieces, and what lies behind its last complete
block waits in the array of the context; `Absorbed` says what a context is after a message.
-/

namespace Portal

open List Buffers Cursor
open Fips180 (Words)

/-! ### The code -/

def rotright (a b : UInt32) : UInt32 := (a >>> b) ||| (a <<< (32 - b))

def ep0 (x : UInt32) : UInt32 := rotright x 2 ^^^ rotright x 13 ^^^ rotright x 22

def ep1 (x : UInt32) : UInt32 := rotright x 6 ^^^ rotright x 11 ^^^ rotright x 25

def sig0 (x : UInt32) : UInt32 := rotright x 7 ^^^ rotright x 18 ^^^ x >>> 3

def sig1 (x : UInt32) : UInt32 := rotright x 17 ^^^ rotright x 19 ^^^ x >>> 10

def sha256K : List UInt32 := [
  0x428a2f98, 0x71374491, 0xb5c0fbcf, 0xe9b5dba5, 0x3956c25b, 0x59f111f1,
  0x923f82a4, 0xab1c5ed5, 0xd807aa98, 0x12835b01, 0x243185be, 0x550c7dc3,
  0x72be5d74, 0x80deb1fe, 0x9bdc06a7, 0xc19bf174, 0xe49b69c1, 0xefbe4786,
  0x0fc19dc6, 0x240ca1cc, 0x2de92c6f, 0x4a7484aa, 0x5cb0a9dc, 0x76f988da,
  0x983e5152, 0xa831c66d, 0xb00327c8, 0xbf597fc7, 0xc6e00bf3, 0xd5a79147,
  0x06ca6351, 0x14292967, 0x27b70a85, 0x2e1b2138, 0x4d2c6dfc, 0x53380d13,
  0x650a7354, 0x766a0abb, 0x81c2c92e, 0x92722c85, 0xa2bfe8a1, 0xa81a664b,
  0xc24b8b70, 0xc76c51a3, 0xd192e819, 0xd6990624, 0xf40e3585, 0x106aa070,
  0x19a4c116, 0x1e376c08, 0x2748774c, 0x34b0bcb5, 0x391c0cb3, 0x4ed8aa4a,
  0x5b9cca4f, 0x682e6ff3, 0x748f82ee, 0x78a5636f, 0x84c87814, 0x8cc70208,
  0x90befffa, 0xa4506ceb, 0xbef9a3f7, 0xc67178f2]

/-- The second loop of `sha256_transform`: one more word of `m`. -/
def scheduleWord (m : List UInt32) (i : Nat) : List UInt32 :=
  m ++ [sig1 (m.getD (i - 2) 0) + m.getD (i - 7) 0 + sig0 (m.getD (i - 15) 0) +
    m.getD (i - 16) 0]

def messageWords (data : Bytes) : List UInt32 :=
  (range' 16 48).foldl scheduleWord
    ((range 16).map fun i => .ofNat (beDecode (slice data (4 * i) (4 * i + 4))))

/-- The third loop of `sha256_transform`. -/
def sha256Round (m : List UInt32) (v : Words) (i : Nat) : Words :=
  let t1 := v.h + ep1 v.e + ((v.e &&& v.f) ^^^ (~~~v.e &&& v.g)) + sha256K.getD i 0 + m.getD i 0
  let t2 := ep0 v.a + ((v.a &&& v.b) ^^^ (v.a &&& v.c) ^^^ (v.b &&& v.c))
  ⟨t1 + t2, v.a, v.b, v.c, v.d + t1, v.e, v.f, v.g⟩

/-- `sha256_transform`, which changes the `state` of the context alone. -/
def sha256Transform (state : Words) (data : Bytes) : Words :=
  state.add ((range 64).foldl (sha256Round (messageWords data)) state)

/-- `sha256_ctx`; the eight words of `state` by name. -/
structure Sha256Ctx where
  data : Bytes
  datalen : Nat
  bitlen : UInt64
  state : Words

/-- `sha256_init` leaves in the array what is there. -/
def sha256Init (mem : Fin 64 → UInt8) : Sha256Ctx where
  data := ofFn mem
  datalen := 0
  bitlen := 0
  state := ⟨0x6a09e667, 0xbb67ae85, 0x3c6ef372, 0xa54ff53a,
    0x510e527f, 0x9b05688c, 0x1f83d9ab, 0x5be0cd19⟩

def sha256Byte (ctx : Sha256Ctx) (b : UInt8) : Sha256Ctx :=
  let ctx := { ctx with data := ctx.data.set ctx.datalen b, datalen := ctx.datalen + 1 }
  if ctx.datalen = 64 then
    { ctx with
      state := sha256Transform ctx.state ctx.data
      bitlen := ctx.bitlen + 512
      datalen := 0 }
  else ctx

def sha256Update (ctx : Sha256Ctx) (data : Bytes) : Sha256Ctx := data.foldl sha256Byte ctx

/-- `data[i++] = 0x80; while (i < limit) data[i++] = 0x00;` -/
def sha256Fill (ctx : Sha256Ctx) (limit : Nat) : Bytes :=
  writeAt ctx.data ctx.datalen (0x80 :: replicate (limit - 1 - ctx.datalen) 0)

/-- The first part of `sha256_final`: everything up to the length. -/
def sha256Pad (ctx : Sha256Ctx) : Sha256Ctx :=
  if ctx.datalen < 56 then { ctx with data := sha256Fill ctx 56 }
  else
    let data := sha256Fill ctx 64
    { ctx with
      state := sha256Transform ctx.state data
      data := writeAt data 0 (replicate 56 0) }

def sha256Final (ctx : Sha256Ctx) : Bytes :=
  let ctx := sha256Pad ctx
  let bitlen := ctx.bitlen + .ofNat (ctx.datalen * 8)
  (sha256Transform ctx.state (writeAt ctx.data 56 (beEncode 8 bitlen.toNat))).bytes

def hexByte (b : UInt8) : Bytes :=
  [b / 16, b % 16].map fun d => if d < 10 then 48 + d else 87 + d

def sha256Hex (mem : Fin 64 → UInt8) (data : Bytes) : CStr :=
  .ofBytes ((sha256Final (sha256Update (sha256Init mem) data)).flatMap hexByte)

/-! ### One block -/

theorem getD_map_range {f : Nat → UInt32} {n t : Nat} (ht : t < n) :
    ((range n).map f).getD t 0 = f t := by
  rw [getD_eq_getElem?_getD, getElem?_map, getElem?_range ht]
  rfl

theorem sha256K_eq : sha256K = (range 64).map Fips180.roundConstant := by decide +kernel

/-- The words written so far are those of the standard. -/
theorem foldl_scheduleWord (data : Bytes) (n : Nat) :
    (range' 16 n).foldl scheduleWord ((range 16).map (Fips180.blockWord data)) =
      (range (16 + n)).map (Fips180.schedule data) := by
  induction n with
  | zero =>
    refine map_congr_left fun t ht => ?_
    rw [Fips180.schedule, if_pos (mem_range.mp ht)]
  | succ n ih =>
    rw [range'_concat, foldl_append, ih, ← Nat.add_assoc, range_succ, map_append, Nat.one_mul,
      foldl_cons, foldl_nil, scheduleWord]
    simp (disch := omega) only [getD_map_range]
    rw [map_singleton, Fips180.schedule.eq_def data (16 + n), if_neg (by omega)]
    rfl

theorem sha256Transform_eq (state : Words) (data : Bytes) :
    sha256Transform state data = Fips180.compress state data := by
  have hwords : messageWords data = (range 64).map (Fips180.schedule data) :=
    foldl_scheduleWord data 48
  have hround : ∀ v, ∀ t ∈ range 64,
      sha256Round (messageWords data) v t = Fips180.step data v t := by
    intro v t ht
    have ht' := mem_range.mp ht
    rw [sha256Round, hwords, sha256K_eq, getD_map_range ht', getD_map_range ht']
    rfl
  rw [sha256Transform, Fips180.compress, foldl_ext _ _ _ hround]

/-! ### A message in pieces -/

/-- The complete blocks of the message are in the hash value, and what follows them is in the
array. -/
structure Absorbed (ctx : Sha256Ctx) (full msg : Bytes) : Prop where
  size : ctx.data.length = 64
  room : ctx.datalen < 64
  whole : full.length % 64 = 0
  message : msg = full ++ ctx.data.take ctx.datalen
  bits : ctx.bitlen = .ofNat (8 * full.length)
  state : ctx.state = Fips180.absorb full

theorem absorbed_init (mem : Fin 64 → UInt8) : Absorbed (sha256Init mem) [] [] where
  size := length_ofFn
  room := Nat.zero_lt_succ 63
  whole := rfl
  message := rfl
  bits := rfl
  state := by
    change (⟨_, _, _, _, _, _, _, _⟩ : Words) = Fips180.initial
    decide +kernel

variable {ctx : Sha256Ctx} {full msg : Bytes}

theorem whole_append (h : Absorbed ctx full msg) {block : Bytes} (hblock : block.length = 64) :
    (full ++ block).length % 64 = 0 := by
  rw [length_append, hblock, Nat.add_mod, h.whole]

theorem Absorbed.byte (h : Absorbed ctx full msg) (b : UInt8) :
    ∃ full', Absorbed (sha256Byte ctx b) full' (msg ++ [b]) := by
  have hsize : (ctx.data.set ctx.datalen b).length = 64 := by rw [length_set, h.size]
  have hmsg : msg ++ [b] = full ++ (ctx.data.set ctx.datalen b).take (ctx.datalen + 1) := by
    rw [take_add_one, take_set_of_le le_rfl, getElem?_set_self (by rw [h.size]; exact h.room),
      ← append_assoc, ← h.message]
    rfl
  unfold sha256Byte
  dsimp only
  split
  · rename_i hfull
    rw [hfull, take_of_length_le hsize.le] at hmsg
    refine ⟨_, hsize, Nat.zero_lt_succ 63, whole_append h hsize, ?_, ?_, ?_⟩
    · rw [hmsg, take_zero, append_nil]
    · rw [h.bits, length_append, hsize, Nat.mul_add, UInt64.ofNat_add]
      rfl
    · rw [Fips180.absorb_append h.whole hsize, ← h.state, sha256Transform_eq]
  · rename_i hmore
    exact ⟨full, hsize, lt_of_le_of_ne h.room hmore, h.whole, hmsg, h.bits, h.state⟩

theorem Absorbed.update (h : Absorbed ctx full msg) (data : Bytes) :
    ∃ full', Absorbed (sha256Update ctx data) full' (msg ++ data) := by
  induction data generalizing ctx full msg with
  | nil => exact ⟨full, by rwa [append_nil]⟩
  | cons b data ih =>
    obtain ⟨full', h'⟩ := h.byte b
    have hrest := ih h'
    rwa [append_assoc] at hrest

/-! ### The end of a message -/

/-- The low 64 bits of a length are all that is written of it. -/
theorem beEncode_ofNat (n : Nat) : beEncode 8 (UInt64.ofNat n).toNat = beEncode 8 n := by
  have hround := beEncode_beDecode (length_beEncode 8 n)
  rwa [beDecode_beEncode] at hround

theorem Absorbed.length (h : Absorbed ctx full msg) : msg.length = full.length + ctx.datalen := by
  rw [h.message, length_append, length_take, h.size, min_eq_left h.room.le]

theorem Absorbed.fill (h : Absorbed ctx full msg) {limit : Nat} (hlo : ctx.datalen < limit)
    (hhi : limit ≤ 64) : (sha256Fill ctx limit).length = 64 ∧
      full ++ (sha256Fill ctx limit).take limit =
        msg ++ 0x80 :: replicate (limit - 1 - ctx.datalen) 0 := by
  have hend : ctx.datalen + (0x80 :: replicate (limit - 1 - ctx.datalen) (0 : UInt8)).length =
      limit := by
    rw [length_cons, length_replicate]
    omega
  refine ⟨(length_writeAt (by rw [hend, h.size]; exact hhi)).trans h.size, ?_⟩
  have htake := @take_writeAt _ _ (0x80 :: replicate (limit - 1 - ctx.datalen) 0) _
    (h.room.le.trans h.size.ge)
  rw [hend] at htake
  rw [sha256Fill, htake, ← append_assoc, ← h.message]

/-- What is padded is absorbed up to the last block, whose end is free for the length. -/
theorem Absorbed.pad (h : Absorbed ctx full msg) : ∃ full',
    (sha256Pad ctx).data.length = 64 ∧ full'.length % 64 = 0 ∧
    (sha256Pad ctx).state = Fips180.absorb full' ∧
    Fips180.pad msg = full' ++ ((sha256Pad ctx).data.take 56 ++ beEncode 8 (8 * msg.length)) := by
  have hroom := h.room
  have hmod : msg.length % 64 = ctx.datalen := by
    have := h.length
    have := h.whole
    omega
  rw [sha256Pad, Fips180.pad, hmod]
  split
  · rename_i hlt
    obtain ⟨hsize, htake⟩ := h.fill hlt (by decide)
    refine ⟨full, hsize, h.whole, h.state, ?_⟩
    rw [← append_assoc, htake, show (119 - ctx.datalen) % 64 = 56 - 1 - ctx.datalen by omega]
  · obtain ⟨hsize, htake⟩ := h.fill hroom le_rfl
    rw [take_of_length_le hsize.le] at htake
    refine ⟨_, (length_writeAt (by rw [hsize]; decide)).trans hsize, whole_append h hsize, ?_, ?_⟩
    · rw [Fips180.absorb_append h.whole hsize, ← h.state]
      exact sha256Transform_eq ctx.state _
    · have hzeros : (119 - ctx.datalen) % 64 = (64 - 1 - ctx.datalen) + 56 := by omega
      have hfirst : (writeAt (sha256Fill ctx 64) 0 (replicate 56 0)).take 56 = replicate 56 0 :=
        take_left' length_replicate
      rw [htake, hfirst, hzeros, replicate_add]
      simp only [append_assoc, cons_append]

theorem Absorbed.final (h : Absorbed ctx full msg) : sha256Final ctx = Fips180.sha256 msg := by
  obtain ⟨full', hsize, hwhole, hstate, hpad⟩ := h.pad
  have hbits : (sha256Pad ctx).bitlen + .ofNat ((sha256Pad ctx).datalen * 8) =
      UInt64.ofNat (8 * msg.length) := by
    have hkeep : (sha256Pad ctx).bitlen = ctx.bitlen ∧ (sha256Pad ctx).datalen = ctx.datalen := by
      rw [sha256Pad]
      split <;> exact ⟨rfl, rfl⟩
    rw [hkeep.1, hkeep.2, h.bits, ← UInt64.ofNat_add, h.length, Nat.mul_add,
      Nat.mul_comm ctx.datalen]
  rw [sha256Final, Fips180.sha256, hbits, beEncode_ofNat, sha256Transform_eq, hstate, hpad,
    writeAt_of_length_eq (by rw [length_beEncode, hsize]), Fips180.absorb_append hwhole]
  · rw [length_append, length_take, hsize, length_beEncode]
    rfl

/-- The digest of a message that comes in pieces is the one of the standard, whatever the array
held, and `sha256_hex` prints it. -/
theorem sha256_standard (mem : Fin 64 → UInt8) (chunks : List Bytes) (data : Bytes) :
    sha256Final (chunks.foldl sha256Update (sha256Init mem)) = Fips180.sha256 chunks.flatten ∧
      sha256Hex mem data = .ofBytes ((Fips180.sha256 data).flatMap hexByte) := by
  have hpieces : ∃ full, Absorbed (chunks.foldl sha256Update (sha256Init mem)) full
      chunks.flatten := by
    induction chunks using reverseRecOn with
    | nil => exact ⟨[], absorbed_init mem⟩
    | append_singleton chunks piece ih =>
      obtain ⟨full, h⟩ := ih
      rw [foldl_append, flatten_concat]
      exact h.update piece
  obtain ⟨full, h⟩ := hpieces
  obtain ⟨full', h'⟩ := (absorbed_init mem).update data
  exact ⟨h.final, by rw [sha256Hex, h'.final, nil_append]⟩

end Portal
