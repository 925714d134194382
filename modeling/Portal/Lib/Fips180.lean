import Mathlib.Data.Nat.NthRoot.Defs
import Portal.Lib.Buffers
import Portal.Lib.Cursor

/-!
SHA-256 as FIPS 180-4 defines it: constants from the roots of the first primes, the message
schedule a recursion, the hash a fold over the blocks of the padded message (`absorb_append`).
`pad` writes the low 64 bits of any length.
-/

namespace Fips180

open List Buffers Cursor

def rotr (n x : UInt32) : UInt32 := (x >>> n) ||| (x <<< (32 - n))

def ch (x y z : UInt32) : UInt32 := (x &&& y) ^^^ (~~~x &&& z)

def maj (x y z : UInt32) : UInt32 := (x &&& y) ^^^ (x &&& z) ^^^ (y &&& z)

def bigSigma0 (x : UInt32) : UInt32 := rotr 2 x ^^^ rotr 13 x ^^^ rotr 22 x

def bigSigma1 (x : UInt32) : UInt32 := rotr 6 x ^^^ rotr 11 x ^^^ rotr 25 x

def smallSigma0 (x : UInt32) : UInt32 := rotr 7 x ^^^ rotr 18 x ^^^ x >>> 3

def smallSigma1 (x : UInt32) : UInt32 := rotr 17 x ^^^ rotr 19 x ^^^ x >>> 10

structure Words where
  (a b c d e f g h : UInt32)
deriving DecidableEq

def Words.add (v w : Words) : Words :=
  ⟨v.a + w.a, v.b + w.b, v.c + w.c, v.d + w.d, v.e + w.e, v.f + w.f, v.g + w.g, v.h + w.h⟩

def Words.bytes (v : Words) : List UInt8 :=
  [v.a, v.b, v.c, v.d, v.e, v.f, v.g, v.h].flatMap fun w => beEncode 4 w.toNat

def primes : List Nat := (range 312).filter fun n => 2 ≤ n ∧ ∀ d ∈ range n, d ∣ n → d < 2

/-- The first 32 bits of the fractional part of the `n`-th root of `p`. -/
def rootFraction (n p : Nat) : UInt32 := .ofNat (Nat.nthRoot n (p <<< (32 * n)))

def roundConstant (t : Nat) : UInt32 := rootFraction 3 (primes.getD t 0)

def initial : Words :=
  let r := fun i => rootFraction 2 (primes.getD i 0)
  ⟨r 0, r 1, r 2, r 3, r 4, r 5, r 6, r 7⟩

/-! ### The hash -/

def blockWord (block : List UInt8) (t : Nat) : UInt32 :=
  .ofNat (beDecode (slice block (4 * t) (4 * t + 4)))

def schedule (block : List UInt8) (t : Nat) : UInt32 :=
  if t < 16 then blockWord block t
  else smallSigma1 (schedule block (t - 2)) + schedule block (t - 7) +
    smallSigma0 (schedule block (t - 15)) + schedule block (t - 16)

def step (block : List UInt8) (v : Words) (t : Nat) : Words :=
  let t1 := v.h + bigSigma1 v.e + ch v.e v.f v.g + roundConstant t + schedule block t
  let t2 := bigSigma0 v.a + maj v.a v.b v.c
  ⟨t1 + t2, v.a, v.b, v.c, v.d + t1, v.e, v.f, v.g⟩

def compress (v : Words) (block : List UInt8) : Words :=
  v.add ((range 64).foldl (step block) v)

def blocks (msg : List UInt8) : List (List UInt8) :=
  (range (msg.length / 64)).map fun i => slice msg (64 * i) (64 * i + 64)

def absorb (msg : List UInt8) : Words := (blocks msg).foldl compress initial

def pad (msg : List UInt8) : List UInt8 :=
  msg ++ 0x80 :: replicate ((119 - msg.length % 64) % 64) 0 ++ beEncode 8 (8 * msg.length)

def sha256 (msg : List UInt8) : List UInt8 := (absorb (pad msg)).bytes

variable {msg block : List UInt8}

theorem blocks_append (hmsg : msg.length % 64 = 0) (hblock : block.length = 64) :
    blocks (msg ++ block) = blocks msg ++ [block] := by
  have hcount : (msg ++ block).length / 64 = msg.length / 64 + 1 := by
    rw [length_append]
    omega
  rw [blocks, hcount, range_succ, map_append, map_singleton]
  congr 1
  · refine map_congr_left fun i hi => slice_append_left ?_
    have := mem_range.mp hi
    omega
  · rw [show 64 * (msg.length / 64) = msg.length by omega, slice, drop_left,
      Nat.add_sub_cancel_left, take_of_length_le hblock.le]

theorem absorb_append (hmsg : msg.length % 64 = 0) (hblock : block.length = 64) :
    absorb (msg ++ block) = compress (absorb msg) block := by
  rw [absorb, blocks_append hmsg hblock, foldl_append]
  rfl

end Fips180
