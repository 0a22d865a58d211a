import Mathlib

/-!
# SipHash-2-4

The building blocks of SipHash-2-4 over byte strings: a 128-bit key and the message
are read as little-endian 64-bit words (`sipget`); the state of four words is mixed
by `sipround`; a message word is absorbed by `sipcompress` with two rounds; the last
word holds the bytes after the last full block and the length (`siplast`); and four
rounds after flipping a byte of `v2` finalise (`sipFinalize`). A hash is these steps in
order; a caller may absorb extra words of its own before the message.
-/

namespace VpnClient.Lib.SipHash

/-- `sipget`: eight bytes as a little-endian word. -/
def sipget (bytes : List UInt8) : UInt64 :=
  (List.range 8).foldl (fun v i => v ||| ((bytes.getD i 0).toUInt64 <<< (8 * i).toUInt64)) 0

/-- `siprotate`: rotation to the left. -/
def siprotate (v : UInt64) (shift : UInt64) : UInt64 := (v <<< shift) ||| (v >>> (64 - shift))

/-- The four words of the state. -/
structure SipState where
  v0 : UInt64
  v1 : UInt64
  v2 : UInt64
  v3 : UInt64
  deriving DecidableEq, Repr

/-- `sipround`: one SipRound. -/
def sipround (s : SipState) : SipState :=
  let v0 := s.v0 + s.v1
  let v1 := siprotate s.v1 13 ^^^ v0
  let v0 := siprotate v0 32
  let v2 := s.v2 + s.v3
  let v3 := siprotate s.v3 16 ^^^ v2
  let v2 := v2 + v1
  let v1 := siprotate v1 17 ^^^ v2
  let v2 := siprotate v2 32
  let v0 := v0 + v3
  let v3 := siprotate v3 21 ^^^ v0
  ⟨v0, v1, v2, v3⟩

/-- `sipcompress`: a message word absorbed with two rounds. -/
def sipcompress (s : SipState) (m : UInt64) : SipState :=
  let s := sipround (sipround { s with v3 := s.v3 ^^^ m })
  { s with v0 := s.v0 ^^^ m }

/-- `siplast`: the length in the top byte, and the `len % 8` bytes after the last full
block below it. -/
def siplast (len : ℕ) (pos : List UInt8) : UInt64 :=
  (List.range (len % 8)).foldl (fun b i => b ||| ((pos.getD i 0).toUInt64 <<< (8 * i).toUInt64))
    (len.toUInt64 <<< 56)

/-- The state for a key: its two words against the four constants. -/
def sipInit (key : List UInt8) : SipState :=
  let k0 := sipget key
  let k1 := sipget (key.drop 8)
  ⟨k0 ^^^ 0x736f6d6570736575, k1 ^^^ 0x646f72616e646f6d, k0 ^^^ 0x6c7967656e657261,
    k1 ^^^ 0x7465646279746573⟩

/-- The full 8-byte blocks of a message. -/
def blocks (msg : List UInt8) : List (List UInt8) :=
  (List.range (msg.length / 8)).map fun i => (msg.drop (8 * i)).take 8

/-- The message absorbed: its full blocks, then the last word. -/
def sipAbsorb (s : SipState) (msg : List UInt8) : SipState :=
  let s := (blocks msg).foldl (fun s blk => sipcompress s (sipget blk)) s
  sipcompress s (siplast msg.length (msg.drop (msg.length - msg.length % 8)))

/-- Finalisation with four rounds, and the four words folded into one. -/
def sipFinalize (s : SipState) : UInt64 :=
  let s := sipround (sipround (sipround (sipround { s with v2 := s.v2 ^^^ 0xff })))
  s.v0 ^^^ s.v1 ^^^ s.v2 ^^^ s.v3

-- the reference vector of SipHash-2-4: key `00 01 … 0f`, message `00 01 … 0e`
example : sipFinalize (sipAbsorb (sipInit ((List.range 16).map (·.toUInt8)))
    ((List.range 15).map (·.toUInt8))) = 0xa129ca6149be45e5 := by decide

end VpnClient.Lib.SipHash
