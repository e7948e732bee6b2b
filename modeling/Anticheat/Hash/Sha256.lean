import Anticheat.Lib.BlockStream

/-!
# SHA-256

`sha256.c`, which the module and the daemon share: the compression of one block, the context that
takes input in pieces, and the digest with its text.
-/

namespace Anticheat.Hash

open BlockStream

abbrev Bytes := List UInt8

/-- The round constants `K`. -/
def roundConstants : List UInt32 :=
  [0x428a2f98, 0x71374491, 0xb5c0fbcf, 0xe9b5dba5, 0x3956c25b, 0x59f111f1, 0x923f82a4, 0xab1c5ed5,
    0xd807aa98, 0x12835b01, 0x243185be, 0x550c7dc3, 0x72be5d74, 0x80deb1fe, 0x9bdc06a7, 0xc19bf174,
    0xe49b69c1, 0xefbe4786, 0x0fc19dc6, 0x240ca1cc, 0x2de92c6f, 0x4a7484aa, 0x5cb0a9dc, 0x76f988da,
    0x983e5152, 0xa831c66d, 0xb00327c8, 0xbf597fc7, 0xc6e00bf3, 0xd5a79147, 0x06ca6351, 0x14292967,
    0x27b70a85, 0x2e1b2138, 0x4d2c6dfc, 0x53380d13, 0x650a7354, 0x766a0abb, 0x81c2c92e, 0x92722c85,
    0xa2bfe8a1, 0xa81a664b, 0xc24b8b70, 0xc76c51a3, 0xd192e819, 0xd6990624, 0xf40e3585, 0x106aa070,
    0x19a4c116, 0x1e376c08, 0x2748774c, 0x34b0bcb5, 0x391c0cb3, 0x4ed8aa4a, 0x5b9cca4f, 0x682e6ff3,
    0x748f82ee, 0x78a5636f, 0x84c87814, 0x8cc70208, 0x90befffa, 0xa4506ceb, 0xbef9a3f7, 0xc67178f2]

/-- The eight words `h[0]` to `h[7]` of a context, and the working variables of a block. -/
structure Words where
  a : UInt32
  b : UInt32
  c : UInt32
  d : UInt32
  e : UInt32
  f : UInt32
  g : UInt32
  h : UInt32
  deriving DecidableEq, Repr

def rotr (x : UInt32) (n : UInt32) : UInt32 :=
  (x >>> (n &&& 31)) ||| (x <<< ((32 - (n &&& 31)) &&& 31))

/-- Four bytes as a big-endian word. -/
def be32 (p : Bytes) : UInt32 :=
  ((p.getD 0 0).toUInt32 <<< 24) ||| ((p.getD 1 0).toUInt32 <<< 16) |||
    ((p.getD 2 0).toUInt32 <<< 8) ||| (p.getD 3 0).toUInt32

/-- The next word `w[i]` of the message schedule from the words before it. -/
def nextWord (w : List UInt32) : UInt32 :=
  let i := w.length
  let w15 := w.getD (i - 15) 0
  let w2 := w.getD (i - 2) 0
  let s0 := rotr w15 7 ^^^ rotr w15 18 ^^^ (w15 >>> 3)
  let s1 := rotr w2 17 ^^^ rotr w2 19 ^^^ (w2 >>> 10)
  w.getD (i - 16) 0 + s0 + w.getD (i - 7) 0 + s1

/-- The message schedule of a block: sixteen words from the block and 48 computed ones. -/
def schedule (p : Bytes) : List UInt32 :=
  (List.range 48).foldl (fun w _ => w ++ [nextWord w])
    ((List.range 16).map fun i => be32 (p.drop (4 * i)))

/-- One round, with its constant and its word of the schedule. -/
def round (v : Words) (kw : UInt32 × UInt32) : Words :=
  let s1 := rotr v.e 6 ^^^ rotr v.e 11 ^^^ rotr v.e 25
  let ch := (v.e &&& v.f) ^^^ (~~~v.e &&& v.g)
  let t1 := v.h + s1 + ch + kw.1 + kw.2
  let s0 := rotr v.a 2 ^^^ rotr v.a 13 ^^^ rotr v.a 22
  let maj := (v.a &&& v.b) ^^^ (v.a &&& v.c) ^^^ (v.b &&& v.c)
  let t2 := s0 + maj
  ⟨t1 + t2, v.a, v.b, v.c, v.d + t1, v.e, v.f, v.g⟩

/-- `ac_sha256_block` -/
def acSha256Block (h : Words) (p : Bytes) : Words :=
  let v := (roundConstants.zip (schedule p)).foldl round h
  ⟨h.a + v.a, h.b + v.b, h.c + v.c, h.d + v.d, h.e + v.e, h.f + v.f, h.g + v.g, h.h + v.h⟩

/-- `ac_sha256_ctx`: the words, the bytes of the block begun, and the length so far. -/
structure AcSha256Ctx where
  stream : Blocks Words UInt8
  len : UInt64
  deriving DecidableEq, Repr

/-- `ac_sha256_init` -/
def acSha256Init : AcSha256Ctx :=
  ⟨⟨⟨0x6a09e667, 0xbb67ae85, 0x3c6ef372, 0xa54ff53a, 0x510e527f, 0x9b05688c, 0x1f83d9ab,
    0x5be0cd19⟩, []⟩, 0⟩

/-- `ac_sha256_update` -/
def acSha256Update (c : AcSha256Ctx) (data : Bytes) : AcSha256Ctx :=
  ⟨feed 64 acSha256Block data.length c.stream data, c.len + UInt64.ofNat data.length⟩

/-- The zero bytes of the padding, until 56 bytes of the block are filled. -/
def padZeros : ℕ → AcSha256Ctx → AcSha256Ctx
  | 0, c => c
  | fuel + 1, c =>
    if c.stream.buf.length = 56 then c else padZeros fuel (acSha256Update c [0])

/-- The bytes of a word, most significant first. -/
def be32Bytes (x : UInt32) : Bytes :=
  [(x >>> 24).toUInt8, (x >>> 16).toUInt8, (x >>> 8).toUInt8, x.toUInt8]

/-- `lenbuf`: the length in bits, most significant byte first. -/
def lenbuf (bits : UInt64) : Bytes :=
  (List.range 8).map fun i => (bits >>> UInt64.ofNat (56 - i * 8)).toUInt8

/-- `ac_sha256_final` -/
def acSha256Final (c : AcSha256Ctx) : Bytes :=
  let bits := c.len * 8
  let c := padZeros 64 (acSha256Update c [0x80])
  let h := (acSha256Update c (lenbuf bits)).stream.state
  [h.a, h.b, h.c, h.d, h.e, h.f, h.g, h.h].flatMap be32Bytes

/-- `ac_sha256_hex_digest` -/
def acSha256HexDigest (digest : Bytes) : Bytes :=
  let hexd : Bytes := [48, 49, 50, 51, 52, 53, 54, 55, 56, 57, 97, 98, 99, 100, 101, 102]
  digest.flatMap fun d : UInt8 => [hexd.getD (d >>> 4).toNat 0, hexd.getD (d &&& 0xf).toNat 0]

/-- `ac_sha256_hex` -/
def acSha256Hex (buf : Bytes) : Bytes :=
  acSha256HexDigest (acSha256Final (acSha256Update acSha256Init buf))

/-! ### Updates in pieces -/

/-- The buffer of a context is never a full block. -/
def AcSha256Ctx.Ok (c : AcSha256Ctx) : Prop := c.stream.buf.length < 64

lemma acSha256Init_ok : acSha256Init.Ok := by
  unfold AcSha256Ctx.Ok
  decide

variable {c : AcSha256Ctx}

lemma acSha256Update_eq (hc : c.Ok) (data : Bytes) :
    acSha256Update c data =
      ⟨data.foldl (push 64 acSha256Block) c.stream, c.len + UInt64.ofNat data.length⟩ := by
  rw [acSha256Update, feed_eq_foldl_push (by decide) hc (Nat.le_refl _)]

lemma acSha256Update_ok (hc : c.Ok) (data : Bytes) : (acSha256Update c data).Ok := by
  rw [acSha256Update_eq hc]
  exact length_buf_foldl_push (by decide) hc data

lemma acSha256Update_nil (hc : c.Ok) : acSha256Update c [] = c := by
  rw [acSha256Update_eq hc]
  simp

/-- Two updates are one with both pieces. -/
theorem acSha256Update_append (hc : c.Ok) (data data' : Bytes) :
    acSha256Update (acSha256Update c data) data' = acSha256Update c (data ++ data') := by
  rw [acSha256Update_eq (acSha256Update_ok hc data), acSha256Update_eq hc, acSha256Update_eq hc,
    List.foldl_append, List.length_append, UInt64.ofNat_add, UInt64.add_assoc]

/-- A digest taken in pieces is the digest of the whole. -/
theorem acSha256Update_foldl {ι : Type*} (f : ι → Bytes) (is : List ι) :
    is.foldl (fun c i => acSha256Update c (f i)) acSha256Init =
      acSha256Update acSha256Init (is.flatMap f) := by
  have hfold : ∀ (c : AcSha256Ctx) (_ : c.Ok), is.foldl (fun c i => acSha256Update c (f i)) c =
      acSha256Update c (is.flatMap f) := by
    induction is with
    | nil => exact fun c hc => (acSha256Update_nil hc).symm
    | cons i is ih =>
      intro c hc
      rw [List.foldl_cons, ih _ (acSha256Update_ok hc (f i)), acSha256Update_append hc,
        List.flatMap_cons]
  exact hfold _ acSha256Init_ok

-- the digest of the three bytes "abc", an example of the standard
example : acSha256Final (acSha256Update acSha256Init [97, 98, 99]) =
    [0xba, 0x78, 0x16, 0xbf, 0x8f, 0x01, 0xcf, 0xea, 0x41, 0x41, 0x40, 0xde, 0x5d, 0xae, 0x22, 0x23,
      0xb0, 0x03, 0x61, 0xa3, 0x96, 0x17, 0x7a, 0x9c, 0xb4, 0x10, 0xff, 0x61, 0xf2, 0x00, 0x15,
      0xad] := by
  decide +kernel

end Anticheat.Hash
