import Anticheat.Hash.Compress

/-!
# The digest of a message in pieces

`ac_sha256_update` and `ac_sha256_final` each have a loop that is left only when its condition
fails. Here a call is a relation between what it is given and what it returns with, its loops are
`While`, and the functions of the model are shown to be what the calls return. From
`ac_sha256_init` they compute the SHA-256 of FIPS 180-4, however the message is cut.
-/

namespace Anticheat.Hash

open BlockStream Fips180

/-! ### Calls that return -/

/-- `ac_sha256_update` on the context `c` returns with `c'` in it. -/
def UpdateReturns (c : AcSha256Ctx) (data : Bytes) (c' : AcSha256Ctx) : Prop :=
  ∃ s, While (fun s => 0 < s.2.length) (fun s t => t = copy 64 acSha256Block s) (c.stream, data) s ∧
    c' = ⟨s.1, c.len + UInt64.ofNat data.length⟩

/-- The loop of `ac_sha256_final`, from the context after the byte `pad`. -/
def PadLoop : AcSha256Ctx → AcSha256Ctx → Prop :=
  While (fun c => c.stream.buf.length ≠ 56) fun c c' => UpdateReturns c [0] c'

/-- The bytes of the words, as `ac_sha256_final` stores them. -/
def Words.bytes (h : Words) : Bytes := [h.a, h.b, h.c, h.d, h.e, h.f, h.g, h.h].flatMap be32Bytes

/-- `ac_sha256_final` returns with `out`. -/
def FinalReturns (c : AcSha256Ctx) (out : Bytes) : Prop :=
  ∃ c₁ c₂ c₃, UpdateReturns c [0x80] c₁ ∧ PadLoop c₁ c₂ ∧
    UpdateReturns c₂ (lenbuf (c.len * 8)) c₃ ∧ out = c₃.stream.state.bytes

/-- Calls of `ac_sha256_update`, one for each piece, return with `c'` in the context. -/
inductive UpdatesReturn : AcSha256Ctx → List Bytes → AcSha256Ctx → Prop
  | nil {c : AcSha256Ctx} : UpdatesReturn c [] c
  | cons {c c' c'' : AcSha256Ctx} {data : Bytes} {pieces : List Bytes} :
      UpdateReturns c data c' → UpdatesReturn c' pieces c'' → UpdatesReturn c (data :: pieces) c''

/-- `ac_sha256_init`, an `ac_sha256_update` for each piece and `ac_sha256_final` return with
`out`. -/
def DigestReturns (pieces : List Bytes) (out : Bytes) : Prop :=
  ∃ c, UpdatesReturn acSha256Init pieces c ∧ FinalReturns c out

variable {c c' c'' : AcSha256Ctx} {data : Bytes}

lemma updateReturns_iff (hc : c.Ok) : UpdateReturns c data c' ↔ c' = acSha256Update c data := by
  have hloop : While (fun s => 0 < s.2.length) (fun s t => t = copy 64 acSha256Block s)
      (c.stream, data) (feed 64 acSha256Block data.length c.stream data, []) :=
    while_copy hc (Nat.le_refl _)
  constructor
  · rintro ⟨s, hs, rfl⟩
    rw [hs.unique hloop fun _ _ _ h h' => h.trans h'.symm]
    rfl
  · rintro rfl
    exact ⟨_, hloop, rfl⟩

lemma updateReturns_unique (h : UpdateReturns c data c') (h' : UpdateReturns c data c'') :
    c' = c'' := by
  obtain ⟨s, hs, rfl⟩ := h
  obtain ⟨s', hs', rfl⟩ := h'
  rw [hs.unique hs' fun _ _ _ h h' => h.trans h'.symm]

/-! ### The padding loop -/

lemma length_buf_acSha256Update (hc : c.Ok) (data : Bytes) :
    (acSha256Update c data).stream.buf.length = (c.stream.buf.length + data.length) % 64 := by
  rw [acSha256Update_eq hc]
  exact length_buf_foldl_push_eq hc data

/-- The number of zero bytes until 56 bytes of the block are filled. -/
def AcSha256Ctx.zerosLeft (c : AcSha256Ctx) : ℕ := (120 - c.stream.buf.length) % 64

/-- One more zero byte, one less to come. -/
lemma zerosLeft_update (hc : c.Ok) (h56 : c.stream.buf.length ≠ 56) :
    c.zerosLeft = (acSha256Update c [0]).zerosLeft + 1 := by
  have hlen := length_buf_acSha256Update hc [0]
  unfold AcSha256Ctx.Ok at hc
  unfold AcSha256Ctx.zerosLeft
  rw [hlen, List.length_singleton]
  omega

lemma zerosLeft_eq_zero (hc : c.Ok) : c.zerosLeft = 0 ↔ c.stream.buf.length = 56 := by
  unfold AcSha256Ctx.Ok at hc
  unfold AcSha256Ctx.zerosLeft
  omega

/-- The loop ends, as the block is filled up to 56 bytes by that many zeros. -/
lemma padLoop_padZeros (hc : c.Ok) {fuel : ℕ} (hfuel : c.zerosLeft ≤ fuel) :
    PadLoop c (padZeros fuel c) := by
  induction fuel generalizing c with
  | zero => exact .stop (not_not.mpr ((zerosLeft_eq_zero hc).mp (Nat.le_zero.mp hfuel)))
  | succ fuel ih =>
    rw [padZeros]
    split_ifs with h56
    · exact .stop (not_not.mpr h56)
    · have hleft := zerosLeft_update hc h56
      exact .turn h56 ((updateReturns_iff hc).mpr rfl) (ih (acSha256Update_ok hc _) (by omega))

lemma padZeros_eq (hc : c.Ok) {fuel : ℕ} (hfuel : c.zerosLeft ≤ fuel) :
    padZeros fuel c = acSha256Update c (List.replicate c.zerosLeft 0) := by
  induction fuel generalizing c with
  | zero =>
    rw [Nat.le_zero.mp hfuel, List.replicate_zero, acSha256Update_nil hc]
    rfl
  | succ fuel ih =>
    rw [padZeros]
    split_ifs with h56
    · rw [(zerosLeft_eq_zero hc).mpr h56, List.replicate_zero, acSha256Update_nil hc]
    · have hleft := zerosLeft_update hc h56
      rw [ih (acSha256Update_ok hc _) (by omega), acSha256Update_append hc, hleft,
        List.replicate_succ, List.singleton_append]

lemma zerosLeft_le (c : AcSha256Ctx) : c.zerosLeft ≤ 64 := (Nat.mod_lt _ (by decide)).le

lemma padLoop_iff (hc : c.Ok) : PadLoop c c' ↔ c' = padZeros 64 c := by
  have hloop := padLoop_padZeros hc (zerosLeft_le c)
  constructor
  · exact fun h => While.unique h hloop fun _ _ _ => updateReturns_unique
  · rintro rfl
    exact hloop

/-! ### The calls and the functions -/

lemma padZeros_ok (hc : c.Ok) : (padZeros 64 c).Ok := by
  rw [padZeros_eq hc (zerosLeft_le c)]
  exact acSha256Update_ok hc _

/-- `ac_sha256_final` returns. -/
lemma finalReturns_iff (hc : c.Ok) {out : Bytes} : FinalReturns c out ↔ out = acSha256Final c := by
  have hpad : (acSha256Update c [0x80]).Ok := acSha256Update_ok hc _
  constructor
  · rintro ⟨c₁, c₂, c₃, h₁, h₂, h₃, rfl⟩
    obtain rfl := (updateReturns_iff hc).mp h₁
    obtain rfl := (padLoop_iff hpad).mp h₂
    obtain rfl := (updateReturns_iff (padZeros_ok hpad)).mp h₃
    rfl
  · rintro rfl
    exact ⟨_, _, _, (updateReturns_iff hc).mpr rfl, (padLoop_iff hpad).mpr rfl,
      (updateReturns_iff (padZeros_ok hpad)).mpr rfl, rfl⟩

lemma updatesReturn_iff (hc : c.Ok) {pieces : List Bytes} :
    UpdatesReturn c pieces c' ↔ c' = pieces.foldl acSha256Update c := by
  induction pieces generalizing c with
  | nil =>
    constructor
    · intro h
      cases h
      rfl
    · rintro rfl
      exact .nil
  | cons data pieces ih =>
    rw [List.foldl_cons, ← ih (acSha256Update_ok hc data)]
    constructor
    · intro h
      cases h with
      | cons hdata hpieces => rwa [(updateReturns_iff hc).mp hdata] at hpieces
    · exact .cons ((updateReturns_iff hc).mpr rfl)

/-- The calls return, with the digest of the whole message. -/
theorem digestReturns_iff {pieces : List Bytes} {out : Bytes} :
    DigestReturns pieces out ↔
      out = acSha256Final (acSha256Update acSha256Init pieces.flatten) := by
  have hok := acSha256Update_ok acSha256Init_ok pieces.flatten
  have hfold : pieces.foldl acSha256Update acSha256Init =
      acSha256Update acSha256Init pieces.flatten := by
    have := acSha256Update_foldl id pieces
    rwa [List.flatMap_id] at this
  constructor
  · rintro ⟨c, hc, hout⟩
    rw [(updatesReturn_iff acSha256Init_ok).mp hc, hfold] at hout
    exact (finalReturns_iff hok).mp hout
  · rintro rfl
    exact ⟨_, (updatesReturn_iff acSha256Init_ok).mpr hfold.symm, (finalReturns_iff hok).mpr rfl⟩

/-! ### The digest of the standard -/

lemma ofBytes_be32Bytes (x : UInt32) : ofBytes (be32Bytes x) = bitsOf 32 x.toNat := by
  have hmap : be32Bytes x =
      (List.range 4).map fun i => UInt8.ofNat (x.toNat / 2 ^ (8 * (4 - 1 - i))) := by
    simp [be32Bytes, List.range_succ, ← UInt8.toNat_inj, Nat.shiftRight_eq_div_pow]
  rw [hmap]
  exact ofBytes_map_range fun i _ => UInt8.toNat_ofNat'

lemma ofBytes_lenbuf (bits : UInt64) : ofBytes (lenbuf bits) = bitsOf 64 bits.toNat := by
  refine ofBytes_map_range fun i hi => ?_
  have hshift : 8 * (8 - 1 - i) = 56 - i * 8 := by omega
  have hlt : 56 - i * 8 < 64 := by omega
  rw [UInt64.toNat_toUInt8, UInt64.toNat_shiftRight, UInt64.toNat_ofNat', hshift,
    Nat.mod_eq_of_lt (hlt.trans (by decide) : 56 - i * 8 < 2 ^ 64), Nat.mod_eq_of_lt hlt,
    Nat.shiftRight_eq_div_pow]

lemma ofBytes_bytes (h : Words) :
    ofBytes h.bytes = h.value.toList.flatMap fun w => bitsOf 32 w.toNat := by
  simp [Words.bytes, Words.value, HashValue.toList, ofBytes_append, ofBytes_be32Bytes]

/-- The number of zero bytes in the padding of `n` bytes. -/
def zeroBytes (n : ℕ) : ℕ := (120 - (n + 1) % 64) % 64

lemma zeroBytes_lt (n : ℕ) : zeroBytes n < 64 := Nat.mod_lt _ (by decide)

lemma add_zeroBytes_mod (n : ℕ) : (n + 1 + zeroBytes n) % 64 = 56 := by
  unfold zeroBytes
  omega

/-- A message with the padding that `ac_sha256_final` adds. -/
def padded (m : Bytes) : Bytes :=
  m ++ (0x80 :: List.replicate (zeroBytes m.length) 0) ++ lenbuf (UInt64.ofNat m.length * 8)

/-- The padded message is made of blocks. -/
lemma length_padded (m : Bytes) : (padded m).length = 64 * ((padded m).length / 64) := by
  have hlen : (padded m).length = m.length + 1 + zeroBytes m.length + 8 := by
    simp only [padded, lenbuf, List.length_append, List.length_cons, List.length_replicate,
      List.length_map, List.length_range]
    omega
  have := add_zeroBytes_mod m.length
  omega

/-- The padding is that of the standard, since the length in bits does not wrap. -/
lemma ofBytes_padded {m : Bytes} (hm : m.length < 2 ^ 61) :
    ofBytes (padded m) = pad (ofBytes m) := by
  have hbits : (UInt64.ofNat m.length * 8).toNat = 8 * m.length := by
    have h8 : (8 : UInt64).toNat = 8 := rfl
    rw [UInt64.toNat_mul, UInt64.toNat_ofNat', h8]
    omega
  rw [padded, ofBytes_append, ofBytes_lenbuf, hbits,
    pad_ofBytes m (zeroBytes_lt _) (add_zeroBytes_mod _)]

/-- The context after the padding holds what the padded message leaves in it. -/
lemma acSha256Final_eq (m : Bytes) :
    acSha256Final (acSha256Update acSha256Init m) =
      (acSha256Update acSha256Init (padded m)).stream.state.bytes := by
  have hok := acSha256Update_ok acSha256Init_ok m
  have hpad := acSha256Update_ok hok [0x80]
  have hleft : (acSha256Update (acSha256Update acSha256Init m) [0x80]).zerosLeft =
      zeroBytes m.length := by
    rw [AcSha256Ctx.zerosLeft, length_buf_acSha256Update hok,
      length_buf_acSha256Update acSha256Init_ok, Nat.mod_add_mod]
    simp only [acSha256Init, List.length_nil, Nat.zero_add, List.length_singleton, zeroBytes]
  have hlen : (acSha256Update acSha256Init m).len = UInt64.ofNat m.length := UInt64.zero_add _
  have hlast : acSha256Update (padZeros 64 (acSha256Update (acSha256Update acSha256Init m) [0x80]))
      (lenbuf ((acSha256Update acSha256Init m).len * 8)) =
        acSha256Update acSha256Init (padded m) := by
    rw [padZeros_eq hpad (zerosLeft_le _), hleft, hlen, acSha256Update_append hpad,
      acSha256Update_append hok, acSha256Update_append acSha256Init_ok, padded,
      List.singleton_append, List.append_assoc, List.cons_append]
  rw [← hlast]
  rfl

/-- The digest is that of the standard. -/
theorem ofBytes_acSha256Final {m : Bytes} (hm : m.length < 2 ^ 61) :
    ofBytes (acSha256Final (acSha256Update acSha256Init m)) = sha256 (ofBytes m) := by
  have hlen := length_padded m
  have hcount : (pad (ofBytes m)).length / 512 = (padded m).length / 64 := by
    rw [← ofBytes_padded hm, length_ofBytes]
    omega
  have hblocks : (padded m).foldl (push 64 acSha256Block) acSha256Init.stream = _ :=
    foldl_push_blocks (by decide) acSha256Init.stream.state hlen
  rw [acSha256Final_eq, ofBytes_bytes, acSha256Update_eq acSha256Init_ok, hblocks,
    value_foldl_block hlen.ge, ofBytes_padded hm, sha256, hcount]

end Anticheat.Hash
