import Anticheat.Baseline.Check

/-!
# A range of memory hashed in chunks

The loop of `hash_proc_mem`, which reads a range in chunks of at most `AC_READ_CHUNK` bytes, each
of them as long as `pread` makes it. It gives the digest of the whole range, or none where the
range cannot be read to its end, so that `hashProcMem` is what it computes.
-/

namespace Anticheat.Baseline

open Hash

/-- `AC_READ_CHUNK` -/
def acReadChunk : ℕ := 64 * 1024

/-- What `pread` answers for a memory, when it is not interrupted: `none` is an error, the empty
string the end of the file. Where the first byte can be read it reads at least that one. -/
structure Pread (mem : UInt64 → Option UInt8) where
  read : UInt64 → ℕ → Option Bytes
  length_le : ∀ {off want b}, read off want = some b → b.length ≤ want
  readMem_eq : ∀ {off want b}, read off want = some b → readMem mem off b.length = some b
  ne_nil : ∀ {off want}, 0 < want → (mem off).isSome → ∃ b, b ≠ [] ∧ read off want = some b

/-- The loop of `hash_proc_mem`: the context and `done` when it is left, or `none` when it returns
for an error. -/
def hashLoop (read : UInt64 → ℕ → Option Bytes) (start : UInt64) (size done : ℕ)
    (ctx : AcSha256Ctx) : Option (AcSha256Ctx × ℕ) :=
  if done < size then
    match read (start + UInt64.ofNat done) (min (size - done) acReadChunk) with
    | none => none
    | some [] => some (ctx, done)
    | some (x :: b) =>
      hashLoop read start size (done + (b.length + 1)) (acSha256Update ctx (x :: b))
  else some (ctx, done)
termination_by size - done

/-- `hash_proc_mem` with its loop. -/
def hashProcMemChunked (read : UInt64 → ℕ → Option Bytes) (start size : UInt64) : Option Bytes :=
  match hashLoop read start size.toNat 0 acSha256Init with
  | none => none
  | some (ctx, done) =>
    if done < size.toNat then none else some (acSha256HexDigest (acSha256Final ctx))

variable {mem : UInt64 → Option UInt8}

/-- The `pread` that reads one byte at a time. -/
def Pread.bytewise (mem : UInt64 → Option UInt8) : Pread mem where
  read off want := if want = 0 then some [] else (mem off).map fun x => [x]
  length_le := by
    intro off want b h
    split_ifs at h with hwant
    · cases h
      exact Nat.zero_le _
    · obtain ⟨x, -, rfl⟩ := Option.map_eq_some_iff.mp h
      exact Nat.pos_of_ne_zero hwant
  readMem_eq := by
    intro off want b h
    split_ifs at h with hwant
    · cases h
      rfl
    · obtain ⟨x, hx, rfl⟩ := Option.map_eq_some_iff.mp h
      simp [readMem, hx]
  ne_nil := by
    intro off want hwant hmem
    obtain ⟨x, hx⟩ := Option.isSome_iff_exists.mp hmem
    exact ⟨[x], List.cons_ne_nil x [], by rw [if_neg hwant.ne', hx, Option.map_some]⟩

/-- A range is read in two parts. -/
lemma readMem_add (start : UInt64) (a b : ℕ) :
    readMem mem start (a + b) = (readMem mem start a).bind fun l =>
      (readMem mem (start + UInt64.ofNat a) b).map (l ++ ·) := by
  have hshift : (fun k => mem (start + UInt64.ofNat k)) ∘ (a + ·) =
      fun k => mem (start + UInt64.ofNat a + UInt64.ofNat k) := by
    funext k
    rw [Function.comp_apply, UInt64.ofNat_add, UInt64.add_assoc]
  unfold readMem
  rw [List.range_add, List.mapM_append, List.mapM_map, hshift]
  simp only [Option.bind_eq_bind, Option.pure_def, Option.map_eq_bind, Function.comp_def]

lemma readMem_pos_eq_none {start : UInt64} {size : ℕ} (hsize : 0 < size) (h : mem start = none) :
    readMem mem start size = none := by
  obtain ⟨k, rfl⟩ := Nat.exists_eq_add_of_lt hsize
  rw [Nat.zero_add, Nat.add_comm, readMem_add]
  simp [readMem, h]

section Loop

variable (r : Pread mem) (start : UInt64) {size done : ℕ} {ctx : AcSha256Ctx}

/-- Where the rest of the range can be read, so can a chunk of it. -/
lemma exists_chunk {off : UInt64} {n : ℕ} (hn : 0 < n) {rest : Bytes}
    (h : readMem mem off n = some rest) :
    ∃ b, b ≠ [] ∧ r.read off (min n acReadChunk) = some b := by
  refine r.ne_nil (Nat.lt_min.mpr ⟨hn, by decide⟩) (Option.isSome_iff_ne_none.mpr fun hnone => ?_)
  rw [readMem_pos_eq_none hn hnone] at h
  cases h

/-- A chunk is a first part of the range that is left. -/
lemma readMem_chunk {b : Bytes}
    (hread : r.read (start + UInt64.ofNat done) (min (size - done) acReadChunk) = some b) :
    b.length ≤ size - done ∧ readMem mem (start + UInt64.ofNat done) (size - done) =
      (readMem mem (start + UInt64.ofNat (done + b.length)) (size - (done + b.length))).map
        (b ++ ·) := by
  have hle : b.length ≤ size - done := (r.length_le hread).trans (Nat.min_le_left _ _)
  have hsplit : size - done = b.length + (size - (done + b.length)) := by omega
  refine ⟨hle, ?_⟩
  conv_lhs => rw [hsplit]
  rw [readMem_add, r.readMem_eq hread, Option.bind_some, UInt64.ofNat_add, UInt64.add_assoc]

/-- A range that can be read is hashed to its end. -/
lemma hashLoop_of_some (hctx : ctx.Ok) (hdone : done ≤ size) {rest : Bytes}
    (h : readMem mem (start + UInt64.ofNat done) (size - done) = some rest) :
    hashLoop r.read start size done ctx = some (acSha256Update ctx rest, size) := by
  fun_induction hashLoop r.read start size done ctx generalizing rest with
  | case1 done ctx hlt hread =>
    obtain ⟨b, -, hb⟩ := exists_chunk r (Nat.sub_pos_of_lt hlt) h
    rw [hread] at hb
    cases hb
  | case2 done ctx hlt hread =>
    obtain ⟨b, hne, hb⟩ := exists_chunk r (Nat.sub_pos_of_lt hlt) h
    rw [hread] at hb
    cases hb
    exact absurd rfl hne
  | case3 done ctx hlt x b hread ih =>
    obtain ⟨hle, hsplit⟩ := readMem_chunk r start hread
    rw [List.length_cons] at hle hsplit
    rw [hsplit, Option.map_eq_some_iff] at h
    obtain ⟨rest, hrest, rfl⟩ := h
    rw [ih (acSha256Update_ok hctx _) (by omega) hrest, acSha256Update_append hctx]
  | case4 done ctx hge =>
    obtain rfl : done = size := by omega
    rw [Nat.sub_self] at h
    have hrest : rest = [] := (Option.some.inj h).symm
    rw [hrest, acSha256Update_nil hctx]

/-- In a range that cannot be read to its end the loop stops before it. -/
lemma hashLoop_of_none (hdone : done ≤ size)
    (h : readMem mem (start + UInt64.ofNat done) (size - done) = none)
    {ctx' : AcSha256Ctx} {done' : ℕ}
    (hloop : hashLoop r.read start size done ctx = some (ctx', done')) : done' < size := by
  fun_induction hashLoop r.read start size done ctx with
  | case1 => cases hloop
  | case2 done ctx hlt hread =>
    cases hloop
    exact hlt
  | case3 done ctx hlt x b hread ih =>
    obtain ⟨hle, hsplit⟩ := readMem_chunk r start hread
    rw [List.length_cons] at hle hsplit
    rw [hsplit, Option.map_eq_none_iff] at h
    exact ih (by omega) h hloop
  | case4 done ctx hge =>
    obtain rfl : done = size := by omega
    rw [Nat.sub_self] at h
    cases h

end Loop

/-- The chunks do not matter: `hash_proc_mem` gives the digest of the range as a whole. -/
theorem hashProcMemChunked_eq (r : Pread mem) (start size : UInt64) :
    hashProcMemChunked r.read start size = hashProcMem mem start size := by
  have hstart : start + UInt64.ofNat 0 = start := UInt64.add_zero start
  unfold hashProcMemChunked hashProcMem
  cases hmem : readMem mem start size.toNat with
  | some b =>
    rw [hashLoop_of_some r start acSha256Init_ok (Nat.zero_le _) (by rw [hstart]; exact hmem)]
    exact if_neg (Nat.lt_irrefl _)
  | none =>
    split
    · rfl
    · next ctx done hloop =>
      exact if_pos (hashLoop_of_none r start (Nat.zero_le _) (by rw [hstart]; exact hmem) hloop)

end Anticheat.Baseline
