import Anticheat.Baseline.Chunks
import Anticheat.Hash.Digest
import Anticheat.Syscalls.Check

/-!
# The callers of the hash

The module hashes the table of system calls slot by slot and its baseline at once, and the daemon
hashes memory in chunks and paths at once. All of them get the SHA-256 of the bytes, whatever the
pieces.
-/

namespace Anticheat

open Hash Syscalls Baseline

namespace Syscalls

variable {n : ℕ}

/-! ### The table, slot by slot -/

namespace Check

variable (p : Poll n) {i j : Fin n} (e : UInt64) (a : Check n)

lemma hash_compareBaseline : (compareBaseline p i e a).hash = a.hash := by
  unfold compareBaseline
  split_ifs <;> rfl

lemma hash_classify : (classify p i e a).hash = a.hash := by
  unfold classify
  split_ifs <;> rfl

lemma hash_slot :
    (a.slot p i).hash = acSha256Update a.hash (leBytes (liveValue p i a.st)) := by
  unfold slot
  cases p.read i with
  | none => rfl
  | some e => exact (hash_classify p e _).trans (hash_compareBaseline p e _)

lemma liveValue_compareBaseline (hj : j ≠ i) :
    liveValue p j (compareBaseline p i e a).st = liveValue p j a.st := by
  unfold compareBaseline
  split_ifs <;> simp [liveValue, Function.update_of_ne hj]

lemma liveValue_classify : liveValue p j (classify p i e a).st = liveValue p j a.st := by
  unfold classify
  split_ifs <;> rfl

/-- A slot keeps the value that the hash takes for it while another one is checked. -/
lemma liveValue_slot (hj : j ≠ i) : liveValue p j (a.slot p i).st = liveValue p j a.st := by
  unfold slot
  cases p.read i with
  | none => rfl
  | some e => exact (liveValue_classify p e _).trans (liveValue_compareBaseline p e _ hj)

end Check

/-- The hash after the slots of `l`, and the values of the slots to come. -/
structure HashInv (s : SyscallTable n) (p : Poll n) (l : List (Fin n)) (a : Check n) : Prop where
  hash : a.hash = acSha256Update acSha256Init (l.flatMap fun i => leBytes (liveTable s p i))
  live : ∀ i ∉ l, Check.liveValue p i a.st = liveTable s p i

lemma HashInv.slot {s : SyscallTable n} {p : Poll n} {l : List (Fin n)} {a : Check n} {i : Fin n}
    (hi : i ∉ l) (ha : HashInv s p l a) : HashInv s p (l ++ [i]) (a.slot p i) := by
  constructor
  · rw [Check.hash_slot, ha.hash, ha.live i hi, acSha256Update_append acSha256Init_ok,
      List.flatMap_append, List.flatMap_singleton]
  · intro j hj
    rw [List.mem_append, List.mem_singleton, not_or] at hj
    rw [Check.liveValue_slot p a hj.2, ha.live j hj.1]

/-- The digest of a call is that of the table it finds. -/
lemma hash_checkLoop (s : SyscallTable n) (p : Poll n) :
    (checkLoop s p).hash = acSha256Update acSha256Init (tableBytes (liveTable s p)) := by
  have hinit : HashInv s p [] ⟨s, acSha256Init, 0, 0, 0, 0, []⟩ :=
    ⟨(acSha256Update_nil acSha256Init_ok).symm, fun _ _ => rfl⟩
  have hinv : HashInv s p (List.finRange n) (checkLoop s p) :=
    Transition.foldl_invariant (P := HashInv s p) (fun _ _ _ hi ha => ha.slot hi)
      (List.nodup_finRange n) hinit
  exact hinv.hash

lemma currentSha256_of_check {s s' : SyscallTable n} {p : Poll n} {ev : List (Fin n × AcEmit)}
    {out : AcSyscallCheck} (h : acCheckSyscalls s p = some (s', ev, out)) :
    out.currentSha256 = acSha256Hex (tableBytes (liveTable s p)) := by
  simp only [acCheckSyscalls, base_ne_zero_of_check h, if_false, Option.some.injEq,
    Prod.mk.injEq] at h
  obtain ⟨-, -, rfl⟩ := h
  rw [acSha256Hex, ← hash_checkLoop]

end Syscalls

/-! ### All of them -/

/-- For a message of less than `2 ^ 61` bytes and every way of cutting it, the calls return with
the SHA-256 of the message, and only with that. So the digest of a table taken slot by slot and
the digest of a range of memory taken in chunks are what `ac_sha256_hex` gives for the bytes. -/
theorem digest_of_pieces (m : Bytes) (hm : m.length < 2 ^ 61) :
    (∀ pieces : List Bytes, pieces.flatten = m → ∃ out, DigestReturns pieces out ∧
      (∀ out', DigestReturns pieces out' → out' = out) ∧
      Fips180.ofBytes out = Fips180.sha256 (Fips180.ofBytes m) ∧
      acSha256HexDigest out = acSha256Hex m) ∧
    (∀ (n : ℕ) (s s' : SyscallTable n) (p : Poll n) (ev : List (Fin n × AcEmit))
      (out : AcSyscallCheck), acCheckSyscalls s p = some (s', ev, out) →
      tableBytes (liveTable s p) = m → out.currentSha256 = acSha256Hex m) ∧
    (∀ (mem : UInt64 → Option UInt8) (r : Pread mem) (start size : UInt64),
      readMem mem start size.toNat = some m →
      hashProcMemChunked r.read start size = some (acSha256Hex m)) := by
  refine ⟨?_, ?_, ?_⟩
  · rintro pieces rfl
    exact ⟨_, digestReturns_iff.mpr rfl, fun _ => digestReturns_iff.mp, ofBytes_acSha256Final hm,
      rfl⟩
  · rintro n s s' p ev out h rfl
    exact currentSha256_of_check h
  · intro mem r start size h
    rw [hashProcMemChunked_eq, hashProcMem, h, Option.map_some]

/-- The eight letters from `a`. -/
def letters : Bytes := [97, 98, 99, 100, 101, 102, 103, 104]

def lettersDigest : Bytes :=
  [0x9c, 0x56, 0xcc, 0x51, 0xb3, 0x74, 0xc3, 0xba, 0x18, 0x92, 0x10, 0xd5, 0xb6, 0xd4, 0xbf, 0x57,
    0x79, 0x0d, 0x35, 0x1c, 0x96, 0xc4, 0x7c, 0x02, 0x19, 0x0e, 0xcf, 0x1e, 0x43, 0x06, 0x35, 0xab]

/-- The letters in three pieces, as the only slot of a table, and in memory. -/
theorem digest_of_pieces_letters :
    DigestReturns [[97, 98, 99], [], [100, 101, 102, 103, 104]] lettersDigest ∧
    Fips180.sha256 (Fips180.ofBytes letters) = Fips180.ofBytes lettersDigest ∧
    (acCheckSyscalls (.init 4096 ⟨0, 0, 0⟩ : SyscallTable 1)
        ⟨fun _ => some 0x6867666564636261, none, fun _ => (false, false)⟩).map
      (fun x => x.2.2.currentSha256) = some (acSha256Hex letters) ∧
    hashProcMemChunked (Pread.bytewise fun a => letters[a.toNat]?).read 0 8 =
      some (acSha256Hex letters) := by
  obtain ⟨hpieces, htable, hmem⟩ := digest_of_pieces letters (by decide)
  obtain ⟨out, hout, -, hfips, -⟩ := hpieces [[97, 98, 99], [], [100, 101, 102, 103, 104]] rfl
  have hbytes : out = lettersDigest := (digestReturns_iff.mp hout).trans (by decide +kernel)
  rw [hbytes] at hout hfips
  refine ⟨hout, hfips.symm, ?_, hmem _ _ 0 8 (by decide)⟩
  obtain ⟨x, hx⟩ : ∃ x, acCheckSyscalls (.init 4096 ⟨0, 0, 0⟩ : SyscallTable 1)
      ⟨fun _ => some 0x6867666564636261, none, fun _ => (false, false)⟩ = some x :=
    ⟨_, if_neg (by decide)⟩
  rw [hx, Option.map_some, htable 1 _ _ _ _ _ hx (by decide)]

end Anticheat
