import Anticheat.Report.Resolver

/-!
# How long a resolve takes, and what it reads

A resolve is over when its deadline, the two seconds it waits for the child and the last sleep have
passed, whatever the child does and however often signals come in; only what the machine takes for
everything else comes on top. The addresses it returns are the whole records that the child got
written, from the first one on, however the pipe cuts them.
-/

namespace Anticheat.Report

open CText Transition

/-! ### The readings of the clock -/

/-- What the daemon computes is off by less than a millisecond. -/
lemma elapsedMs_bounds (a b : ℕ) :
    (b : ℤ) - a < (elapsedMs (clockGettime a) (clockGettime b) + 1) * 1000000 ∧
      elapsedMs (clockGettime a) (clockGettime b) * 1000000 < (b : ℤ) - a + 1000000 := by
  unfold elapsedMs clockGettime
  dsimp only
  rw [Int.tdiv_eq_ediv]
  split_ifs
  · omega
  · rw [Int.sign_eq_one_of_pos (by decide)]
    omega

lemma ResolveEnv.deadline_eq (env : ResolveEnv) (timeoutSec : ℕ) :
    env.deadline timeoutSec = clockGettime (env.begun + timeoutSec * 1000000000) := by
  simp only [ResolveEnv.deadline, clockGettime, Timespec.mk.injEq]
  omega

/-- What `(int)remaining_ms` is. -/
lemma bmod_remaining {deadline now timeoutSec : ℕ} (hsec : timeoutSec * 1000 + 1 < 2 ^ 31)
    (hfar : deadline ≤ now + timeoutSec * 1000000000)
    (hpos : 0 < elapsedMs (clockGettime now) (clockGettime deadline)) :
    (elapsedMs (clockGettime now) (clockGettime deadline)).bmod (2 ^ 32) =
      elapsedMs (clockGettime now) (clockGettime deadline) := by
  have hbounds := elapsedMs_bounds now deadline
  refine Int.bmod_eq_of_le ?_ ?_ <;> norm_num <;> omega

/-! ### The time that reading takes -/

section Read

variable {deadline now timeoutSec lag : ℕ} {t : ReadTurn}

lemma le_readTurn (deadline : Timespec) (now : ℕ) (t : ReadTurn) :
    now ≤ (readTurn deadline now t).2 := by
  unfold readTurn poll
  dsimp only
  split_ifs <;> dsimp only <;> omega

/-- `poll` does not wait longer than it is told. -/
lemma poll_le {timeoutMs : ℤ} (h : 0 ≤ timeoutMs) (now : ℕ) (t : ReadTurn) :
    (poll timeoutMs now t).2 ≤ now + timeoutMs.toNat * 1000000 := by
  unfold poll
  split_ifs with hafter
  · have := hafter.resolve_left (by omega)
    dsimp only
    omega
  · exact Nat.le_refl _

/-- A turn does not go on past the deadline. -/
lemma readTurn_le (hsec : timeoutSec * 1000 + 1 < 2 ^ 31)
    (hfar : deadline ≤ now + timeoutSec * 1000000000) (hnow : now ≤ deadline + 1000000 + lag)
    (hlag : t.lag ≤ lag) :
    (readTurn (clockGettime deadline) now t).2 ≤ deadline + 1000000 + lag := by
  by_cases hover : elapsedMs (clockGettime now) (clockGettime deadline) ≤ 0
  · rw [readTurn, if_pos hover]
    exact hnow
  · have hbounds := elapsedMs_bounds now deadline
    have hpos : 0 ≤ elapsedMs (clockGettime now) (clockGettime deadline) := by omega
    have hpoll := poll_le hpos now t
    rw [readTurn, if_neg hover, bmod_remaining hsec hfar (by omega)]
    dsimp only
    omega

lemma readLoop_le (hsec : timeoutSec * 1000 + 1 < 2 ^ 31) {turn : ℕ → ReadTurn}
    (hlag : ∀ k, (turn k).lag ≤ lag) (max k : ℕ) (rest buf : Bytes) (out : List Bytes)
    (hfar : deadline ≤ now + timeoutSec * 1000000000) (hnow : now ≤ deadline + 1000000 + lag) :
    (readLoop max (clockGettime deadline) turn k now rest buf out).2 ≤
      deadline + 1000000 + lag := by
  fun_induction readLoop max (clockGettime deadline) turn k now rest buf out with
  | case1 k now rest buf out hlt now' hturn =>
    exact (congrArg Prod.snd hturn) ▸ readTurn_le hsec hfar hnow (hlag k)
  | case2 k now rest buf out hlt r now' hturn got hgot =>
    exact (congrArg Prod.snd hturn) ▸ readTurn_le hsec hfar hnow (hlag k)
  | case3 k now rest buf out hlt r now' hturn got hgot hfull ih =>
    have hle := le_readTurn (clockGettime deadline) now (turn k)
    have hnow' := readTurn_le hsec hfar hnow (hlag k)
    rw [hturn] at hle hnow'
    exact ih (by omega) hnow'
  | case4 k now rest buf out hlt r now' hturn got hgot hfull ih =>
    have hle := le_readTurn (clockGettime deadline) now (turn k)
    have hnow' := readTurn_le hsec hfar hnow (hlag k)
    rw [hturn] at hle hnow'
    exact ih (by omega) hnow'
  | case5 => exact hnow

end Read

/-! ### The time that waiting takes -/

/-- What the first `k` turns of the wait take. -/
def slept (turn : ℕ → WaitTurn) : ℕ → ℕ
  | 0 => 0
  | k + 1 => slept turn k + (turn k).length

section Wait

variable (timeoutMs : ℕ) {pid : Pid} {start now : ℕ} {turn : ℕ → WaitTurn}

/-- The wait is over at the latest in the turn before which the timeout has passed. -/
lemma exists_waitpidTimeout {n : ℕ} (hn : timeoutMs * 1000000 ≤ slept turn n) (turns k : ℕ)
    (c : Children) (hk : k ≤ n) (hturns : n < k + turns) (hnow : now = start + slept turn k) :
    ∃ w, waitpidTimeout pid timeoutMs (clockGettime start) turn turns k now c = some w := by
  induction turns generalizing k now c with
  | zero => exact absurd hk (Nat.not_le.mpr hturns)
  | succ turns ih =>
    rw [waitpidTimeout]
    split
    · exact ⟨_, rfl⟩
    · exact ⟨_, rfl⟩
    · split_ifs with hover
      · exact ⟨_, rfl⟩
      · have hne : k ≠ n := by
          rintro rfl
          have hbounds := (elapsedMs_bounds start now).1
          omega
        refine ih (k + 1) _ (by omega) (by omega) ?_
        rw [hnow, slept]
        omega

/-- The last sleep begins before the timeout is over. -/
lemma waitpidTimeout_le {lag : ℕ} (hlag : ∀ k, (turn k).lag ≤ lag) {turns k : ℕ} {c : Children}
    {w : WaitEnd × Children × ℕ}
    (h : waitpidTimeout pid timeoutMs (clockGettime start) turn turns k now c = some w)
    (hnow : now ≤ start + timeoutMs * 1000000 + 20000000 + lag) :
    w.2.2 ≤ start + timeoutMs * 1000000 + 20000000 + lag := by
  induction turns generalizing k now c with
  | zero => cases h
  | succ turns ih =>
    rcases waitpidTimeout_cases h with ⟨-, rfl⟩ | ⟨-, rfl⟩ | ⟨-, rfl | ⟨hlt, hrest⟩⟩
    · exact hnow
    · exact hnow
    · exact hnow
    · refine ih hrest ?_
      have hbounds := (elapsedMs_bounds start now).1
      have hlag := hlag k
      unfold WaitTurn.length
      omega

end Wait

/-! ### The time that a resolve takes -/

/-- Besides the sleeps nothing takes longer than `lag`. -/
structure ResolveEnv.Lags (env : ResolveEnv) (lag : ℕ) : Prop where
  fork : env.forkLag ≤ lag
  read : ∀ k, (env.turn k).lag ≤ lag
  kill : env.killLag ≤ lag
  wait : ∀ k, (env.wait k).lag ≤ lag
  leave : env.leaveLag ≤ lag

namespace ResolveEnv

variable {env : ResolveEnv} {max timeoutSec lag : ℕ} {pid : Pid} {c : Children}

lemma read_le (hlag : env.Lags lag) (max : ℕ) (hsec : timeoutSec * 1000 + 1 < 2 ^ 31) :
    (env.read max timeoutSec).2 ≤ env.begun + timeoutSec * 1000000000 + 1000000 + lag := by
  rw [ResolveEnv.read, env.deadline_eq]
  exact readLoop_le hsec hlag.read max 0 _ _ _ (Nat.le_refl _) (by omega)

lemma waitFor_le (hlag : env.Lags lag) (hsec : timeoutSec * 1000 + 1 < 2 ^ 31)
    {w : WaitEnd × Children × ℕ} (h : env.waitFor max timeoutSec pid c = some w) :
    w.2.2 ≤ env.begun + timeoutSec * 1000000000 + 2021000000 + 3 * lag := by
  have hread := read_le hlag max hsec
  have hwait := waitpidTimeout_le 2000 hlag.wait h (by omega)
  have hkill := hlag.kill
  omega

/-- If time goes on while the wait sleeps, it comes to an end. -/
lemma exists_waitFor (env : ResolveEnv) (max timeoutSec : ℕ)
    (htime : ∀ t, ∃ n, t ≤ slept env.wait n) :
    ∃ n, ∀ turns, n < turns → ∀ pid c,
      ∃ w, { env with waitTurns := turns }.waitFor max timeoutSec pid c = some w := by
  obtain ⟨n, hn⟩ := htime (2000 * 1000000)
  exact ⟨n, fun turns hturns pid c =>
    exists_waitpidTimeout 2000 hn turns 0 _ (Nat.zero_le n) (by omega) rfl⟩

end ResolveEnv

lemma all_waitpidTimeout_subset {pid : Pid} {timeoutMs : ℤ} {start : Timespec}
    {turn : ℕ → WaitTurn} {turns k now : ℕ} {c : Children} {w : WaitEnd × Children × ℕ}
    (h : waitpidTimeout pid timeoutMs start turn turns k now c = some w) : w.2.1.all ⊆ c.all := by
  induction turns generalizing k now c with
  | zero => cases h
  | succ turns ih =>
    have hsub := all_waitpid_subset c (turn k).toMoment pid
    rcases waitpidTimeout_cases h with ⟨-, rfl⟩ | ⟨-, rfl⟩ | ⟨-, rfl | ⟨-, hrest⟩⟩
    · exact hsub
    · exact hsub
    · exact hsub
    · exact List.Subset.trans (ih hrest) hsub

lemma all_settleChild_subset (env : ResolveEnv) (pid : Pid) (slots : List Pid)
    (log : List ResolverMsg) (c : Children) (e : WaitEnd) :
    (settleChild env pid slots log c e).children.all ⊆ c.all := by
  cases e with
  | timedOut =>
    have hsub := all_reap_subset env.abandon 0 slots c
    simp only [settleChild, abandonResolverChild]
    split <;> exact hsub
  | reaped => exact List.Subset.refl _
  | failed => exact List.Subset.refl _

lemma log_settleChild_ne (env : ResolveEnv) (pid : Pid) (slots : List Pid)
    (log : List ResolverMsg) (c : Children) (e : WaitEnd) :
    (settleChild env pid slots log c e).log ≠ log ++ [.refused] := by
  cases e with
  | timedOut =>
    simp only [settleChild, abandonResolverChild]
    split <;> simp
  | reaped => simp [settleChild]
  | failed => simp [settleChild]

/-- Whatever the child does, whatever `poll` and `read` report and however often signals end the
sleeps: if time goes on then a resolve returns, within its timeout, 2021 ms and what the rest takes
in five places. It reaps the children that have exited before, unless signals keep it from that,
and if it refuses to fork then there are eight that have not been reaped. -/
theorem acResolveTimeout_returns {as : List ResolverAct} {s : Resolver}
    (h : run Resolver.step .init as = some s) (max timeoutSec lag : ℕ)
    (hsec : timeoutSec * 1000 + 1 < 2 ^ 31) (env : ResolveEnv) (hforks : env.forks s = true)
    (hlag : env.Lags lag) (htime : ∀ t, ∃ n, t ≤ slept env.wait n) :
    ∃ n, ∀ turns, n < turns →
      ∃ e, acResolveTimeout max timeoutSec { env with waitTurns := turns } s = some e ∧
        e.now ≤ env.start + timeoutSec * 1000000000 + 2021000000 + 5 * lag ∧
        ((∀ i, (env.sweep i).intr = false) →
          ∀ p ∈ s.children.zombies, p ∈ e.resolver.children.all → env.fork = some p) ∧
        (e.resolver.log = s.log ++ [.refused] →
          e.resolver.children.all.length = acMaxStaleResolvers) := by
  have hs := Resolver.inv_of_run h
  obtain ⟨n, hn⟩ := env.exists_waitFor max timeoutSec htime
  refine ⟨n, fun turns hturns => ?_⟩
  have hbegun : env.begun ≤ env.start + lag := Nat.add_le_add_left hlag.fork _
  have hleave := hlag.leave
  obtain ⟨slots, c, hswept⟩ : ∃ slots c,
    reapStaleResolvers env.sweep 0 s.slots s.children = (slots, c) := ⟨_, _, rfl⟩
  have hgone : (∀ i, (env.sweep i).intr = false) → ∀ p ∈ s.children.zombies, p ∉ c.all := by
    intro hintr p hp
    simpa [hswept] using not_mem_all_reap hintr 0 hs.tracked hp List.not_mem_nil
  have hlag' : { env with waitTurns := turns }.Lags lag :=
    ⟨hlag.fork, hlag.read, hlag.kill, hlag.wait, hlag.leave⟩
  have hforks' : { env with waitTurns := turns }.forks s = true := hforks
  rcases acResolveTimeout_cases max timeoutSec { env with waitTurns := turns } s hswept with
    ⟨hfull, heq⟩ | ⟨-, heq⟩ | ⟨pid, hzero, hfork, heq⟩
  · refine ⟨_, heq, ?_, fun hintr p hp hmem => absurd hmem (hgone hintr p hp), fun _ => ?_⟩
    · change env.begun ≤ _
      omega
    · have hinv := hs.resolve hforks' heq
      rw [← hinv.tracked.perm.length_eq, List.append_nil, ← hinv.length,
        List.filter_eq_self.mpr fun slot hslot => ?_]
      exact decide_eq_true (Nat.pos_of_ne_zero fun h0 => hfull (h0 ▸ hslot))
  · refine ⟨_, heq, ?_, fun hintr p hp hmem => absurd hmem (hgone hintr p hp),
      fun hlog => by simp at hlog⟩
    change env.begun ≤ _
    omega
  · obtain ⟨w, hwait⟩ := hn turns hturns pid c
    refine ⟨_, heq.trans (by rw [hwait]; rfl), ?_, fun hintr p hp hmem => ?_, fun hlog => ?_⟩
    · have hle := ResolveEnv.waitFor_le hlag' hsec hwait
      change w.2.2 + env.leaveLag ≤ _
      change w.2.2 ≤ env.begun + _ + _ + _ at hle
      omega
    · have hmem := all_settleChild_subset _ pid slots s.log w.2.1 w.1 hmem
      rcases List.mem_cons.mp (all_waitpidTimeout_subset hwait hmem) with rfl | hmem
      · exact hfork
      · exact absurd hmem (hgone hintr p hp)
    · exact absurd hlog (log_settleChild_ne _ pid slots s.log w.2.1 w.1)

lemma le_slept_stuckEnv (pid n : ℕ) : n ≤ slept (stuckEnv pid).wait n := by
  induction n with
  | zero => exact Nat.zero_le _
  | succ n ih =>
    have hlength : ((stuckEnv pid).wait n).length = 5000000 := rfl
    rw [slept, hlength]
    omega

theorem acResolveTimeout_returns_stuck :
    ∃ n, ∀ turns, n < turns →
      ∃ e, acResolveTimeout 8 3 { stuckEnv 70 with waitTurns := turns } .init = some e ∧
        e.now ≤ 5021000000 := by
  obtain ⟨n, hn⟩ := acResolveTimeout_returns (run_nil Resolver.init) 8 3 0 (by decide)
    (stuckEnv 70) (by decide) ⟨le_rfl, fun _ => le_rfl, le_rfl, fun _ => le_rfl, le_rfl⟩
    fun t => ⟨t, le_slept_stuckEnv 70 t⟩
  exact ⟨n, fun turns hturns => (hn turns hturns).imp fun e he => ⟨he.1, he.2.1⟩⟩

/-! ### The records that are read -/

section Records

open BlockStream

lemma toNat_shiftRight_byte (x : UInt32) {i : ℕ} (hi : i < 4) :
    ((x >>> UInt32.ofNat (8 * i)).toUInt8).toNat = x.toNat / 2 ^ (8 * i) % 2 ^ 8 := by
  have hshift : 8 * i % 32 = 8 * i := Nat.mod_eq_of_lt (by omega)
  simp [Nat.shiftRight_eq_div_pow, hshift]

lemma ofIntBytes_intBytes (x : UInt32) : ofIntBytes (intBytes x) = x := by
  have h1 : (x >>> 8).toUInt8.toNat = x.toNat / 2 ^ 8 % 2 ^ 8 :=
    toNat_shiftRight_byte x (i := 1) (by decide)
  have h2 : (x >>> 16).toUInt8.toNat = x.toNat / 2 ^ 16 % 2 ^ 8 :=
    toNat_shiftRight_byte x (i := 2) (by decide)
  have h3 : (x >>> 24).toUInt8.toNat = x.toNat / 2 ^ 24 % 2 ^ 8 :=
    toNat_shiftRight_byte x (i := 3) (by decide)
  have hx := x.toNat_lt
  apply UInt32.toNat_inj.mp
  simp only [ofIntBytes, intBytes, UInt32.toNat_ofNat', UInt32.toNat_toUInt8, h1, h2, h3]
  omega

lemma AcResolvedAddr.length_bytes (a : AcResolvedAddr) : a.bytes.length = recordLen := by
  simp only [AcResolvedAddr.bytes, intBytes, List.length_append, List.length_cons,
    List.length_nil, a.length_addr]
  rfl

/-- The record is read back from its bytes. -/
lemma AcResolvedAddr.ofBytes_bytes (a : AcResolvedAddr) : ofBytes a.bytes = some a := by
  rw [ofBytes, dif_pos a.length_bytes]
  obtain ⟨family, socktype, protocol, addrlen, addr, haddr⟩ := a
  simp only [Option.some.injEq, AcResolvedAddr.mk.injEq]
  refine ⟨?_, ?_, ?_, ?_, ?_⟩
  · exact ofIntBytes_intBytes family
  · exact ofIntBytes_intBytes socktype
  · exact ofIntBytes_intBytes protocol
  · exact ofIntBytes_intBytes addrlen
  · rfl

/-- A record that is complete goes behind the others. -/
def keep (out : List Bytes) (record : Bytes) : List Bytes := out ++ [record]

lemma foldl_keep (out l : List Bytes) : l.foldl keep out = out ++ l := by
  induction l generalizing out with
  | nil => simp
  | cons b l ih => simp [ih, keep]

/-- One read is pushed into the buffer at once. -/
lemma foldl_push_got {rest buf got : Bytes} {r : ℕ} {out : List Bytes}
    (hgot : got = rest.take (min r (recordLen - buf.length))) (hne : got ≠ [])
    (hbuf : buf.length < recordLen) (m : ℕ) :
    (rest.take (got.length + m)).foldl (push recordLen keep) ⟨out, buf⟩ =
      ((rest.drop got.length).take m).foldl (push recordLen keep)
        (settle recordLen keep out (buf ++ got)) := by
  have hle : got.length ≤ recordLen - buf.length := by
    rw [hgot]
    exact (List.length_take_le _ _).trans (Nat.min_le_right _ _)
  have htake : rest.take got.length = got :=
    (List.prefix_iff_eq_take.mp (hgot ▸ List.take_prefix _ _)).symm
  have hcopy : got.foldl (push recordLen keep) ⟨out, buf⟩ =
      settle recordLen keep out (buf ++ got) := foldl_push_of_le hne (by simp only; omega)
  rw [List.take_add, List.foldl_append, htake, hcopy]

/-- The time before turn `k + j` if every turn from `k` on waits for the pipe and goes on. -/
def readClock (turn : ℕ → ReadTurn) (k now : ℕ) : ℕ → ℕ
  | 0 => now
  | j + 1 => readClock turn (k + 1) (now + (turn k).after + (turn k).lag) j

/-- In the next `n` turns and the one after them the pipe gets ready before the deadline. -/
def ReadsOn (deadline : ℕ) (turn : ℕ → ReadTurn) (k now n : ℕ) : Prop :=
  ∀ j ≤ n, (turn (k + j)).ready = true ∧ (∃ r, (turn (k + j)).bytes = some (r + 1)) ∧
    readClock turn k now j + (turn (k + j)).after + 1000000 ≤ deadline

section Loop

variable {deadline timeoutSec : ℕ} {turn : ℕ → ReadTurn}

/-- A turn in which the pipe gets ready in time. -/
lemma ReadsOn.readTurn {k now n : ℕ} (h : ReadsOn deadline turn k now n)
    (hsec : timeoutSec * 1000 + 1 < 2 ^ 31) (hfar : deadline ≤ now + timeoutSec * 1000000000) :
    ∃ r, readTurn (clockGettime deadline) now (turn k) =
      (some (r + 1), now + (turn k).after + (turn k).lag) := by
  obtain ⟨hready, ⟨r, hr⟩, hclock⟩ := h 0 (Nat.zero_le n)
  have hbounds := (elapsedMs_bounds now deadline).1
  change now + (turn k).after + 1000000 ≤ deadline at hclock
  have hpos : 0 < elapsedMs (clockGettime now) (clockGettime deadline) := by omega
  refine ⟨r, ?_⟩
  rw [Report.readTurn, if_neg (by omega), bmod_remaining hsec hfar hpos, poll,
    if_pos (.inr (by omega))]
  simp only [Nat.add_zero] at hready hr
  simp [hready, hr]

lemma ReadsOn.succ {k now n n' : ℕ} (h : ReadsOn deadline turn k now n) (hn : n' < n) :
    ReadsOn deadline turn (k + 1) (now + (turn k).after + (turn k).lag) n' := by
  intro j hj
  have hnext := h (j + 1) (by omega)
  rwa [← Nat.add_assoc, Nat.add_right_comm] at hnext

/-- What is left after a turn can be read in time too. -/
lemma ReadsOn.next {k now now' r : ℕ} {rest : Bytes} {len : ℕ}
    (h : ReadsOn deadline turn k now rest.length) (hsec : timeoutSec * 1000 + 1 < 2 ^ 31)
    (hfar : deadline ≤ now + timeoutSec * 1000000000)
    (hturn : Report.readTurn (clockGettime deadline) now (turn k) = (some r, now'))
    (hgot : rest.take len ≠ []) :
    ReadsOn deadline turn (k + 1) now' (rest.drop (rest.take len).length).length := by
  obtain ⟨r', hr'⟩ := h.readTurn hsec hfar
  cases hturn.symm.trans hr'
  have hpos := List.length_pos_iff.mpr hgot
  refine h.succ ?_
  rw [List.length_drop]
  rw [List.length_take] at hpos ⊢
  omega

/-- The deadline is no further away after a turn. -/
lemma far_of_readTurn {k now now' : ℕ} {o : Option ℕ}
    (hfar : deadline ≤ now + timeoutSec * 1000000000)
    (hturn : Report.readTurn (clockGettime deadline) now (turn k) = (o, now')) :
    deadline ≤ now' + timeoutSec * 1000000000 := by
  have hle := le_readTurn (clockGettime deadline) now (turn k)
  rw [hturn] at hle
  omega

/-- The loop pushes a beginning of the stream into the buffer, and all of it if it is not stopped
before and has not got enough. -/
lemma readLoop_eq (turn : ℕ → ReadTurn) (hsec : timeoutSec * 1000 + 1 < 2 ^ 31) (max k now : ℕ)
    (rest buf : Bytes) (out : List Bytes) (hbuf : buf.length < recordLen)
    (hfar : deadline ≤ now + timeoutSec * 1000000000) :
    ∃ m, (readLoop max (clockGettime deadline) turn k now rest buf out).1 =
        ((rest.take m).foldl (push recordLen keep) ⟨out, buf⟩).state ∧
      (ReadsOn deadline turn k now rest.length →
        max ≤ (readLoop max (clockGettime deadline) turn k now rest buf out).1.length ∨
          rest.length ≤ m) := by
  fun_induction readLoop max (clockGettime deadline) turn k now rest buf out with
  | case1 k now rest buf out hlt now' hturn =>
    refine ⟨0, rfl, fun hon => ?_⟩
    obtain ⟨r, hr⟩ := hon.readTurn hsec hfar
    cases hturn.symm.trans hr
  | case2 k now rest buf out hlt r now' hturn got hgot =>
    refine ⟨0, rfl, fun hon => .inr ?_⟩
    obtain ⟨r', hr'⟩ := hon.readTurn hsec hfar
    cases hturn.symm.trans hr'
    rcases List.take_eq_nil_iff.mp hgot with hzero | hnil
    · omega
    · rw [hnil]
      exact Nat.le_refl 0
  | case3 k now rest buf out hlt r now' hturn got hgot hfull ih =>
    obtain ⟨m, heq, hall⟩ := ih (by decide) (far_of_readTurn hfar hturn)
    refine ⟨got.length + m, ?_, fun hon => ?_⟩
    · rw [foldl_push_got rfl hgot hbuf, settle, if_pos hfull]
      exact heq
    · exact (hall (hon.next hsec hfar hturn hgot)).imp_right fun hle => by
        rw [List.length_drop] at hle
        omega
  | case4 k now rest buf out hlt r now' hturn got hgot hfull ih =>
    have hle : (buf ++ got).length ≤ recordLen := by
      have hgot' : got.length ≤ recordLen - buf.length :=
        (List.length_take_le _ _).trans (Nat.min_le_right _ _)
      rw [List.length_append]
      omega
    obtain ⟨m, heq, hall⟩ := ih (Nat.lt_of_le_of_ne hle hfull) (far_of_readTurn hfar hturn)
    refine ⟨got.length + m, ?_, fun hon => ?_⟩
    · rw [foldl_push_got rfl hgot hbuf, settle, if_neg hfull]
      exact heq
    · exact (hall (hon.next hsec hfar hturn hgot)).imp_right fun hle => by
        rw [List.length_drop] at hle
        omega
  | case5 k now rest buf out hlt => exact ⟨0, rfl, fun _ => .inl (Nat.le_of_not_lt hlt)⟩

end Loop

lemma length_readLoop_le (max : ℕ) (deadline : Timespec) (turn : ℕ → ReadTurn) (k now : ℕ)
    (rest buf : Bytes) (out : List Bytes) (hout : out.length ≤ max) :
    (readLoop max deadline turn k now rest buf out).1.length ≤ max := by
  fun_induction readLoop max deadline turn k now rest buf out with
  | case1 => exact hout
  | case2 => exact hout
  | case3 k now rest buf out hlt r now' hturn got hgot hfull ih => exact ih (by simp; omega)
  | case4 k now rest buf out hlt r now' hturn got hgot hfull ih => exact ih hout
  | case5 => exact hout

lemma filterMap_ofBytes (l : List AcResolvedAddr) :
    (l.map AcResolvedAddr.bytes).filterMap AcResolvedAddr.ofBytes = l := by
  induction l with
  | nil => rfl
  | cons a l ih => rw [List.map_cons, List.filterMap_cons_some a.ofBytes_bytes, ih]

/-- The whole records that some bytes begin with. -/
def wholeRecords (l : Bytes) : List AcResolvedAddr :=
  if recordLen ≤ l.length then
    (AcResolvedAddr.ofBytes (l.take recordLen)).toList ++ wholeRecords (l.drop recordLen)
  else []
termination_by l.length
decreasing_by
  have : 0 < recordLen := by decide
  rw [List.length_drop]
  omega

lemma wholeRecords_take (recs : List AcResolvedAddr) (n : ℕ) :
    wholeRecords ((recs.flatMap AcResolvedAddr.bytes).take n) = recs.take (n / recordLen) := by
  induction recs generalizing n with
  | nil =>
    rw [wholeRecords]
    simp [recordLen]
  | cons a recs ih =>
    have hlen := a.length_bytes
    rw [wholeRecords, List.flatMap_cons]
    rcases Nat.lt_or_ge n recordLen with hlt | hge
    · rw [if_neg (by rw [List.length_take]; omega), Nat.div_eq_of_lt hlt, List.take_zero]
    · have hfirst : ((a.bytes ++ recs.flatMap AcResolvedAddr.bytes).take n).take recordLen =
          a.bytes := by
        rw [List.take_take, Nat.min_eq_left hge, List.take_append_of_le_length hlen.ge,
          List.take_of_length_le hlen.le]
      have hrest : ((a.bytes ++ recs.flatMap AcResolvedAddr.bytes).take n).drop recordLen =
          (recs.flatMap AcResolvedAddr.bytes).take (n - recordLen) := by
        rw [List.drop_take, ← hlen, List.drop_left]
      have hdiv : n / recordLen = (n - recordLen) / recordLen + 1 := by
        rw [Nat.div_eq_sub_div (by decide) hge]
      rw [if_pos (by simp [hlen]; omega), hfirst, hrest, a.ofBytes_bytes, ih, hdiv,
        List.take_succ_cons]
      rfl

/-- The child gets written what it writes and the parent can read all of it before its deadline. -/
def ResolveEnv.InTime (timeoutSec : ℕ) (env : ResolveEnv) : Prop :=
  ReadsOn (env.begun + timeoutSec * 1000000000) env.turn 0 env.begun env.output.length

/-- The addresses that a resolve returns are the records it has read. -/
lemma addrs_of_resolve {max timeoutSec : ℕ} {env : ResolveEnv} {s : Resolver} {e : Resolved}
    {addrs : List AcResolvedAddr} (h : acResolveTimeout max timeoutSec env s = some e)
    (haddrs : e.addrs = some addrs) :
    addrs = (env.read max timeoutSec).1.filterMap AcResolvedAddr.ofBytes := by
  obtain ⟨slots, c, hswept⟩ : ∃ slots c,
    reapStaleResolvers env.sweep 0 s.slots s.children = (slots, c) := ⟨_, _, rfl⟩
  rcases acResolveTimeout_cases max timeoutSec env s hswept with
    ⟨-, heq⟩ | ⟨-, heq⟩ | ⟨pid, -, -, heq⟩
  · cases heq.symm.trans h
    cases haddrs
  · cases heq.symm.trans h
    cases haddrs
  · obtain ⟨w, -, rfl⟩ := Option.map_eq_some_iff.mp (heq.symm.trans h)
    exact (Option.some.inj haddrs).symm

lemma length_of_mem_bytes (recs : List AcResolvedAddr) :
    ∀ b ∈ recs.map AcResolvedAddr.bytes, b.length = recordLen := by
  simp [AcResolvedAddr.length_bytes]

lemma length_childOutput (res : List AddrInfo) :
    (childOutput res).length = (res.filterMap AddrInfo.record).length * recordLen := by
  rw [childOutput, List.flatMap_def, List.length_flatten,
    List.map_eq_replicate_iff.mpr (length_of_mem_bytes _)]
  simp

/-- The records in a beginning of what the child gets written. -/
lemma records_of_output (env : ResolveEnv) (m : ℕ) :
    ((env.output.take m).foldl (push recordLen keep) ⟨[], []⟩).state =
      ((env.res.filterMap AddrInfo.record).take (min m env.written / recordLen)).map
        AcResolvedAddr.bytes := by
  rw [ResolveEnv.output, childOutput, List.flatMap_def, List.take_take,
    state_foldl_push_take (by decide) [] (length_of_mem_bytes _), foldl_keep, List.nil_append,
    List.map_take]

/-- The whole output has the records of a beginning that is not shorter. -/
lemma records_of_output_length_le {env : ResolveEnv} {m : ℕ} (hm : env.output.length ≤ m) :
    (env.res.filterMap AddrInfo.record).take (min m env.written / recordLen) =
      (env.res.filterMap AddrInfo.record).take (env.written / recordLen) := by
  have hleft := records_of_output env m
  have hright := records_of_output env env.written
  rw [List.take_of_length_le hm] at hleft
  have hshort : env.output.length ≤ env.written := List.length_take_le _ _
  rw [List.take_of_length_le hshort, Nat.min_self] at hright
  have heq := congrArg (List.filterMap AcResolvedAddr.ofBytes) (hleft.symm.trans hright)
  rwa [filterMap_ofBytes, filterMap_ofBytes] at heq

/-- Whatever the child gets written before it ends, and however the pipe cuts it into reads: the
addresses are the first whole records of it, at most `max`. If the parent can read all of it in
time they are all of them up to `max`; and if the child got all of its output written, these are
the results of `getaddrinfo` that fit into a record, in its order. -/
theorem acResolveTimeout_addrs {max timeoutSec : ℕ} {env : ResolveEnv} {s : Resolver} {e : Resolved}
    {addrs : List AcResolvedAddr} (hsec : timeoutSec * 1000 + 1 < 2 ^ 31)
    (h : acResolveTimeout max timeoutSec env s = some e) (haddrs : e.addrs = some addrs) :
    addrs <+: wholeRecords env.output ∧ addrs.length ≤ max ∧
      (env.InTime timeoutSec → addrs = (wholeRecords env.output).take max) ∧
      ((childOutput env.res).length ≤ env.written →
        wholeRecords env.output = env.res.filterMap AddrInfo.record) := by
  obtain rfl := addrs_of_resolve h haddrs
  have hwhole : wholeRecords env.output =
      (env.res.filterMap AddrInfo.record).take (env.written / recordLen) :=
    wholeRecords_take _ env.written
  obtain ⟨m, hread, hall⟩ := readLoop_eq env.turn hsec max 0 env.begun env.output [] [] (by decide)
    (Nat.le_refl _)
  have hmax := length_readLoop_le max (env.deadline timeoutSec) env.turn 0 env.begun env.output
    [] [] (Nat.zero_le _)
  rw [← env.deadline_eq] at hread hall
  change (env.read max timeoutSec).1 = _ at hread
  change (env.read max timeoutSec).1.length ≤ _ at hmax
  change _ → max ≤ (env.read max timeoutSec).1.length ∨ _ at hall
  rw [records_of_output] at hread
  rw [hread, List.length_map] at hmax hall
  rw [hread, filterMap_ofBytes, hwhole]
  have hpre := List.take_prefix_take_left (l := env.res.filterMap AddrInfo.record)
    (Nat.div_le_div_right (c := recordLen) (Nat.min_le_right m env.written))
  refine ⟨hpre, hmax, fun hin => ?_, fun hwritten => ?_⟩
  · rcases hall hin with hfull | hdone
    · -- it has got as many as it wants
      rw [List.prefix_iff_eq_take.mp hpre, Nat.le_antisymm hmax hfull]
    · -- it has read all of the output
      rw [records_of_output_length_le hdone] at hmax ⊢
      rw [List.take_of_length_le hmax]
  · rw [List.take_of_length_le]
    rw [length_childOutput] at hwritten
    exact (Nat.le_div_iff_mul_le (by decide)).mpr hwritten

/-- Two results of which the second does not fit into a record, written in full and read byte by
byte. -/
def twoResults : ResolveEnv :=
  { stuckEnv 70 with
    res := [⟨2, 1, 6, [2, 0, 31, 144, 127, 0, 0, 1]⟩, ⟨1, 1, 0, List.replicate 129 0⟩]
    written := 1000
    turn := fun _ => ⟨0, true, some 1, 0⟩ }

lemma inTime_twoResults : twoResults.InTime 3 := by
  have hclock : ∀ k j, readClock twoResults.turn k 0 j = 0 := by
    intro k j
    induction j generalizing k with
    | zero => rfl
    | succ j ih => exact ih (k + 1)
  intro j _
  refine ⟨rfl, ⟨0, rfl⟩, ?_⟩
  rw [show twoResults.begun = 0 from rfl, hclock]
  exact (by decide : 0 + 0 + 1000000 ≤ 0 + 3 * 1000000000)

theorem acResolveTimeout_addrs_two :
    ∃ e addrs, acResolveTimeout 8 3 twoResults .init = some e ∧ e.addrs = some addrs ∧
      addrs.map AcResolvedAddr.family = [2] := by
  have hrun : (acResolveTimeout 8 3 twoResults .init).any (·.addrs.isSome) = true := by
    decide +kernel
  obtain ⟨e, he, hsome⟩ := (Option.any_eq_true _ _).mp hrun
  obtain ⟨addrs, haddrs⟩ := Option.isSome_iff_exists.mp hsome
  obtain ⟨-, -, hall, hfull⟩ := acResolveTimeout_addrs (by decide) he haddrs
  refine ⟨e, addrs, he, haddrs, ?_⟩
  rw [hall inTime_twoResults, hfull (by decide +kernel)]
  decide +kernel

end Records

end Anticheat.Report
