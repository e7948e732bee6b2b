import Anticheat.Lib.While
import Mathlib.Data.List.Basic
import Mathlib.Tactic.Common

/-!
# Streams read in blocks

Input that comes in chunks of any length is collected in a buffer, and every full block of `n`
items is absorbed into a state. Feeding a chunk copies as much at once as the buffer can take.
That is the same as pushing one item at a time, so the way the input is cut does not matter.
-/

namespace BlockStream

variable {σ α : Type*}

/-- What was absorbed, and the items of the block that is not full yet. -/
structure Blocks (σ α : Type*) where
  state : σ
  buf : List α
  deriving DecidableEq, Repr

variable (n : ℕ) (absorb : σ → List α → σ)

/-- Absorb the buffer if it is a full block. -/
def settle (state : σ) (buf : List α) : Blocks σ α :=
  if buf.length = n then ⟨absorb state buf, []⟩ else ⟨state, buf⟩

/-- Add one item. -/
def push (c : Blocks σ α) (x : α) : Blocks σ α := settle n absorb c.state (c.buf ++ [x])

/-- Add a chunk, in at most `fuel` copies. -/
def feed : ℕ → Blocks σ α → List α → Blocks σ α
  | 0, c, _ => c
  | fuel + 1, c, data =>
    if data = [] then c
    else
      let take := min (n - c.buf.length) data.length
      feed fuel (settle n absorb c.state (c.buf ++ data.take take)) (data.drop take)

variable {n absorb} {c : Blocks σ α}

lemma settle_of_lt {state : σ} {buf : List α} (h : buf.length < n) :
    settle n absorb state buf = ⟨state, buf⟩ := if_neg (Nat.ne_of_lt h)

/-- The buffer never holds a full block. -/
lemma length_buf_settle (hn : 0 < n) {state : σ} {buf : List α} (h : buf.length ≤ n) :
    (settle n absorb state buf).buf.length < n := by
  unfold settle
  split_ifs with hfull
  · exact hn
  · exact Nat.lt_of_le_of_ne h hfull

lemma length_buf_push (hn : 0 < n) (hc : c.buf.length < n) (x : α) :
    (push n absorb c x).buf.length < n :=
  length_buf_settle hn (by rw [List.length_append, List.length_singleton]; omega)

lemma length_buf_foldl_push (hn : 0 < n) (hc : c.buf.length < n) (data : List α) :
    (data.foldl (push n absorb) c).buf.length < n := by
  induction data generalizing c with
  | nil => exact hc
  | cons x data ih => exact ih (length_buf_push hn hc x)

/-- Items that do not overfill the buffer are copied at once. -/
lemma foldl_push_of_le {data : List α} (hne : data ≠ []) (hle : c.buf.length + data.length ≤ n) :
    data.foldl (push n absorb) c = settle n absorb c.state (c.buf ++ data) := by
  induction data generalizing c with
  | nil => exact absurd rfl hne
  | cons x data ih =>
    rw [List.length_cons] at hle
    rw [List.foldl_cons]
    rcases eq_or_ne data [] with rfl | hdata
    · rfl
    · have hpos := List.length_pos_iff.mpr hdata
      have hpush : push n absorb c x = ⟨c.state, c.buf ++ [x]⟩ := by
        refine settle_of_lt ?_
        rw [List.length_append, List.length_singleton]
        omega
      have hrest := ih (c := ⟨c.state, c.buf ++ [x]⟩) hdata (by simp; omega)
      rw [hpush, hrest, List.append_assoc, List.singleton_append]

/-- Feeding a chunk is pushing its items. -/
theorem feed_eq_foldl_push (hn : 0 < n) {fuel : ℕ} {data : List α} (hc : c.buf.length < n)
    (hfuel : data.length ≤ fuel) : feed n absorb fuel c data = data.foldl (push n absorb) c := by
  induction fuel generalizing c data with
  | zero =>
    rw [List.eq_nil_of_length_eq_zero (Nat.le_zero.mp hfuel)]
    rfl
  | succ fuel ih =>
    rw [feed]
    split_ifs with hdata
    · rw [hdata]
      rfl
    · have hpos := List.length_pos_iff.mpr hdata
      set take := min (n - c.buf.length) data.length with htake
      have hlen : (data.take take).length = take := by
        rw [List.length_take]
        omega
      have hne : data.take take ≠ [] := List.ne_nil_of_length_pos (by omega)
      have hcopy : (data.take take).foldl (push n absorb) c =
          settle n absorb c.state (c.buf ++ data.take take) := foldl_push_of_le hne (by omega)
      have hsettle : (settle n absorb c.state (c.buf ++ data.take take)).buf.length < n :=
        length_buf_settle hn (by rw [List.length_append]; omega)
      rw [ih hsettle (by rw [List.length_drop]; omega), ← hcopy, ← List.foldl_append,
        List.take_append_drop]

/-! ### What is absorbed -/

/-- The buffer is what is left over of the items so far. -/
lemma length_buf_foldl_push_eq (hc : c.buf.length < n) (data : List α) :
    (data.foldl (push n absorb) c).buf.length = (c.buf.length + data.length) % n := by
  induction data generalizing c with
  | nil => exact (Nat.mod_eq_of_lt hc).symm
  | cons x data ih =>
    have hn : 0 < n := Nat.zero_lt_of_lt hc
    have hpush : (push n absorb c x).buf.length = (c.buf.length + 1) % n := by
      unfold push settle
      split_ifs with hfull
      · rw [List.length_append, List.length_singleton] at hfull
        rw [hfull, Nat.mod_self]
        rfl
      · rw [List.length_append, List.length_singleton] at hfull ⊢
        rw [Nat.mod_eq_of_lt (by omega)]
    rw [List.foldl_cons, ih (length_buf_push hn hc x), hpush, Nat.mod_add_mod, List.length_cons,
      Nat.add_assoc, Nat.add_comm 1]

/-- Items that make up `k` blocks are absorbed block by block. -/
theorem foldl_push_blocks (hn : 0 < n) (s : σ) {k : ℕ} {data : List α}
    (hlen : data.length = n * k) :
    data.foldl (push n absorb) ⟨s, []⟩ =
      ⟨(List.range k).foldl (fun s i => absorb s ((data.drop (n * i)).take n)) s, []⟩ := by
  induction k generalizing s data with
  | zero =>
    rw [List.eq_nil_of_length_eq_zero hlen]
    rfl
  | succ k ih =>
    rw [Nat.mul_succ] at hlen
    have htake : (data.take n).length = n := by
      rw [List.length_take]
      omega
    have hfirst : (data.take n).foldl (push n absorb) ⟨s, []⟩ = ⟨absorb s (data.take n), []⟩ := by
      have hne : data.take n ≠ [] := List.ne_nil_of_length_pos (by omega)
      have hle : ([] : List α).length + (data.take n).length ≤ n :=
        Nat.le_of_eq (by rw [htake, List.length_nil, Nat.zero_add])
      rw [foldl_push_of_le hne hle, List.nil_append]
      exact if_pos htake
    have hdrop : (data.drop n).length = n * k := by
      rw [List.length_drop]
      omega
    conv_lhs => rw [← List.take_append_drop n data]
    rw [List.foldl_append, hfirst, ih _ hdrop, List.range_succ_eq_map, List.foldl_cons,
      List.foldl_map]
    simp only [List.drop_drop, Nat.mul_zero, List.drop_zero, Nat.mul_succ, Nat.add_comm n]

/-- Of a stream of blocks that is cut off anywhere, the complete ones are absorbed. -/
theorem state_foldl_push_take (hn : 0 < n) (s : σ) {blocks : List (List α)}
    (hlen : ∀ b ∈ blocks, b.length = n) (m : ℕ) :
    ((blocks.flatten.take m).foldl (push n absorb) ⟨s, []⟩).state =
      (blocks.take (m / n)).foldl absorb s := by
  induction blocks generalizing s m with
  | nil => simp
  | cons b blocks ih =>
    obtain ⟨hb, hblocks⟩ := List.forall_mem_cons.mp hlen
    have hcopy : ∀ {l : List α}, l ≠ [] → l.length ≤ n →
        l.foldl (push n absorb) ⟨s, []⟩ = settle n absorb s l := by
      intro l hne hle
      have hroom : ([] : List α).length + l.length ≤ n := by simpa using hle
      exact foldl_push_of_le (c := ⟨s, []⟩) hne hroom
    rcases Nat.lt_or_ge m n with hlt | hge
    · -- the first block is not complete
      rw [Nat.div_eq_of_lt hlt, List.take_zero, List.foldl_nil, List.flatten_cons,
        List.take_append_of_le_length (by omega)]
      rcases eq_or_ne (b.take m) [] with hnil | hne
      · rw [hnil]
        rfl
      · have hle : (b.take m).length < n := by
          rw [List.length_take]
          omega
        rw [hcopy hne (Nat.le_of_lt hle), settle_of_lt hle]
    · obtain ⟨k, rfl⟩ : ∃ k, m = n + k := ⟨m - n, by omega⟩
      have hne : b ≠ [] := List.ne_nil_of_length_pos (by omega)
      rw [List.flatten_cons, ← hb, List.take_length_add_append, hb, List.foldl_append,
        hcopy hne (Nat.le_of_eq hb), settle, if_pos hb, ih _ hblocks, Nat.add_div_left _ hn,
        List.take_succ_cons, List.foldl_cons]

/-! ### The copying loop -/

variable (n absorb) in
/-- One turn of the loop that copies a chunk: what fits into the buffer is taken off the chunk. -/
def copy (s : Blocks σ α × List α) : Blocks σ α × List α :=
  let take := min (n - s.1.buf.length) s.2.length
  (settle n absorb s.1.state (s.1.buf ++ s.2.take take), s.2.drop take)

/-- The loop ends, with all of the chunk fed. -/
theorem while_copy (hc : c.buf.length < n) {fuel : ℕ} {data : List α}
    (hfuel : data.length ≤ fuel) :
    While (fun s => 0 < s.2.length) (fun s t => t = copy n absorb s) (c, data)
      (feed n absorb fuel c data, []) := by
  induction fuel generalizing c data with
  | zero =>
    rw [List.eq_nil_of_length_eq_zero (Nat.le_zero.mp hfuel)]
    exact .stop (Nat.lt_irrefl 0)
  | succ fuel ih =>
    rw [feed]
    split_ifs with hdata
    · rw [hdata]
      exact .stop (Nat.lt_irrefl 0)
    · have hpos := List.length_pos_iff.mpr hdata
      set take := min (n - c.buf.length) data.length with htake
      have hsettle : (settle n absorb c.state (c.buf ++ data.take take)).buf.length < n :=
        length_buf_settle (by omega) (by rw [List.length_append, List.length_take]; omega)
      have hdrop : (data.drop take).length ≤ fuel := by
        rw [List.length_drop]
        omega
      exact .turn hpos rfl (ih hsettle hdrop)

end BlockStream
