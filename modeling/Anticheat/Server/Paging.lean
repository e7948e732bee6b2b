import Anticheat.Lib.Paging
import Anticheat.Server.Retention
import Anticheat.Server.Storable

/-!
# Reviewing the reports of a client

`GET /reports/<client>` is read page by page, each page with a request of its own, while reports
keep coming in and both trims of `add_report` keep deleting old ones. The other requests write
nothing to the table of reports.
-/

namespace Anticheat.Server

open Json (Text)
open Paging

namespace Store

variable {st st' : Store} {clientId : Text}

/-- The rows of a client, newest first. -/
def rowsOf (st : Store) (clientId : Text) : List Report :=
  (st.reports.filter (·.clientId = clientId)).reverse

/-- Rows are in the order of their ids, and no id has been given out twice. -/
structure Ordered (st : Store) : Prop where
  increasing : st.reports.Pairwise (·.id < ·.id)
  le_seq : ∀ r ∈ st.reports, r.id ≤ st.seq

lemma ordered_new (C G v : ℕ) : (new C G v).Ordered := ⟨List.Pairwise.nil, by simp [new]⟩

lemma Ordered.increasing_concat (h : st.Ordered) (c : AddReport) :
    (st.reports ++ [st.newRow c]).Pairwise (·.id < ·.id) := by
  refine List.pairwise_append.mpr ⟨h.increasing, List.pairwise_singleton _ _, ?_⟩
  intro r hr q hq
  rw [List.mem_singleton.mp hq]
  exact Nat.lt_succ_of_le (h.le_seq r hr)

/-! ### What an insert does to the rows of a client -/

/-- Deleting the rows up to an id deletes the oldest ones. -/
lemma filter_lt_suffix {rows : List Report} (hrows : rows.Pairwise (·.id < ·.id)) (b : ℕ) :
    rows.filter (fun r => b < r.id) <:+ rows := by
  induction rows with
  | nil => exact List.suffix_rfl
  | cons r rows ih =>
    obtain ⟨hr, hrest⟩ := List.pairwise_cons.mp hrows
    by_cases hb : b < r.id
    · have hall : (r :: rows).filter (fun r => b < r.id) = r :: rows :=
        List.filter_eq_self.mpr fun q hq => by
          rcases List.mem_cons.mp hq with rfl | hq
          · simpa using hb
          · simpa using hb.trans (hr q hq)
      rw [hall]
    · rw [List.filter_cons_of_neg (by simpa using hb)]
      exact (ih hrest).trans (List.suffix_cons r rows)

lemma trimGlobal_suffix {rows : List Report} (hrows : rows.Pairwise (·.id < ·.id)) (cap : ℕ) :
    (trimGlobal cap rows).filter (·.clientId = clientId) <:+
      rows.filter (·.clientId = clientId) := by
  rw [trimGlobal]
  cases Retention.overCap Report.id cap rows with
  | none => exact List.suffix_rfl
  | some b =>
    simp only [not_le]
    rw [List.filter_filter]
    have hcomm : rows.filter (fun r => decide (r.clientId = clientId) && decide (b < r.id)) =
        (rows.filter (·.clientId = clientId)).filter (fun r => b < r.id) := by
      rw [List.filter_filter]
      exact List.filter_congr fun r _ => Bool.and_comm _ _
    rw [hcomm]
    exact filter_lt_suffix (hrows.filter _) b

lemma trimClient_suffix {rows : List Report} (hrows : rows.Pairwise (·.id < ·.id)) (k : Text)
    (cap : ℕ) : (trimClient k cap rows).filter (·.clientId = clientId) <:+
      rows.filter (·.clientId = clientId) := by
  rw [trimClient]
  cases Retention.overCap Report.id cap (rows.filter (·.clientId = k)) with
  | none => exact List.suffix_rfl
  | some b =>
    simp only
    rw [List.filter_filter]
    by_cases hk : clientId = k
    · subst hk
      have hcut : rows.filter (fun r => decide (r.clientId = clientId) &&
            decide (¬ (r.clientId = clientId ∧ r.id ≤ b))) =
          (rows.filter (·.clientId = clientId)).filter (fun r => b < r.id) := by
        rw [List.filter_filter]
        refine List.filter_congr fun r _ => ?_
        by_cases hr : r.clientId = clientId <;> simp [hr]
      rw [hcut]
      exact filter_lt_suffix (hrows.filter _) b
    · have hsame : rows.filter (fun r => decide (r.clientId = clientId) &&
            decide (¬ (r.clientId = k ∧ r.id ≤ b))) = rows.filter (·.clientId = clientId) := by
        refine List.filter_congr fun r _ => ?_
        by_cases hr : r.clientId = clientId
        · simp [hr, hk]
        · simp [hr]
      rw [hsame]

lemma trim_sublist (st : Store) (k : Text) (rows : List Report) :
    (st.trim k rows).Sublist rows := by
  have hclient : ∀ rows, (trimClient k st.maxReportsPerClient rows).Sublist rows := by
    intro rows
    rw [trimClient]
    split
    · exact List.Sublist.refl _
    · exact List.filter_sublist
  have hglobal : ∀ rows, (trimGlobal st.maxTotalReports rows).Sublist rows := by
    intro rows
    rw [trimGlobal]
    split
    · exact List.Sublist.refl _
    · exact List.filter_sublist
  rw [trim]
  split_ifs
  · exact List.Sublist.refl _
  · exact hclient _
  · exact hglobal _
  · exact (hglobal _).trans (hclient _)

/-- Whichever of the trims are on, a client loses its oldest rows. -/
lemma trim_suffix (st : Store) (clientId k : Text) {rows : List Report}
    (hrows : rows.Pairwise (·.id < ·.id)) :
    (st.trim k rows).filter (·.clientId = clientId) <:+ rows.filter (·.clientId = clientId) := by
  rw [trim]
  split_ifs
  · exact List.suffix_rfl
  · exact trimClient_suffix hrows _ _
  · exact trimGlobal_suffix hrows _
  · refine (trimGlobal_suffix ?_ _).trans (trimClient_suffix hrows _ _)
    rw [trimClient]
    split
    · exact hrows
    · exact hrows.filter _

/-- From `st` to `st'`, each client got rows with ids of their own and lost its oldest rows. -/
structure Grows (st st' : Store) : Prop where
  seq_le : st.seq ≤ st'.seq
  rows : ∀ clientId, ∃ new : List Report, new.Pairwise (·.id > ·.id) ∧
    (∀ r ∈ new, st.seq < r.id ∧ r.id ≤ st'.seq) ∧
    st'.rowsOf clientId <+: new ++ st.rowsOf clientId

lemma Grows.refl (st : Store) : Grows st st :=
  ⟨le_rfl, fun _ => ⟨[], List.Pairwise.nil, by simp, List.prefix_rfl⟩⟩

lemma Grows.trans {st₁ st₂ st₃ : Store} (h : Grows st₁ st₂) (h' : Grows st₂ st₃) :
    Grows st₁ st₃ := by
  refine ⟨h.seq_le.trans h'.seq_le, fun clientId => ?_⟩
  obtain ⟨new, hnew, hids, hp⟩ := h.rows clientId
  obtain ⟨new', hnew', hids', hp'⟩ := h'.rows clientId
  refine ⟨new' ++ new, List.pairwise_append.mpr ⟨hnew', hnew, ?_⟩, ?_, ?_⟩
  · intro r hr q hq
    exact ((hids q hq).2).trans_lt (hids' r hr).1
  · intro r hr
    rcases List.mem_append.mp hr with hr | hr
    · exact ⟨h.seq_le.trans_lt (hids' r hr).1, (hids' r hr).2⟩
    · exact ⟨(hids r hr).1, (hids r hr).2.trans h'.seq_le⟩
  · rw [List.append_assoc]
    exact hp'.trans ((List.prefix_append_right_inj new').mpr hp)

section Insert

variable {c : AddReport}

lemma Ordered.insert (h : st.Ordered) (hins : Inserts st st' c) : st'.Ordered := by
  refine ⟨?_, fun r hr => ?_⟩
  · rw [hins.reports]
    exact (h.increasing_concat c).sublist (st.trim_sublist _ _)
  · rw [hins.reports] at hr
    rw [hins.seq]
    rcases List.mem_append.mp ((st.trim_sublist _ _).subset hr) with hr | hr
    · exact Nat.le_succ_of_le (h.le_seq r hr)
    · rw [List.mem_singleton.mp hr]
      exact le_rfl

lemma Ordered.grows_insert (h : st.Ordered) (hins : Inserts st st' c) : Grows st st' := by
  refine ⟨hins.seq ▸ Nat.le_succ _, fun clientId => ?_⟩
  refine ⟨[st.newRow c].filter (·.clientId = clientId), (List.pairwise_singleton _ _).filter _,
    fun r hr => ?_, ?_⟩
  · rw [List.mem_singleton.mp (List.mem_of_mem_filter hr), hins.seq]
    exact ⟨Nat.lt_succ_self _, le_rfl⟩
  · have hsuffix := st.trim_suffix clientId c.clientId (h.increasing_concat c)
    rw [← hins.reports, List.filter_append] at hsuffix
    have hrev := List.reverse_prefix.mpr hsuffix
    rwa [List.reverse_append, ← List.filter_reverse (l := [_]), List.reverse_singleton] at hrev

end Insert

lemma Ordered.addReports (h : st.Ordered) (cs : List AddReport) :
    (st.addReports cs).Ordered ∧ Grows st (st.addReports cs) := by
  induction cs generalizing st with
  | nil => exact ⟨h, Grows.refl st⟩
  | cons c cs ih =>
    rw [Store.addReports]
    cases hc : st.addReport c with
    | error e => exact ih h
    | ok p =>
      have hins : Inserts st p.1 c := Inserts.of_addReport hc
      obtain ⟨hord, hgrows⟩ := ih (h.insert hins)
      exact ⟨hord, (h.grows_insert hins).trans hgrows⟩

lemma Ordered.rowsOf_decreasing (h : st.Ordered) (clientId : Text) :
    (st.rowsOf clientId).Pairwise (·.id > ·.id) :=
  List.pairwise_reverse.mpr (h.increasing.filter _)

lemma Ordered.id_le_seq (h : st.Ordered) {r : Report} (hr : r ∈ st.rowsOf clientId) :
    r.id ≤ st.seq :=
  h.le_seq r (List.mem_of_mem_filter (List.mem_reverse.mp hr))

lemma Ordered.drifts (h : st.Ordered) (hgrows : Grows st st') (clientId : Text) :
    Drifts (st.rowsOf clientId) (st'.rowsOf clientId) := by
  obtain ⟨new, hnew, hids, hp⟩ := hgrows.rows clientId
  refine ⟨new, ?_, hp⟩
  have hall : (new ++ st.rowsOf clientId).Pairwise (·.id > ·.id) := by
    refine List.pairwise_append.mpr ⟨hnew, h.rowsOf_decreasing clientId, ?_⟩
    intro r hr q hq
    exact (h.id_le_seq hq).trans_lt (hids r hr).1
  exact hall.imp fun hgt heq => absurd (heq ▸ hgt) (lt_irrefl _)

/-- Ids are not given out again, so a row that has gone does not come back. -/
lemma Grows.mem_rowsOf {r : Report} (hgrows : Grows st st') (hid : r.id ≤ st.seq)
    (hr : r ∈ st'.rowsOf clientId) : r ∈ st.rowsOf clientId := by
  obtain ⟨new, -, hids, hp⟩ := hgrows.rows clientId
  rcases List.mem_append.mp (hp.subset hr) with hr | hr
  · exact absurd (hids r hr).1 (not_lt.mpr hid)
  · exact hr

/-! ### Page after page -/

/-- The pages of `n` reports that a reviewer gets, from page `j` on; between two requests the
reports of a gap come in. -/
def walk (clientId : Text) (n : ℕ) : ℕ → Store → List (List AddReport) →
    Except SqlError (List (List Report))
  | j, st, [] => do
    let p ← st.listReports clientId n (j * n : ℕ)
    return [p]
  | j, st, gap :: gaps => do
    let p ← st.listReports clientId n (j * n : ℕ)
    let ps ← walk clientId n (j + 1) (st.addReports gap) gaps
    return p :: ps

lemma addReports_append (st : Store) (cs cs' : List AddReport) :
    st.addReports (cs ++ cs') = (st.addReports cs).addReports cs' := by
  induction cs generalizing st with
  | nil => rfl
  | cons c cs ih =>
    rw [List.cons_append, addReports, addReports]
    cases st.addReport c with
    | error e => exact ih st
    | ok p => exact ih p.1

/-- A request for page `j` gets page `j`. -/
lemma listReports_page (hid : clientIdRe clientId = true) {n j : ℕ} (hn : n ≤ 1000)
    (hfit : j * n < 2 ^ 63) :
    st.listReports clientId n (j * n : ℕ) = .ok (page n j (st.rowsOf clientId)) := by
  have hlimit : min (max (n : ℤ) 0) (maxListLimit : ℤ) = n := by
    simp only [maxListLimit]
    omega
  have hoffset : max ((j * n : ℕ) : ℤ) 0 = (j * n : ℕ) := max_eq_left (Int.natCast_nonneg _)
  have hbind : bindAll [.text clientId, .num (.int n), .num (.int (j * n : ℕ))] = .ok () := by
    refine bindAll_eq_ok.mpr ?_
    simp only [List.forall_mem_cons, bind_text, bind_int, List.not_mem_nil, false_imp_iff,
      implies_true, and_true]
    exact ⟨not_isSurrogate_of_clientIdRe hid, by omega, by omega⟩
  simp only [listReports, hlimit, hoffset, hbind, bind, Except.bind, pure, Except.pure,
    Int.toNat_natCast]
  rfl

lemma walk_eq (hid : clientIdRe clientId = true) {n : ℕ} (hn : n ≤ 1000)
    (gaps : List (List AddReport)) (j : ℕ) (st : Store) (hfit : (j + gaps.length) * n < 2 ^ 63) :
    walk clientId n j st gaps = .ok ((List.range (gaps.length + 1)).map fun i =>
      page n (j + i) ((st.addReports (gaps.take i).flatten).rowsOf clientId)) := by
  have hj : j * n < 2 ^ 63 := by
    refine lt_of_le_of_lt (Nat.mul_le_mul_right n ?_) hfit
    exact Nat.le_add_right _ _
  induction gaps generalizing j st with
  | nil =>
    rw [walk, listReports_page hid hn hj]
    rfl
  | cons gap gaps ih =>
    have hfit' : (j + 1 + gaps.length) * n < 2 ^ 63 := by
      rwa [List.length_cons, ← Nat.add_assoc, Nat.add_right_comm] at hfit
    have hj' : (j + 1) * n < 2 ^ 63 :=
      lt_of_le_of_lt (Nat.mul_le_mul_right n (Nat.le_add_right _ _)) hfit'
    rw [walk, listReports_page hid hn hj, ih (j + 1) (st.addReports gap) hfit' hj']
    rw [List.length_cons, List.range_succ_eq_map (n := gaps.length + 1), List.map_cons,
      List.map_map]
    simp only [Function.comp_def, List.take_succ_cons, List.flatten_cons, addReports_append,
      Nat.succ_eq_add_one, Nat.add_assoc, Nat.add_comm 1, bind, Except.bind, pure, Except.pure]
    rfl

section Gaps

variable (gaps : List (List AddReport))

lemma Ordered.drifts_gap (h : st.Ordered) (clientId : Text) (i : ℕ) (hi : i < gaps.length) :
    Drifts ((st.addReports (gaps.take i).flatten).rowsOf clientId)
      ((st.addReports (gaps.take (i + 1)).flatten).rowsOf clientId) := by
  have hstep : (gaps.take (i + 1)).flatten = (gaps.take i).flatten ++ gaps[i] := by
    rw [List.take_succ_eq_append_getElem hi, List.flatten_append, List.flatten_singleton]
  have hi' := (h.addReports (gaps.take i).flatten).1
  rw [hstep, addReports_append]
  exact hi'.drifts (hi'.addReports _).2 clientId

/-- A row that is there at the first request and at the last is there at each. -/
lemma Ordered.mem_gap (h : st.Ordered) {r : Report} (hr : r ∈ st.rowsOf clientId)
    (hr' : r ∈ (st.addReports gaps.flatten).rowsOf clientId) (i : ℕ) (_ : i ≤ gaps.length) :
    r ∈ (st.addReports (gaps.take i).flatten).rowsOf clientId := by
  have hrest : st.addReports gaps.flatten =
      (st.addReports (gaps.take i).flatten).addReports (gaps.drop i).flatten := by
    rw [← addReports_append, ← List.flatten_append, List.take_append_drop]
  obtain ⟨hi, hgrows⟩ := h.addReports (gaps.take i).flatten
  rw [hrest] at hr'
  exact (hi.addReports _).2.mem_rowsOf ((h.id_le_seq hr).trans hgrows.seq_le) hr'

end Gaps

/-- However many reports come in between the requests, a reviewer who reads until a page is not
full has seen every report of the client that was there from the first request to the last. -/
theorem walk_complete (C G v : ℕ) (before : List AddReport) (clientId : Text)
    (hid : clientIdRe clientId = true) (n : ℕ) (hn : n ≤ 1000) (gaps : List (List AddReport))
    (hfit : gaps.length * n < 2 ^ 63) :
    ∃ pages, walk clientId n 0 ((new C G v).addReports before) gaps = .ok pages ∧
      ∃ last, pages.getLast? = some last ∧ (last.length < n →
        ∀ r ∈ ((new C G v).addReports before).rowsOf clientId,
          r ∈ ((new C G v).addReports (before ++ gaps.flatten)).rowsOf clientId →
            ∃ p ∈ pages, r ∈ p) := by
  obtain ⟨st, hst⟩ : ∃ st, st = (new C G v).addReports before := ⟨_, rfl⟩
  have hord : st.Ordered := hst ▸ ((ordered_new C G v).addReports before).1
  rw [addReports_append, ← hst]
  refine ⟨_, walk_eq hid hn gaps 0 st (by rwa [Nat.zero_add]), ?_⟩
  refine ⟨page n gaps.length ((st.addReports gaps.flatten).rowsOf clientId), ?_, ?_⟩
  · rw [List.range_succ, List.map_append, List.map_singleton, List.getLast?_concat,
      List.take_length, Nat.zero_add]
  intro hshort r hr hr'
  obtain ⟨j, hj, hmem⟩ := exists_mem_page (hord.drifts_gap gaps clientId)
    (hord.mem_gap gaps hr hr') (by simpa only [List.take_length] using hshort)
  refine ⟨_, List.mem_map.mpr ⟨j, List.mem_range.mpr (Nat.lt_succ_of_le hj), rfl⟩, ?_⟩
  rwa [Nat.zero_add]

/-- A report of the client "a". -/
def reportOfA : AddReport := ⟨[97], [], [], none, [], 0, none⟩

/-- Three reports, read in pages of two; a fourth comes in after the first page, so that report 2 is
on the second page as well. -/
theorem walk_complete_reportOfA :
    (∃ pages, walk [97] 2 0 ((new 9 9 0).addReports [reportOfA, reportOfA, reportOfA])
        [[reportOfA], []] = .ok pages ∧ pages.map (·.map Report.id) = [[3, 2], [2, 1], []]) ∧
      ∃ pages, walk [97] 2 0 ((new 9 9 0).addReports [reportOfA, reportOfA, reportOfA])
        [[reportOfA], []] = .ok pages ∧
      ∃ last, pages.getLast? = some last ∧ (last.length < 2 →
        ∀ r ∈ ((new 9 9 0).addReports [reportOfA, reportOfA, reportOfA]).rowsOf [97],
          r ∈ ((new 9 9 0).addReports ([reportOfA, reportOfA, reportOfA] ++
            [[reportOfA], []].flatten)).rowsOf [97] → ∃ p ∈ pages, r ∈ p) :=
  ⟨⟨_, rfl, by decide +kernel⟩,
    walk_complete 9 9 0 [reportOfA, reportOfA, reportOfA] [97] (by decide) 2 (by decide)
      [[reportOfA], []] (by decide)⟩

end Store

end Anticheat.Server
