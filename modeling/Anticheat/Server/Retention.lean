import Anticheat.Server.Store

/-!
# What the report store keeps

The two trims of `add_report` run on every insert, on what the earlier trims left. The table is
nevertheless the one that the whole history of inserts gives when it is trimmed once.
-/

namespace Anticheat.Server.Store

open Retention

/-! ### The trims -/

lemma trimGlobal_eq {rows : List Report} (hrows : rows.Pairwise (·.id < ·.id)) (cap : ℕ) :
    trimGlobal cap rows = rows.rtake cap := by
  rw [← filter_overCap hrows, trimGlobal]
  cases overCap Report.id cap rows <;> simp

/-- The trim of one client keeps the newest rows of that client and every row of the others. -/
lemma trimClient_eq {rows : List Report} (hrows : rows.Pairwise (·.id < ·.id))
    (clientId : Json.Text) (cap : ℕ)
    (hothers : ∀ k ≠ clientId, rows.countP (·.clientId = k) ≤ cap) :
    trimClient clientId cap rows = newestPer Report.clientId cap rows := by
  have hmine : (rows.filter (·.clientId = clientId)).Pairwise (·.id < ·.id) := hrows.filter _
  have hcut : trimClient clientId cap rows = rows.filter (fun r => r.clientId = clientId →
      ∀ b ∈ overCap Report.id cap (rows.filter (·.clientId = clientId)), b < r.id) := by
    rw [trimClient]
    cases overCap Report.id cap (rows.filter (·.clientId = clientId)) <;> simp
  rw [hcut, newestPer_eq_filter hrows]
  refine List.filter_congr fun r hr => ?_
  by_cases hc : r.clientId = clientId
  · subst hc
    have hiff := lt_overCap_iff (g := cap) hmine (List.mem_filter.mpr ⟨hr, by simp⟩)
    rw [List.countP_filter] at hiff
    refine decide_eq_decide.mpr ?_
    rw [forall_prop_of_true rfl, hiff]
    simp only [Bool.decide_and, Bool.and_comm]
  · have hlt := countP_rank_lt Report.clientId Report.id hr rfl
    have hle := hothers _ hc
    simp only [hc, false_imp_iff, decide_true]
    exact (decide_eq_true (by omega)).symm

/-! ### One insert -/

variable {st st' : Store} {c : AddReport} {t : ℤ}

lemma maybeVacuum_reports (st : Store) (freelist : Option ℕ) (trimmed : ℕ) :
    (st.maybeVacuum freelist trimmed).1.reports = st.reports := by
  unfold maybeVacuum
  split_ifs <;> rfl

lemma maybeVacuum_seq (st : Store) (freelist : Option ℕ) (trimmed : ℕ) :
    (st.maybeVacuum freelist trimmed).1.seq = st.seq := by
  unfold maybeVacuum
  split_ifs <;> rfl

lemma maybeVacuum_caps (st : Store) (freelist : Option ℕ) (trimmed : ℕ) :
    (st.maybeVacuum freelist trimmed).1.maxReportsPerClient = st.maxReportsPerClient ∧
      (st.maybeVacuum freelist trimmed).1.maxTotalReports = st.maxTotalReports := by
  unfold maybeVacuum
  split_ifs <;> exact ⟨rfl, rfl⟩

/-- What a call that returns has done to the table. -/
structure Inserts (st st' : Store) (c : AddReport) : Prop where
  reports : st'.reports = st.trim c.clientId (st.reports ++ [st.newRow c])
  seq : st'.seq = st.seq + 1
  maxReportsPerClient : st'.maxReportsPerClient = st.maxReportsPerClient
  maxTotalReports : st'.maxTotalReports = st.maxTotalReports

lemma Inserts.of_addReport (h : st.addReport c = .ok (st', t)) : Inserts st st' c := by
  simp only [addReport, bind, Except.bind, throw, throwThe, MonadExceptOf.throw, pure,
    Except.pure] at h
  split at h
  · cases h
  split_ifs at h
  cases h
  exact ⟨maybeVacuum_reports _ _ _, maybeVacuum_seq _ _ _, (maybeVacuum_caps _ _ _).1,
    (maybeVacuum_caps _ _ _).2⟩

/-! ### Runs of inserts -/

/-- The table is the trimmed history `hist`, whose ids grow up to the last one given out. -/
structure Retains (st : Store) (hist : List Report) : Prop where
  reports : st.reports = kept Report.clientId st.maxReportsPerClient st.maxTotalReports hist
  increasing : hist.Pairwise (·.id < ·.id)
  le_seq : ∀ r ∈ hist, r.id ≤ st.seq

namespace Retains

variable {hist : List Report}

lemma increasing_concat (h : Retains st hist) (c : AddReport) :
    (hist ++ [st.newRow c]).Pairwise (·.id < ·.id) := by
  refine List.pairwise_append.mpr ⟨h.increasing, List.pairwise_singleton _ _, ?_⟩
  intro r hr q hq
  rw [List.mem_singleton.mp hq]
  exact Nat.lt_succ_of_le (h.le_seq r hr)

lemma kept_sublist (h : Retains st hist) : st.reports.Sublist hist := by
  rw [h.reports]
  exact (List.drop_sublist _ _).trans (newestPer_sublist _)

/-- Every client is within its cap before an insert, so its trim has only the client of the new row
to look at. -/
lemma countP_le (h : Retains st hist) (k : Json.Text) :
    st.reports.countP (·.clientId = k) ≤ st.maxReportsPerClient := by
  rw [h.reports]
  calc (kept Report.clientId st.maxReportsPerClient st.maxTotalReports hist).countP (·.clientId = k)
      ≤ (newestPer Report.clientId st.maxReportsPerClient hist).countP (·.clientId = k) :=
        (List.drop_sublist _ _).countP_le
    _ ≤ st.maxReportsPerClient := by
        rw [countP_newestPer]
        exact min_le_right _ _

lemma insert (h : Retains st hist) (hC : 0 < st.maxReportsPerClient)
    (hG : 0 < st.maxTotalReports) (hins : Inserts st st' c) :
    Retains st' (hist ++ [st.newRow c]) := by
  have hsub : (st.reports ++ [st.newRow c]).Sublist (hist ++ [st.newRow c]) :=
    h.kept_sublist.append_right _
  have hrows := (h.increasing_concat c).sublist hsub
  have hothers : ∀ k ≠ c.clientId,
      (st.reports ++ [st.newRow c]).countP (·.clientId = k) ≤ st.maxReportsPerClient := by
    intro k hk
    rw [List.countP_append, List.countP_singleton, if_neg (by simp [newRow, hk.symm])]
    exact h.countP_le k
  have htrim : st.trim c.clientId (st.reports ++ [st.newRow c]) =
      kept Report.clientId st.maxReportsPerClient st.maxTotalReports
        (st.reports ++ [st.newRow c]) := by
    rw [trim, if_neg hC.ne', if_neg hG.ne', trimClient_eq hrows _ _ hothers,
      trimGlobal_eq (hrows.sublist (newestPer_sublist _)), kept]
  refine ⟨?_, h.increasing_concat c, ?_⟩
  · rw [hins.reports, htrim, hins.maxReportsPerClient, hins.maxTotalReports, h.reports,
      kept_kept_append]
  · intro r hr
    rw [hins.seq]
    rcases List.mem_append.mp hr with hr | hr
    · exact Nat.le_succ_of_le (h.le_seq r hr)
    · rw [List.mem_singleton.mp hr]
      exact le_rfl

lemma addReports (h : Retains st hist) (hC : 0 < st.maxReportsPerClient)
    (hG : 0 < st.maxTotalReports) (cs : List AddReport) :
    Retains (st.addReports cs) (hist ++ st.inserted cs) := by
  induction cs generalizing st hist with
  | nil => simpa [Store.addReports, inserted] using h
  | cons c cs ih =>
    rw [Store.addReports, inserted]
    cases hc : st.addReport c with
    | error e => exact ih h hC hG
    | ok p =>
      have hins : Inserts st p.1 c := Inserts.of_addReport hc
      have hnext := ih (h.insert hC hG hins) (hins.maxReportsPerClient ▸ hC)
        (hins.maxTotalReports ▸ hG)
      rwa [List.append_assoc, List.singleton_append] at hnext

end Retains

lemma retains_new (C G v : ℕ) : Retains (new C G v) [] :=
  ⟨by simp [new, kept, newestPer], .nil, nofun⟩

lemma addReports_caps (st : Store) (cs : List AddReport) :
    (st.addReports cs).maxReportsPerClient = st.maxReportsPerClient ∧
      (st.addReports cs).maxTotalReports = st.maxTotalReports := by
  induction cs generalizing st with
  | nil => exact ⟨rfl, rfl⟩
  | cons c cs ih =>
    rw [addReports]
    cases hc : st.addReport c with
    | error e => exact ih st
    | ok p =>
      have hins : Inserts st p.1 c := Inserts.of_addReport hc
      rw [← hins.maxReportsPerClient, ← hins.maxTotalReports]
      exact ih p.1

/-- After every sequence of calls on a new store, the table holds the newest `G` of those rows of
the whole history that are among the newest `C` of their client, and the row of a call that
returns next is in the table it leaves. -/
theorem reports_addReports (C G v : ℕ) (hC : 0 < C) (hG : 0 < G) (calls : List AddReport) :
    let st := (new C G v).addReports calls
    let hist := (new C G v).inserted calls
    st.reports = (hist.filter fun r =>
        hist.countP (fun q => q.clientId = r.clientId ∧ r.id < q.id) < C).rtake G ∧
      ∀ c st' t, st.addReport c = .ok (st', t) → st.newRow c ∈ st'.reports := by
  intro st hist
  have h : Retains st hist := (retains_new C G v).addReports hC hG calls
  have hcaps : st.maxReportsPerClient = C ∧ st.maxTotalReports = G := addReports_caps _ _
  refine ⟨?_, fun c st' t hok => ?_⟩
  · rw [h.reports, kept, newestPer_eq_filter h.increasing, hcaps.1, hcaps.2]
  · have hins := Inserts.of_addReport hok
    rw [← hcaps.1] at hC
    rw [← hcaps.2] at hG
    rw [(h.insert hC hG hins).reports, hins.maxReportsPerClient, hins.maxTotalReports]
    exact mem_kept_concat hC hG _ _

/-- Reports of the clients "a", "b", "a" and "c". -/
def interleavedCalls : List AddReport :=
  [[97], [98], [97], [99]].map fun clientId => ⟨clientId, [], [], none, [], 0, none⟩

/-- With one report per client and two in all, the second report of "a" replaces the first, and the
one of "c" evicts that of "b". -/
theorem reports_addReports_interleaved :
    ((new 1 2 0).addReports interleavedCalls).reports.map Report.id = [3, 4] ∧
      ((new 1 2 0).addReports interleavedCalls).reports =
        (((new 1 2 0).inserted interleavedCalls).filter fun r =>
          ((new 1 2 0).inserted interleavedCalls).countP
            (fun q => q.clientId = r.clientId ∧ r.id < q.id) < 1).rtake 2 :=
  ⟨by decide +kernel,
    (reports_addReports 1 2 0 Nat.one_pos Nat.two_pos interleavedCalls).1⟩

end Anticheat.Server.Store
