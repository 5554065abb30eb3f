import EasyHaProxy.Controld.System

/-! What the history promises, and what is left of it: a version is recorded without the name of its
transaction, and before the transaction is persisted as confirmed. -/
namespace EasyHaProxy.Controld

/-- The confirmed versions that differ from the one before, newest first. -/
def distinctVersions : List (String × List (SourceName × Bytes)) → List (String × List (SourceName × Bytes))
  | [] => []
  | [e] => [e]
  | e :: e' :: rest => if e.2 = e'.2 then distinctVersions (e' :: rest) else e :: distinctVersions (e' :: rest)

structure HistoryExact (w : World) : Prop where
  named : ∀ v ∈ w.history, (v.transactionId, v.files) ∈ w.confirmed
  neighbours : (Daemon.configHistoryEntries w.history).IsChain fun v v' => v.files ≠ v'.files
  kept : ∀ e ∈ (distinctVersions w.confirmed).take configHistoryKeep,
    ∃ v ∈ w.history, v.transactionId = e.1 ∧ v.files = e.2
  returned : ∀ v ∈ w.history, Daemon.getConfigVersion w.history v.id.text = some v.files

structure Unnamed (w : World) : Prop where
  versions : ∀ v ∈ w.history, v.transactionId = ""
  confirmed : ∀ e ∈ w.confirmed, e.1 ≠ ""

variable {d : Daemon} {w s s' : World} {l : Write} {op : Op} {late : Prop} {history : List Version}
  {confirmed : List (String × List (SourceName × Bytes))}

theorem distinctVersions_ne_nil {confirmed : List (String × List (SourceName × Bytes))} (h : confirmed ≠ []) :
    distinctVersions confirmed ≠ [] := by
  induction confirmed with
  | nil => exact absurd rfl h
  | cons e rest ih =>
    cases rest with
    | nil => exact List.cons_ne_nil _ _
    | cons e' rest =>
      unfold distinctVersions
      split
      · exact ih (List.cons_ne_nil _ _)
      · exact List.cons_ne_nil _ _

theorem Guarded.unnamed (h : Guarded d late op s l s') (hs : Unnamed s) : Unnamed s' := by
  rw [h.applied]
  cases l with
  | persist t =>
    refine ⟨hs.versions, fun e he => ?_⟩
    simp only [Write.apply] at he
    split at he
    · rename_i hc
      rcases List.mem_cons.mp he with rfl | he
      · obtain ⟨id, sha, -, hne, hid, -⟩ := h.confirms t rfl hc
        exact fun hempty => hne (hid.symm.trans hempty)
      · exact hs.confirmed e he
    · exact hs.confirmed e he
  | addVersion v =>
    refine ⟨fun v' hv' => ?_, hs.confirmed⟩
    rcases List.mem_cons.mp hv' with rfl | hv'
    · exact (h.records v' rfl).2
    · exact hs.versions v' hv'
  | dropVersion id => exact ⟨fun v hv => hs.versions v (List.mem_of_mem_filter hv), hs.confirmed⟩
  | _ => exact ⟨hs.versions, hs.confirmed⟩

theorem run_unnamed {moves : List Move} (h : Inv d w) (hs : Unnamed w) : Unnamed (Machine.run (step d) w moves) := by
  induction moves generalizing w with
  | nil => exact hs
  | cons m moves ih =>
    refine ih (step_inv h) ?_
    cases m with
    | edit host releases => exact ⟨hs.versions, hs.confirmed⟩
    | run op script cut => exact (steps_guarded h).keeps hs fun _ _ _ hs hG => hG.unnamed hs

theorem historyExact_of_empty (hh : w.history = []) (hc : w.confirmed = []) : HistoryExact w := by
  refine ⟨fun v hv => ?_, ?_, fun e he => ?_, fun v hv => ?_⟩
  · simp [hh] at hv
  · simp [hh, Daemon.configHistoryEntries]
  · simp [hc, distinctVersions] at he
  · simp [hh] at hv

theorem historyExact_iff (h : Unnamed w) : HistoryExact w ↔ w.history = [] ∧ w.confirmed = [] := by
  refine ⟨fun hexact => ?_, fun ⟨hh, hc⟩ => historyExact_of_empty hh hc⟩
  have hhistory : w.history = [] := by
    refine List.eq_nil_iff_forall_not_mem.mpr fun v hv => ?_
    exact h.confirmed _ (hexact.named v hv) (h.versions v hv)
  refine ⟨hhistory, ?_⟩
  by_contra hc
  obtain ⟨e', rest, hdistinct⟩ := List.exists_cons_of_ne_nil (distinctVersions_ne_nil hc)
  have hmem : e' ∈ (distinctVersions w.confirmed).take configHistoryKeep := by
    rw [hdistinct]
    exact List.mem_cons_self
  obtain ⟨v, hv, -⟩ := hexact.kept e' hmem
  rw [hhistory] at hv
  cases hv

/-! ## Runs without a confirmation -/

def Move.confirms : Move → Bool
  | .run op _ _ => op.confirms
  | .edit .. => false

theorem Guarded.same_history (h : Guarded d late op s l s') (hop : op.confirms = false)
    (hs : s.history = history ∧ s.confirmed = confirmed) : s'.history = history ∧ s'.confirmed = confirmed := by
  rw [h.applied]
  cases l with
  | persist t =>
    have hnever : t.state ≠ .confirmed := by
      intro hc
      obtain ⟨id, sha, rfl, -⟩ := h.confirms t rfl hc
      cases hop
    exact ⟨hs.1, by simp [Write.apply, hnever, hs.2]⟩
  | addVersion v =>
    have hconfirms : op.confirms = true := (h.records v rfl).1
    rw [hop] at hconfirms
    cases hconfirms
  | dropVersion id =>
    have hconfirms : op.confirms = true := h.drops id rfl
    rw [hop] at hconfirms
    cases hconfirms
  | _ => exact hs

theorem step_same_history {script : Script} {cut : Option Nat} (h : Inv d w) (hop : op.confirms = false) :
    (step d w (.run op script cut)).history = w.history ∧ (step d w (.run op script cut)).confirmed = w.confirmed :=
  (steps_guarded h).keeps (I := fun s => s.history = w.history ∧ s.confirmed = w.confirmed) ⟨rfl, rfl⟩
    fun _ _ _ hs hG => hG.same_history hop hs

theorem run_records_nothing {moves : List Move} (h : Inv d w) (hm : ∀ m ∈ moves, m.confirms = false)
    (hs : w.history = [] ∧ w.confirmed = []) :
    (Machine.run (step d) w moves).history = [] ∧ (Machine.run (step d) w moves).confirmed = [] := by
  induction moves generalizing w with
  | nil => exact hs
  | cons m moves ih =>
    refine ih (step_inv h) (fun m' hm' => hm m' (List.mem_cons_of_mem m hm')) ?_
    cases m with
    | edit host releases => exact hs
    | run op script cut =>
      obtain ⟨hhistory, hconfirmed⟩ := step_same_history h (hm _ List.mem_cons_self)
      exact ⟨hhistory.trans hs.1, hconfirmed.trans hs.2⟩

/-- The history is exact only as long as nothing was recorded and nothing confirmed, as in
a run without confirmations. -/
theorem history_exact_iff_nothing_confirmed {moves : List Move} (hw : Fresh w) :
    (HistoryExact (Machine.run (step d) w moves) ↔
      (Machine.run (step d) w moves).history = [] ∧ (Machine.run (step d) w moves).confirmed = []) ∧
    ((∀ m ∈ moves, m.confirms = false) → HistoryExact (Machine.run (step d) w moves)) := by
  have hunnamed : Unnamed w := ⟨by simp [hw.history], by simp [hw.confirmed]⟩
  refine ⟨historyExact_iff (run_unnamed hw.inv hunnamed), fun hm => ?_⟩
  obtain ⟨hh, hc⟩ := run_records_nothing hw.inv hm ⟨hw.history, hw.confirmed⟩
  exact historyExact_of_empty hh hc

/-- The version of a confirmed transaction does not name it. -/
theorem confirmed_version_unnamed : ¬ ∀ (d : Daemon) (w : World) (moves : List Move), Fresh w →
    HistoryExact (Machine.run (step d) w moves) := by
  intro h
  have hexact := h plainDaemon plainWorld confirmedMoves plainWorld_fresh
  have hunnamed : Unnamed (Machine.run (step plainDaemon) plainWorld confirmedMoves) :=
    run_unnamed plainWorld_fresh.inv ⟨fun v hv => absurd hv List.not_mem_nil, fun e he => absurd he List.not_mem_nil⟩
  have hempty := ((historyExact_iff hunnamed).mp hexact).1
  have hrecorded : (Machine.run (step plainDaemon) plainWorld confirmedMoves).history.length = 1 := by
    decide +kernel
  rw [hempty] at hrecorded
  cases hrecorded

theorem refused_history_exact : HistoryExact (Machine.run (step plainDaemon) plainWorld refusedMoves) :=
  (history_exact_iff_nothing_confirmed plainWorld_fresh).2 (by decide)

end EasyHaProxy.Controld
