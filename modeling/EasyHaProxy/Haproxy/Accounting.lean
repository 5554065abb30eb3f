import EasyHaProxy.Haproxy.Gates

/-! A banned address is refused before anything is counted against it, and no request is counted in two
error tables. -/
namespace EasyHaProxy.Haproxy

open Rules

namespace Config

variable {cfg : Config} {env : Env} {req : Request} {s : Txn} {a : Action} {c : List Operand}

/-- An error is never counted against a banned address. -/
theorem not_banned_of_track {t : Table} (h : .rule (.trackSc1 t) c ∈ cfg.accounting) :
    .notTest (.srcGpc0 .ban) ∈ c := by
  simp only [accounting, errorTracking, trackSite, trackOther, thresholds, errorBan, rateLimit,
    rateSite, List.mem_append, List.mem_cons, List.mem_flatMap, List.mem_ite_nil_left,
    List.mem_ite_nil_right, List.not_mem_nil, Line.rule.injEq, Action.trackSc1.injEq, reduceCtorEq,
    or_false, false_or, and_false, false_and, exists_false] at h
  rcases h with ((⟨site, -, -, -, -, rfl⟩ | ⟨-, rfl⟩) | ⟨-, rfl⟩) | ⟨-, rfl⟩ <;> simp

/-- Neither whitelisted nor on the admin list, as the request's address says. -/
def Unlisted (cfg : Config) (env : Env) (req : Request) : Prop :=
  env.inFile .whitelistGlobal req.src = false ∧
    (cfg.adminIpsEnabled = true → env.inFile .adminIps req.src = false)

theorem mem_feHttps_of_lists {l : Line} (h : l ∈ cfg.lists) : l ∈ cfg.feHttps := by
  simp only [feHttps, reception, List.mem_append]
  tauto

theorem holds_unlisted (h : cfg.Unlisted env req) :
    (reading env req).holds cfg.acls s cfg.unlisted = true := by
  have hw : (reading env req).named cfg.acls s .ipWhitelist = false :=
    (named_owned (n := .ipWhitelist) (t := .srcFile .whitelistGlobal) (by decide)
      (mem_feHttps_of_lists (by simp [lists])) fun q hq => by cases hq; rfl).trans h.1
  rw [unlisted, Reading.holds_cons, Reading.operand_notAcl, hw, notAdmin]
  split
  · rename_i ha
    have hadmin : (reading env req).named cfg.acls s .allowedAdmin = false :=
      (named_owned (n := .allowedAdmin) (t := .srcFile .adminIps) (by decide)
        (mem_feHttps_of_lists (by simp [lists, ha])) fun q hq => by cases hq; rfl).trans (h.2 ha)
    rw [Reading.holds_cons, Reading.operand_notAcl, hadmin]
    rfl
  · rfl

end Config

/-- Nothing is counted against the address of the request. -/
structure Untouched (env : Env) (s : Txn) : Prop where
  gpc0 : s.gpc0 = env.gpc0
  gpt0 : s.gpt0 = fun _ => none
  errTables : s.errTables = []

section Banned

variable {cfg : Config} {env : Env} {req : Request} {s : Txn} {a : Action} {c : List Operand}

/-- The causes of the refusals that come before a ban's. -/
def earlyCauses : List Cause := [.hardFloor, .geo, .zeroTrust, .alreadyBanned]

theorem untouched_step (hban : 0 < env.gpc0 .ban) (hmem : .rule a c ∈ Config.defaultPort ++
    cfg.reception ++ cfg.accounting ++ cfg.banned) (hs : Untouched env s)
    (hc : (reading env req).holds cfg.acls s c = true) :
    Reading.Ends (Untouched env) (fun v : Refusal => v.cause ∈ earlyCauses ∧ Untouched env v.txn)
      (perform env req a s) := by
  simp only [List.mem_append] at hmem
  rcases hmem with ((h | h) | h) | h
  · simp only [Config.defaultPort, List.mem_singleton, Line.rule.injEq] at h
    obtain ⟨rfl, -⟩ := h
    exact ⟨hs.gpc0, hs.gpt0, hs.errTables⟩
  · cases Config.act_of_mem_reception h with
    | hardFloor => exact ⟨by simp [earlyCauses], hs⟩
    | geo => exact ⟨by simp [earlyCauses], hs⟩
    | zeroTrust => exact ⟨by simp [earlyCauses], hs⟩
    | _ => exact ⟨hs.gpc0, hs.gpt0, hs.errTables⟩
  · cases Config.act_of_mem_accounting h with
    | track t =>
      -- The rule asks whether the address is banned, and it is.
      have hnot := List.all_eq_true.mp hc _ (Config.not_banned_of_track h)
      rw [Reading.operand_notTest, Bool.not_eq_true'] at hnot
      have hzero : ¬ 0 < s.gpc0 .ban := of_decide_eq_false hnot
      rw [hs.gpc0] at hzero
      exact absurd hban hzero
    | _ => exact ⟨hs.gpc0, hs.gpt0, hs.errTables⟩
  · simp only [Config.banned, List.mem_singleton, Line.rule.injEq] at h
    obtain ⟨rfl, -⟩ := h
    exact ⟨by simp [earlyCauses], hs⟩

theorem banned_refuses (hban : 0 < env.gpc0 .ban) (hlists : cfg.Unlisted env req) (hs : Untouched env s) :
    (reading env req).run cfg.acls (rules cfg.banned) s = .error ⟨.alreadyBanned, s⟩ := by
  have hbanned : (reading env req).named cfg.acls s .alreadyBanned = true := by
    refine Reading.named_iff.mpr ⟨.alreadyBanned, .srcGpc0 .ban, mem_acls.mpr ?_, rfl, ?_⟩
    · simp [Config.feHttps, Config.accounting, Config.thresholds]
    · rw [← hs.gpc0] at hban
      exact decide_eq_true hban
  refine Reading.run_refuse ?_ rfl
  rw [Reading.holds_cons, Reading.operand_acl, hbanned, Config.holds_unlisted hlists]
  rfl

theorem banned_ends (hban : 0 < env.gpc0 .ban) (hlists : cfg.Unlisted env req) :
    Reading.Ends (fun _ => False) (fun v : Refusal => v.cause ∈ earlyCauses ∧ Untouched env v.txn)
      (cfg.handle env req) := by
  rw [Config.handle, Config.feHttps, rules_append, rules_append, rules_append]
  refine Reading.run_append_ends (I := fun _ => False) (Reading.run_append_ends (I := fun _ => False)
    (Reading.run_append_ends (I := fun _ => False) ?_ ?_) ?_) ?_
  · rw [rules_append]
    refine Reading.run_append_ends (I := Untouched env)
      (Reading.run_ends ⟨rfl, rfl, rfl⟩ fun r hr s hs hc =>
        untouched_step hban (List.mem_append_left _ (mem_rules.mp hr)) hs hc) fun s hs => ?_
    rw [banned_refuses hban hlists hs]
    exact ⟨by simp [earlyCauses], hs⟩
  all_goals
    intro _ h
    cases h

theorem serve_of_handle_ends {I : Txn → Prop} {E : Refusal → Prop} (h : Reading.Ends I E (cfg.handle env req))
    (hnot : ∀ s, ¬ I s) : ∃ refusal, cfg.serve env req = .refused refusal ∧ E refusal := by
  unfold Config.serve
  cases hhandle : cfg.handle env req with
  | ok s =>
    rw [hhandle] at h
    exact absurd h (hnot s)
  | error refusal =>
    rw [hhandle] at h
    exact ⟨refusal, rfl, h⟩

/-- Whatever it asks for, a banned address that no list exempts is refused, and the refusal
leaves its counters as they were. -/
theorem banned_never_served (hban : 0 < env.gpc0 .ban) (hlists : cfg.Unlisted env req) :
    ∃ refusal, cfg.serve env req = .refused refusal ∧ refusal.cause ∈ earlyCauses ∧
      Untouched env refusal.txn :=
  serve_of_handle_ends (banned_ends hban hlists) fun _ h => h

theorem use_notMem_lists {backend : Backend} : .use backend c ∉ cfg.lists := by
  unfold Config.lists
  split_ifs <;> simp

/-- What the SNI router hands on without reading it goes to a site that is passed through. -/
theorem passthru_of_routeTls {backend : Backend} (h : cfg.routeTls env req = .ok backend)
    (hthrough : backend ≠ .tlsTerminator) : ∃ site ∈ cfg.passthruSites, backend = .siteTcp site.name := by
  unfold Config.routeTls at h
  cases hrun : (reading env req).run (Rules.acls cfg.feTlsRouter) (Rules.rules cfg.feTlsRouter) (start env req) with
  | error _ =>
    rw [hrun] at h
    cases h
  | ok s =>
    rw [hrun] at h
    have hs : ((reading env req).route (Rules.acls cfg.feTlsRouter) (Rules.uses cfg.feTlsRouter) s).getD
        .tlsTerminator = backend := Except.ok.inj h
    cases hroute : (reading env req).route (Rules.acls cfg.feTlsRouter) (Rules.uses cfg.feTlsRouter) s with
    | none =>
      rw [hroute, Option.getD_none] at hs
      exact absurd hs.symm hthrough
    | some b =>
      rw [hroute, Option.getD_some] at hs
      subst hs
      obtain ⟨c, hmem, -⟩ := Reading.exists_of_route hroute
      have hline := mem_uses.mp hmem
      simp only [Config.feTlsRouter, List.mem_append, List.mem_flatMap, List.mem_cons, List.not_mem_nil,
        reduceCtorEq, or_false, false_or, Line.use.injEq] at hline
      rcases hline with hlist | ⟨site, hsite, rfl, -⟩
      · exact absurd hlist use_notMem_lists
      · exact ⟨site, hsite, rfl⟩

/-- A banned address that no list exempts is handed to no backend but that of a site whose connections
are passed through unread. -/
theorem banned_handed_through {backend : Backend} (hban : 0 < env.gpc0 .ban) (hlists : cfg.Unlisted env req)
    (h : cfg.handedTo env req = some backend) :
    ∃ site ∈ cfg.passthruSites, backend = .siteTcp site.name := by
  obtain ⟨refusal, hrefused, -⟩ := serve_of_handle_ends (banned_ends hban hlists) fun _ h => h
  unfold Config.handedTo at h
  rw [hrefused] at h
  split_ifs at h
  cases hroute : cfg.routeTls env req with
  | error _ =>
    rw [hroute] at h
    cases h
  | ok b =>
    rw [hroute] at h
    cases b with
    | tlsTerminator => cases h
    | _ =>
      obtain rfl := Option.some.inj h
      exact passthru_of_routeTls hroute (by simp)

end Banned

theorem banned_never_served_shop : ∃ refusal,
    Config.serve {} { quietEnv with gpc0 := fun _ => 1 } shopRequest = .refused refusal ∧
      refusal.cause ∈ earlyCauses ∧ Untouched { quietEnv with gpc0 := fun _ => 1 } refusal.txn :=
  banned_never_served (by decide) ⟨rfl, fun _ => rfl⟩

/-! ## Counted once -/

/-- The error tables the request was tracked in, however it ended. -/
def Served.errTables : Served → List Table
  | .refused refusal => refusal.txn.errTables
  | .routed _ s => s.errTables

def Txn.errTracked (s : Txn) : Bool := (s.vars .errTracked).any Value.isTrue

/-- In no error table yet, or in one and marked as tracked. -/
def CountedOnce (s : Txn) : Prop :=
  s.errTables = [] ∨ s.errTables.length = 1 ∧ s.errTracked = true

section Counted

variable {cfg : Config} {env : Env} {req : Request} {s t : Txn} {a : Action} {c c' : List Operand}

theorem CountedOnce.length_le (h : CountedOnce s) : s.errTables.length ≤ 1 := by
  rcases h with h | ⟨h, -⟩
  · simp [h]
  · omega

theorem holds_errTables (tables : List Table) :
    (reading env req).holds cfg.acls { s with errTables := tables } c =
      (reading env req).holds cfg.acls s c := by
  refine Reading.holds_congr fun q => ?_
  cases q <;> rfl

theorem countedOnce_mark (h : CountedOnce s) : CountedOnce (s.setVar .errTracked (some (.bool true))) := by
  rcases h with h | ⟨h, -⟩
  · exact Or.inl h
  · exact Or.inr ⟨h, by simp [Txn.errTracked, Txn.setVar, Value.isTrue]⟩

theorem run_mark (h : CountedOnce s) : Reading.Ends CountedOnce (fun _ : Refusal => False)
    ((reading env req).run cfg.acls [(.setVar .errTracked (.bool true), c)] s) := by
  cases hc : (reading env req).holds cfg.acls s c with
  | false =>
    rw [Reading.run_skip hc]
    exact h
  | true =>
    rw [Reading.run_step hc rfl]
    exact countedOnce_mark h

/-- A request is tracked only while it is not marked, and marked whenever it is tracked. -/
theorem run_track {table : Table} (h : CountedOnce s) (hc : .notTest (.varBool .errTracked) ∈ c)
    (hsub : (reading env req).holds cfg.acls s c = true → (reading env req).holds cfg.acls s c' = true) :
    Reading.Ends CountedOnce (fun _ : Refusal => False) ((reading env req).run cfg.acls
      [(.trackSc1 table, c), (.setVar .errTracked (.bool true), c')] s) := by
  cases hholds : (reading env req).holds cfg.acls s c with
  | false =>
    rw [Reading.run_skip hholds]
    exact run_mark h
  | true =>
    have hnot := List.all_eq_true.mp hholds _ hc
    rw [Reading.operand_notTest, Bool.not_eq_true'] at hnot
    have hnone : s.errTables = [] := by
      rcases h with h | ⟨-, h⟩
      · exact h
      · exact absurd (h.symm.trans hnot) Bool.noConfusion
    rw [Reading.run_step hholds rfl, Reading.run_step ((holds_errTables _).trans (hsub hholds)) rfl]
    exact Or.inr ⟨by simp [Txn.setVar, hnone], by simp [Txn.errTracked, Txn.setVar, Value.isTrue]⟩

theorem run_trackSite (h : CountedOnce s) (site : Site) :
    Reading.Ends CountedOnce (fun _ : Refusal => False)
      ((reading env req).run cfg.acls (rules (cfg.trackSite site)) s) := by
  unfold Config.trackSite
  dsimp only
  split
  · apply run_mark h
  · apply run_track h (by simp)
    intro hholds
    simp only [List.cons_append, List.nil_append, Reading.holds_cons, Bool.and_eq_true] at hholds ⊢
    exact ⟨hholds.1, hholds.2.1, rfl⟩

theorem run_trackOther (h : CountedOnce s) (miss : List Operand) :
    Reading.Ends CountedOnce (fun _ : Refusal => False)
      ((reading env req).run cfg.acls (rules (cfg.trackOther miss)) s) := by
  apply run_track h (by simp)
  intro hholds
  rw [Reading.holds_append, Bool.and_eq_true] at hholds
  exact hholds.1

theorem run_errorTracking (h : s.errTables = []) : Reading.Ends CountedOnce (fun _ : Refusal => False)
    ((reading env req).run cfg.acls (rules cfg.errorTracking) s) := by
  simp only [Config.errorTracking, rules_append]
  refine Reading.run_append_ends (Reading.run_append_ends (Reading.run_append_ends
    (Reading.run_append_ends (I := CountedOnce) ?_ fun s hs => Reading.run_flatMap_ends hs
      fun site _ s hs => ?_) fun s hs => run_trackOther hs _) fun s hs => run_trackOther hs _)
    fun s hs => run_trackOther hs _
  · exact Or.inl h
  · split
    · exact hs
    · exact run_trackSite hs site

theorem errTables_of_perform (ha : ∀ table, a ≠ .trackSc1 table) :
    Reading.Ends (fun t : Txn => t.errTables = s.errTables)
      (fun v : Refusal => v.txn.errTables = s.errTables) (perform env req a s) := by
  cases a with
  | trackSc1 table => exact absurd rfl (ha table)
  | authIntercept =>
    exact authRequest_frame (f := Txn.errTables) (fun _ _ _ _ => rfl) (fun _ _ => rfl) env s
  | _ => exact rfl

theorem run_untracked {lines : List Line} (hno : ∀ table c, .rule (.trackSc1 table) c ∉ lines) :
    Reading.Ends (fun t : Txn => t.errTables = s.errTables)
      (fun v : Refusal => v.txn.errTables = s.errTables)
      ((reading env req).run cfg.acls (rules lines) s) := by
  refine Reading.run_ends rfl fun r hr u hu _ => ?_
  have hends : Reading.Ends (fun t : Txn => t.errTables = u.errTables)
      (fun v : Refusal => v.txn.errTables = u.errTables) (perform env req r.1 u) :=
    errTables_of_perform fun table h => hno table r.2 (by rw [← h]; exact mem_rules.mp hr)
  exact hends.mono (fun _ h => h.trans hu) fun _ h => h.trans hu

theorem untracked_before : ∀ table c, .rule (.trackSc1 table) c ∉ Config.defaultPort ++ cfg.reception := by
  intro table c h
  rcases List.mem_append.mp h with h | h
  · simp [Config.defaultPort] at h
  · cases Config.act_of_mem_reception h

theorem untracked_after : ∀ table c, .rule (.trackSc1 table) c ∉ cfg.thresholds ++ cfg.rateLimit ++
    cfg.banned ++ cfg.refusals ++ cfg.identity ++ cfg.routing := by
  intro table c h
  simp only [List.mem_append] at h
  rcases h with ((((h | h) | h) | h) | h) | h
  · simp [Config.thresholds, Config.errorBan] at h
  · simp [Config.rateLimit, Config.rateSite] at h
  · cases Config.refuses_of_mem_banned h
  · cases Config.act_of_mem_refusals h with
    | refuse h => cases h
  · cases Config.act_of_mem_identity h
  · rw [← mem_rules, Config.rules_routing] at h
    cases h

/-- However a request ends, its errors count in one error table at most. -/
theorem errors_counted_once (cfg : Config) (env : Env) (req : Request) :
    (cfg.serve env req).errTables.length ≤ 1 := by
  have hends : Reading.Ends (fun t : Txn => t.errTables.length ≤ 1)
      (fun v : Refusal => v.txn.errTables.length ≤ 1) (cfg.handle env req) := by
    have hlines : rules cfg.feHttps = rules (Config.defaultPort ++ cfg.reception) ++
        (rules cfg.errorTracking ++ rules (cfg.thresholds ++ cfg.rateLimit ++ cfg.banned ++
          cfg.refusals ++ cfg.identity ++ cfg.routing)) := by
      simp only [Config.feHttps, Config.accounting, rules_append, List.append_assoc]
    rw [Config.handle, hlines]
    refine Reading.run_append_ends ((run_untracked untracked_before).mono (fun _ h => h) fun v h => ?_)
      fun s hs => Reading.run_append_ends ((run_errorTracking hs).mono (fun _ h => h) fun _ h => h.elim)
        fun t ht => (run_untracked untracked_after).mono (fun u hu => ?_) fun v hv => ?_
    · simp [h, start]
    · rw [hu]
      exact ht.length_le
    · rw [hv]
      exact ht.length_le
  unfold Config.serve
  cases h : cfg.handle env req with
  | ok t =>
    rw [h] at hends
    exact hends
  | error v =>
    rw [h] at hends
    exact hends

end Counted

end EasyHaProxy.Haproxy
