import EasyHaProxy.Haproxy.Accounting

/-! A zero-trust site answers authorized addresses only, and a site behind the forward-auth service answers
what the service lets through. Only the control plane's own probes go past it. -/
namespace EasyHaProxy.Haproxy

open Rules

section ZeroTrust

variable {cfg : Config} {env : Env} {req : Request} {s : Txn} {site : Site} {a : Action}
  {c : List Operand}

/-- Reception writes neither the Host nor a counter. -/
theorem frame_of_reception {t : Txn} (hmem : .rule a c ∈ cfg.reception) (h : perform env req a s = .ok t) :
    (t.host, t.gpc0) = (s.host, s.gpc0) := by
  cases Config.act_of_mem_reception hmem <;> first | rfl | (cases h; done) | (cases h; rfl)

theorem not_met_at_reception (h : cfg.handle env req = .ok s) :
    ∃ u : Txn, u.host = s.host ∧ u.gpc0 = env.gpc0 ∧
      ∀ c a, .rule a c ∈ cfg.reception → a.refuses = true →
        (∀ v : Txn, v.host = u.host → v.gpc0 = u.gpc0 →
          (reading env req).holds cfg.acls v c = (reading env req).holds cfg.acls u c) →
        (reading env req).holds cfg.acls u c = false := by
  rw [Config.handle, Config.feHttps_eq, rules_append] at h
  obtain ⟨u, hu, hrest⟩ := Reading.run_append_ok h
  have hhost : s.host = u.host := Reading.run_frame hrest fun r hr s t hp =>
    host_of_perform (Config.not_port_of_mem (mem_rules.mp hr)) hp
  have hgpc0 : u.gpc0 = env.gpc0 := by
    have hkeep : u.gpc0 = (start env req).gpc0 := Reading.run_frame hu fun r hr s t hp => by
      obtain ⟨a, c⟩ := r
      rw [mem_rules, Config.defaultPort, List.mem_singleton, Line.rule.injEq] at hr
      obtain ⟨rfl, -⟩ := hr
      cases hp
      rfl
    exact hkeep
  refine ⟨u, hhost.symm, hgpc0, fun c a hmem ha hread => ?_⟩
  simp only [Config.pastPort, List.append_assoc, rules_append] at hrest
  obtain ⟨v, hv, -⟩ := Reading.run_append_ok hrest
  exact Reading.not_holds_of_run (f := fun s : Txn => (s.host, s.gpc0)) hv (mem_rules.mpr hmem)
    (fun _ _ => perform_of_refuses ha) (fun r hr s t hp => frame_of_reception (mem_rules.mp hr) hp)
    fun w hw => hread w (Prod.ext_iff.mp hw).1 (Prod.ext_iff.mp hw).2

theorem named_ipAuthOk (ha : cfg.autheliaEnabled = true) :
    (reading env req).named cfg.acls s .ipAuthOk = decide (0 < s.gpc0 .ipAuth) :=
  Config.named_owned (t := .srcGpc0 .ipAuth) (by decide)
    (Config.mem_feHttps_of_lists (by simp [Config.lists, ha])) fun q hq => by cases hq; rfl

theorem settled_unlisted : ∀ o ∈ cfg.unlisted, Settled o := by
  have hsettled : ∀ n ∈ ([.ipWhitelist, .allowedAdmin] : List AclName), n.Settled :=
    fun n hn => AclName.settled_fixed (by revert n; decide)
  intro o ho
  unfold Config.unlisted Config.notAdmin at ho
  rcases List.mem_cons.mp ho with rfl | ho
  · exact hsettled .ipWhitelist (by decide)
  · split at ho
    · rw [List.mem_singleton.mp ho]
      exact hsettled .allowedAdmin (by decide)
    · cases ho

theorem authorized_of_routed (hsite : site ∈ cfg.published) (hzero : cfg.zeroTrust site = true)
    (hauthelia : cfg.autheliaEnabled = true) (h : cfg.serve env req = .routed (.site site.name) s) :
    0 < env.gpc0 .ipAuth ∨ ¬ cfg.Unlisted env req := by
  obtain ⟨hhandle, hhost⟩ := Config.host_of_routed h
  obtain ⟨u, huhost, hugpc0, hno⟩ := not_met_at_reception hhandle
  have hmem : .rule (.deny 401 .zeroTrust) (.acl (.host site.name) :: .notAcl .ipAuthOk :: cfg.unlisted) ∈
      cfg.reception := by
    simp only [Config.reception, List.mem_append, Config.zeroTrustRules, if_pos hauthelia, List.mem_flatMap]
    exact Or.inr ⟨site, hsite, by simp [hzero]⟩
  have hread : ∀ v : Txn, v.host = u.host → v.gpc0 = u.gpc0 →
      (reading env req).holds cfg.acls v
        (.acl (.host site.name) :: .notAcl .ipAuthOk :: cfg.unlisted) =
      (reading env req).holds cfg.acls u
        (.acl (.host site.name) :: .notAcl .ipAuthOk :: cfg.unlisted) := by
    intro v hvhost hvgpc0
    simp only [Reading.holds_cons, Reading.operand_acl, Reading.operand_notAcl, named_ipAuthOk hauthelia,
      hvgpc0, named_of_settled (AclName.settled_host site.name) hvhost,
      holds_of_settled settled_unlisted hvhost]
  have hmet := hno _ _ hmem rfl hread
  rw [Reading.holds_cons, Reading.holds_cons, Reading.operand_acl, Reading.operand_notAcl,
    named_of_settled (AclName.settled_host site.name) huhost, hhost, named_ipAuthOk hauthelia, hugpc0,
    Bool.true_and] at hmet
  by_contra hcontra
  rw [not_or, not_not] at hcontra
  rw [Config.holds_unlisted hcontra.2, decide_eq_false hcontra.1] at hmet
  cases hmet

end ZeroTrust

/-- A zero-trust site gets requests of authorized and of listed addresses only. -/
theorem authorized_before_backend (cfg : Config) (env : Env) (req : Request) {site : Site}
    (hsite : site ∈ cfg.published) (hzero : cfg.zeroTrust site = true)
    (hauthelia : cfg.autheliaEnabled = true) :
    cfg.WhenRouted env req fun backend _ => backend = .site site.name →
      0 < env.gpc0 .ipAuth ∨ ¬ cfg.Unlisted env req := by
  refine whenRouted_of fun b s hserve hb => ?_
  subst hb
  exact authorized_of_routed hsite hzero hauthelia hserve

def innerSite : Site := { name := "shop", domain := "shop.example.com", zeroTrust := some true }

/-- A visitor who is signed in, from an address that holds an authorization. -/
def signedInEnv : Env :=
  { quietEnv with
    gpc0 := fun t => if t = .ipAuth then 1 else 0
    authelia := fun _ => some { statusCode := 200, headers := [("remote-user", "alice")] } }

theorem authorized_before_backend_inner :
    (Config.serve { sites := [innerSite] } signedInEnv shopRequest).backend? = some (.site "shop") ∧
      Config.WhenRouted { sites := [innerSite] } signedInEnv shopRequest fun backend _ =>
        backend = .site "shop" → 0 < signedInEnv.gpc0 .ipAuth ∨
          ¬ Config.Unlisted { sites := [innerSite] } signedInEnv shopRequest :=
  ⟨by decide +kernel, authorized_before_backend { sites := [innerSite] } signedInEnv shopRequest
    (List.mem_singleton.mpr rfl) rfl rfl⟩

/-! ## What the service is asked about -/

/-- The headers that say who a visitor is. -/
def identityHeaders : List String := ["remote-user", "remote-groups", "remote-name", "remote-email"]

/-- The headers sent to the forward-auth service are those of this very request, and none of
them says who the visitor is. -/
structure AskedAbout (req : Request) (host : List String) (sent : List (String × String)) : Prop where
  anonymous : ∀ h ∈ sent, h.1 ∉ identityHeaders
  source : ("x-forwarded-for", req.src) ∈ sent
  method : ("x-forwarded-method", req.method) ∈ sent
  host : ("x-forwarded-host", host.getLastD "") ∈ sent
  uri : ("x-forwarded-uri", req.path ++ (if req.query = "" then "" else "?" ++ req.query)) ∈ sent

theorem mem_delHeader {name : String} {h : String × String} {headers : List (String × String)} :
    h ∈ delHeader name headers ↔ h ∈ headers ∧ h.1 ≠ name := by
  simp [delHeader]

theorem mem_setHeader {name value : String} {h : String × String} {headers : List (String × String)} :
    h ∈ setHeader name value headers ↔ h ∈ headers ∧ h.1 ≠ name ∨ h = (name, value) := by
  simp [setHeader, mem_delHeader]

section Asked

variable {cfg : Config} {env : Env} {req : Request} {s t : Txn} {a : Action} {c : List Operand}

theorem keeps_header {h : String × String} {rs : List (Action × List Operand)}
    (hrun : (reading env req).run cfg.acls rs s = .ok t) (hs : h ∈ s.headers)
    (hother : ∀ r ∈ rs, (∃ name, r.1 = .delHeader name ∧ name ≠ h.1) ∨
      ∃ name value, r.1 = .setHeader name value ∧ name ≠ h.1) : h ∈ t.headers := by
  refine Reading.run_keeps (I := fun u : Txn => h ∈ u.headers) hs hrun fun r hr u w hu _ hp => ?_
  rcases hother r hr with ⟨name, hname, hne⟩ | ⟨name, value, hname, hne⟩
  · rw [hname] at hp
    cases hp
    exact mem_delHeader.mpr ⟨hu, hne.symm⟩
  · rw [hname] at hp
    cases hp
    exact mem_setHeader.mpr (Or.inl ⟨hu, hne.symm⟩)

/-- Once deleted, the names stay away while only other names are set. -/
theorem stays_anonymous {names : List String} {rs : List (Action × List Operand)}
    (hrun : (reading env req).run cfg.acls rs s = .ok t) (hs : ∀ h ∈ s.headers, h.1 ∉ names)
    (hother : ∀ r ∈ rs, (∃ name, r.1 = .delHeader name) ∨
      ∃ name value, r.1 = .setHeader name value ∧ name ∉ names) : ∀ h ∈ t.headers, h.1 ∉ names := by
  refine Reading.run_keeps (I := fun u : Txn => ∀ h ∈ u.headers, h.1 ∉ names) hs hrun
    fun r hr u w hu _ hp => ?_
  rcases hother r hr with ⟨name, hname⟩ | ⟨name, value, hname, hnot⟩
  · rw [hname] at hp
    cases hp
    exact fun h hh => hu h (mem_delHeader.mp hh).1
  · rw [hname] at hp
    cases hp
    intro h hh
    rcases mem_setHeader.mp hh with ⟨hh, -⟩ | rfl
    · exact hu h hh
    · exact hnot

theorem deletes_names {gone : List String} {lines : List Line}
    (hl : lines = gone.map fun name => .rule (.delHeader name) [])
    (hrun : (reading env req).run cfg.acls (rules lines) s = .ok t) : ∀ h ∈ t.headers, h.1 ∉ gone := by
  subst hl
  induction gone generalizing s with
  | nil => simp
  | cons name gone ih =>
    have hrules : rules ((name :: gone).map fun n => (.rule (.delHeader n) [] : Line)) =
        (.delHeader name, []) :: rules (gone.map fun n => (.rule (.delHeader n) [] : Line)) := rfl
    rw [hrules, Reading.run_step (R := reading env req) rfl rfl] at hrun
    have hname : ∀ h ∈ t.headers, h.1 ∉ [name] := by
      refine stays_anonymous hrun (fun h hh => by simpa using (mem_delHeader.mp hh).2) fun r hr => ?_
      obtain ⟨n, -, hn⟩ := List.mem_map.mp (mem_rules.mp hr)
      exact Or.inl ⟨n, (Line.rule.inj hn).1.symm⟩
    intro h hh
    rw [List.mem_cons, not_or]
    exact ⟨by simpa using hname h hh, ih hrun h hh⟩

/-- The lines of the boundary past the address of the source. -/
def Config.pastSource (cfg : Config) : List Line :=
  (if cfg.mtlsSites.isEmpty then []
  else
    (certHeaders.map fun h => .rule (.delHeader h.1) [] : List Line) ++
    ([.acl .mtlsHost (.hostIs (cfg.mtlsSites.flatMap cfg.hostnames))] : List Line) ++
    (certHeaders.map fun h =>
      .rule (.setHeader h.1 h.2) [.acl .mtlsHost, .acl .mtlsPresent, .acl .mtlsVerified] :
      List Line) : List Line) ++
  (if cfg.requestIdEnabled then [.rule (.delHeader "x-request-id") []] else [] : List Line)

/-- The headers that tell the service about the request. -/
def forwarded : List Line :=
  [.rule (.setHeader "x-forwarded-method" .method) [],
    .rule (.setHeader "x-forwarded-proto" .proto) [],
    .rule (.setHeader "x-forwarded-host" .host) [],
    .rule (.setHeader "x-forwarded-uri" .uri) []]

/-- What those lines make of the headers. -/
def forwardHeaders (req : Request) (host : List String) (headers : List (String × String)) :
    List (String × String) :=
  setHeader "x-forwarded-uri" (req.path ++ (if req.query = "" then "" else "?" ++ req.query))
    (setHeader "x-forwarded-host" (host.getLastD "")
      (setHeader "x-forwarded-proto" "https" (setHeader "x-forwarded-method" req.method headers)))

theorem proxyBoundary_eq : cfg.proxyBoundary =
    (Config.trustHeaders.map fun name => (.rule (.delHeader name) [] : Line)) ++
      ([.rule (.setHeader "x-forwarded-for" .src) []] ++ cfg.pastSource) := by
  simp only [Config.proxyBoundary, Config.pastSource, List.append_assoc]

theorem act_of_pastSource (h : .rule a c ∈ cfg.pastSource) :
    (∃ name, a = .delHeader name ∧ name ∈ Config.certHeaders.map (·.1) ++ ["x-request-id"]) ∨
      ∃ name value, a = .setHeader name value ∧ name ∈ Config.certHeaders.map (·.1) := by
  simp only [Config.pastSource, List.mem_append, List.mem_ite_nil_left, List.mem_ite_nil_right,
    List.mem_map, List.mem_cons, List.not_mem_nil, Line.rule.injEq, reduceCtorEq, or_false] at h
  rcases h with ⟨-, ⟨h, hh, rfl, -⟩ | ⟨h, hh, rfl, -⟩⟩ | ⟨-, rfl, -⟩
  · exact Or.inl ⟨_, rfl, List.mem_append_left _ (List.mem_map_of_mem hh)⟩
  · exact Or.inr ⟨_, _, rfl, List.mem_map_of_mem hh⟩
  · exact Or.inl ⟨_, rfl, List.mem_append_right _ List.mem_cons_self⟩

/-- The request after the boundary and the headers for the service. -/
theorem askedAbout_of_run (hrun : (reading env req).run cfg.acls
    (rules (cfg.proxyBoundary ++ forwarded)) s = .ok t) : AskedAbout req t.host t.headers := by
  rw [proxyBoundary_eq, List.append_assoc, List.append_assoc, rules_append, rules_append, rules_append] at hrun
  obtain ⟨u, hu, hrun⟩ := Reading.run_append_ok hrun
  obtain ⟨v, hv, hrun⟩ := Reading.run_append_ok hrun
  obtain ⟨w, hw, ht⟩ := Reading.run_append_ok hrun
  have hu' : ∀ h ∈ u.headers, h.1 ∉ identityHeaders := fun h hh hid =>
    deletes_names rfl hu h hh (List.mem_append_left _ hid)
  have hv' : v = { u with headers := setHeader "x-forwarded-for" req.src u.headers } := by
    rw [show rules [(.rule (.setHeader "x-forwarded-for" .src) [] : Line)] =
      [(.setHeader "x-forwarded-for" .src, [])] from rfl,
      Reading.run_step (R := reading env req) rfl rfl] at hv
    exact (Except.ok.inj hv).symm
  have ht' : t = { w with headers := forwardHeaders req w.host w.headers } := by
    have hrules : rules forwarded = [(.setHeader "x-forwarded-method" .method, []),
        (.setHeader "x-forwarded-proto" .proto, []), (.setHeader "x-forwarded-host" .host, []),
        (.setHeader "x-forwarded-uri" .uri, [])] := rfl
    rw [hrules, Reading.run_step (R := reading env req) rfl rfl,
      Reading.run_step (R := reading env req) rfl rfl, Reading.run_step (R := reading env req) rfl rfl,
      Reading.run_step (R := reading env req) rfl rfl] at ht
    exact (Except.ok.inj ht).symm
  have hnames : ∀ name ∈ Config.certHeaders.map (·.1) ++ ["x-request-id"],
      name ≠ "x-forwarded-for" ∧ name ∉ identityHeaders := by decide
  have hw' : ∀ h ∈ w.headers, h.1 ∉ identityHeaders := by
    refine stays_anonymous hw ?_ fun r hr => ?_
    · rw [hv']
      intro h hh
      rcases mem_setHeader.mp hh with ⟨hh, -⟩ | rfl
      · exact hu' h hh
      · simp [identityHeaders]
    · rcases act_of_pastSource (mem_rules.mp hr) with ⟨name, hname, -⟩ | ⟨name, value, hname, hmem⟩
      · exact Or.inl ⟨name, hname⟩
      · exact Or.inr ⟨name, value, hname, (hnames name (List.mem_append_left _ hmem)).2⟩
  have hsource : ("x-forwarded-for", req.src) ∈ w.headers := by
    refine keeps_header hw ?_ fun r hr => ?_
    · rw [hv']
      exact mem_setHeader.mpr (Or.inr rfl)
    · rcases act_of_pastSource (mem_rules.mp hr) with ⟨name, hname, hmem⟩ | ⟨name, value, hname, hmem⟩
      · exact Or.inl ⟨name, hname, (hnames name hmem).1⟩
      · exact Or.inr ⟨name, value, hname, (hnames name (List.mem_append_left _ hmem)).1⟩
  rw [ht']
  refine ⟨?_, ?_, ?_, ?_, ?_⟩
  · intro h hh
    simp only [forwardHeaders, mem_setHeader] at hh
    rcases hh with ⟨⟨⟨⟨hh, -⟩ | rfl, -⟩ | rfl, -⟩ | rfl, -⟩ | rfl
    · exact hw' h hh
    all_goals simp [identityHeaders]
  all_goals simp [forwardHeaders, mem_setHeader, hsource]

end Asked

/-! ## The control plane's own probes -/

/-- The conditions the template marks a health probe and a metrics scrape by. -/
def controlPlaneProbe : List Operand :=
  [.acl .hostAdmin, .acl .localControlPlaneProbe, .acl .adminControlPlaneProbePath,
    .acl .adminControlPlaneProbeMethod]

def metricsScrape : List Operand :=
  [.acl .hostAdmin, .acl .metricsScrapeSource, .acl .metricsScrapePath, .acl .metricsScrapeMethod]

def Action.writes : Action → List Var
  | .setVar v _ | .unsetVar v | .incGpc0 v _ => [v]
  | .authIntercept => authVars
  | _ => []

section Probes

variable {cfg : Config} {env : Env} {req : Request} {s t : Txn} {a : Action} {c : List Operand} {v : Var}

theorem vars_of_perform (ha : v ∉ a.writes) (h : perform env req a s = .ok t) : t.vars v = s.vars v := by
  cases a with
  | setVar w value =>
    cases h
    exact if_neg (by simpa [Action.writes] using ha)
  | unsetVar w =>
    cases h
    exact if_neg (by simpa [Action.writes] using ha)
  | incGpc0 w table =>
    cases h
    exact if_neg (by simpa [Action.writes] using ha)
  | authIntercept =>
    cases h
    exact authRequest_frame (f := fun s => s.vars v)
      (fun s w hw x => if_neg fun hv : v = w => ha (hv ▸ hw)) (fun _ _ => rfl) env s
  | deny status cause => cases h
  | redirect cause => cases h
  | auth cause => cases h
  | reject cause => cases h
  | _ =>
    cases h
    rfl

theorem cond_of_mark (h : .rule a c ∈ cfg.reception) :
    (.adminControlPlaneProbe ∈ a.writes → c = controlPlaneProbe) ∧
      (.adminMetricsScrape ∈ a.writes → c = metricsScrape) := by
  simp only [Config.reception, List.mem_append] at h
  rcases h with (((((h | h) | h) | h) | h) | h) | h
  · simp only [Config.hardFloor, List.mem_singleton, Line.rule.injEq] at h
    obtain ⟨rfl, -⟩ := h
    simp [Action.writes]
  · simp [Config.lists] at h
  · simp only [Config.sniHost, List.mem_append, List.mem_cons, Config.siteHosts, List.mem_map,
      reduceCtorEq, List.not_mem_nil, or_false, false_or, and_false, exists_false] at h
    rcases h with h | h
    · unfold Config.adminHost at h
      split at h
      · cases h
      · simp only [List.mem_append, List.mem_cons, List.mem_ite_nil_right, List.not_mem_nil,
          Line.rule.injEq, reduceCtorEq, or_false, false_or] at h
        rcases h with ⟨rfl, rfl⟩ | ⟨-, rfl, rfl⟩ <;> simp [Action.writes, controlPlaneProbe, metricsScrape]
    · unfold Config.autheliaHost at h
      split at h <;> simp at h
  · simp only [Config.otherExclusions, List.mem_append, List.mem_cons, List.mem_ite_nil_right,
      List.not_mem_nil, Line.rule.injEq, reduceCtorEq, or_false, false_or, List.mem_flatMap] at h
    rcases h with (⟨rfl, -⟩ | ⟨rfl, -⟩) | ⟨-, ⟨ex, rule⟩, -, h⟩
    · simp [Action.writes]
    · simp [Action.writes]
    · dsimp only at h
      split_ifs at h <;>
        simp only [List.mem_cons, List.not_mem_nil, Line.rule.injEq, reduceCtorEq, or_false,
          false_or] at h <;>
        (obtain ⟨rfl, -⟩ := h; simp [Action.writes])
  · simp only [Config.siteExclusions, List.mem_flatMap, List.mem_append, List.mem_cons,
      List.not_mem_nil, Line.rule.injEq, or_false] at h
    obtain ⟨site, -, (⟨rfl, -⟩ | ⟨rfl, -⟩) | ⟨⟨ex, rule⟩, -, h⟩⟩ := h
    · simp [Action.writes]
    · simp [Action.writes]
    · dsimp only at h
      split at h
      · cases h
      · split_ifs at h <;>
          simp only [List.mem_cons, List.not_mem_nil, Line.rule.injEq, reduceCtorEq, or_false,
            false_or] at h <;>
          (obtain ⟨rfl, -⟩ := h; simp [Action.writes])
  · simp only [Config.geoip, Config.geoFilter, Config.geoSites, List.mem_ite_nil_right,
      List.mem_ite_nil_left, List.mem_append, List.mem_cons, List.mem_map, List.mem_flatMap,
      List.not_mem_nil, Line.rule.injEq, reduceCtorEq, or_false, false_or, and_false, exists_false] at h
    obtain ⟨-, ⟨-, rfl, -⟩ | ⟨site, -, -, rfl, -⟩⟩ := h <;> simp [Action.writes]
  · simp only [Config.zeroTrustRules, List.mem_ite_nil_right, List.mem_flatMap, List.mem_singleton,
      Line.rule.injEq] at h
    obtain ⟨-, site, -, -, rfl, -⟩ := h
    simp [Action.writes]

/-- Past reception no rule before the service's writes the marks. -/
theorem not_writes_mark (h : .rule a c ∈ cfg.accounting ++ cfg.banned ++ cfg.refusals ++
    (cfg.proxyBoundary ++ forwarded)) :
    .adminControlPlaneProbe ∉ a.writes ∧ .adminMetricsScrape ∉ a.writes := by
  have hrefuses : ∀ a : Action, a.refuses = true → a.writes = [] := by
    intro a ha
    cases a <;> first | rfl | cases ha
  simp only [List.mem_append] at h
  rcases h with ((h | h) | h) | h | h
  · cases Config.act_of_mem_accounting h <;> simp [Action.writes]
  · simp [hrefuses a (Config.refuses_of_mem_banned h)]
  · cases Config.act_of_mem_refusals h with
    | refuse ha => simp [hrefuses a ha]
    | _ => simp [Action.writes]
  · cases Config.act_of_mem_identity (List.mem_append_left _ (List.mem_append_left _ h)) <;>
      simp [Action.writes, authVars]
  · simp only [forwarded, List.mem_cons, List.not_mem_nil, Line.rule.injEq, or_false] at h
    rcases h with ⟨rfl, -⟩ | ⟨rfl, -⟩ | ⟨rfl, -⟩ | ⟨rfl, -⟩ <;> simp [Action.writes]

structure Marked (cfg : Config) (env : Env) (req : Request) (s : Txn) : Prop where
  probe : (s.vars .adminControlPlaneProbe).any Value.isTrue = true →
    (reading env req).holds cfg.acls s controlPlaneProbe = true
  scrape : (s.vars .adminMetricsScrape).any Value.isTrue = true →
    (reading env req).holds cfg.acls s metricsScrape = true

theorem settled_marks : (∀ o ∈ controlPlaneProbe, Settled o) ∧ ∀ o ∈ metricsScrape, Settled o := by
  have hfixed : ∀ n ∈ ([.localControlPlaneProbe, .adminControlPlaneProbePath, .adminControlPlaneProbeMethod,
      .metricsScrapeSource, .metricsScrapePath, .metricsScrapeMethod] : List AclName), n.Settled :=
    fun n hn => AclName.settled_fixed (by revert n; decide)
  simp only [controlPlaneProbe, metricsScrape, List.forall_mem_cons, List.not_mem_nil, false_imp_iff,
    implies_true, and_true]
  refine ⟨⟨AclName.settled_hostAdmin, ?_, ?_, ?_⟩, AclName.settled_hostAdmin, ?_, ?_, ?_⟩
  all_goals exact hfixed _ (by decide)

/-- The lines before the service is asked. -/
def Config.beforeQuestion (cfg : Config) : List Line :=
  cfg.reception ++ (cfg.accounting ++ cfg.banned ++ cfg.refusals ++ (cfg.proxyBoundary ++ forwarded))

theorem marked_step (hmem : .rule a c ∈ cfg.beforeQuestion) (hs : Marked cfg env req s)
    (hc : (reading env req).holds cfg.acls s c = true) (hport : a ≠ .stripDefaultPort)
    (h : perform env req a s = .ok t) : Marked cfg env req t := by
  have hhost := host_of_perform hport h
  have hmarks : (.adminControlPlaneProbe ∈ a.writes → c = controlPlaneProbe) ∧
      (.adminMetricsScrape ∈ a.writes → c = metricsScrape) := by
    rcases List.mem_append.mp hmem with hmem | hmem
    · exact cond_of_mark hmem
    · obtain ⟨hprobe, hscrape⟩ := not_writes_mark hmem
      exact ⟨fun h => absurd h hprobe, fun h => absurd h hscrape⟩
  constructor
  · intro hmark
    rw [holds_of_settled settled_marks.1 hhost]
    by_cases hw : .adminControlPlaneProbe ∈ a.writes
    · rwa [← hmarks.1 hw]
    · rw [vars_of_perform hw h] at hmark
      exact hs.probe hmark
  · intro hmark
    rw [holds_of_settled settled_marks.2 hhost]
    by_cases hw : .adminMetricsScrape ∈ a.writes
    · rwa [← hmarks.2 hw]
    · rw [vars_of_perform hw h] at hmark
      exact hs.scrape hmark

end Probes

/-! ## The service's answer -/

section Answer

variable {cfg : Config} {env : Env} {req : Request} {s t : Txn} {c : List Operand}

/-- The mark of success is set on an answer that lets the request through, and on no other. -/
theorem answer_of_successful
    (h : ((authRequest env s).vars .authResponseSuccessful).any Value.isTrue = true) :
    ∃ response, env.authelia s.headers = some response ∧ isOkStatus response.statusCode = true := by
  unfold authRequest at h
  dsimp only at h
  cases hanswer : env.authelia s.headers with
  | none =>
    have hsent : (s.setVar .authResponseSuccessful (some (.bool false))).headers = s.headers := rfl
    rw [hsent, hanswer] at h
    simp [Txn.setVar, Value.isTrue] at h
  | some response =>
    refine ⟨response, rfl, ?_⟩
    by_contra hno
    have hsent : (s.setVar .authResponseSuccessful (some (.bool false))).headers = s.headers := rfl
    rw [hsent, hanswer] at h
    dsimp only at h
    rw [if_neg hno] at h
    have hcopied := copied_frame (f := fun s : Txn => s.vars .authResponseSuccessful)
      (fun _ _ => rfl) (fun _ _ => rfl) (isOkStatus response.statusCode) response.headers
    have hplaced : ∀ (s : Txn) (x : Option Value), (s.setVar .authResponseLocation x).vars
        .authResponseSuccessful = s.vars .authResponseSuccessful := fun _ _ => rfl
    split_ifs at h
    · rw [hplaced, hcopied] at h
      cases h
    · rw [hcopied] at h
      cases h

/-- The request as it stands when the service is asked. -/
def Config.atQuestion (cfg : Config) (env : Env) (req : Request) : Except Refusal Txn :=
  (reading env req).run cfg.acls (rules (Config.defaultPort ++ cfg.beforeQuestion)) (start env req)

/-- The service let the request through: what it was sent is about this request and does not
tell it who the visitor says to be. -/
def LetThrough (cfg : Config) (env : Env) (req : Request) (s : Txn) : Prop :=
  ∃ asked response, cfg.atQuestion env req = .ok asked ∧ AskedAbout req s.host asked.headers ∧
    env.authelia asked.headers = some response ∧ isOkStatus response.statusCode = true

/-- One of the control plane's own probes, as the template tells them. -/
def IsProbe (cfg : Config) (env : Env) (req : Request) (s : Txn) : Prop :=
  (reading env req).holds cfg.acls s controlPlaneProbe = true ∨
    (reading env req).holds cfg.acls s metricsScrape = true

/-- When the question is asked. -/
def Config.asked (cfg : Config) : List Operand := .acl .autheliaProtected :: cfg.notProbe

theorem pastPort_eq (hauthelia : cfg.autheliaEnabled = true) (hne : ¬ cfg.authHosts.isEmpty = true) :
    ∃ rest, cfg.pastPort = cfg.beforeQuestion ++
      (.acl .autheliaProtected (.hostIs cfg.authHosts) :: Config.intercept cfg.asked ++ rest) := by
  refine ⟨(if cfg.autDomain.isNone then []
    else Config.intercept [.acl .hostAuthelia, .acl .pathAccessGranted]) ++ cfg.trustMarker ++ cfg.routing, ?_⟩
  simp only [Config.pastPort, Config.identity, Config.forwardAuthRules, if_pos hauthelia, if_neg hne,
    Config.beforeQuestion, Config.asked, forwarded, List.append_assoc]

theorem named_probe (hdomain : cfg.adminDomain.isSome = true) :
    (reading env req).named cfg.acls s .adminControlPlaneProbe =
      (s.vars .adminControlPlaneProbe).any Value.isTrue := by
  obtain ⟨domain, hd⟩ := Option.isSome_iff_exists.mp hdomain
  refine Config.named_owned (t := .varBool .adminControlPlaneProbe) (by decide) ?_ fun q hq => by cases hq; rfl
  simp [Config.feHttps, Config.reception, Config.sniHost, Config.adminHost, hd]

theorem named_scrape (hdomain : cfg.adminDomain.isSome = true) (hmetrics : cfg.metricsExportEnabled = true) :
    (reading env req).named cfg.acls s .adminMetricsScrape =
      (s.vars .adminMetricsScrape).any Value.isTrue := by
  obtain ⟨domain, hd⟩ := Option.isSome_iff_exists.mp hdomain
  refine Config.named_owned (t := .varBool .adminMetricsScrape) (by decide) ?_ fun q hq => by cases hq; rfl
  simp [Config.feHttps, Config.reception, Config.sniHost, Config.adminHost, hd, hmetrics]

/-- The question is asked of what is not marked as a probe. -/
theorem holds_notProbe : (reading env req).holds cfg.acls s cfg.notProbe =
    (!(cfg.adminDomain.isSome && (s.vars .adminControlPlaneProbe).any Value.isTrue) &&
      !(cfg.adminDomain.isSome && cfg.metricsExportEnabled &&
        (s.vars .adminMetricsScrape).any Value.isTrue)) := by
  unfold Config.notProbe
  rw [Reading.holds_append]
  cases hdomain : cfg.adminDomain.isSome with
  | false => rfl
  | true =>
    cases hmetrics : cfg.metricsExportEnabled with
    | false =>
      simp only [Bool.and_false, Bool.false_and, if_true, Bool.false_eq_true, if_false, Bool.true_and,
        Bool.not_false, Bool.and_true, Reading.holds_cons, Reading.holds_nil, Reading.operand_notAcl,
        named_probe hdomain]
    | true =>
      simp only [Bool.and_true, Bool.true_and, if_true, Reading.holds_cons, Reading.holds_nil,
        Reading.operand_notAcl, named_probe hdomain, named_scrape hdomain hmetrics]

theorem settled_autheliaProtected : AclName.autheliaProtected.Settled := AclName.settled_fixed (by decide)

/-- Asked, and not let through. -/
def Config.turnedAway (cfg : Config) (more : List Operand) : List Operand :=
  cfg.asked ++ ((.notTest (.varBool .authResponseSuccessful) :: more : List Operand))

/-- Asking writes nothing that its own condition reads. -/
theorem holds_asked (hhost : t.host = s.host)
    (hvars : ∀ v ∉ authVars, t.vars v = s.vars v) :
    (reading env req).holds cfg.acls t cfg.asked = (reading env req).holds cfg.acls s cfg.asked := by
  rw [Config.asked, Reading.holds_cons, Reading.holds_cons, Reading.operand_acl, Reading.operand_acl,
    holds_notProbe, holds_notProbe, named_of_settled settled_autheliaProtected hhost,
    hvars .adminControlPlaneProbe (by decide), hvars .adminMetricsScrape (by decide)]

/-- Where the question is asked and the request goes on, the answer let it through. -/
theorem answered_of_run (hc : (reading env req).holds cfg.acls s cfg.asked = true)
    (h : (reading env req).run cfg.acls (rules (Config.intercept cfg.asked)) s = .ok t) :
    ∃ response, env.authelia s.headers = some response ∧ isOkStatus response.statusCode = true := by
  have hrules : rules (Config.intercept cfg.asked) = (Action.authIntercept, cfg.asked) ::
      (([(Action.deny 403 .forwardAuth, cfg.turnedAway [.test (.varEq .authResponseCode 403)]),
          (Action.redirect .forwardAuth, cfg.turnedAway [.test (.varFound .authResponseLocation)]),
          (Action.deny 503 .forwardAuth, cfg.turnedAway [])] : List (Action × List Operand)) ++
        ([(Action.incGpc0 .ipAuthAdd .ipAuth, cfg.asked ++ ([.test (.varBool .authResponseSuccessful),
          .test (.varNonempty .authResponseRemoteUser)] : List Operand))] :
            List (Action × List Operand))) := rfl
  have hstep : (reading env req).perform .authIntercept s = .ok (authRequest env s) := rfl
  have hkept : ∀ v ∉ authVars, (authRequest env s).vars v = s.vars v := fun v hv =>
    authRequest_frame (f := fun s => s.vars v) (fun s w hw x => if_neg fun h : v = w => hv (h ▸ hw))
      (fun _ _ => rfl) env s
  have hhost : (authRequest env s).host = s.host :=
    authRequest_frame (f := Txn.host) (fun _ _ _ _ => rfl) (fun _ _ => rfl) env s
  suffices hsuccess : ((authRequest env s).vars .authResponseSuccessful).any Value.isTrue = true from
    answer_of_successful hsuccess
  generalize authRequest env s = asked at hstep hkept hhost ⊢
  rw [hrules, Reading.run_step (r := (.authIntercept, cfg.asked)) hc hstep] at h
  obtain ⟨u, hu, -⟩ := Reading.run_append_ok h
  have hmet : (reading env req).holds cfg.acls asked (cfg.turnedAway []) = false := by
    refine Reading.not_holds_of_run (f := id) (a := .deny 503 .forwardAuth) hu
      (.tail _ (.tail _ (.head _))) (fun _ _ => perform_of_refuses rfl) (fun r hr v w hp => ?_)
      fun v hv => congrArg (fun s => (reading env req).holds cfg.acls s _) hv
    have hrefuses : r.1.refuses = true := by
      simp only [List.mem_cons, List.not_mem_nil, or_false] at hr
      rcases hr with rfl | rfl | rfl <;> rfl
    exact absurd hp (perform_of_refuses hrefuses)
  rw [Config.turnedAway, Reading.holds_append, (holds_asked hhost hkept).trans hc, Bool.true_and,
    Reading.holds_cons, Reading.holds_nil, Bool.and_true, Reading.operand_notTest,
    Bool.not_eq_false'] at hmet
  exact hmet

theorem let_through_of_routed {backend : Backend} (hauthelia : cfg.autheliaEnabled = true)
    (hprotected : s.host.any (isIn cfg.authHosts) = true) (h : cfg.serve env req = .routed backend s) :
    LetThrough cfg env req s ∨ IsProbe cfg env req s := by
  have hhandle : cfg.handle env req = .ok s := by
    unfold Config.serve at h
    split at h
    · cases h
    · obtain ⟨-, rfl⟩ := Served.routed.inj h
      assumption
  have hne : ¬ cfg.authHosts.isEmpty = true := by
    intro hempty
    rw [List.isEmpty_iff.mp hempty] at hprotected
    simp [isIn] at hprotected
  obtain ⟨rest, hlines⟩ := pastPort_eq hauthelia hne
  rw [Config.handle, Config.feHttps_eq, rules_append] at hhandle
  obtain ⟨u, hu, hpast⟩ := Reading.run_append_ok hhandle
  have hframe : ∀ lines : List Line, (∀ l ∈ lines, l ∈ cfg.pastPort) → ∀ s t : Txn,
      (reading env req).run cfg.acls (rules lines) s = .ok t → t.host = s.host :=
    fun lines hsub s t hrun => Reading.run_frame hrun fun r hr s t hp =>
      host_of_perform (Config.not_port_of_mem (hsub _ (mem_rules.mp hr))) hp
  rw [hlines, rules_append] at hpast
  obtain ⟨v, hv, hquestion⟩ := Reading.run_append_ok hpast
  have hmarked : Marked cfg env req v := by
    have hvars : u.vars = fun _ => none := by
      have hkeep : u.vars = (start env req).vars := Reading.run_frame hu fun r hr s t hp => by
        obtain ⟨a, c⟩ := r
        rw [mem_rules, Config.defaultPort, List.mem_singleton, Line.rule.injEq] at hr
        obtain ⟨rfl, -⟩ := hr
        cases hp
        rfl
      exact hkeep
    have hmarkedU : Marked cfg env req u := by
      constructor <;>
      · intro hmark
        rw [hvars] at hmark
        cases hmark
    refine Reading.run_keeps (I := Marked cfg env req) hmarkedU hv fun r hr s t hs hc hp => ?_
    have hmem := mem_rules.mp hr
    have hport := Config.not_port_of_mem (hlines ▸ List.mem_append_left _ hmem)
    exact marked_step hmem hs hc hport hp
  have hsv : s.host = v.host := hframe _ (fun l hl => hlines ▸ List.mem_append_right _ hl) v s hquestion
  have hasked : AskedAbout req v.host v.headers := by
    rw [Config.beforeQuestion, rules_append, rules_append] at hv
    obtain ⟨x, hx, hrest⟩ := Reading.run_append_ok hv
    obtain ⟨y, hy, hboundary⟩ := Reading.run_append_ok hrest
    exact askedAbout_of_run hboundary
  have hprotectedV : (reading env req).named cfg.acls v .autheliaProtected = true := by
    refine Reading.named_iff.mpr ⟨.autheliaProtected, .hostIs cfg.authHosts, mem_acls.mpr ?_, rfl, ?_⟩
    · rw [Config.feHttps_eq, hlines]
      exact List.mem_append_right _ (List.mem_append_right _ List.mem_cons_self)
    · rw [hsv] at hprotected
      exact hprotected
  have hquestion' : (reading env req).run cfg.acls (rules (Config.intercept cfg.asked) ++ rules rest) v =
      .ok s := by
    rw [← rules_append]
    exact hquestion
  obtain ⟨w, hw, -⟩ := Reading.run_append_ok hquestion'
  cases hc : (reading env req).holds cfg.acls v cfg.asked with
  | true =>
    obtain ⟨response, hresponse, hok⟩ := answered_of_run hc hw
    have hat : cfg.atQuestion env req = .ok v := by
      rw [Config.atQuestion, rules_append, Reading.run_append_of_ok hu, hv]
    exact Or.inl ⟨v, response, hat, hsv ▸ hasked, hresponse, hok⟩
  | false =>
    -- The Host is protected, so it is a mark that kept the question from being asked.
    rw [Config.asked, Reading.holds_cons, Reading.operand_acl, hprotectedV, Bool.true_and, holds_notProbe,
      Bool.and_eq_false_iff, Bool.not_eq_false', Bool.not_eq_false', Bool.and_eq_true, Bool.and_eq_true] at hc
    right
    rcases hc with ⟨-, hc⟩ | ⟨-, hc⟩
    · left
      rw [holds_of_settled settled_marks.1 hsv]
      exact hmarked.probe hc
    · right
      rw [holds_of_settled settled_marks.2 hsv]
      exact hmarked.scrape hc

end Answer

/-- Every request for a protected host that is routed anywhere was let through by the service,
unless it is one of the control plane's own probes. -/
theorem let_through_before_backend (cfg : Config) (env : Env) (req : Request)
    (hauthelia : cfg.autheliaEnabled = true) :
    cfg.WhenRouted env req fun _ s => s.host.any (isIn cfg.authHosts) = true →
      LetThrough cfg env req s ∨ IsProbe cfg env req s :=
  whenRouted_of fun _ _ hserve hprotected => let_through_of_routed hauthelia hprotected hserve

def signInSite : Site := { name := "shop", domain := "shop.example.com", autheliaEnabled := some true }

theorem let_through_before_backend_signIn :
    (Config.serve { sites := [signInSite] } signedInEnv shopRequest).backend? = some (.site "shop") ∧
      Config.WhenRouted { sites := [signInSite] } signedInEnv shopRequest fun _ s =>
        s.host.any (isIn (Config.authHosts { sites := [signInSite] })) = true →
          LetThrough { sites := [signInSite] } signedInEnv shopRequest s ∨
            IsProbe { sites := [signInSite] } signedInEnv shopRequest s :=
  ⟨by decide +kernel, let_through_before_backend { sites := [signInSite] } signedInEnv shopRequest rfl⟩

end EasyHaProxy.Haproxy
