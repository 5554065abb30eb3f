import EasyHaProxy.Haproxy.ForwardAuth

/-! Which identity headers a client sends makes no difference to what the gateway does: the rules before the
boundary read none, the boundary deletes them, and from there on the two requests are one. -/
namespace EasyHaProxy.Haproxy

open Rules

/-- The headers that tell the forward-auth service about the request, where there is one. -/
def Config.forwardedHeaders (cfg : Config) : List String :=
  if cfg.autheliaEnabled then
    ["x-forwarded-method", "x-forwarded-proto", "x-forwarded-host", "x-forwarded-uri"]
  else []

/-- The headers the gateway alone writes. -/
def Config.boundary (cfg : Config) : List String :=
  trustHeaders ++ ((if cfg.mtlsSites.isEmpty then [] else certHeaders.map (·.1)) ++
    ((if cfg.requestIdEnabled then ["x-request-id"] else []) ++ cfg.forwardedHeaders))

def outside (names : List String) (headers : List (String × String)) : List (String × String) :=
  headers.filter fun h => h.1 ∉ names

@[simp] theorem outside_nil (headers : List (String × String)) : outside [] headers = headers := by
  simp [outside]

theorem outside_append (names : List String) (l m : List (String × String)) :
    outside names (l ++ m) = outside names l ++ outside names m :=
  List.filter_append l m

theorem outside_delHeader (name : String) (names : List String) (headers : List (String × String)) :
    outside names (delHeader name headers) = outside (name :: names) headers := by
  rw [outside, delHeader, outside, List.filter_filter]
  refine List.filter_congr fun h _ => ?_
  by_cases hn : h.1 = name <;> simp [hn]

theorem outside_cons (name : String) (names : List String) (headers : List (String × String)) :
    outside (name :: names) headers = delHeader name (outside names headers) := by
  rw [outside, delHeader, outside, List.filter_filter]
  refine List.filter_congr fun h _ => ?_
  by_cases hn : h.1 = name <;> simp [hn]

/-- States that differ in headers of these names only. -/
structure AgreeOutside (names : List String) (s t : Txn) : Prop where
  rest : { s with headers := t.headers } = t
  headers : outside names s.headers = outside names t.headers

namespace AgreeOutside

variable {names : List String} {s t : Txn}

theorem eq_of_nil (h : AgreeOutside [] s t) : s = t := by
  have hh : s.headers = t.headers := by simpa using h.headers
  rw [← h.rest, ← hh]

theorem delHeader (h : AgreeOutside names s t) (name : String) :
    AgreeOutside names { s with headers := Haproxy.delHeader name s.headers }
      { t with headers := Haproxy.delHeader name t.headers } where
  rest := by rw [← h.rest]
  headers := by simp only [outside_delHeader, outside_cons, h.headers]

/-- A deleted name is one the states no longer differ in. -/
theorem delete (name : String) (h : AgreeOutside (name :: names) s t) :
    AgreeOutside names { s with headers := Haproxy.delHeader name s.headers }
      { t with headers := Haproxy.delHeader name t.headers } where
  rest := by rw [← h.rest]
  headers := by simpa only [outside_delHeader] using h.headers

theorem overwrite (name value : String) (h : AgreeOutside (name :: names) s t) :
    AgreeOutside names { s with headers := Haproxy.setHeader name value s.headers }
      { t with headers := Haproxy.setHeader name value t.headers } where
  rest := by rw [← h.rest]
  headers := by simp only [Haproxy.setHeader, outside_append, (h.delete name).headers]

theorem setHeader (h : AgreeOutside names s t) (name value : String) :
    AgreeOutside names { s with headers := Haproxy.setHeader name value s.headers }
      { t with headers := Haproxy.setHeader name value t.headers } where
  rest := by rw [← h.rest]
  headers := by simp only [Haproxy.setHeader, outside_append, (h.delHeader name).headers]

end AgreeOutside

section Alike

variable {cfg : Config} {env : Env} {req : Request} {names : List String} {s t : Txn}

theorem test_alike (h : AgreeOutside names s t) (q : Test) : test env req t q = test env req s q := by
  rw [← h.rest]
  cases q <;> rfl

theorem sample_alike (h : AgreeOutside names s t) (v : Sample) :
    sample env req t v = sample env req s v := by
  rw [← h.rest]
  cases v <;> rfl

/-- What the rules do with the headers: nothing, or what they do with any. -/
theorem perform_alike (h : AgreeOutside names s t) {a : Action} (ha : a ≠ .authIntercept) :
    Reading.Alike (AgreeOutside names) (perform env req a s) (perform env req a t) := by
  cases a with
  | authIntercept => exact absurd rfl ha
  | delHeader name => exact .ok (h.delHeader name)
  | setHeader name value =>
    simp only [perform, sample_alike h]
    exact .ok (h.setHeader name _)
  | deny status cause => exact .error
  | redirect cause => exact .error
  | auth cause => exact .error
  | reject cause => exact .error
  | _ =>
    rw [← h.rest]
    exact .ok ⟨rfl, h.headers⟩

theorem run_together_of {rs : List (Action × List Operand)} (h : AgreeOutside names s t)
    (ha : ∀ r ∈ rs, r.1 ≠ .authIntercept) :
    (reading env req).Together cfg.acls (AgreeOutside names) rs s t :=
  Reading.run_together h (fun _ _ h q => test_alike h q) fun r hr _ _ h => perform_alike h (ha r hr)

/-- An action after which no header of the name is left but one it wrote itself. -/
def Action.Overwrites (name : String) (a : Action) : Prop :=
  a = .delHeader name ∨ ∃ value, a = .setHeader name value

/-- Overwriting the names one after the other leaves nothing to differ in. -/
theorem run_overwrites (names : List String) (acts : List (String × Action)) (ha : ∀ a ∈ acts, a.2.Overwrites a.1)
    (h : AgreeOutside (acts.map (·.1) ++ names) s t) :
    (reading env req).Together cfg.acls (AgreeOutside names)
      (rules (acts.map fun a => (.rule a.2 [] : Line))) s t := by
  induction acts generalizing s t with
  | nil => exact .nil h
  | cons a acts ih =>
    obtain ⟨name, act⟩ := a
    have hrest := fun a h => ha a (List.mem_cons_of_mem _ h)
    have hrules : rules (((name, act) :: acts).map fun a => (.rule a.2 [] : Line)) =
        (act, []) :: rules (acts.map fun a => (.rule a.2 [] : Line)) := rfl
    have hact : act.Overwrites name := ha (name, act) List.mem_cons_self
    rw [hrules]
    rcases hact with rfl | ⟨value, rfl⟩
    · exact .step rfl rfl rfl rfl (ih hrest (h.delete name))
    · have hsample : perform env req (.setHeader name value) t =
          .ok { t with headers := setHeader name (sample env req s value) t.headers } := by
        rw [perform, sample_alike h]
      exact .step rfl rfl rfl hsample (ih hrest (h.overwrite name _))

theorem run_deletes {gone : List String} {lines : List Line}
    (hl : lines = gone.map fun name => .rule (.delHeader name) [])
    (h : AgreeOutside (gone ++ names) s t) :
    (reading env req).Together cfg.acls (AgreeOutside names) (rules lines) s t := by
  have hacts : lines = (gone.map fun name => (name, Action.delHeader name)).map
      fun a => (.rule a.2 [] : Line) := by rw [hl, List.map_map]; rfl
  rw [hacts]
  refine run_overwrites names (gone.map fun name => (name, .delHeader name)) (fun a ha => ?_) (by simpa [Function.comp_def] using h)
  obtain ⟨name, -, rfl⟩ := List.mem_map.mp ha
  exact Or.inl rfl

end Alike

namespace Config

variable {cfg : Config} {env : Env} {req : Request} {s t : Txn}

theorem no_intercept_before {r : Action × List Operand} (h : r ∈ rules (defaultPort ++
    cfg.reception ++ cfg.accounting ++ cfg.banned ++ cfg.refusals)) : r.1 ≠ .authIntercept := by
  obtain ⟨a, c⟩ := r
  simp only [rules_append, List.mem_append, mem_rules] at h
  rintro rfl
  rcases h with (((h | h) | h) | h) | h
  · simp [defaultPort] at h
  · cases act_of_mem_reception h
  · cases act_of_mem_accounting h
  · cases refuses_of_mem_banned h
  · cases act_of_mem_refusals h with
    | refuse h => cases h

/-- Past the boundary the requests differ at most in what tells the service about them. -/
theorem run_proxyBoundary (h : AgreeOutside cfg.boundary s t) :
    (reading env req).Together cfg.acls (AgreeOutside cfg.forwardedHeaders) (rules cfg.proxyBoundary)
      s t := by
  simp only [proxyBoundary, rules_append]
  refine Reading.Together.append (I := AgreeOutside ((if cfg.requestIdEnabled then ["x-request-id"] else []) ++
      cfg.forwardedHeaders))
    (Reading.Together.append (Reading.Together.append (run_deletes rfl h) fun s t h =>
      run_together_of h ?_) fun s t h => ?_) fun s t h => ?_
  · simp [rules]
  · by_cases hm : cfg.mtlsSites.isEmpty
    · rw [if_pos hm] at h ⊢
      exact .nil h
    · rw [if_neg hm] at h ⊢
      rw [rules_append, rules_append]
      refine Reading.Together.append (Reading.Together.append (run_deletes rfl h) fun s t h => .nil h)
        fun s t h => run_together_of h ?_
      simp [rules, certHeaders]
  · by_cases hr : cfg.requestIdEnabled
    · rw [if_pos hr] at h ⊢
      exact run_deletes rfl h
    · rw [if_neg hr] at h ⊢
      exact .nil h

/-- The gateway writes what it tells the service, and from there on the requests are one. -/
theorem run_forwardAuth (h : AgreeOutside cfg.forwardedHeaders s t) :
    (reading env req).Together cfg.acls Eq (rules cfg.forwardAuthRules) s t := by
  unfold forwardedHeaders at h
  unfold forwardAuthRules
  by_cases ha : cfg.autheliaEnabled = true
  · rw [if_pos ha] at h ⊢
    rw [rules_append, rules_append, List.append_assoc]
    refine Reading.Together.append (I := Eq) (.mono (run_overwrites []
      [("x-forwarded-method", .setHeader "x-forwarded-method" .method),
        ("x-forwarded-proto", .setHeader "x-forwarded-proto" .proto),
        ("x-forwarded-host", .setHeader "x-forwarded-host" .host),
        ("x-forwarded-uri", .setHeader "x-forwarded-uri" .uri)]
      (by simp [Action.Overwrites]) h) fun s t h => h.eq_of_nil) fun s t h => ?_
    subst h
    exact .refl s
  · rw [if_neg ha] at h ⊢
    exact .nil h.eq_of_nil

variable (env) in
theorem handle_together {req' : Request} (hrest : { req with headers := req'.headers } = req')
    (hout : outside cfg.boundary req.headers = outside cfg.boundary req'.headers) :
    (reading env req).Together cfg.acls Eq (rules cfg.feHttps) (start env req) (start env req') := by
  have hstart : AgreeOutside cfg.boundary (start env req) (start env req') := by
    rw [← hrest] at hout ⊢
    exact ⟨rfl, hout⟩
  simp only [feHttps, identity, rules_append, rules_routing, List.append_nil]
  rw [← rules_append, ← rules_append, ← rules_append, ← rules_append]
  refine Reading.Together.append (I := AgreeOutside cfg.boundary)
    (run_together_of hstart fun r hr => no_intercept_before hr) fun s t h => ?_
  refine Reading.Together.append (I := Eq) (Reading.Together.append (run_proxyBoundary h)
    fun s t h => run_forwardAuth h) fun s t h => ?_
  subst h
  exact .refl s

/-- The place, among the rules of `fe_https`, of the one that refuses a request. -/
def refusedAt (cfg : Config) (env : Env) (req : Request) : Option Nat :=
  (reading env req).refusedAt cfg.acls (rules cfg.feHttps) (start env req)

/-- Two requests the gateway refuses by one rule, or hands to one backend as the same request. -/
inductive ServesAlike (cfg : Config) (env : Env) (req req' : Request) : Prop where
  | refused {n : Nat} {v w : Refusal} (hv : cfg.serve env req = .refused v)
      (hw : cfg.serve env req' = .refused w) (hn : cfg.refusedAt env req = some n)
      (hn' : cfg.refusedAt env req' = some n)
  | routed {backend : Backend} {s : Txn} (h : cfg.serve env req = .routed backend s)
      (h' : cfg.serve env req' = .routed backend s)

end Config

/-- Two requests that differ in the headers the gateway alone writes are one to it: the same
rule refuses both, or the same backend gets the same request. -/
theorem pretended_headers_change_nothing (cfg : Config) (env : Env) {req req' : Request}
    (hrest : { req with headers := req'.headers } = req')
    (hout : outside cfg.boundary req.headers = outside cfg.boundary req'.headers) :
    cfg.ServesAlike env req req' := by
  have hreading : reading env req' = reading env req := by
    rw [← hrest]
    rfl
  obtain ⟨hends, hplace⟩ := Config.handle_together env hrest hout
  have hbackend : ∀ s, cfg.backend env req' s = cfg.backend env req s := fun s => by
    simp only [Config.backend, hreading]
  have hhandle : cfg.handle env req' =
      (reading env req).run cfg.acls (rules cfg.feHttps) (start env req') := by
    rw [Config.handle, hreading]
  have hat : cfg.refusedAt env req' =
      (reading env req).refusedAt cfg.acls (rules cfg.feHttps) (start env req') := by
    rw [Config.refusedAt, hreading]
  rw [← hhandle] at hends
  rw [← hat] at hplace
  change Reading.Alike Eq (cfg.handle env req) _ at hends
  cases hs : cfg.handle env req <;> cases ht : cfg.handle env req' <;> rw [hs, ht] at hends
  · rename_i v w
    obtain ⟨n, hn⟩ : ∃ n, cfg.refusedAt env req = some n := by
      refine Option.ne_none_iff_exists'.mp fun hnone => ?_
      obtain ⟨s, hok⟩ := Reading.refusedAt_eq_none.mp hnone
      rw [Config.handle, hok] at hs
      cases hs
    exact .refused (by rw [Config.serve, hs]) (by rw [Config.serve, ht]) hn (hplace.symm.trans hn)
  · cases hends
  · cases hends
  · cases hends with
    | ok hu =>
      subst hu
      refine .routed (by rw [Config.serve, hs]) ?_
      rw [Config.serve, ht]
      exact congrArg (Served.routed · _) (hbackend _)

/-- A visitor behind the sign-in, who also claims to be the operator. -/
def pretender : Request :=
  { shopRequest with headers := [("remote-user", "admin"), ("x-forwarded-uri", "/login"), ("accept", "*/*")] }

theorem pretended_headers_change_nothing_signIn :
    (Config.serve { sites := [signInSite] } signedInEnv pretender).backend? = some (.site "shop") ∧
      Config.ServesAlike { sites := [signInSite] } signedInEnv pretender
        { shopRequest with headers := [("accept", "*/*")] } :=
  ⟨by decide +kernel, pretended_headers_change_nothing { sites := [signInSite] } signedInEnv rfl (by decide)⟩

end EasyHaProxy.Haproxy
