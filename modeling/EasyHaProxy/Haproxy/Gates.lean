import EasyHaProxy.Haproxy.Inventory

/-! A request of a banned address, or one that a site's own gates turn away, is refused before it is routed.
-/
namespace EasyHaProxy.Haproxy

open Rules

/-! ## Names no site can take -/

namespace AclName

/-- How the names begin that a site or a rule has a part in. -/
def starts : List String :=
  ["host_", "other_excl_", "site_", "geo_allowed_", "too_many_errs_", "too_fast_", "sni_"]

/-- Texts with a part that the sites choose. -/
inductive Composed : String → Prop where
  | start {start : String} (rest : String) (h : start ∈ starts) : Composed (start ++ rest)
  | up (rest : String) : Composed (rest ++ "_up")

/-- The names the template writes as they are. -/
def plain : List AclName :=
  [ipAuthOk, adminControlPlaneProbe, adminMetricsScrape, alreadyBanned, banTrigger, hostAdmin,
    hostAuthelia, nosniTooOften] ++ fixed

/-- A name is written as it is, numbered after its authority, or composed. -/
inductive Shape (m : AclName) : Prop where
  | plain (h : m ∈ plain)
  | authority (i : Nat) (h : m = mtlsCa i)
  | composed (h : Composed m.text)

theorem shape (m : AclName) : Shape m := by
  have hs : ∀ (start : String) {rest : String}, start ∈ starts → m.text = start ++ rest → Shape m :=
    fun _ _ hs ht => .composed (ht ▸ .start _ hs)
  cases m with
  | host site => exact hs "host_" (by decide) rfl
  | otherExclPath rule => exact hs "other_excl_" (by decide) String.append_assoc
  | otherExclMeth rule => exact hs "other_excl_" (by decide) String.append_assoc
  | siteExPath site rule =>
    have htext : (siteExPath site rule).text =
        "site_" ++ (sanitize site ++ ("_ex" ++ (toString rule ++ "_path"))) := by
      change "site_" ++ sanitize site ++ "_ex" ++ toString rule ++ "_path" = _
      simp only [String.append_assoc]
    exact hs "site_" (by decide) htext
  | siteExMeth site rule =>
    have htext : (siteExMeth site rule).text =
        "site_" ++ (sanitize site ++ ("_ex" ++ (toString rule ++ "_meth"))) := by
      change "site_" ++ sanitize site ++ "_ex" ++ toString rule ++ "_meth" = _
      simp only [String.append_assoc]
    exact hs "site_" (by decide) htext
  | geoAllowedSite site => exact hs "geo_allowed_" (by decide) rfl
  | tooManyErrs site => exact hs "too_many_errs_" (by decide) rfl
  | tooFast site => exact hs "too_fast_" (by decide) rfl
  | siteIps site =>
    have htext : (siteIps site).text = "site_" ++ ("ips_" ++ sanitize site) := by
      rw [← String.append_assoc]
      rfl
    exact hs "site_" (by decide) htext
  | mtlsCa index => exact .authority index rfl
  | sni site => exact hs "sni_" (by decide) rfl
  | up site => exact .composed (.up _)
  | _ => exact .plain (by decide)

/-- A text that begins like no site's name and does not end like one is not composed. -/
theorem not_composed {text : String} (hstart : ∀ start ∈ starts, start.toList.isPrefixOf text.toList = false)
    (hend : text.toList.getLast? ≠ some 'p') : ¬ Composed text := by
  intro h
  cases h with
  | @start start rest h =>
    have hno := hstart start h
    rw [String.toList_append] at hno
    exact absurd hno (by simp)
  | up rest =>
    refine hend ?_
    rw [String.toList_append, show "_up".toList = ['_', 'u', 'p'] from rfl, List.getLast?_append]
    rfl

theorem toList_text_mtlsCa (i : Nat) :
    (mtlsCa i).text.toList = "mtls_ca_".toList ++ Nat.toDigits 10 i := by
  rw [← Nat.toList_repr, ← String.toList_append]
  rfl

/-- Names that no other line is written with. -/
def owned : List AclName :=
  [ipWhitelist, allowedAdmin, ipAuthOk, adminControlPlaneProbe, adminMetricsScrape, mtlsPresent,
    mtlsVerified]

theorem eq_of_text_owned {n m : AclName} (hn : n ∈ owned) (h : m.text = n.text) : m = n := by
  cases shape m with
  | plain hm =>
    have hplain : ∀ n ∈ owned, ∀ m ∈ plain, m.text = n.text → m = n := by decide
    exact hplain n hn m hm h
  | authority i hm =>
    have hno : ∀ n ∈ owned, "mtls_ca_".toList.isPrefixOf n.text.toList = false := by decide
    have hthis := hno n hn
    rw [← h, hm, toList_text_mtlsCa] at hthis
    exact absurd hthis (by simp)
  | composed hm =>
    have hstarts : ∀ n ∈ owned, ∀ start ∈ starts,
        start.toList.isPrefixOf n.text.toList = false := by decide
    have hends : ∀ n ∈ owned, n.text.toList.getLast? ≠ some 'p' := by decide
    exact absurd (h ▸ hm) (not_composed (hstarts n hn) (hends n hn))

/-- An authority's name is its own too: it ends in a digit. -/
theorem eq_of_text_mtlsCa {m : AclName} {i : Nat} (h : m.text = (mtlsCa i).text) : m = mtlsCa i := by
  have htext := congrArg String.toList h
  rw [toList_text_mtlsCa] at htext
  cases shape m with
  | plain hm =>
    have hno : ∀ m ∈ plain, "mtls_ca_".toList.isPrefixOf m.text.toList = false := by decide
    have hthis := hno m hm
    rw [htext] at hthis
    exact absurd hthis (by simp)
  | authority j hm =>
    subst hm
    rw [toList_text_mtlsCa] at htext
    have hvalue := congrArg (Nat.ofDigitChars 10 · 0) (List.append_cancel_left htext)
    simp only [Nat.ofDigitChars_ten_toDigits] at hvalue
    rw [hvalue]
  | composed hm =>
    refine absurd (h ▸ hm) (not_composed ?_ ?_)
    · intro start hstart
      rw [toList_text_mtlsCa]
      simp only [starts, List.mem_cons, List.not_mem_nil, or_false] at hstart
      rcases hstart with rfl | rfl | rfl | rfl | rfl | rfl | rfl <;> rfl
    · rw [toList_text_mtlsCa, List.getLast?_append]
      cases hlast : (Nat.toDigits 10 i).getLast? with
      | none => exact absurd (List.getLast?_eq_none_iff.mp hlast) Nat.toDigits_ne_nil
      | some c =>
        have hdigit := Nat.isDigit_of_mem_toDigits (by decide) (by decide) (List.mem_of_getLast? hlast)
        rintro ⟨rfl⟩
        exact absurd hdigit (by decide)

end AclName

/-! ## Rules that were not met -/

/-- Read from the request, the lists, the servers and the Host only. -/
def Settled : Operand → Prop
  | .acl n | .notAcl n => n.Settled
  | .test t | .notTest t => t.static = true

section Steps

variable {cfg : Config} {env : Env} {req : Request} {s t : Txn} {a : Action} {c : List Operand}

theorem holds_of_settled (hc : ∀ o ∈ c, Settled o) (hh : t.host = s.host) :
    (reading env req).holds cfg.acls t c = (reading env req).holds cfg.acls s c := by
  induction c with
  | nil => rw [Reading.holds_nil, Reading.holds_nil]
  | cons o c ih =>
    rw [Reading.holds_cons, Reading.holds_cons, ih fun o ho => hc o (List.mem_cons_of_mem _ ho)]
    have ho := hc o List.mem_cons_self
    cases o with
    | acl n => rw [Reading.operand_acl, Reading.operand_acl, named_of_settled ho hh]
    | notAcl n => rw [Reading.operand_notAcl, Reading.operand_notAcl, named_of_settled ho hh]
    | test q =>
      have hq : (reading env req).test t q = (reading env req).test s q := test_of_static ho hh
      rw [Reading.operand_test, Reading.operand_test, hq]
    | notTest q =>
      have hq : (reading env req).test t q = (reading env req).test s q := test_of_static ho hh
      rw [Reading.operand_notTest, Reading.operand_notTest, hq]

/-- The variables the forward-auth question writes. -/
def authVars : List Var :=
  [.authResponseSuccessful, .authResponseCode, .authResponseLocation, .authResponseRemoteUser]

section Frame

variable {X : Type} {f : Txn → X}

theorem copied_frame (huser : ∀ s x, f (Txn.setVar s .authResponseRemoteUser x) = f s)
    (hheaders : ∀ (s : Txn) headers, f { s with headers := headers } = f s) (ok : Bool)
    (headers : List (String × String)) (s : Txn) : f (headers.foldl (copyAuthHeader ok) s) = f s := by
  have hcopy : ∀ (s : Txn) (h : String × String), f (copyAuthHeader ok s h) = f s := by
    intro s h
    unfold copyAuthHeader
    dsimp only
    split_ifs <;> simp only [huser, hheaders]
  induction headers generalizing s with
  | nil => rfl
  | cons h headers ih => exact (ih _).trans (hcopy s h)

/-- The forward-auth question writes its variables and headers only. -/
theorem authRequest_frame (hvar : ∀ s, ∀ v ∈ authVars, ∀ x, f (Txn.setVar s v x) = f s)
    (hheaders : ∀ (s : Txn) headers, f { s with headers := headers } = f s) (env : Env) (s : Txn) :
    f (authRequest env s) = f s := by
  have hsuccessful := fun s => hvar s .authResponseSuccessful (by decide)
  have hcode := fun s => hvar s .authResponseCode (by decide)
  have hlocation := fun s => hvar s .authResponseLocation (by decide)
  have hcopied := copied_frame (fun s => hvar s .authResponseRemoteUser (by decide)) hheaders
  unfold authRequest
  dsimp only
  split
  · simp only [hcode, hsuccessful]
  · split_ifs <;> simp only [hcode, hsuccessful, hlocation, hcopied]

end Frame

theorem host_of_perform (ha : a ≠ .stripDefaultPort) (h : perform env req a s = .ok t) :
    t.host = s.host := by
  cases a with
  | stripDefaultPort => exact absurd rfl ha
  | authIntercept =>
    cases h
    exact authRequest_frame (f := Txn.host) (fun _ _ _ _ => rfl) (fun _ _ => rfl) env s
  | deny status cause => cases h
  | redirect cause => cases h
  | auth cause => cases h
  | reject cause => cases h
  | _ =>
    cases h
    rfl

theorem perform_of_refuses (ha : a.refuses = true) : perform env req a s ≠ .ok t := by
  cases a with
  | deny status cause => exact fun h => nomatch h
  | redirect cause => exact fun h => nomatch h
  | auth cause => exact fun h => nomatch h
  | reject cause => exact fun h => nomatch h
  | _ => cases ha

end Steps

namespace Config

variable {cfg : Config} {env : Env} {req : Request} {s : Txn} {a : Action} {c : List Operand}

/-- The front end past the rule for the default port. -/
def pastPort (cfg : Config) : List Line :=
  cfg.reception ++ cfg.accounting ++ cfg.banned ++ cfg.refusals ++ cfg.identity ++ cfg.routing

theorem feHttps_eq : cfg.feHttps = defaultPort ++ cfg.pastPort := by
  simp only [feHttps, pastPort, List.append_assoc]

theorem not_port_of_mem (h : .rule a c ∈ cfg.pastPort) : a ≠ .stripDefaultPort := by
  simp only [pastPort, List.mem_append] at h
  rintro rfl
  rcases h with ((((h | h) | h) | h) | h) | h
  · cases act_of_mem_reception h
  · cases act_of_mem_accounting h
  · cases refuses_of_mem_banned h
  · cases act_of_mem_refusals h with
    | refuse h => cases h
  · cases act_of_mem_identity h
  · rw [← mem_rules, rules_routing] at h
    cases h

theorem not_met (h : cfg.handle env req = .ok s) (hmem : .rule a c ∈ cfg.pastPort)
    (ha : a.refuses = true) (hc : ∀ o ∈ c, Settled o) :
    (reading env req).holds cfg.acls s c = false := by
  rw [handle, feHttps_eq, rules_append] at h
  obtain ⟨u, -, hrest⟩ := Reading.run_append_ok h
  have hframe : ∀ r ∈ rules cfg.pastPort, ∀ s t : Txn, (reading env req).perform r.1 s = .ok t →
      t.host = s.host := fun r hr s t hp => host_of_perform (not_port_of_mem (mem_rules.mp hr)) hp
  have hu := Reading.not_holds_of_run hrest (mem_rules.mpr hmem) (fun v w => perform_of_refuses ha)
    hframe fun v hv => holds_of_settled hc hv
  rwa [holds_of_settled hc (Reading.run_frame hrest hframe)]

/-! ## Routes -/

theorem not_use_of_mem_reception {b : Backend} : Rules.Line.use b c ∉ cfg.reception := by
  simp only [reception, List.mem_append]
  rintro ((((((h | h) | h) | h) | h) | h) | h)
  · simp [hardFloor] at h
  · simp [lists] at h
  · simp only [sniHost, siteHosts, List.mem_append, List.mem_cons, List.mem_map, List.not_mem_nil,
      reduceCtorEq, or_false, false_or, and_false, exists_false] at h
    rcases h with h | h
    · unfold adminHost at h
      split at h <;> simp at h
    · unfold autheliaHost at h
      split at h <;> simp at h
  · simp only [otherExclusions, List.mem_append, List.mem_cons, List.mem_ite_nil_right,
      List.not_mem_nil, reduceCtorEq, or_false, false_or, List.mem_flatMap] at h
    obtain ⟨-, ⟨ex, rule⟩, -, h⟩ := h
    dsimp only at h
    split_ifs at h <;> simp at h
  · simp only [siteExclusions, List.mem_flatMap, List.mem_append, List.mem_cons, List.not_mem_nil,
      reduceCtorEq, or_false, false_or] at h
    obtain ⟨site, -, ⟨ex, rule⟩, -, h⟩ := h
    dsimp only at h
    split at h
    · cases h
    · split_ifs at h <;> simp at h
  · simp [geoip, geoFilter, geoSites] at h
  · simp [zeroTrustRules] at h

theorem not_use_of_mem_accounting {b : Backend} : Rules.Line.use b c ∉ cfg.accounting := by
  simp [accounting, errorTracking, trackSite, trackOther, thresholds, errorBan, rateLimit, rateSite]

theorem not_use_of_mem_refusals {b : Backend} : Rules.Line.use b c ∉ cfg.refusals := by
  simp [refusals, newBan, adminProtection, limits, requestLimits, errorLimits, addressLists,
    sniHostValidation, clientCertificates]

theorem not_use_of_mem_identity {b : Backend} : Rules.Line.use b c ∉ cfg.identity := by
  simp [identity, proxyBoundary, forwardAuthRules, intercept, trustMarker]

/-- A site's backend is chosen where its name holds and a server of it is up. -/
theorem cond_of_use_site {name : String} (h : .use (.site name) c ∈ cfg.feHttps) :
    c = [.acl (.up name), .acl (.host name)] := by
  simp only [feHttps, List.mem_append] at h
  rcases h with (((((h | h) | h) | h) | h) | h) | h
  · simp [defaultPort] at h
  · exact absurd h not_use_of_mem_reception
  · exact absurd h not_use_of_mem_accounting
  · simp [banned] at h
  · exact absurd h not_use_of_mem_refusals
  · exact absurd h not_use_of_mem_identity
  · simp only [routing, upAcls, controlPlaneRoutes, List.mem_append, List.mem_flatMap,
      List.mem_ite_nil_right, List.mem_cons, List.not_mem_nil, Line.use.injEq, reduceCtorEq,
      or_false, false_or, false_and, and_false, exists_false] at h
    obtain ⟨site, -, h⟩ := h
    unfold siteRoute at h
    split_ifs at h <;> simp at h
    obtain ⟨rfl, rfl⟩ := h
    rfl

theorem host_of_routed {name : String} (h : cfg.serve env req = .routed (.site name) s) :
    cfg.handle env req = .ok s ∧ (reading env req).named cfg.acls s (.host name) = true := by
  unfold serve at h
  split at h
  · cases h
  · rename_i t ht
    obtain ⟨hb, rfl⟩ := Served.routed.inj h
    refine ⟨ht, ?_⟩
    unfold backend at hb
    cases hroute : (reading env req).route cfg.acls (Rules.uses cfg.feHttps) t with
    | none =>
      rw [hroute] at hb
      cases hb
    | some b =>
      rw [hroute, Option.getD_some] at hb
      subst hb
      obtain ⟨c, hmem, hc⟩ := Reading.exists_of_route hroute
      rw [cond_of_use_site (mem_uses.mp hmem), Reading.holds_cons, Reading.holds_cons, Reading.holds_nil,
        Bool.and_true, Bool.and_eq_true] at hc
      exact hc.2

/-! ## Client certificates -/

theorem mem_mtlsCaIds {site : Site} (h : site ∈ cfg.mtlsSites) : cfg.mtlsCaId site ∈ cfg.mtlsCaIds := by
  have hkeep : ∀ (l : List String) (ids : List String), ∀ id ∈ ids ++ l,
      id ∈ l.foldl (fun ids id => if id ∈ ids then ids else ids ++ [id]) ids := by
    intro l
    induction l with
    | nil => simp
    | cons x l ih =>
      intro ids id hid
      refine ih _ id ?_
      dsimp only
      rw [List.mem_append, List.mem_cons] at hid
      split
      · rename_i hx
        rcases hid with hid | rfl | hid
        exacts [List.mem_append_left _ hid, List.mem_append_left _ hx, List.mem_append_right _ hid]
      · rcases hid with hid | rfl | hid <;> simp [*]
  exact hkeep _ [] _ (List.mem_map_of_mem h)

/-- The number an authority is written with finds it again. -/
theorem mtlsCa_of_index {caId caId' : String} (h : (caId, cfg.mtlsCaIds.idxOf caId' + 1) ∈ cfg.mtlsCaIds.zipIdx 1)
    (hmem : caId' ∈ cfg.mtlsCaIds) : caId = caId' := by
  obtain ⟨hle, hget⟩ := List.mem_zipIdx_iff_le_and_getElem?_sub.mp h
  simp only [Nat.add_sub_cancel] at hget
  rw [List.getElem?_eq_getElem (List.idxOf_lt_length_of_mem hmem), List.getElem_idxOf] at hget
  exact (Option.some.inj hget).symm

theorem mtls_rules {site : Site} (h : site ∈ cfg.mtlsSites) :
    (∀ c ∈ ([[.acl .mtlsPresent, .notAcl .mtlsVerified],
        [.acl .mtlsPresent, .notAcl (.mtlsCa (cfg.mtlsCaIds.idxOf (cfg.mtlsCaId site) + 1))],
        [.acl .mtlsPresent, .acl .mtlsRevoked]] : List (List Operand)),
      .rule (.deny 403 (.mtls site.name)) (.acl (.host site.name) :: c) ∈ cfg.pastPort) ∧
    (cfg.mtlsMode site = .required →
      .rule (.deny 403 (.mtls site.name)) [.acl (.host site.name), .notAcl .mtlsPresent] ∈
        cfg.pastPort) := by
  have hne : cfg.mtlsSites ≠ [] := List.ne_nil_of_mem h
  have hsub : ∀ l : Line, l ∈ cfg.clientCertificates → l ∈ cfg.pastPort := by
    intro l hl
    simp only [pastPort, refusals, List.mem_append]
    tauto
  constructor
  · intro c hc
    refine hsub _ ?_
    simp only [clientCertificates, List.isEmpty_iff, if_neg hne, List.mem_append, List.mem_flatMap]
    exact Or.inr ⟨site, h, Or.inr (by simpa using hc)⟩
  · intro hmode
    refine hsub _ ?_
    simp only [clientCertificates, List.isEmpty_iff, if_neg hne, List.mem_append, List.mem_flatMap]
    exact Or.inr ⟨site, h, Or.inl (by simp [hmode])⟩

/-- A name of one line, of a text that no other has, says what its line says. -/
theorem named_eq_test {n : AclName} {t : Test} (hown : ∀ m : AclName, m.text = n.text → m = n)
    (hmem : .acl n t ∈ cfg.feHttps) (honly : ∀ q, Declared cfg n q → q = t) :
    (reading env req).named cfg.acls s n = test env req s t := by
  rw [Bool.eq_iff_iff, Reading.named_iff_of_own fun m q _ htext => hown m htext]
  constructor
  · rintro ⟨q, hq, htest⟩
    rwa [← honly q (declared_of_mem hq)]
  · exact fun htest => ⟨t, mem_acls.mpr hmem, htest⟩

theorem named_owned {n : AclName} {t : Test} (hn : n ∈ AclName.owned) (hmem : .acl n t ∈ cfg.feHttps)
    (honly : ∀ q, Declared cfg n q → q = t) :
    (reading env req).named cfg.acls s n = test env req s t :=
  named_eq_test (fun _ h => AclName.eq_of_text_owned hn h) hmem honly

theorem mem_feHttps_of_certificates {l : Line} (h : l ∈ cfg.clientCertificates) : l ∈ cfg.feHttps := by
  simp only [feHttps, refusals, List.mem_append]
  tauto

theorem named_certificate {site : Site} (h : site ∈ cfg.mtlsSites) :
    (reading env req).named cfg.acls s .mtlsPresent = test env req s .sslCUsed ∧
    (reading env req).named cfg.acls s .mtlsVerified = test env req s .sslCVerified ∧
    ((reading env req).named cfg.acls s .mtlsRevoked = false → test env req s .sslCRevoked = false) ∧
    (reading env req).named cfg.acls s (.mtlsCa (cfg.mtlsCaIds.idxOf (cfg.mtlsCaId site) + 1)) =
      test env req s (.sslCIssuer (cfg.mtlsCaId site)) := by
  have hne : ¬ cfg.mtlsSites.isEmpty = true := by simpa using List.ne_nil_of_mem h
  have hmem : ∀ l : Line, l ∈ ([.acl .mtlsPresent .sslCUsed, .acl .mtlsVerified .sslCVerified,
      .acl .mtlsRevoked .sslCRevoked] : List Line) → l ∈ cfg.feHttps := by
    intro l hl
    refine mem_feHttps_of_certificates ?_
    unfold clientCertificates
    rw [if_neg hne]
    exact List.mem_append_left _ (List.mem_append_left _ hl)
  refine ⟨?_, ?_, ?_, ?_⟩
  · exact named_owned (n := .mtlsPresent) (by decide) (hmem _ (by simp)) fun q hq => by cases hq; rfl
  · exact named_owned (n := .mtlsVerified) (by decide) (hmem _ (by simp)) fun q hq => by cases hq; rfl
  · intro hrevoked
    by_contra hc
    have hnamed : (reading env req).named cfg.acls s .mtlsRevoked = true :=
      Reading.named_iff.mpr ⟨.mtlsRevoked, .sslCRevoked, mem_acls.mpr (hmem _ (by simp)), rfl,
        Bool.not_eq_false _ ▸ hc⟩
    rw [hrevoked] at hnamed
    cases hnamed
  · have hca : (cfg.mtlsCaId site, cfg.mtlsCaIds.idxOf (cfg.mtlsCaId site) + 1) ∈ cfg.mtlsCaIds.zipIdx 1 := by
      rw [List.mem_zipIdx_iff_le_and_getElem?_sub, Nat.add_sub_cancel,
        List.getElem?_eq_getElem (List.idxOf_lt_length_of_mem (mem_mtlsCaIds h)), List.getElem_idxOf]
      exact ⟨by omega, rfl⟩
    refine named_eq_test (fun _ h => AclName.eq_of_text_mtlsCa h) (mem_feHttps_of_certificates ?_)
      fun q hq => ?_
    · unfold clientCertificates
      rw [if_neg hne]
      exact List.mem_append_left _ (List.mem_append_right _ (List.mem_map.mpr ⟨_, hca, rfl⟩))
    · cases hq with
      | mtlsCa hcaId => rw [mtlsCa_of_index hcaId (mem_mtlsCaIds h)]

end Config

/-- The backend a request was handed to, if it was not refused. -/
def Served.backend? : Served → Option Backend
  | .refused _ => none
  | .routed backend _ => some backend

def Config.WhenRouted (cfg : Config) (env : Env) (req : Request) (P : Backend → Txn → Prop) : Prop :=
  match cfg.serve env req with
  | .refused _ => True
  | .routed backend s => P backend s

section Gates

variable {cfg : Config} {env : Env} {req : Request} {s : Txn} {site : Site}

theorem whenRouted_of {P : Backend → Txn → Prop} (h : ∀ b s, cfg.serve env req = .routed b s → P b s) :
    cfg.WhenRouted env req P := by
  unfold Config.WhenRouted
  split
  · trivial
  · rename_i b s hserve
    exact h b s hserve

def Fit (cfg : Config) (env : Env) (site : Site) (cert : Certificate) : Prop :=
  cert.verified = true ∧ env.revoked cert.fingerprint = false ∧
    env.issuers (cfg.mtlsCaId site) cert.issuerCn = true

theorem certificate_of_routed (hsite : site ∈ cfg.published) (hmtls : cfg.mtls site = true)
    (h : cfg.serve env req = .routed (.site site.name) s) :
    (cfg.mtlsMode site = .required → req.certificate.isSome) ∧
      ∀ cert, req.certificate = some cert → Fit cfg env site cert := by
  obtain ⟨hhandle, hhost⟩ := Config.host_of_routed h
  have hmem : site ∈ cfg.mtlsSites := List.mem_filter.mpr ⟨hsite, hmtls⟩
  obtain ⟨hpresent, hverified, hrevoked, hissuer⟩ :=
    @Config.named_certificate cfg env req s site hmem
  obtain ⟨hoptional, hrequired⟩ := Config.mtls_rules hmem
  have hsettled : ∀ n ∈ ([.mtlsPresent, .mtlsVerified, .mtlsRevoked] : List AclName), n.Settled :=
    fun n hn => AclName.settled_fixed (by revert n; decide)
  have hno : ∀ c, .rule (.deny 403 (.mtls site.name)) (.acl (.host site.name) :: c) ∈ cfg.pastPort →
      (∀ o ∈ c, Settled o) → (reading env req).holds cfg.acls s c = false := by
    intro c hc hs
    have hmet := Config.not_met hhandle hc rfl
      (List.forall_mem_cons.mpr ⟨AclName.settled_host site.name, hs⟩)
    rwa [Reading.holds_cons, Reading.operand_acl, hhost, Bool.true_and] at hmet
  constructor
  · intro hmode
    have hmet := hno _ (hrequired hmode) (by simpa [Settled] using hsettled .mtlsPresent (by decide))
    simpa [hpresent, test] using hmet
  · intro cert hcert
    have hused : (reading env req).named cfg.acls s .mtlsPresent = true := by simp [hpresent, test, hcert]
    have hpresentS := hsettled .mtlsPresent (by decide)
    have hv := hno _ (hoptional _ (.head _))
      (by simpa [Settled] using ⟨hpresentS, hsettled .mtlsVerified (by decide)⟩)
    have hi := hno _ (hoptional _ (.tail _ (.head _)))
      (by simpa [Settled] using ⟨hpresentS, AclName.settled_mtlsCa _⟩)
    have hr := hno _ (hoptional _ (.tail _ (.tail _ (.head _))))
      (by simpa [Settled] using ⟨hpresentS, hsettled .mtlsRevoked (by decide)⟩)
    simp only [Reading.holds_cons, Reading.holds_nil, Reading.operand_acl, Reading.operand_notAcl, hused,
      Bool.true_and, Bool.and_true, Bool.not_eq_false'] at hv hi hr
    rw [hverified] at hv
    rw [hissuer] at hi
    have hr' := hrevoked hr
    simp only [test, hcert, Option.any_some] at hv hi hr'
    exact ⟨hv, hr', hi⟩

end Gates

/-- A site that asks for client certificates gets only requests with none, where it may be none,
or with one that verified, that is not revoked and that the site's own authority issued. -/
theorem certificates_before_backend (cfg : Config) (env : Env) (req : Request) {site : Site}
    (hsite : site ∈ cfg.published) (hmtls : cfg.mtls site = true) :
    cfg.WhenRouted env req fun backend _ => backend = .site site.name →
      (cfg.mtlsMode site = .required → req.certificate.isSome) ∧
        ∀ cert, req.certificate = some cert → Fit cfg env site cert := by
  refine whenRouted_of fun b s hserve hb => ?_
  subst hb
  exact certificate_of_routed hsite hmtls hserve

/-- A gateway that no list, counter or answer says anything to. -/
def quietEnv : Env where
  inFile _ _ := false
  inNet _ _ := false
  pathReg _ _ := false
  nbsrv _ := 1
  gpc0 _ := 0
  httpErrRate _ := 0
  httpReqRate _ := 0
  feHttpsReqRate := 0
  connRate := 0
  connCur := 0
  nosniRate := 0
  revoked _ := false
  issuers _ _ := true
  statsAuth _ _ := false
  proxySecret := ""
  authelia _ := none

/-- A site that asks for the certificates of its own authority. -/
def guardedSite : Site :=
  { name := "shop", domain := "shop.example.com", mtlsMode := some .required, mtlsCaId := some "shop-ca" }

def shopRequest : Request :=
  { src := "192.0.2.7", sni := some "shop.example.com", host := ["shop.example.com"],
    certificate := some ⟨true, "CN=a", "shop-ca", "01", "f1"⟩ }

theorem certificates_before_backend_guarded :
    Config.WhenRouted { sites := [guardedSite] } quietEnv shopRequest fun backend _ =>
      backend = .site "shop" → (MtlsMode.required = .required → shopRequest.certificate.isSome) ∧
        ∀ cert, shopRequest.certificate = some cert →
          Fit { sites := [guardedSite] } quietEnv guardedSite cert :=
  certificates_before_backend { sites := [guardedSite] } quietEnv shopRequest (List.mem_singleton.mpr rfl) rfl

end EasyHaProxy.Haproxy
