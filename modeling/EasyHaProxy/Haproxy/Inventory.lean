import EasyHaProxy.Haproxy.Frontend

/-! Every ACL line of `fe_https` with the test it writes, which of them can change their answer while a
request is handled, and what the rules of each section can do. -/
namespace EasyHaProxy.Haproxy

open Rules

/-- The ACL lines of `fe_https`, one constructor for each place of the template. -/
inductive Declared (cfg : Config) : AclName → Test → Prop where
  | ipWhitelist : Declared cfg .ipWhitelist (.srcFile .whitelistGlobal)
  | allowedAdmin (h : cfg.adminIpsEnabled) : Declared cfg .allowedAdmin (.srcFile .adminIps)
  | ipAuthOk (h : cfg.autheliaEnabled) : Declared cfg .ipAuthOk (.srcGpc0 .ipAuth)
  | sniFound : Declared cfg .sniFound .sniFound
  | validSni : Declared cfg .validSni (.sniIs cfg.allHosts)
  | validHost : Declared cfg .validHost (.hostIs cfg.allHosts)
  | host {site : Site} (h : site ∈ cfg.published) :
      Declared cfg (.host site.name) (.hostIs (cfg.hostnames site))
  | hostAdmin {domain : String} (h : cfg.adminDomain = some domain) :
      Declared cfg .hostAdmin (.hostIs [domain])
  | pathStats (h : cfg.adminDomain.isSome) :
      Declared cfg .pathStats (.pathIs .pathBeg ["/stats"])
  | localProbe (h : cfg.adminDomain.isSome) :
      Declared cfg .localControlPlaneProbe (.src ["127.0.0.1"])
  | probePath (h : cfg.adminDomain.isSome) :
      Declared cfg .adminControlPlaneProbePath (.pathIs .path ["/api/control-plane-health"])
  | probeMethod (h : cfg.adminDomain.isSome) :
      Declared cfg .adminControlPlaneProbeMethod (.method ["GET"])
  | probe (h : cfg.adminDomain.isSome) :
      Declared cfg .adminControlPlaneProbe (.varBool .adminControlPlaneProbe)
  | scrapeSource (h : cfg.adminDomain.isSome) :
      Declared cfg .metricsScrapeSource (.src cfg.metricsScrapeSources)
  | scrapePath (h : cfg.adminDomain.isSome) :
      Declared cfg .metricsScrapePath (.pathIs .path ["/metrics"])
  | scrapeMethod (h : cfg.adminDomain.isSome) :
      Declared cfg .metricsScrapeMethod (.method ["GET"])
  | scrape (h : cfg.adminDomain.isSome) :
      Declared cfg .adminMetricsScrape (.varBool .adminMetricsScrape)
  | hostAuthelia {domain : String} (h : cfg.autheliaDomain = some domain) :
      Declared cfg .hostAuthelia (.hostIs [domain])
  | pathAccessGranted (h : cfg.autheliaDomain.isSome) :
      Declared cfg .pathAccessGranted (.pathIs .path ["/access_granted"])
  | errAssetPath (suffixes : List String) :
      Declared cfg .errAssetPath (.pathIs .pathEnd suffixes)
  | otherExclPath (rule : Nat) (path : String) :
      Declared cfg (.otherExclPath rule) (.pathIs .path [path])
  | otherExclMeth (rule : Nat) (methods : List String) :
      Declared cfg (.otherExclMeth rule) (.method methods)
  | siteExPath {site : Site} (h : site ∈ cfg.published) {ex : ErrExclude} {rule : Nat}
      (he : (ex, rule) ∈ ((cfg.effective site).errExclude.getD []).zipIdx 1) {pattern : Test}
      (hp : ex.matcher = some pattern) : Declared cfg (.siteExPath site.name rule) pattern
  | siteExMeth {site : Site} (h : site ∈ cfg.published) {ex : ErrExclude} {rule : Nat}
      (he : (ex, rule) ∈ ((cfg.effective site).errExclude.getD []).zipIdx 1)
      (hp : ex.matcher.isSome) (hm : ex.methods ≠ []) :
      Declared cfg (.siteExMeth site.name rule) (.method ex.methods)
  | geoAllowed (h : cfg.enableGeoip) : Declared cfg .geoAllowed (.srcFile .geoAllowed)
  | geoWhitelist (h : cfg.enableGeoip) : Declared cfg .geoWhitelist (.srcFile .whitelistGeo)
  | geoBypass (h : cfg.enableGeoip) : Declared cfg .geoBypass (.hostIs cfg.geoBypass)
  | geoFilterDomains (h : cfg.enableGeoip) :
      Declared cfg .geoFilterDomains (.hostIs cfg.geoNames)
  | geoAllowedSite (hg : cfg.enableGeoip) {site : Site} (h : site ∈ cfg.published)
      (hd : cfg.geoDisabled site = false) {country : String} (hc : country ∈ site.geoCountries) :
      Declared cfg (.geoAllowedSite site.name) (.srcFile (.country country.toUpper))
  | alreadyBanned : Declared cfg .alreadyBanned (.srcGpc0 .ban)
  | tooManyErrs {site : Site} (h : site ∈ cfg.published) (hr : cfg.restricted site = false) :
      Declared cfg (.tooManyErrs site.name) (.srcHttpErrRateGt (.err site.name) (cfg.errLimit site))
  | tooManyErrsOther :
      Declared cfg .tooManyErrsOther (.srcHttpErrRateGt .errOther cfg.siteDefaults.otherErrLimit)
  | tooFast {site : Site} (h : site ∈ cfg.published) (hr : cfg.rateLimited site) :
      Declared cfg (.tooFast site.name) (.srcHttpReqRateGt (.rate site.name) (cfg.maxReqRate site))
  | banTrigger : Declared cfg .banTrigger (.varPos .banCode)
  | authOk : Declared cfg .authOk .httpAuth
  | siteIps {site : Site} (h : site ∈ cfg.published) (hr : cfg.restricted site) :
      Declared cfg (.siteIps site.name) (.src (cfg.allowIps site))
  | mtlsPresent : Declared cfg .mtlsPresent .sslCUsed
  | mtlsVerified : Declared cfg .mtlsVerified .sslCVerified
  | mtlsRevoked : Declared cfg .mtlsRevoked .sslCRevoked
  | mtlsCa {caId : String} {index : Nat} (h : (caId, index) ∈ cfg.mtlsCaIds.zipIdx 1) :
      Declared cfg (.mtlsCa index) (.sslCIssuer caId)
  | mtlsHost : Declared cfg .mtlsHost (.hostIs (cfg.mtlsSites.flatMap cfg.hostnames))
  | autheliaProtected (h : cfg.autheliaEnabled) :
      Declared cfg .autheliaProtected (.hostIs cfg.authHosts)
  | up {site : Site} (h : site ∈ cfg.published) (hb : cfg.hasBackend site) :
      Declared cfg (.up site.name) (.nbsrv (.site site.name))
  | adminUp (h : cfg.adminDomain.isSome) : Declared cfg .adminUp (.nbsrv .admin)
  | autheliaUp (h : cfg.autheliaDomain.isSome) : Declared cfg .autheliaUp (.nbsrv .authelia)

namespace Config

variable {cfg : Config} {n : AclName} {t : Test}

theorem declared_of_mem_sniHost (h : .acl n t ∈ cfg.sniHost) : Declared cfg n t := by
  simp only [sniHost, List.mem_append, List.mem_cons, siteHosts, List.mem_map] at h
  rcases h with (((h | h) | h) | h) | h
  · rcases h with h | h | h
    · cases h
      exact .sniFound
    · cases h
      exact .validSni
    · cases h
  · obtain ⟨site, hsite, h⟩ := h
    cases h
    exact .host hsite
  · unfold adminHost at h
    split at h
    · cases h
    · rename_i domain hd
      have hs : cfg.adminDomain.isSome := by simp [hd]
      simp only [List.mem_append, List.mem_cons, List.mem_ite_nil_right, List.not_mem_nil,
        Line.acl.injEq, reduceCtorEq, or_false, false_or] at h
      rcases h with (⟨rfl, rfl⟩ | ⟨rfl, rfl⟩ | ⟨rfl, rfl⟩ | ⟨rfl, rfl⟩ | ⟨rfl, rfl⟩ | ⟨rfl, rfl⟩) |
        ⟨-, ⟨rfl, rfl⟩ | ⟨rfl, rfl⟩ | ⟨rfl, rfl⟩ | ⟨rfl, rfl⟩⟩
      exacts [.hostAdmin hd, .pathStats hs, .localProbe hs, .probePath hs, .probeMethod hs, .probe hs,
        .scrapeSource hs, .scrapePath hs, .scrapeMethod hs, .scrape hs]
  · unfold autheliaHost at h
    split at h
    · cases h
    · rename_i domain hd
      simp only [List.mem_cons, List.not_mem_nil, Line.acl.injEq, or_false] at h
      rcases h with ⟨rfl, rfl⟩ | ⟨rfl, rfl⟩
      exacts [.hostAuthelia hd, .pathAccessGranted (by simp [hd])]
  · rcases h with h | h
    · cases h
      exact .validHost
    · cases h

theorem declared_of_mem_exclusions (h : .acl n t ∈ cfg.otherExclusions ++ cfg.siteExclusions) :
    Declared cfg n t := by
  rcases List.mem_append.mp h with h | h
  · simp only [otherExclusions, List.mem_append, List.mem_cons, List.mem_ite_nil_right,
      List.not_mem_nil, Line.acl.injEq, reduceCtorEq, or_false, List.mem_flatMap] at h
    rcases h with (⟨rfl, rfl⟩ | ⟨rfl, rfl⟩ | ⟨rfl, rfl⟩) | ⟨-, ⟨ex, rule⟩, -, h⟩
    · exact .errAssetPath _
    · exact .errAssetPath _
    · exact .errAssetPath _
    · dsimp only at h
      split at h
      · cases h
      · split at h <;>
          simp only [List.mem_cons, List.not_mem_nil, Line.acl.injEq, reduceCtorEq, or_false] at h
        · obtain ⟨rfl, rfl⟩ := h
          exact .otherExclPath _ _
        · rcases h with ⟨rfl, rfl⟩ | ⟨rfl, rfl⟩
          exacts [.otherExclPath _ _, .otherExclMeth _ _]
  · simp only [siteExclusions, List.mem_flatMap, List.mem_append, List.mem_cons, List.not_mem_nil,
      reduceCtorEq, or_false, false_or] at h
    obtain ⟨site, hsite, ⟨ex, rule⟩, hex, h⟩ := h
    dsimp only at h
    split at h
    · cases h
    · rename_i pattern hp
      split at h <;>
        simp only [List.mem_cons, List.not_mem_nil, Line.acl.injEq, reduceCtorEq, or_false] at h
      · obtain ⟨rfl, rfl⟩ := h
        exact .siteExPath hsite hex hp
      · rename_i hm
        rcases h with ⟨rfl, rfl⟩ | ⟨rfl, rfl⟩
        exacts [.siteExPath hsite hex hp,
          .siteExMeth hsite hex (by simp [hp]) (by simpa [List.isEmpty_iff] using hm)]

theorem declared_of_mem_geoip (h : .acl n t ∈ cfg.geoip) : Declared cfg n t := by
  simp only [geoip, List.mem_ite_nil_right, List.mem_append, List.mem_cons, List.not_mem_nil,
    Line.acl.injEq, or_false] at h
  obtain ⟨hg, (h | h) | h⟩ := h
  · rcases h with ⟨rfl, rfl⟩ | ⟨rfl, rfl⟩
    exacts [.geoAllowed hg, .geoWhitelist hg]
  · simp only [geoFilter, List.mem_append, List.mem_ite_nil_left, List.mem_cons, List.not_mem_nil,
      Line.acl.injEq, reduceCtorEq, or_false] at h
    rcases h with ⟨-, rfl, rfl⟩ | ⟨-, rfl, rfl⟩
    exacts [.geoBypass hg, .geoFilterDomains hg]
  · simp only [geoSites, List.mem_flatMap, List.mem_ite_nil_right, List.mem_append, List.mem_map,
      List.mem_cons, List.not_mem_nil, reduceCtorEq, or_false, Line.acl.injEq, Bool.and_eq_true,
      Bool.not_eq_true'] at h
    obtain ⟨site, hsite, ⟨hd, -⟩, country, hc, rfl, rfl⟩ := h
    exact .geoAllowedSite hg hsite hd hc

theorem declared_of_mem_reception (h : .acl n t ∈ cfg.reception) : Declared cfg n t := by
  simp only [reception, List.mem_append] at h
  rcases h with (((((h | h) | h) | h) | h) | h) | h
  · simp [hardFloor] at h
  · simp only [lists, List.mem_append, List.mem_cons, List.mem_ite_nil_right, List.not_mem_nil,
      Line.acl.injEq, or_false] at h
    rcases h with (⟨rfl, rfl⟩ | ⟨h, rfl, rfl⟩) | ⟨h, rfl, rfl⟩
    exacts [.ipWhitelist, .allowedAdmin h, .ipAuthOk h]
  · exact declared_of_mem_sniHost h
  · exact declared_of_mem_exclusions (List.mem_append_left _ h)
  · exact declared_of_mem_exclusions (List.mem_append_right _ h)
  · exact declared_of_mem_geoip h
  · simp [zeroTrustRules] at h

theorem declared_of_mem_accounting (h : .acl n t ∈ cfg.accounting) : Declared cfg n t := by
  simp only [accounting, List.mem_append] at h
  rcases h with (h | h) | h
  · simp [errorTracking, trackSite, trackOther] at h
  · simp only [thresholds, errorBan, List.mem_append, List.mem_cons, List.mem_flatMap,
      List.mem_ite_nil_left, List.not_mem_nil, Line.acl.injEq, reduceCtorEq, or_false, false_or,
      and_false, Bool.not_eq_true] at h
    rcases h with (⟨rfl, rfl⟩ | ⟨site, hsite, hr, rfl, rfl⟩) | ⟨rfl, rfl⟩
    exacts [.alreadyBanned, .tooManyErrs hsite hr, .tooManyErrsOther]
  · simp only [rateLimit, rateSite, List.mem_append, List.mem_cons, List.mem_flatMap,
      List.mem_ite_nil_right, List.not_mem_nil, Line.acl.injEq, reduceCtorEq, or_false, false_or,
      and_false] at h
    obtain ⟨site, hsite, hr, rfl, rfl⟩ := h
    exact .tooFast hsite hr

theorem declared_of_mem_refusals (h : .acl n t ∈ cfg.refusals) : Declared cfg n t := by
  simp only [refusals, List.mem_append] at h
  rcases h with ((((h | h) | h) | h) | h) | h
  · simp only [newBan, List.mem_cons, List.not_mem_nil, Line.acl.injEq, reduceCtorEq, or_false] at h
    obtain ⟨rfl, rfl⟩ := h
    exact .banTrigger
  · simp only [adminProtection, List.mem_append, List.mem_cons, List.mem_ite_nil_left,
      List.mem_ite_nil_right, List.not_mem_nil, Line.acl.injEq, reduceCtorEq, or_false, false_or,
      and_false] at h
    obtain ⟨-, -, rfl, rfl⟩ := h
    exact .authOk
  · simp [limits, requestLimits, errorLimits] at h
  · simp only [addressLists, List.mem_flatMap, List.mem_ite_nil_right, List.mem_cons,
      List.not_mem_nil, Line.acl.injEq, reduceCtorEq, or_false] at h
    obtain ⟨site, hsite, hr, rfl, rfl⟩ := h
    exact .siteIps hsite hr
  · simp [sniHostValidation] at h
  · simp only [clientCertificates, List.mem_append, List.mem_cons, List.mem_ite_nil_left,
      List.mem_ite_nil_right, List.mem_map, List.mem_flatMap, List.not_mem_nil, Line.acl.injEq,
      reduceCtorEq, or_false, and_false, exists_false] at h
    obtain ⟨-, (⟨rfl, rfl⟩ | ⟨rfl, rfl⟩ | ⟨rfl, rfl⟩) | ⟨⟨caId, index⟩, hca, rfl, rfl⟩⟩ := h
    exacts [.mtlsPresent, .mtlsVerified, .mtlsRevoked, .mtlsCa hca]

theorem declared_of_mem_identity (h : .acl n t ∈ cfg.identity) : Declared cfg n t := by
  simp only [identity, List.mem_append] at h
  rcases h with (h | h) | h
  · simp only [proxyBoundary, List.mem_append, List.mem_cons, List.mem_ite_nil_left, List.mem_map,
      List.mem_ite_nil_right, List.not_mem_nil, Line.acl.injEq, reduceCtorEq, or_false, false_or, and_false,
      exists_false] at h
    obtain ⟨-, rfl, rfl⟩ := h
    exact .mtlsHost
  · simp only [forwardAuthRules, intercept, List.mem_append, List.mem_cons, List.mem_ite_nil_left,
      List.mem_ite_nil_right, List.not_mem_nil, Line.acl.injEq, reduceCtorEq, or_false, false_or,
      and_false] at h
    obtain ⟨ha, -, rfl, rfl⟩ := h
    exact .autheliaProtected ha
  · simp [trustMarker] at h

theorem declared_of_mem_routing (h : .acl n t ∈ cfg.routing) : Declared cfg n t := by
  simp only [routing, List.mem_append] at h
  rcases h with (h | h) | h
  · simp only [upAcls, List.mem_append, List.mem_cons, List.mem_flatMap, List.mem_ite_nil_right,
      List.not_mem_nil, Line.acl.injEq, or_false] at h
    rcases h with (⟨site, hsite, hb, rfl, rfl⟩ | ⟨h, rfl, rfl⟩) | ⟨h, rfl, rfl⟩
    exacts [.up hsite hb, .adminUp h, .autheliaUp h]
  · simp [controlPlaneRoutes] at h
  · simp only [List.mem_flatMap, siteRoute] at h
    obtain ⟨site, -, h⟩ := h
    split_ifs at h <;> simp at h

theorem declared_of_mem (h : (n, t) ∈ cfg.acls) : Declared cfg n t := by
  rw [acls, mem_acls] at h
  simp only [feHttps, List.mem_append] at h
  rcases h with (((((h | h) | h) | h) | h) | h) | h
  · simp [defaultPort] at h
  · exact declared_of_mem_reception h
  · exact declared_of_mem_accounting h
  · simp [banned] at h
  · exact declared_of_mem_refusals h
  · exact declared_of_mem_identity h
  · exact declared_of_mem_routing h

end Config

/-! ## Names whose answer a request cannot change -/

/-- Read from the request, the lists and the servers' health only. -/
def Test.static : Test → Bool
  | .srcGpc0 _ | .srcHttpReqRateGt _ _ | .srcHttpReqRateGe _ _ | .nosniRateGt _ | .varBool _ |
    .varPos _ | .varFound _ | .varEq _ _ | .varNonempty _ => false
  | _ => true

/-- The ACLs read from counters and variables. -/
inductive Dynamic : AclName → Prop where
  | ipAuthOk : Dynamic .ipAuthOk
  | alreadyBanned : Dynamic .alreadyBanned
  | probe : Dynamic .adminControlPlaneProbe
  | scrape : Dynamic .adminMetricsScrape
  | banTrigger : Dynamic .banTrigger
  | tooFast (site : String) : Dynamic (.tooFast site)

/-- No name of a counter or a variable is written like this one. -/
def AclName.Settled (n : AclName) : Prop := ∀ m, Dynamic m → m.text ≠ n.text

section Settled

variable {cfg : Config} {env : Env} {req : Request} {s s' : Txn} {n : AclName} {t : Test}

theorem test_of_static (ht : t.static = true) (hh : s'.host = s.host) :
    test env req s' t = test env req s t := by
  cases t <;> first | rfl | (simp only [test, hh]; done) | cases ht

theorem matcher_static {ex : ErrExclude} (h : ex.matcher = some t) : t.static = true := by
  unfold ErrExclude.matcher at h
  split_ifs at h <;> cases h <;> rfl

theorem Declared.static_or_dynamic (h : Declared cfg n t) : t.static = true ∨ Dynamic n := by
  cases h
  case ipAuthOk => exact Or.inr .ipAuthOk
  case alreadyBanned => exact Or.inr .alreadyBanned
  case probe => exact Or.inr .probe
  case scrape => exact Or.inr .scrape
  case banTrigger => exact Or.inr .banTrigger
  case tooFast => exact Or.inr (.tooFast _)
  case siteExPath hp => exact Or.inl (matcher_static hp)
  all_goals exact Or.inl rfl

/-- A settled name says the same as long as the Host does. -/
theorem named_of_settled (hn : n.Settled) (hh : s'.host = s.host) :
    (reading env req).named cfg.acls s' n = (reading env req).named cfg.acls s n := by
  rw [Bool.eq_iff_iff, Reading.named_iff, Reading.named_iff]
  have hsame : ∀ m q, (m, q) ∈ cfg.acls → m.text = n.text →
      test env req s' q = test env req s q := by
    intro m q hmem htext
    rcases (Config.declared_of_mem hmem).static_or_dynamic with hq | hm
    · exact test_of_static hq hh
    · exact absurd htext (hn m hm)
  constructor
  · rintro ⟨m, q, hmem, htext, hq⟩
    exact ⟨m, q, hmem, htext, (hsame m q hmem htext).symm.trans hq⟩
  · rintro ⟨m, q, hmem, htext, hq⟩
    exact ⟨m, q, hmem, htext, (hsame m q hmem htext).trans hq⟩

namespace AclName

theorem take_start {n : AclName} {start rest : String} (hn : n.text = start ++ rest)
    (hlen : 5 ≤ start.toList.length) : n.text.toList.take 5 = start.toList.take 5 := by
  rw [hn, String.toList_append, List.take_append_of_le_length hlen]

theorem take_tooFast (site : String) : (tooFast site).text.toList.take 5 = ['t', 'o', 'o', '_', 'f'] :=
  @take_start (tooFast site) "too_fast_" (sanitize site) rfl (by decide)

/-- How the names read from counters and variables begin. -/
theorem start_of_dynamic {m : AclName} (h : Dynamic m) : m.text.toList.take 5 ∈
    [['i', 'p', '_', 'a', 'u'], ['a', 'l', 'r', 'e', 'a'], ['a', 'd', 'm', 'i', 'n'],
      ['b', 'a', 'n', '_', 't'], ['t', 'o', 'o', '_', 'f']] := by
  cases h with
  | tooFast site =>
    rw [take_tooFast]
    decide
  | _ => decide

theorem settled_of_start {n : AclName} (h : n.text.toList.take 5 ∉
    [['i', 'p', '_', 'a', 'u'], ['a', 'l', 'r', 'e', 'a'], ['a', 'd', 'm', 'i', 'n'],
      ['b', 'a', 'n', '_', 't'], ['t', 'o', 'o', '_', 'f']]) : n.Settled := by
  intro m hm htext
  exact h (htext ▸ start_of_dynamic hm)

theorem settled_of_text {n : AclName} {start rest : String} (hn : n.text = start ++ rest)
    (hlen : 5 ≤ start.toList.length) (h : start.toList.take 5 ∉
      [['i', 'p', '_', 'a', 'u'], ['a', 'l', 'r', 'e', 'a'], ['a', 'd', 'm', 'i', 'n'],
        ['b', 'a', 'n', '_', 't'], ['t', 'o', 'o', '_', 'f']]) : n.Settled := by
  refine settled_of_start ?_
  rwa [take_start hn hlen]

theorem settled_host (site : String) : (host site).Settled := settled_of_text rfl (by decide) (by decide)

theorem settled_hostAdmin : hostAdmin.Settled := settled_of_start (by decide)

theorem settled_mtlsCa (index : Nat) : (mtlsCa index).Settled := settled_of_text rfl (by decide) (by decide)

/-- The names the template writes as they are, apart from the counters and variables. -/
def fixed : List AclName :=
  [ipWhitelist, allowedAdmin, sniFound, validSni, validHost, pathStats, localControlPlaneProbe,
    adminControlPlaneProbePath, adminControlPlaneProbeMethod, metricsScrapeSource,
    metricsScrapePath, metricsScrapeMethod, pathAccessGranted, errAssetPath, geoAllowed,
    geoWhitelist, geoBypass, geoFilterDomains, tooManyErrsOther, authOk, mtlsPresent, mtlsVerified,
    mtlsRevoked, mtlsHost, autheliaProtected, adminUp, autheliaUp]

theorem settled_fixed {n : AclName} (h : n ∈ fixed) : n.Settled := by
  intro m hm
  cases hm with
  | tooFast site =>
    intro htext
    have hstart : ∀ n ∈ fixed, n.text.toList.take 5 ≠ ['t', 'o', 'o', '_', 'f'] := by decide
    refine hstart n h ?_
    rw [← htext, take_tooFast]
  | ipAuthOk => revert n; decide
  | alreadyBanned => revert n; decide
  | probe => revert n; decide
  | scrape => revert n; decide
  | banTrigger => revert n; decide

end AclName

end Settled

/-! ## What the rules of a section do -/

/-- The actions that end a request. -/
def Action.refuses : Action → Bool
  | .deny _ _ | .redirect _ | .auth _ | .reject _ => true
  | _ => false

inductive ReceptionAct : Action → Prop where
  | hardFloor : ReceptionAct (.deny 429 .hardFloor)
  | geo : ReceptionAct (.deny 451 .geo)
  | zeroTrust : ReceptionAct (.deny 401 .zeroTrust)
  | probe : ReceptionAct (.setVar .adminControlPlaneProbe (.bool true))
  | scrape : ReceptionAct (.setVar .adminMetricsScrape (.bool true))
  | otherExcl (b : Bool) : ReceptionAct (.setVar .otherExcl (.bool b))
  | siteExcl (id : String) (b : Bool) : ReceptionAct (.setVar (.siteExcl id) (.bool b))

inductive AccountingAct : Action → Prop where
  | errTracked (b : Bool) : AccountingAct (.setVar .errTracked (.bool b))
  | track (t : Table) : AccountingAct (.trackSc1 t)
  | resetBan : AccountingAct (.unsetVar .banCode)
  | notNew : AccountingAct (.setVar .isNewBan (.bool false))
  | banCode (code : Int) : AccountingAct (.setVar .banCode (.int code))
  | rateTracked (b : Bool) : AccountingAct (.setVar .rateTracked (.bool b))
  | rate (t : Table) : AccountingAct (.trackSc3 t)

inductive RefusalAct : Action → Prop where
  | refuse {a : Action} (h : a.refuses = true) : RefusalAct a
  | isNew : RefusalAct (.setVar .isNewBan (.bool true))
  | track : RefusalAct (.trackSc2 .ban)
  | count : RefusalAct (.incGpc0 .incban .ban)
  | tag : RefusalAct (.setGpt0 .ban .banCode)

inductive IdentityAct : Action → Prop where
  | deny (status : Nat) : IdentityAct (.deny status .forwardAuth)
  | redirect : IdentityAct (.redirect .forwardAuth)
  | delHeader (name : String) : IdentityAct (.delHeader name)
  | setHeader (name : String) (value : Sample) : IdentityAct (.setHeader name value)
  | intercept : IdentityAct .authIntercept
  | signIn : IdentityAct (.incGpc0 .ipAuthAdd .ipAuth)

namespace Config

variable {cfg : Config} {a : Action} {c : List Operand}

theorem act_of_mem_sniHost (h : .rule a c ∈ cfg.sniHost) : ReceptionAct a := by
  simp only [sniHost, List.mem_append, List.mem_cons, siteHosts, List.mem_map, reduceCtorEq,
    List.not_mem_nil, or_false, false_or, and_false, exists_false] at h
  rcases h with h | h
  · unfold adminHost at h
    split at h
    · cases h
    · simp only [List.mem_append, List.mem_cons, List.mem_ite_nil_right, List.not_mem_nil,
        Line.rule.injEq, reduceCtorEq, or_false, false_or] at h
      rcases h with ⟨rfl, -⟩ | ⟨-, rfl, -⟩
      exacts [.probe, .scrape]
  · unfold autheliaHost at h
    split at h <;> simp at h

theorem act_of_mem_exclusions (h : .rule a c ∈ cfg.otherExclusions ++ cfg.siteExclusions) :
    ReceptionAct a := by
  rcases List.mem_append.mp h with h | h
  · simp only [otherExclusions, List.mem_append, List.mem_cons, List.mem_ite_nil_right,
      List.not_mem_nil, Line.rule.injEq, reduceCtorEq, or_false, false_or, List.mem_flatMap] at h
    rcases h with (⟨rfl, -⟩ | ⟨rfl, -⟩) | ⟨-, ⟨ex, rule⟩, -, h⟩
    · exact .otherExcl false
    · exact .otherExcl true
    · dsimp only at h
      split_ifs at h <;>
        simp only [List.mem_cons, List.not_mem_nil, Line.rule.injEq, reduceCtorEq, or_false,
          false_or] at h <;>
        (obtain ⟨rfl, -⟩ := h; exact .otherExcl true)
  · simp only [siteExclusions, List.mem_flatMap, List.mem_append, List.mem_cons, List.not_mem_nil,
      Line.rule.injEq, or_false] at h
    obtain ⟨site, -, (⟨rfl, -⟩ | ⟨rfl, -⟩) | ⟨⟨ex, rule⟩, -, h⟩⟩ := h
    · exact .siteExcl _ false
    · exact .siteExcl _ true
    · dsimp only at h
      split at h
      · cases h
      · split_ifs at h <;>
          simp only [List.mem_cons, List.not_mem_nil, Line.rule.injEq, reduceCtorEq, or_false,
            false_or] at h <;>
          (obtain ⟨rfl, -⟩ := h; exact .siteExcl _ true)

theorem act_of_mem_reception (h : .rule a c ∈ cfg.reception) : ReceptionAct a := by
  simp only [reception, List.mem_append] at h
  rcases h with (((((h | h) | h) | h) | h) | h) | h
  · simp only [hardFloor, List.mem_singleton, Line.rule.injEq] at h
    obtain ⟨rfl, -⟩ := h
    exact .hardFloor
  · simp [lists] at h
  · exact act_of_mem_sniHost h
  · exact act_of_mem_exclusions (List.mem_append_left _ h)
  · exact act_of_mem_exclusions (List.mem_append_right _ h)
  · simp only [geoip, geoFilter, geoSites, List.mem_ite_nil_right, List.mem_ite_nil_left,
      List.mem_append, List.mem_cons, List.mem_map, List.mem_flatMap, List.not_mem_nil,
      Line.rule.injEq, reduceCtorEq, or_false, false_or, and_false, exists_false] at h
    obtain ⟨-, ⟨-, rfl, -⟩ | ⟨site, -, -, rfl, -⟩⟩ := h <;> exact .geo
  · simp only [zeroTrustRules, List.mem_ite_nil_right, List.mem_flatMap, List.mem_singleton,
      Line.rule.injEq] at h
    obtain ⟨-, site, -, -, rfl, -⟩ := h
    exact .zeroTrust

theorem act_of_mem_accounting (h : .rule a c ∈ cfg.accounting) : AccountingAct a := by
  simp only [accounting, List.mem_append] at h
  rcases h with (h | h) | h
  · simp only [errorTracking, trackSite, trackOther, List.mem_append, List.mem_cons,
      List.mem_ite_nil_left, List.mem_flatMap, List.not_mem_nil, Line.rule.injEq, or_false] at h
    rcases h with (((⟨rfl, -⟩ | ⟨site, -, -, ⟨-, rfl, -⟩ | ⟨rfl, -⟩⟩) | ⟨rfl, -⟩ | ⟨rfl, -⟩) |
      ⟨rfl, -⟩ | ⟨rfl, -⟩) | ⟨rfl, -⟩ | ⟨rfl, -⟩
    exacts [.errTracked _, .track _, .errTracked _, .track _, .errTracked _, .track _,
      .errTracked _, .track _, .errTracked _]
  · simp only [thresholds, errorBan, List.mem_append, List.mem_cons, List.mem_ite_nil_left,
      List.mem_flatMap, List.not_mem_nil, Line.rule.injEq, reduceCtorEq, or_false, false_or] at h
    rcases h with ((⟨rfl, -⟩ | ⟨rfl, -⟩) | ⟨site, -, -, -, rfl, -⟩) | ⟨-, rfl, -⟩
    exacts [.resetBan, .notNew, .banCode _, .banCode _]
  · simp only [rateLimit, rateSite, List.mem_append, List.mem_cons, List.mem_ite_nil_right,
      List.mem_flatMap, List.not_mem_nil, Line.rule.injEq, reduceCtorEq, or_false] at h
    rcases h with ⟨rfl, -⟩ | ⟨site, -, -, (⟨rfl, -⟩ | ⟨rfl, -⟩) | ⟨-, rfl, -⟩⟩
    exacts [.rateTracked _, .rate _, .rateTracked _, .banCode _]

theorem refuses_of_mem_banned (h : .rule a c ∈ cfg.banned) : a.refuses = true := by
  simp only [banned, List.mem_singleton, Line.rule.injEq] at h
  rw [h.1]
  rfl

theorem refuses_of_mem_limits (h : .rule a c ∈ cfg.limits) : a.refuses = true := by
  simp only [limits, requestLimits, errorLimits, List.mem_append, List.mem_ite_nil_right,
    List.mem_ite_nil_left, List.mem_flatMap, List.mem_singleton, Line.rule.injEq] at h
  rcases h with ⟨site, -, -, rfl, -⟩ | ⟨-, ⟨site, -, -, rfl, -⟩ | ⟨rfl, -⟩⟩ <;> rfl

theorem act_of_mem_refusals (h : .rule a c ∈ cfg.refusals) : RefusalAct a := by
  simp only [refusals, List.mem_append] at h
  rcases h with ((((h | h) | h) | h) | h) | h
  · simp only [newBan, List.mem_cons, List.not_mem_nil, Line.rule.injEq, reduceCtorEq, or_false,
      false_or] at h
    rcases h with ⟨rfl, -⟩ | ⟨rfl, -⟩ | ⟨rfl, -⟩ | ⟨rfl, -⟩ | ⟨rfl, -⟩
    exacts [.isNew, .track, .count, .tag, .refuse rfl]
  · simp only [adminProtection, List.mem_append, List.mem_cons, List.mem_ite_nil_left,
      List.mem_ite_nil_right, List.not_mem_nil, Line.rule.injEq, reduceCtorEq, or_false,
      false_or] at h
    rcases h with ⟨-, ⟨-, rfl, -⟩ | ⟨-, ⟨rfl, -⟩ | ⟨rfl, -⟩⟩⟩ <;> exact .refuse rfl
  · exact .refuse (refuses_of_mem_limits h)
  · simp only [addressLists, List.mem_flatMap, List.mem_ite_nil_right, List.mem_cons,
      List.not_mem_nil, Line.rule.injEq, reduceCtorEq, or_false, false_or] at h
    obtain ⟨site, -, -, rfl, -⟩ := h
    exact .refuse rfl
  · simp only [sniHostValidation, List.mem_cons, List.not_mem_nil, Line.rule.injEq, or_false] at h
    rcases h with ⟨rfl, -⟩ | ⟨rfl, -⟩ | ⟨rfl, -⟩ <;> exact .refuse rfl
  · simp only [clientCertificates, List.mem_append, List.mem_cons, List.mem_ite_nil_left,
      List.mem_ite_nil_right, List.mem_map, List.mem_flatMap, List.not_mem_nil, Line.rule.injEq,
      reduceCtorEq, or_false, false_or, and_false, exists_false] at h
    obtain ⟨-, site, -, ⟨-, rfl, -⟩ | ⟨rfl, -⟩ | ⟨rfl, -⟩ | ⟨rfl, -⟩⟩ := h <;> exact .refuse rfl

theorem act_of_mem_identity (h : .rule a c ∈ cfg.identity) : IdentityAct a := by
  simp only [identity, List.mem_append] at h
  rcases h with (h | h) | h
  · simp only [proxyBoundary, List.mem_append, List.mem_cons, List.mem_ite_nil_left, List.mem_map,
      List.mem_ite_nil_right, List.not_mem_nil, Line.rule.injEq, reduceCtorEq, or_false] at h
    rcases h with ((⟨name, -, rfl, -⟩ | ⟨rfl, -⟩) | ⟨-, ⟨h, -, rfl, -⟩ | ⟨h, -, rfl, -⟩⟩) | ⟨-, rfl, -⟩
    exacts [.delHeader _, .setHeader _ _, .delHeader _, .setHeader _ _, .delHeader _]
  · simp only [forwardAuthRules, intercept, List.mem_append, List.mem_cons, List.mem_ite_nil_left,
      List.mem_ite_nil_right, List.not_mem_nil, Line.rule.injEq, reduceCtorEq, or_false,
      false_or] at h
    obtain ⟨-, ((⟨rfl, -⟩ | ⟨rfl, -⟩ | ⟨rfl, -⟩ | ⟨rfl, -⟩) |
      ⟨-, ⟨rfl, -⟩ | ⟨rfl, -⟩ | ⟨rfl, -⟩ | ⟨rfl, -⟩ | ⟨rfl, -⟩⟩) |
      ⟨-, ⟨rfl, -⟩ | ⟨rfl, -⟩ | ⟨rfl, -⟩ | ⟨rfl, -⟩ | ⟨rfl, -⟩⟩⟩ := h
    exacts [.setHeader _ _, .setHeader _ _, .setHeader _ _, .setHeader _ _, .intercept, .deny _,
      .redirect, .deny _, .signIn, .intercept, .deny _, .redirect, .deny _, .signIn]
  · simp only [trustMarker, List.mem_append, List.mem_cons, List.mem_ite_nil_left,
      List.mem_ite_nil_right, List.not_mem_nil, Line.rule.injEq, or_false] at h
    obtain ⟨-, ((⟨rfl, -⟩ | ⟨rfl, -⟩ | ⟨rfl, -⟩ | ⟨rfl, -⟩) | ⟨-, ⟨rfl, -⟩ | ⟨rfl, -⟩⟩) |
      ⟨-, ⟨rfl, -⟩ | ⟨rfl, -⟩⟩⟩ := h <;> exact .setHeader _ _

theorem rules_routing : Rules.rules cfg.routing = [] := by
  rw [List.eq_nil_iff_forall_not_mem]
  rintro ⟨a, c⟩ h
  rw [mem_rules] at h
  simp only [routing, List.mem_append] at h
  rcases h with (h | h) | h
  · simp [upAcls] at h
  · simp [controlPlaneRoutes] at h
  · simp only [List.mem_flatMap, siteRoute] at h
    obtain ⟨site, -, h⟩ := h
    split_ifs at h <;> simp at h

end Config

end EasyHaProxy.Haproxy
