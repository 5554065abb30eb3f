import EasyHaProxy.Haproxy.Language

/-! `fe_https` section by section, in the order the template writes them, and `fe_tls_router`. -/
namespace EasyHaProxy.Haproxy

/-- The first pattern an entry of `err_exclude` gives. -/
def ErrExclude.matcher (ex : ErrExclude) : Option Test :=
  if ex.path ≠ "" then some (.pathIs .path [ex.path])
  else if ex.pathBeg ≠ "" then some (.pathIs .pathBeg [ex.pathBeg])
  else if ex.pathReg ≠ "" then some (.pathIs .pathReg [ex.pathReg])
  else none

namespace Config

variable (cfg : Config)

/-! ## Parts of conditions the template repeats -/

def notAdmin : List Operand := if cfg.adminIpsEnabled then [.notAcl .allowedAdmin] else []

def notAuthOk : List Operand := if cfg.autheliaEnabled then [.notAcl .ipAuthOk] else []

def stranger : List Operand := .notAcl .ipWhitelist :: cfg.notAuthOk ++ cfg.notAdmin

def unlisted : List Operand := .notAcl .ipWhitelist :: cfg.notAdmin

/-- `admin_probe_condition`. -/
def notProbe : List Operand :=
  (if cfg.adminDomain.isSome then [.notAcl .adminControlPlaneProbe] else [] : List Operand) ++
    (if cfg.adminDomain.isSome && cfg.metricsExportEnabled then [.notAcl .adminMetricsScrape]
    else [] : List Operand)

/-! ## Reception -/

def lists : List Line :=
  ([.acl .ipWhitelist (.srcFile .whitelistGlobal)] : List Line) ++
  (if cfg.adminIpsEnabled then [.acl .allowedAdmin (.srcFile .adminIps)] else [] : List Line) ++
  (if cfg.autheliaEnabled then [.acl .ipAuthOk (.srcGpc0 .ipAuth)] else [] : List Line)

/-- "name:443" names the same site as "name": the default port is stripped once, before
anything reads the header. -/
def defaultPort : List Line := [.rule .stripDefaultPort [.test (.hostEnds ":443")]]

/-- The hard request ceiling, for everyone. -/
def hardFloor : List Line :=
  [.rule (.deny 429 .hardFloor) [.test (.feHttpsReqRateGt cfg.hardReqRate)]]

/-- `all_hosts`, and with them `sni_domains`. -/
def allHosts : List String :=
  cfg.adminDomain.toList ++ cfg.autheliaDomain.toList ++ cfg.published.flatMap cfg.hostnames

def siteHosts : List Line :=
  cfg.published.map fun site => .acl (.host site.name) (.hostIs (cfg.hostnames site))

def adminHost : List Line :=
  match cfg.adminDomain with
  | none => []
  | some domain =>
    ([.acl .hostAdmin (.hostIs [domain]),
      .acl .pathStats (.pathIs .pathBeg ["/stats"]),
      .acl .localControlPlaneProbe (.src ["127.0.0.1"]),
      .acl .adminControlPlaneProbePath (.pathIs .path ["/api/control-plane-health"]),
      .acl .adminControlPlaneProbeMethod (.method ["GET"]),
      .rule (.setVar .adminControlPlaneProbe (.bool true))
        [.acl .hostAdmin, .acl .localControlPlaneProbe, .acl .adminControlPlaneProbePath,
          .acl .adminControlPlaneProbeMethod],
      .acl .adminControlPlaneProbe (.varBool .adminControlPlaneProbe)] : List Line) ++
    (if cfg.metricsExportEnabled then
      [.acl .metricsScrapeSource (.src cfg.metricsScrapeSources),
        .acl .metricsScrapePath (.pathIs .path ["/metrics"]),
        .acl .metricsScrapeMethod (.method ["GET"]),
        .rule (.setVar .adminMetricsScrape (.bool true))
          [.acl .hostAdmin, .acl .metricsScrapeSource, .acl .metricsScrapePath,
            .acl .metricsScrapeMethod],
        .acl .adminMetricsScrape (.varBool .adminMetricsScrape)]
    else [] : List Line)

def autheliaHost : List Line :=
  match cfg.autheliaDomain with
  | none => []
  | some domain =>
    [.acl .hostAuthelia (.hostIs [domain]),
      .acl .pathAccessGranted (.pathIs .path ["/access_granted"])]

def sniHost : List Line :=
  ([.acl .sniFound .sniFound, .acl .validSni (.sniIs cfg.allHosts)] : List Line) ++
    cfg.siteHosts ++ cfg.adminHost ++ cfg.autheliaHost ++
    ([.acl .validHost (.hostIs cfg.allHosts)] : List Line)

/-- What the error counter of the requests without a site leaves out. -/
def otherExclusions : List Line :=
  ([.acl .errAssetPath (.pathIs .pathEnd [".css", ".js", ".mjs", ".map", ".ico", ".svg", ".png", ".gif"]),
    .acl .errAssetPath (.pathIs .pathEnd [".jpg", ".jpeg", ".webp", ".avif", ".bmp"]),
    .acl .errAssetPath (.pathIs .pathEnd [".woff", ".woff2", ".ttf", ".otf", ".eot"]),
    .rule (.setVar .otherExcl (.bool false)) [],
    .rule (.setVar .otherExcl (.bool true)) [.acl .errAssetPath]] : List Line) ++
  (if cfg.siteDefaults.otherErrExcludeEnabled then
    (cfg.siteDefaults.otherErrExcludeExact.zipIdx 1).flatMap fun (ex, rule) =>
      if ex.path = "" then []
      else if ex.methods.isEmpty then
        [.acl (.otherExclPath rule) (.pathIs .path [ex.path]),
          .rule (.setVar .otherExcl (.bool true))
            [.notTest (.varBool .otherExcl), .acl (.otherExclPath rule)]]
      else
        [.acl (.otherExclPath rule) (.pathIs .path [ex.path]),
          .acl (.otherExclMeth rule) (.method ex.methods),
          .rule (.setVar .otherExcl (.bool true))
            [.notTest (.varBool .otherExcl), .acl (.otherExclPath rule), .acl (.otherExclMeth rule)]]
  else [] : List Line)

/-- Per-site error-accounting exclusions (`err_exclude`). -/
def siteExclusions : List Line :=
  cfg.published.flatMap fun site =>
    let excl : Var := .siteExcl (sanitize site.name)
    ([.rule (.setVar excl (.bool false)) [],
      .rule (.setVar excl (.bool true)) [.acl .errAssetPath]] : List Line) ++
    ((((cfg.effective site).errExclude.getD []).zipIdx 1).flatMap fun (ex, rule) =>
      match ex.matcher with
      | none => []
      | some pattern =>
        if ex.methods.isEmpty then
          [.acl (.siteExPath site.name rule) pattern,
            .rule (.setVar excl (.bool true)) [.acl (.host site.name), .acl (.siteExPath site.name rule)]]
        else
          [.acl (.siteExPath site.name rule) pattern,
            .acl (.siteExMeth site.name rule) (.method ex.methods),
            .rule (.setVar excl (.bool true))
              [.acl (.host site.name), .acl (.siteExPath site.name rule),
                .acl (.siteExMeth site.name rule)]] : List Line)

/-- Domains with GEO switched off. -/
def geoBypass : List String :=
  (cfg.published.filter cfg.geoDisabled).flatMap cfg.hostnames

/-- Domains where the globally selected countries apply. -/
def geoNames : List String :=
  (cfg.published.filter fun site => !cfg.geoDisabled site && site.geoCountries.isEmpty).flatMap
    cfg.hostnames

/-- In the list of countries, or out of it, whichever is kept away. -/
def geoRefused (list : AclName) : Operand :=
  match cfg.geoipMode with
  | .allow => .notAcl list
  | .deny => .acl list

/-- The sources GEO exempts. -/
def geoSubject : List Operand :=
  .notAcl .ipWhitelist :: cfg.notAdmin ++ .notAcl .geoWhitelist :: cfg.notAuthOk

def geoFilter : List Line :=
  (if cfg.geoBypass.isEmpty then [] else [.acl .geoBypass (.hostIs cfg.geoBypass)] : List Line) ++
  (if cfg.geoNames.isEmpty then []
  else
    [.acl .geoFilterDomains (.hostIs cfg.geoNames),
      .rule (.deny 451 .geo)
        ((.acl .geoFilterDomains :: cfg.geoRefused .geoAllowed :: cfg.geoSubject : List Operand) ++
          (if cfg.geoBypass.isEmpty then [] else [.notAcl .geoBypass] : List Operand))] : List Line)

/-- Per-site country subsets. -/
def geoSites : List Line :=
  cfg.published.flatMap fun site =>
    if !cfg.geoDisabled site && !site.geoCountries.isEmpty then
      (site.geoCountries.map fun country =>
        .acl (.geoAllowedSite site.name) (.srcFile (.country country.toUpper)) : List Line) ++
      ([.rule (.deny 451 .geo)
        (.acl (.host site.name) :: cfg.geoRefused (.geoAllowedSite site.name) :: cfg.geoSubject)] :
        List Line)
    else []

def geoip : List Line :=
  if cfg.enableGeoip then
    ([.acl .geoAllowed (.srcFile .geoAllowed), .acl .geoWhitelist (.srcFile .whitelistGeo)] :
      List Line) ++ cfg.geoFilter ++ cfg.geoSites
  else []

/-- The gate itself stays reachable for unauthorized addresses, otherwise nobody could ever
log in to become authorized. -/
def zeroTrustRules : List Line :=
  if cfg.autheliaEnabled then
    cfg.published.flatMap fun site =>
      if cfg.zeroTrust site then
        [.rule (.deny 401 .zeroTrust)
          (.acl (.host site.name) :: .notAcl .ipAuthOk :: cfg.unlisted)]
      else []
  else []

def reception : List Line :=
  cfg.hardFloor ++ cfg.lists ++ cfg.sniHost ++ cfg.otherExclusions ++ cfg.siteExclusions ++
    cfg.geoip ++ cfg.zeroTrustRules

/-! ## Accounting -/

/-- A request the gateway is about to refuse is not tracked. Under U02 an address over the
error limit is refused as well, and a trusted one is never counted. -/
def trackSite (site : Site) : List Line :=
  let tracked : Test := .varBool .errTracked
  (if cfg.restricted site then []
    else
      [.rule (.trackSc1 (.err site.name))
        (([.acl (.host site.name), .notTest tracked,
            .notTest (.varBool (.siteExcl (sanitize site.name))), .notTest (.srcGpc0 .ban)] :
            List Operand) ++
          (if 0 < cfg.maxReqRate site then
            [.notTest (.srcHttpReqRateGe (.rate site.name) (cfg.maxReqRate site))]
          else [] : List Operand) ++
          (if cfg.u02 then
            .notTest (.srcHttpErrRateGt (.err site.name) (cfg.errLimit site)) :: cfg.stranger
          else [] : List Operand))] : List Line) ++
  ([.rule (.setVar .errTracked (.bool true)) [.acl (.host site.name), .notTest tracked]] : List Line)

/-- One of the three kinds of request that miss a valid SNI or Host. -/
def trackOther (miss : List Operand) : List Line :=
  let cond : List Operand :=
    (.notTest (.varBool .errTracked) :: miss : List Operand) ++
      ([.notTest (.varBool .otherExcl)] : List Operand)
  [.rule (.trackSc1 .errOther)
      (cond ++ (.notTest (.srcGpc0 .ban) ::
        if cfg.u02 then
          .notTest (.srcHttpErrRateGt .errOther cfg.siteDefaults.otherErrLimit) :: cfg.stranger
        else [] : List Operand)),
    .rule (.setVar .errTracked (.bool true)) cond]

def errorTracking : List Line :=
  ([.rule (.setVar .errTracked (.bool false)) []] : List Line) ++
  (cfg.published.flatMap fun site => if cfg.errIgnored site then [] else cfg.trackSite site) ++
  cfg.trackOther [.notAcl .sniFound] ++
  cfg.trackOther [.acl .sniFound, .notAcl .validSni] ++
  cfg.trackOther [.notAcl .validHost]

/-- HAProxy's own bans for errors; U02 has none. -/
def errorBan (acl : AclName) (code : Int) : List Line :=
  if cfg.u02 then []
  else [.rule (.setVar .banCode (.int code)) (.acl acl :: .notTest (.varPos .banCode) :: cfg.stranger)]

def thresholds : List Line :=
  ([.rule (.unsetVar .banCode) [], .rule (.setVar .isNewBan (.bool false)) [],
    .acl .alreadyBanned (.srcGpc0 .ban)] : List Line) ++
  (cfg.published.flatMap fun site =>
    if cfg.restricted site then []
    else .acl (.tooManyErrs site.name) (.srcHttpErrRateGt (.err site.name) (cfg.errLimit site)) ::
      cfg.errorBan (.tooManyErrs site.name) 10 : List Line) ++
  (.acl .tooManyErrsOther (.srcHttpErrRateGt .errOther cfg.siteDefaults.otherErrLimit) ::
    cfg.errorBan .tooManyErrsOther 20 : List Line)

/-- Whether a site has a request limit: on a restricted site it could only throttle the
operator. -/
def rateLimited (site : Site) : Bool := 0 < cfg.maxReqRate site && !cfg.restricted site

def rateSite (site : Site) : List Line :=
  ([.rule (.trackSc3 (.rate site.name))
      ((.acl (.host site.name) :: .notTest (.varBool .rateTracked) :: cfg.unlisted : List Operand) ++
        if cfg.u02 then cfg.notAuthOk else []),
    .rule (.setVar .rateTracked (.bool true))
      [.acl (.host site.name), .notTest (.varBool .rateTracked)],
    .acl (.tooFast site.name) (.srcHttpReqRateGt (.rate site.name) (cfg.maxReqRate site))] :
    List Line) ++
  (if cfg.rateBan site && !cfg.u02 then
    [.rule (.setVar .banCode (.int 30))
      (.acl (.host site.name) :: .acl (.tooFast site.name) :: .notTest (.varPos .banCode) ::
        cfg.unlisted)]
  else [] : List Line)

def rateLimit : List Line :=
  ([.rule (.setVar .rateTracked (.bool false)) []] : List Line) ++
  cfg.published.flatMap fun site => if cfg.rateLimited site then cfg.rateSite site else []

def accounting : List Line := cfg.errorTracking ++ cfg.thresholds ++ cfg.rateLimit

/-! ## Refusals -/

/-- An address already banned is cut off at once. -/
def banned : List Line :=
  [.rule (.deny 423 .alreadyBanned) (.acl .alreadyBanned :: cfg.unlisted)]

def newBan : List Line :=
  let isNew : List Operand := [.test (.varBool .isNewBan)]
  [.acl .banTrigger (.varPos .banCode),
    .rule (.setVar .isNewBan (.bool true))
      (.acl .banTrigger :: .notAcl .alreadyBanned :: cfg.unlisted),
    .rule (.trackSc2 .ban) isNew,
    .rule (.incGpc0 .incban .ban) isNew,
    .rule (.setGpt0 .ban .banCode) isNew,
    .rule (.deny 423 .newBan) isNew]

def adminProtection : List Line :=
  if cfg.adminDomain.isNone then []
  else
    (if cfg.adminIpsEnabled then
      [.rule (.deny 403 .adminIps) (.acl .hostAdmin :: .notAcl .allowedAdmin :: cfg.notProbe)]
    else [] : List Line) ++
    (if !cfg.autheliaEnabled && cfg.adminPassword then
      [.acl .authOk .httpAuth,
        .rule (.auth .adminAuth) [.acl .hostAdmin, .acl .pathStats, .notAcl .authOk],
        .rule (.auth .adminAuth)
          (([.acl .hostAdmin, .notAcl .pathStats, .notAcl .authOk] : List Operand) ++ cfg.notProbe)]
    else [] : List Line)

def requestLimits : List Line :=
  cfg.published.flatMap fun site =>
    if cfg.rateLimited site && (cfg.u02 || !cfg.rateBan site) then
      [.rule (.deny 429 (.requestLimit site.name))
        ((.acl (.host site.name) :: .acl (.tooFast site.name) :: cfg.unlisted : List Operand) ++
          if cfg.u02 then cfg.notAuthOk else [])]
    else []

/-- U02: a cooldown on the site, not a ban. -/
def errorLimits : List Line :=
  if cfg.u02 then
    (cfg.published.flatMap fun site =>
      if cfg.restricted site then []
      else
        [.rule (.deny 429 (.errorLimit site.name))
          (.acl (.host site.name) :: .acl (.tooManyErrs site.name) :: cfg.stranger)] : List Line) ++
    ([.rule (.deny 429 .otherErrorLimit) (.acl .tooManyErrsOther :: cfg.stranger)] : List Line)
  else []

/-- Sites open only to the listed addresses: naming them is the whole access policy. -/
def addressLists : List Line :=
  cfg.published.flatMap fun site =>
    if cfg.restricted site then
      [.acl (.siteIps site.name) (.src (cfg.allowIps site)),
        .rule (.deny 403 (.allowIps site.name))
          [.acl (.host site.name), .notAcl (.siteIps site.name)]]
    else []

def sniHostValidation : List Line :=
  [.rule (.deny 400 .sniHost) [.notAcl .sniFound],
    .rule (.deny 400 .sniHost) [.acl .sniFound, .notAcl .validSni],
    .rule (.deny 400 .sniHost) [.notAcl .validHost]]

/-- The bundle is shared by the whole bind, so "the certificate verified" is not yet "the
certificate came from this site's authority". -/
def clientCertificates : List Line :=
  if cfg.mtlsSites.isEmpty then []
  else
    ([.acl .mtlsPresent .sslCUsed, .acl .mtlsVerified .sslCVerified,
      .acl .mtlsRevoked .sslCRevoked] : List Line) ++
    ((cfg.mtlsCaIds.zipIdx 1).map fun (caId, index) => .acl (.mtlsCa index) (.sslCIssuer caId) :
      List Line) ++
    (cfg.mtlsSites.flatMap fun site =>
      let deny (cond : List Operand) : Line :=
        .rule (.deny 403 (.mtls site.name)) (.acl (.host site.name) :: cond)
      (if cfg.mtlsMode site = .required then [deny [.notAcl .mtlsPresent]] else [] : List Line) ++
      ([deny [.acl .mtlsPresent, .notAcl .mtlsVerified],
        deny [.acl .mtlsPresent, .notAcl (.mtlsCa (cfg.mtlsCaIds.idxOf (cfg.mtlsCaId site) + 1))],
        deny [.acl .mtlsPresent, .acl .mtlsRevoked]] : List Line) : List Line)

def limits : List Line := cfg.requestLimits ++ cfg.errorLimits

def refusals : List Line :=
  cfg.newBan ++ cfg.adminProtection ++ cfg.limits ++ cfg.addressLists ++ sniHostValidation ++
    cfg.clientCertificates

/-! ## Identity -/

/-- The headers a client could pretend with, deleted for everyone first. -/
def trustHeaders : List String :=
  ["remote-user", "remote-groups", "remote-name", "remote-email", "x-easy-ha-proxy-secret",
    "x-easy-haproxy-config-generation", "x-forwarded-for"]

def certHeaders : List (String × Sample) :=
  [("x-client-cert-subject", .certSubject), ("x-client-cert-issuer", .certIssuer),
    ("x-client-cert-serial", .certSerial), ("x-client-cert-fingerprint", .certFingerprint)]

def proxyBoundary : List Line :=
  (trustHeaders.map fun name => .rule (.delHeader name) [] : List Line) ++
  ([.rule (.setHeader "x-forwarded-for" .src) []] : List Line) ++
  (if cfg.mtlsSites.isEmpty then []
  else
    (certHeaders.map fun h => .rule (.delHeader h.1) [] : List Line) ++
    ([.acl .mtlsHost (.hostIs (cfg.mtlsSites.flatMap cfg.hostnames))] : List Line) ++
    (certHeaders.map fun h =>
      .rule (.setHeader h.1 h.2) [.acl .mtlsHost, .acl .mtlsPresent, .acl .mtlsVerified] :
      List Line) : List Line) ++
  -- The identifier is minted at the edge, never accepted from the client.
  (if cfg.requestIdEnabled then [.rule (.delHeader "x-request-id") []] else [] : List Line)

def authHosts : List String :=
  (cfg.published.filter cfg.forwardAuth).flatMap cfg.hostnames ++ cfg.adminDomain.toList

/-- One forward-auth question and what its answer decides. -/
def intercept (cond : List Operand) : List Line :=
  [.rule .authIntercept cond,
    .rule (.deny 403 .forwardAuth)
      (cond ++ ([.notTest (.varBool .authResponseSuccessful),
        .test (.varEq .authResponseCode 403)] : List Operand)),
    .rule (.redirect .forwardAuth)
      (cond ++ ([.notTest (.varBool .authResponseSuccessful),
        .test (.varFound .authResponseLocation)] : List Operand)),
    .rule (.deny 503 .forwardAuth)
      (cond ++ ([.notTest (.varBool .authResponseSuccessful)] : List Operand)),
    -- Trust follows a signed-in user, not merely an allowed request.
    .rule (.incGpc0 .ipAuthAdd .ipAuth)
      (cond ++ ([.test (.varBool .authResponseSuccessful),
        .test (.varNonempty .authResponseRemoteUser)] : List Operand))]

def forwardAuthRules : List Line :=
  if cfg.autheliaEnabled then
    ([.rule (.setHeader "x-forwarded-method" .method) [],
      .rule (.setHeader "x-forwarded-proto" .proto) [],
      .rule (.setHeader "x-forwarded-host" .host) [],
      .rule (.setHeader "x-forwarded-uri" .uri) []] : List Line) ++
    (if cfg.authHosts.isEmpty then []
    else .acl .autheliaProtected (.hostIs cfg.authHosts) ::
      intercept (.acl .autheliaProtected :: cfg.notProbe) : List Line) ++
    if cfg.autDomain.isNone then []
    else intercept [.acl .hostAuthelia, .acl .pathAccessGranted]
  else []

/-- The internal marker is added only after a successful forward-auth. -/
def trustMarker : List Line :=
  if cfg.adminDomain.isNone then []
  else
    ([.rule (.setHeader "x-easy-ha-proxy-secret" .adminProxySecret) [.acl .hostAdmin],
      .rule (.setHeader "x-easy-haproxy-config-generation" (.const cfg.configGeneration))
        [.acl .hostAdmin],
      .rule (.setHeader "remote-user" (.const "easy-ha-proxy-healthcheck"))
        [.acl .hostAdmin, .acl .adminControlPlaneProbe],
      .rule (.setHeader "remote-groups" (.const "healthcheck"))
        [.acl .hostAdmin, .acl .adminControlPlaneProbe]] : List Line) ++
    (if cfg.metricsExportEnabled then
      [.rule (.setHeader "remote-user" (.const "easy-ha-proxy-metrics"))
          [.acl .hostAdmin, .acl .adminMetricsScrape],
        .rule (.setHeader "remote-groups" (.const "metrics"))
          [.acl .hostAdmin, .acl .adminMetricsScrape]]
    else [] : List Line) ++
    (if !cfg.autheliaEnabled && cfg.adminPassword then
      [.rule (.setHeader "remote-user" .httpAuthUser) [.acl .hostAdmin, .acl .authOk],
        .rule (.setHeader "remote-groups" (.const "superadmin")) [.acl .hostAdmin, .acl .authOk]]
    else [] : List Line)

def identity : List Line := cfg.proxyBoundary ++ cfg.forwardAuthRules ++ cfg.trustMarker

/-! ## Routing -/

/-- Whether the template writes an HTTP backend of its own for a site. -/
def hasBackend (site : Site) : Bool := !cfg.tcpPassthrough site && !cfg.gateStub site

def upAcls : List Line :=
  (cfg.published.flatMap fun site =>
    if cfg.hasBackend site then [.acl (.up site.name) (.nbsrv (.site site.name))] else [] :
    List Line) ++
  (if cfg.adminDomain.isSome then [.acl .adminUp (.nbsrv .admin)] else [] : List Line) ++
  (if cfg.autheliaDomain.isSome then [.acl .autheliaUp (.nbsrv .authelia)] else [] : List Line)

def controlPlaneRoutes : List Line :=
  (if cfg.autheliaDomain.isSome then
    [.use .accessGranted [.acl .hostAuthelia, .acl .pathAccessGranted],
      .use .authelia [.acl .autheliaUp, .acl .hostAuthelia, .notAcl .pathAccessGranted]]
  else [] : List Line) ++
  (if cfg.adminDomain.isSome then
    [.use .stats [.acl .hostAdmin, .acl .pathStats],
      .use .admin [.acl .adminUp, .acl .hostAdmin, .notAcl .pathStats]]
  else [] : List Line)

def siteRoute (site : Site) : List Line :=
  if cfg.tcpPassthrough site then []
  else if cfg.maintenance site then [.use .maintenance [.acl (.host site.name)]]
  else if cfg.gateStub site then [.use .accessGranted [.acl (.host site.name)]]
  else [.use (.site site.name) [.acl (.up site.name), .acl (.host site.name)]]

def routing : List Line :=
  cfg.upAcls ++ cfg.controlPlaneRoutes ++ cfg.published.flatMap cfg.siteRoute

/-! ## The front ends -/

def feHttps : List Line :=
  defaultPort ++ cfg.reception ++ cfg.accounting ++ cfg.banned ++ cfg.refusals ++
    cfg.identity ++ cfg.routing

/-- The ACLs of `fe_https`. -/
def acls : List (AclName × Test) := Rules.acls cfg.feHttps

/-- The SNI router in front of `fe_https`, written when a site is passed through. Content
rules after `accept if { req_ssl_hello_type 1 }` meet only what is not a hello. -/
def feTlsRouter : List Line :=
  cfg.lists ++
  ([.rule (.reject .connection) (.test (.srcGpc0 .ban) :: cfg.stranger),
    .rule (.reject .connection)
      ((.test (.connRateGt cfg.siteDefaults.connRateBurst) :: .notAcl .ipWhitelist ::
        cfg.notAdmin : List Operand) ++ cfg.notAuthOk),
    .rule (.reject .connection) [.test (.connRateGt cfg.connRateHard)],
    .rule (.reject .connection) [.test (.connCurGt cfg.connCurLimit)],
    .acl .sniFound .sniFound,
    .rule (.trackSc0 .nosniTcp) [.notTest .clientHello, .notAcl .sniFound],
    .acl .nosniTooOften (.nosniRateGt cfg.siteDefaults.nosniTcpLimit),
    .rule (.reject .connection) (.notTest .clientHello :: .acl .nosniTooOften :: cfg.stranger)] :
    List Line) ++
  (cfg.passthruSites.flatMap fun site =>
    [.acl (.sni site.name) (.sniIs (cfg.hostnames site)),
      .use (.siteTcp site.name) [.acl (.sni site.name)]] : List Line)

end Config

/-- How the gateway answered: refused by a rule, or handed on. -/
inductive Served where
  | refused (refusal : Refusal)
  | routed (backend : Backend) (txn : Txn)

namespace Config

variable (cfg : Config) (env : Env) (req : Request)

/-- The `http-request` rules of `fe_https`, run on a request. -/
def handle : Except Refusal Txn :=
  (reading env req).run cfg.acls (Rules.rules cfg.feHttps) (start env req)

/-- The backend `fe_https` hands a request to once the rules have run. -/
def backend (s : Txn) : Backend :=
  ((reading env req).route cfg.acls (Rules.uses cfg.feHttps) s).getD .maintenance

def serve : Served :=
  match cfg.handle env req with
  | .error refusal => .refused refusal
  | .ok s => .routed (cfg.backend env req s) s

/-- What `fe_tls_router` does with a connection. -/
def routeTls : Except Refusal Backend :=
  ((reading env req).run (Rules.acls cfg.feTlsRouter) (Rules.rules cfg.feTlsRouter)
    (start env req)).map fun s =>
      ((reading env req).route (Rules.acls cfg.feTlsRouter) (Rules.uses cfg.feTlsRouter) s).getD
        .tlsTerminator

/-- The backend that a connection, or the request on it, is handed to: behind the SNI router
`fe_https` sees what the router does not pass through. -/
def handedTo : Option Backend :=
  let behind : Option Backend :=
    match cfg.serve env req with
    | .refused _ => none
    | .routed backend _ => some backend
  if cfg.hasPassthru then
    match cfg.routeTls env req with
    | .error _ => none
    | .ok .tlsTerminator => behind
    | .ok backend => some backend
  else behind

end Config

end EasyHaProxy.Haproxy
