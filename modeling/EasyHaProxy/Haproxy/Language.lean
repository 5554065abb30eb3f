import EasyHaProxy.Lib.Rules
import EasyHaProxy.Haproxy.Sites

/-! Names of ACLs, tables and backends with the text HAProxy gets for each, the tests and actions of the
rules, and what HAProxy makes of them for one request. -/
namespace EasyHaProxy.Haproxy

/-! ## Names -/

inductive AclName where
  | ipWhitelist | allowedAdmin | ipAuthOk
  | sniFound | validSni | validHost
  | host (site : String)
  | hostAdmin | pathStats
  | localControlPlaneProbe | adminControlPlaneProbePath | adminControlPlaneProbeMethod
  | adminControlPlaneProbe
  | metricsScrapeSource | metricsScrapePath | metricsScrapeMethod | adminMetricsScrape
  | hostAuthelia | pathAccessGranted
  | errAssetPath
  | otherExclPath (rule : Nat) | otherExclMeth (rule : Nat)
  | siteExPath (site : String) (rule : Nat) | siteExMeth (site : String) (rule : Nat)
  | geoAllowed | geoWhitelist | geoBypass | geoFilterDomains
  | geoAllowedSite (site : String)
  | alreadyBanned
  | tooManyErrs (site : String) | tooManyErrsOther
  | tooFast (site : String)
  | banTrigger
  | authOk
  | siteIps (site : String)
  | mtlsPresent | mtlsVerified | mtlsRevoked | mtlsCa (index : Nat) | mtlsHost
  | autheliaProtected
  | up (site : String) | adminUp | autheliaUp
  | sni (site : String) | nosniTooOften
  deriving DecidableEq

def AclName.text : AclName → String
  | ipWhitelist => "ip_whitelist"
  | allowedAdmin => "allowed_admin"
  | ipAuthOk => "ip_auth_ok"
  | sniFound => "sni_found"
  | validSni => "valid_sni"
  | validHost => "valid_host"
  | host site => "host_" ++ sanitize site
  | hostAdmin => "host_admin"
  | pathStats => "path_stats"
  | localControlPlaneProbe => "local_control_plane_probe"
  | adminControlPlaneProbePath => "admin_control_plane_probe_path"
  | adminControlPlaneProbeMethod => "admin_control_plane_probe_method"
  | adminControlPlaneProbe => "admin_control_plane_probe"
  | metricsScrapeSource => "metrics_scrape_source"
  | metricsScrapePath => "metrics_scrape_path"
  | metricsScrapeMethod => "metrics_scrape_method"
  | adminMetricsScrape => "admin_metrics_scrape"
  | hostAuthelia => "host_authelia"
  | pathAccessGranted => "path_access_granted"
  | errAssetPath => "err_asset_path"
  | otherExclPath rule => "other_excl_" ++ toString rule ++ "_path"
  | otherExclMeth rule => "other_excl_" ++ toString rule ++ "_meth"
  | siteExPath site rule => "site_" ++ sanitize site ++ "_ex" ++ toString rule ++ "_path"
  | siteExMeth site rule => "site_" ++ sanitize site ++ "_ex" ++ toString rule ++ "_meth"
  | geoAllowed => "geo_allowed"
  | geoWhitelist => "geo_whitelist"
  | geoBypass => "geo_bypass"
  | geoFilterDomains => "geo_filter_domains"
  | geoAllowedSite site => "geo_allowed_" ++ sanitize site
  | alreadyBanned => "already_banned"
  | tooManyErrs site => "too_many_errs_" ++ sanitize site
  | tooManyErrsOther => "too_many_errs_other"
  | tooFast site => "too_fast_" ++ sanitize site
  | banTrigger => "ban_trigger"
  | authOk => "AuthOK"
  | siteIps site => "site_ips_" ++ sanitize site
  | mtlsPresent => "mtls_present"
  | mtlsVerified => "mtls_verified"
  | mtlsRevoked => "mtls_revoked"
  | mtlsCa index => "mtls_ca_" ++ toString index
  | mtlsHost => "mtls_host"
  | autheliaProtected => "authelia_protected"
  | up site => sanitize site ++ "_up"
  | adminUp => "admin_up"
  | autheliaUp => "authelia_up"
  | sni site => "sni_" ++ sanitize site
  | nosniTooOften => "nosni_too_often"

/-- Stick tables; `fe_https` and `tbl_conn_edge` have their counters in `Env`. -/
inductive Table where
  | ban | ipAuth
  | err (site : String) | rate (site : String) | errOther
  | connEdge | nosniTcp
  deriving DecidableEq

inductive Backend where
  | site (name : String) | siteTcp (name : String)
  | admin | stats | maintenance | accessGranted | authelia
  | tlsTerminator | httpChallenge | tcp (proxy : String)
  | table (t : Table)
  deriving DecidableEq

def Table.text : Table → String
  | ban => "tbl_ban"
  | ipAuth => "tbl_ip_auth"
  | err site => "tbl_err_" ++ sanitize site
  | rate site => "tbl_rate_" ++ sanitize site
  | errOther => "tbl_err_other"
  | connEdge => "tbl_conn_edge"
  | nosniTcp => "tbl_nosni_tcp"

def Backend.text : Backend → String
  | site name => "be_" ++ sanitize name
  | siteTcp name => "be_" ++ sanitize name ++ "_tcp"
  | admin => "be_admin"
  | stats => "be_stats"
  | maintenance => "be_maintenance"
  | accessGranted => "be_access_granted"
  | authelia => "authelia_backend"
  | tlsTerminator => "be_tls_terminator"
  | httpChallenge => "be_http_challenge"
  | tcp proxy => "be_tcp_" ++ sanitize proxy
  | table t => t.text

/-! ## Tests and actions -/

/-- Lists of networks that live in files beside the configuration. -/
inductive NetFile where
  | whitelistGlobal | adminIps | geoAllowed | whitelistGeo
  | country (code : String)
  deriving DecidableEq

/-- Variables of the transaction the rules read. -/
inductive Var where
  | adminControlPlaneProbe | adminMetricsScrape
  | otherExcl
  | siteExcl (id : String)
  | errTracked | rateTracked
  | banCode | isNewBan | incban
  | authResponseSuccessful | authResponseCode | authResponseLocation | authResponseRemoteUser
  | ipAuthAdd
  deriving DecidableEq

inductive Value where
  | bool (b : Bool)
  | int (n : Int)
  | str (s : String)
  deriving DecidableEq

inductive PathMatch where
  | path | pathBeg | pathEnd | pathReg
  deriving DecidableEq

inductive Test where
  | srcFile (file : NetFile)
  | src (entries : List String)
  | srcGpc0 (t : Table)
  | srcHttpErrRateGt (t : Table) (n : Int)
  | srcHttpReqRateGt (t : Table) (n : Int)
  | srcHttpReqRateGe (t : Table) (n : Int)
  | feHttpsReqRateGt (n : Int)
  | connRateGt (n : Int) | connCurGt (n : Int) | nosniRateGt (n : Int)
  | clientHello
  | hostIs (names : List String)
  | hostEnds (suffix : String)
  | sniFound
  | sniIs (names : List String)
  | pathIs (how : PathMatch) (patterns : List String)
  | method (names : List String)
  | varBool (v : Var)
  | varPos (v : Var)
  | varFound (v : Var)
  | varEq (v : Var) (n : Int)
  | varNonempty (v : Var)
  | nbsrv (b : Backend)
  | sslCUsed | sslCVerified | sslCRevoked
  | sslCIssuer (caId : String)
  | httpAuth
  deriving DecidableEq

/-- Values of headers the rules set. -/
inductive Sample where
  | const (text : String)
  | src | method | host | uri | proto
  | certSubject | certIssuer | certSerial | certFingerprint
  | adminProxySecret
  | httpAuthUser
  deriving DecidableEq

/-- Which rule refused a request. -/
inductive Cause where
  | hardFloor | geo | zeroTrust
  | alreadyBanned | newBan
  | adminIps | adminAuth
  | requestLimit (site : String) | errorLimit (site : String) | otherErrorLimit
  | allowIps (site : String)
  | sniHost | mtls (site : String)
  | forwardAuth
  | connection
  deriving DecidableEq

inductive Action where
  | stripDefaultPort
  | setVar (v : Var) (value : Value)
  | unsetVar (v : Var)
  | trackSc0 (t : Table)
  | trackSc1 (t : Table)
  | trackSc2 (t : Table)
  | trackSc3 (t : Table)
  | incGpc0 (v : Var) (t : Table)
  | setGpt0 (t : Table) (v : Var)
  | delHeader (name : String)
  | setHeader (name : String) (value : Sample)
  | authIntercept
  | deny (status : Nat) (cause : Cause)
  | redirect (cause : Cause)
  | auth (cause : Cause)
  | reject (cause : Cause)
  deriving DecidableEq

/-! ## Requests and what they meet -/

structure Certificate where
  verified : Bool
  subject : String
  issuerCn : String
  serial : String
  fingerprint : String
  deriving DecidableEq

/-- A request as it arrives. `host` are the values `hdr(host)` goes through: a header with
commas in it is several. Header names are lower case, as HAProxy keeps them. -/
structure Request where
  src : String
  sni : Option String := none
  clientHello : Bool := true
  host : List String
  method : String := "GET"
  path : String := "/"
  query : String := ""
  certificate : Option Certificate := none
  credentials : Option (String × String) := none
  headers : List (String × String) := []
  deriving DecidableEq

/-- The forward-auth service's answer. -/
structure AuthResponse where
  statusCode : Nat
  headers : List (String × String) := []
  deriving DecidableEq

/-- Everything outside the request that HAProxy reads while it handles it: the lists on
disk, the counters of the request's source, the servers' health and Authelia. -/
structure Env where
  inFile : NetFile → String → Bool
  inNet : String → String → Bool
  pathReg : String → String → Bool
  nbsrv : Backend → Nat
  gpc0 : Table → Nat
  httpErrRate : Table → Nat
  httpReqRate : Table → Nat
  feHttpsReqRate : Nat
  connRate : Nat
  connCur : Nat
  nosniRate : Nat
  revoked : String → Bool
  issuers : String → String → Bool
  statsAuth : String → String → Bool
  proxySecret : String
  /-- Authelia's answer to the headers it is sent, if a server of it could be asked. -/
  authelia : List (String × String) → Option AuthResponse

/-- What the rules write while they handle a request. -/
structure Txn where
  host : List String
  headers : List (String × String)
  vars : Var → Option Value := fun _ => none
  sc0 : Bool := false
  /-- The tables the error tracking rules tracked the request in, newest first. -/
  errTables : List Table := []
  gpc0 : Table → Nat
  gpt0 : Table → Option Value := fun _ => none
  httpReqRate : Table → Nat

structure Refusal where
  cause : Cause
  txn : Txn

def start (env : Env) (req : Request) : Txn where
  host := req.host
  headers := req.headers
  gpc0 := env.gpc0
  httpReqRate := env.httpReqRate

/-! ## How HAProxy reads the lines -/

/-- `-i`: the letters of ASCII are compared without case. -/
def eqIgnoreCase (a b : String) : Bool := a.toLower == b.toLower

def isIn (names : List String) (value : String) : Bool := names.any (eqIgnoreCase · value)

def pathMatches (env : Env) (path : String) : PathMatch → String → Bool
  | .path, v => eqIgnoreCase v path
  | .pathBeg, v => v.toLower.toList.isPrefixOf path.toLower.toList
  | .pathEnd, v => v.toLower.toList.isSuffixOf path.toLower.toList
  | .pathReg, v => env.pathReg v path

def Value.isTrue : Value → Bool
  | .bool b => b
  | _ => false

section

variable (env : Env) (req : Request)

def test (s : Txn) : Test → Bool
  | .srcFile file => env.inFile file req.src
  | .src entries => entries.any (env.inNet · req.src)
  | .srcGpc0 t => 0 < s.gpc0 t
  | .srcHttpErrRateGt t n => n < env.httpErrRate t
  | .srcHttpReqRateGt t n => n < s.httpReqRate t
  | .srcHttpReqRateGe t n => n ≤ s.httpReqRate t
  | .feHttpsReqRateGt n => n < env.feHttpsReqRate
  | .connRateGt n => n < env.connRate
  | .connCurGt n => n < env.connCur
  | .nosniRateGt n => s.sc0 && n < (env.nosniRate : Int)
  | .clientHello => req.clientHello
  | .hostIs names => s.host.any (isIn names)
  | .hostEnds suffix => s.host.any fun h => suffix.toList.isSuffixOf h.toList
  | .sniFound => req.sni.isSome
  | .sniIs names => req.sni.any (isIn names)
  | .pathIs how patterns => patterns.any (pathMatches env req.path how)
  | .method names => req.method ∈ names
  | .varBool v => (s.vars v).any Value.isTrue
  | .varPos v => (s.vars v).any fun | .int n => 0 < n | _ => false
  | .varFound v => (s.vars v).isSome
  | .varEq v n => s.vars v == some (.int n)
  | .varNonempty v => (s.vars v).any fun | .str text => text != "" | _ => false
  | .nbsrv b => 0 < env.nbsrv b
  | .sslCUsed => req.certificate.isSome
  | .sslCVerified => req.certificate.any (·.verified)
  | .sslCRevoked => req.certificate.any fun c => env.revoked c.fingerprint
  | .sslCIssuer caId => req.certificate.any fun c => env.issuers caId c.issuerCn
  | .httpAuth => req.credentials.any fun c => env.statsAuth c.1 c.2

def sample (s : Txn) : Sample → String
  | .const text => text
  | .src => req.src
  | .method => req.method
  | .host => s.host.getLastD ""
  | .uri => req.path ++ (if req.query = "" then "" else "?" ++ req.query)
  | .proto => "https"
  | .certSubject => (req.certificate.map (·.subject)).getD ""
  | .certIssuer => (req.certificate.map (·.issuerCn)).getD ""
  | .certSerial => (req.certificate.map (·.serial)).getD ""
  | .certFingerprint => (req.certificate.map (·.fingerprint)).getD ""
  | .adminProxySecret => env.proxySecret
  | .httpAuthUser => (req.credentials.map (·.1)).getD ""

def delHeader (name : String) (headers : List (String × String)) : List (String × String) :=
  headers.filter fun h => h.1 != name

def setHeader (name value : String) (headers : List (String × String)) : List (String × String) :=
  delHeader name headers ++ [(name, value)]

def Txn.setVar (s : Txn) (v : Var) (value : Option Value) : Txn :=
  { s with vars := fun w => if w = v then value else s.vars w }

/-- `req.hdr(host),regsub(:443$,)`: the last value of the header without the default port. -/
def stripDefaultPort (host : List String) : List String :=
  let last := (host.getLastD "").toList
  [String.ofList (if ":443".toList.isSuffixOf last then last.dropLast.dropLast.dropLast.dropLast else last)]

/-- The headers `auth-intercept` copies from an answer that lets the request through. -/
def authHeaders : List String := ["remote-user", "remote-groups", "remote-name", "remote-email"]

def isOkStatus (code : Nat) : Bool := 200 ≤ code && code < 300

/-- One header of the answer, noted for the rules and copied to the request if it may be. -/
def copyAuthHeader (ok : Bool) (s : Txn) (h : String × String) : Txn :=
  let s := if h.1 = "remote-user" then s.setVar .authResponseRemoteUser (some (.str h.2)) else s
  if ok && h.1 ∈ authHeaders then { s with headers := setHeader h.1 h.2 s.headers } else s

/-- `auth_request` of the Lua script, called with `hdr_fail` `-`. -/
def authRequest (s : Txn) : Txn :=
  let s := s.setVar .authResponseSuccessful (some (.bool false))
  match env.authelia s.headers with
  | none => s.setVar .authResponseCode (some (.int 500))
  | some response =>
    let ok := isOkStatus response.statusCode
    let s := s.setVar .authResponseCode (some (.int response.statusCode))
    let s := response.headers.foldl (copyAuthHeader ok) s
    if ok then s.setVar .authResponseSuccessful (some (.bool true))
    else if response.statusCode ∈ [301, 302, 303, 307, 308] then
      s.setVar .authResponseLocation
        (((response.headers.filter (·.1 = "location")).getLast?).map fun h => .str h.2)
    else s

def perform : Action → Txn → Except Refusal Txn
  | .stripDefaultPort, s => .ok { s with host := stripDefaultPort s.host }
  | .setVar v value, s => .ok (s.setVar v (some value))
  | .unsetVar v, s => .ok (s.setVar v none)
  | .trackSc0 _, s => .ok { s with sc0 := true }
  | .trackSc1 t, s => .ok { s with errTables := t :: s.errTables }
  | .trackSc2 _, s => .ok s
  | .trackSc3 t, s =>
    .ok { s with httpReqRate := fun u => if u = t then s.httpReqRate u + 1 else s.httpReqRate u }
  | .incGpc0 v t, s =>
    .ok ({ s with gpc0 := fun u => if u = t then s.gpc0 u + 1 else s.gpc0 u }.setVar v
      (some (.int (s.gpc0 t + 1))))
  | .setGpt0 t v, s => .ok { s with gpt0 := fun u => if u = t then s.vars v else s.gpt0 u }
  | .delHeader name, s => .ok { s with headers := delHeader name s.headers }
  | .setHeader name value, s =>
    .ok { s with headers := setHeader name (sample env req s value) s.headers }
  | .authIntercept, s => .ok (authRequest env s)
  | .deny _ cause, s => .error ⟨cause, s⟩
  | .redirect cause, s => .error ⟨cause, s⟩
  | .auth cause, s => .error ⟨cause, s⟩
  | .reject cause, s => .error ⟨cause, s⟩

/-- HAProxy's reading of the lines for one request. -/
def reading : Rules.Reading AclName Test Action Txn Refusal where
  text := AclName.text
  test := test env req
  perform := perform env req

end

abbrev Line := Rules.Line AclName Test Action Backend

abbrev Operand := Rules.Operand AclName Test

end EasyHaProxy.Haproxy
