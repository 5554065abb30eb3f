import EasyHaProxy.Lib.Text

/-! What `websites.yml`, `tcp.yml` and `vars.yml` say, as far as the front ends of the HAProxy template read
it, and what the panel refuses of it. -/
namespace EasyHaProxy.Haproxy

inductive MtlsMode where
  | disabled | optional | required
  deriving DecidableEq

/-- `geoip_mode`: the listed countries are let in, or anything else keeps them out. -/
inductive GeoMode where
  | allow | deny
  deriving DecidableEq

/-- An entry of `err_exclude`; an empty pattern is one not given. -/
structure ErrExclude where
  path : String := ""
  pathBeg : String := ""
  pathReg : String := ""
  methods : List String := []
  deriving DecidableEq

/-- The fields a site and `site_defaults` both may give. -/
structure SiteFields where
  altNames : Option (List String) := none
  tcpPassthrough : Option Bool := none
  allowIps : Option (List String) := none
  geo : Option Bool := none
  geoDisable : Option Bool := none
  enableGeoip : Option Bool := none
  zeroTrust : Option Bool := none
  accessGate : Option Bool := none
  autheliaEnabled : Option Bool := none
  maintenance : Option Bool := none
  rateBan : Option Bool := none
  maxReqRate : Option Int := none
  errLimit : Option Int := none
  /-- Whether the value is the text `ignore`. -/
  errIgnoreRules : Option Bool := none
  errExclude : Option (List ErrExclude) := none
  mtlsMode : Option MtlsMode := none
  mtlsCaId : Option String := none
  deriving DecidableEq

/-- An entry of `sites`. A missing name is the empty one. -/
structure Site extends SiteFields where
  name : String
  domain : String
  paused : Bool := false
  geoCountries : List String := []
  servers : List String := []
  backendIp : String := ""
  backendHost : String := ""
  deriving DecidableEq

/-- An entry of `other_err_exclude_exact`. -/
structure OtherExclude where
  path : String := ""
  methods : List String := []
  deriving DecidableEq

structure SiteDefaults extends SiteFields where
  banPolicy : String := "legacy"
  errIgnoreRulesDefault : Bool := false
  otherErrLimit : Int := 20
  otherErrExcludeEnabled : Bool := false
  otherErrExcludeExact : List OtherExclude := []
  hardReqRate : Int := 1000
  connRateBurst : Int := 200
  connRateBurstTrusted : Int := 1000
  connCurLimit : Int := 500
  nosniTcpLimit : Int := 5
  deriving DecidableEq

/-- Everything the template is rendered from. -/
structure Config where
  sites : List Site := []
  tcpProxies : List String := []
  siteDefaults : SiteDefaults := {}
  adminDomain : Option String := none
  autDomain : Option String := none
  autheliaEnabled : Bool := true
  adminIpsEnabled : Bool := true
  adminPassword : Bool := false
  enableGeoip : Bool := false
  geoipMode : GeoMode := .allow
  metricsExportEnabled : Bool := false
  metricsScrapeSources : List String := ["127.0.0.1"]
  requestIdEnabled : Bool := true
  configGeneration : String := "0000000000000000000000000000000000000000000000000000000000000000"
  deriving DecidableEq

/-- What HAProxy's names are made of; every other character becomes an underscore. -/
def isNameChar (c : Char) : Bool :=
  'A' ≤ c && c ≤ 'Z' || 'a' ≤ c && c ≤ 'z' || '0' ≤ c && c ≤ '9' || c == '_'

/-- The template's `san` and `sanitize`. -/
def sanitize (v : String) : String := v.map fun c => if isNameChar c then c else '_'

/-- The fields of a site over those of the defaults, as `combine` merges them. -/
def SiteFields.combine (sd site : SiteFields) : SiteFields where
  altNames := site.altNames <|> sd.altNames
  tcpPassthrough := site.tcpPassthrough <|> sd.tcpPassthrough
  allowIps := site.allowIps <|> sd.allowIps
  geo := site.geo <|> sd.geo
  geoDisable := site.geoDisable <|> sd.geoDisable
  enableGeoip := site.enableGeoip <|> sd.enableGeoip
  zeroTrust := site.zeroTrust <|> sd.zeroTrust
  accessGate := site.accessGate <|> sd.accessGate
  autheliaEnabled := site.autheliaEnabled <|> sd.autheliaEnabled
  maintenance := site.maintenance <|> sd.maintenance
  rateBan := site.rateBan <|> sd.rateBan
  maxReqRate := site.maxReqRate <|> sd.maxReqRate
  errLimit := site.errLimit <|> sd.errLimit
  errIgnoreRules := site.errIgnoreRules <|> sd.errIgnoreRules
  errExclude := site.errExclude <|> sd.errExclude
  mtlsMode := site.mtlsMode <|> sd.mtlsMode
  mtlsCaId := site.mtlsCaId <|> sd.mtlsCaId

namespace Config

variable (cfg : Config) (site : Site)

/-- Only an explicit true pauses; nothing below sees a paused site. -/
def published : List Site := cfg.sites.filter fun site => !site.paused

def effective : SiteFields := cfg.siteDefaults.toSiteFields.combine site.toSiteFields

def u02 : Bool := cfg.siteDefaults.banPolicy.toLower == "u02"

def hostnames : List String := site.domain :: (cfg.effective site).altNames.getD []

def allowIps : List String := (cfg.effective site).allowIps.getD []

/-- Only the named addresses reach the site at all. -/
def restricted : Bool := !(cfg.allowIps site).isEmpty

def accessGate : Bool := (cfg.effective site).accessGate.getD false

def tcpPassthrough : Bool := (cfg.effective site).tcpPassthrough.getD false

/-- `passthru_sites`: the site's own field, not the one it inherits. -/
def passthruSites : List Site := cfg.published.filter fun site => site.tcpPassthrough.getD false

def hasPassthru : Bool := !cfg.passthruSites.isEmpty

def maxReqRate : Int := (cfg.effective site).maxReqRate.getD 0

def rateBan : Bool := (cfg.effective site).rateBan.getD false

def errLimit : Int := (cfg.effective site).errLimit.getD 20

def errIgnored : Bool :=
  (cfg.effective site).errIgnoreRules.getD cfg.siteDefaults.errIgnoreRulesDefault

def geoDisabled : Bool :=
  if cfg.restricted site then true
  else if (cfg.effective site).geoDisable.getD false then true
  else match site.geo with
    | some geo => !geo
    | none =>
      -- The authorization gate stays reachable worldwide unless the site opts back in.
      if cfg.accessGate site then true
      else match cfg.siteDefaults.geo with
        | some geo => !geo
        | none => !(cfg.effective site).enableGeoip.getD true

/-- An access gate without any configured upstream serves the static page. -/
def gateStub : Bool :=
  cfg.accessGate site && site.servers.isEmpty && site.backendIp.isEmpty && site.backendHost.isEmpty

def zeroTrust : Bool :=
  (cfg.effective site).zeroTrust.getD false && !cfg.accessGate site && !cfg.restricted site

def mtlsMode : MtlsMode := (cfg.effective site).mtlsMode.getD .disabled

def mtlsCaId : String := (cfg.effective site).mtlsCaId.getD ""

def mtls : Bool := cfg.mtlsMode site != .disabled && !(cfg.mtlsCaId site).isEmpty

def mtlsSites : List Site := cfg.published.filter cfg.mtls

/-- `mtls_ca_ids`: each authority once, in the order the sites name them. -/
def mtlsCaIds : List String :=
  (cfg.mtlsSites.map cfg.mtlsCaId).foldl (fun ids id => if id ∈ ids then ids else ids ++ [id]) []

/-- Access-gate sites are forward-auth protected regardless of their own switch. -/
def forwardAuth : Bool :=
  ((cfg.effective site).autheliaEnabled.getD false || cfg.accessGate site) && !cfg.restricted site

def maintenance : Bool := (cfg.effective site).maintenance.getD false

/-- The Authelia domain, where the template writes rules for it. -/
def autheliaDomain : Option String := if cfg.autheliaEnabled then cfg.autDomain else none

def hardReqRate : Int :=
  if cfg.siteDefaults.hardReqRate ≤ 0 then 1000 else cfg.siteDefaults.hardReqRate

def connRateHard : Int :=
  if cfg.siteDefaults.connRateBurstTrusted ≤ 0 then 1000 else cfg.siteDefaults.connRateBurstTrusted

def connCurLimit : Int :=
  if cfg.siteDefaults.connCurLimit ≤ 0 then 500 else cfg.siteDefaults.connCurLimit

end Config

/-! ## What the panel refuses -/

def isIdentifierChar (c : Char) : Bool := isNameChar c || c == '.' || c == '-'

/-- `IDENTIFIER_RE`. -/
def isIdentifier : List Char → Bool
  | [] => false
  | c :: cs => isNameChar c && c != '_' && cs.length ≤ 127 && cs.all isIdentifierChar

/-- `haproxy_name`: the name as the validator predicts it, without the blanks around it. -/
def haproxyName (name : String) : String := sanitize (String.ofList (Text.strip name.toList))

/-- `_routing_names`. -/
def routingNames (site : Site) : List String :=
  (site.domain :: site.altNames.getD []).filterMap fun name =>
    let text := Text.lower (Text.strip name.toList)
    if text.isEmpty then none else some (String.ofList text)

/-- `_no_shared_haproxy_names` and the check of the name in `_validate_site`. -/
def validateConfigData (sites : List Site) : Prop :=
  sites.length ≤ 500 ∧ (sites.map fun site => haproxyName site.name).Nodup ∧
    ∀ site ∈ sites, isIdentifier
      (Text.strip (if site.name.isEmpty then site.domain else site.name).toList) = true

instance (sites : List Site) : Decidable (validateConfigData sites) :=
  inferInstanceAs (Decidable (_ ∧ _ ∧ _))

/-- `site_identity_conflict` finds nothing against a candidate. -/
def siteIdentityConflict (candidate : Site) (others : List Site) : Bool :=
  others.any fun other =>
    Text.strip other.name.toList == Text.strip candidate.name.toList ||
    haproxyName other.name == haproxyName candidate.name ||
    !candidate.paused && !other.paused && (routingNames candidate).any (· ∈ routingNames other)

end EasyHaProxy.Haproxy
