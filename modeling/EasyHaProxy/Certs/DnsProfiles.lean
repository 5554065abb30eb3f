import EasyHaProxy.Lib.Dict
import EasyHaProxy.Lib.Machine
import EasyHaProxy.Lib.Words
import Mathlib.Logic.Function.Basic

/-! A profile's credentials are written one line each and read back when some of them are saved again. -/
namespace EasyHaProxy.Certs.DnsProfiles

open Text

def cloudflare : List Char :=
  ['c', 'l', 'o', 'u', 'd', 'f', 'l', 'a', 'r', 'e']

def digitalocean : List Char :=
  ['d', 'i', 'g', 'i', 't', 'a', 'l', 'o', 'c', 'e', 'a', 'n']

def route53 : List Char :=
  ['r', 'o', 'u', 't', 'e', '5', '3']

def rfc2136 : List Char :=
  ['r', 'f', 'c', '2', '1', '3', '6']

def dnsCloudflareApiToken : List Char :=
  ['d', 'n', 's', '_', 'c', 'l', 'o', 'u', 'd', 'f', 'l', 'a', 'r', 'e', '_', 'a', 'p', 'i', '_', 't', 'o', 'k',
    'e', 'n']

def dnsDigitaloceanToken : List Char :=
  ['d', 'n', 's', '_', 'd', 'i', 'g', 'i', 't', 'a', 'l', 'o', 'c', 'e', 'a', 'n', '_', 't', 'o', 'k', 'e', 'n']

def awsAccessKeyId : List Char :=
  ['a', 'w', 's', '_', 'a', 'c', 'c', 'e', 's', 's', '_', 'k', 'e', 'y', '_', 'i', 'd']

def awsSecretAccessKey : List Char :=
  ['a', 'w', 's', '_', 's', 'e', 'c', 'r', 'e', 't', '_', 'a', 'c', 'c', 'e', 's', 's', '_', 'k', 'e', 'y']

def dnsRfc2136Server : List Char :=
  ['d', 'n', 's', '_', 'r', 'f', 'c', '2', '1', '3', '6', '_', 's', 'e', 'r', 'v', 'e', 'r']

def dnsRfc2136Port : List Char :=
  ['d', 'n', 's', '_', 'r', 'f', 'c', '2', '1', '3', '6', '_', 'p', 'o', 'r', 't']

def dnsRfc2136Name : List Char :=
  ['d', 'n', 's', '_', 'r', 'f', 'c', '2', '1', '3', '6', '_', 'n', 'a', 'm', 'e']

def dnsRfc2136Secret : List Char :=
  ['d', 'n', 's', '_', 'r', 'f', 'c', '2', '1', '3', '6', '_', 's', 'e', 'c', 'r', 'e', 't']

def dnsRfc2136Algorithm : List Char :=
  ['d', 'n', 's', '_', 'r', 'f', 'c', '2', '1', '3', '6', '_', 'a', 'l', 'g', 'o', 'r', 'i', 't', 'h', 'm']

/-- `DNS_PROVIDERS`, each with its `keys`. -/
def dnsProviders : Dict (List Char) (List (List Char)) :=
  .ofPairs [(cloudflare, [dnsCloudflareApiToken]), (digitalocean, [dnsDigitaloceanToken]),
    (route53, [awsAccessKeyId, awsSecretAccessKey]),
    (rfc2136, [dnsRfc2136Server, dnsRfc2136Port, dnsRfc2136Name, dnsRfc2136Secret, dnsRfc2136Algorithm])]

def dnsValueMax : Nat := 4096

def isNameChar (c : Char) : Bool := 'a' ≤ c && c ≤ 'z' || '0' ≤ c && c ≤ '9'

/-- `DNS_PROFILE_RE`, on a text with no newline at its end. -/
def isProfileName : List Char → Bool
  | [] => false
  | c :: rest => isNameChar c && rest.length ≤ 39 && rest.all fun d => isNameChar d || d == '-'

/-! ## Reading -/

structure Profile where
  provider : List Char
  values : Dict (List Char) (List Char)

/-- `# provider:` -/
def providerMark : List Char := ['#', ' ', 'p', 'r', 'o', 'v', 'i', 'd', 'e', 'r', ':']

/-- `line.split(" = ", 1)` of a line that has the separator. -/
def splitEquals : List Char → Option (List Char × List Char)
  | ' ' :: '=' :: ' ' :: value => some ([], value)
  | c :: rest => (splitEquals rest).map fun pair => (c :: pair.1, pair.2)
  | [] => none

def readLine (profile : Profile) (line : List Char) : Profile :=
  if providerMark.isPrefixOf line then
    { profile with provider := Text.strip ((line.dropWhile (· != ':')).drop 1) }
  else
    match splitEquals line with
    | none => profile
    | some (key, value) =>
      if line.head? = some '#' then profile
      else { profile with values := profile.values.set (Text.strip key) value }

def noProfile : Profile := ⟨[], .empty⟩

/-- `_read_dns_profile`; there is no text where reading the file raises an `OSError`. -/
def readDnsProfile (text : Option (List Char)) : Profile :=
  match text with
  | none => noProfile
  | some text => (splitLines text).foldl readLine noProfile

/-! ## Saving -/

/-- The credentials of a request: `None`, or the value's `str`. -/
abbrev Credentials := Dict (List Char) (Option (List Char))

structure Payload where
  name : List Char
  provider : List Char
  /-- `none` where it is no object. -/
  credentials : Option Credentials

/-- `None` and the empty text mean "unchanged". -/
def filled : Option (List Char) → Option (List Char)
  | some (c :: value) => some (c :: value)
  | _ => none

def Credentials.filled (supplied : Credentials) (key : List Char) : Option (List Char) :=
  DnsProfiles.filled (supplied.get? key).join

variable (supplied : Credentials) (kept : Dict (List Char) (List Char))

def chosen (key : List Char) : Option (List Char) := (supplied.filled key).or (filled (kept.get? key))

def entryLine (key value : List Char) : List Char := key ++ ' ' :: '=' :: ' ' :: value

def isRefused (c : Char) : Bool := c == '\r' || c == '\n' || c == '\x00'

/-- The loop over the provider's keys. -/
def entryLines : List (List Char) → Except String (List (List Char))
  | [] => .ok []
  | key :: keys =>
    match chosen supplied kept key with
    | none => entryLines keys
    | some value =>
      if dnsValueMax < value.length then .error (String.ofList key ++ " exceeds the size limit")
      else if value.any isRefused then .error (String.ofList key ++ " contains a line break")
      else (entryLines keys).map (entryLine key value :: ·)

def providerLine (provider : List Char) : List Char := providerMark ++ ' ' :: provider

structure Saved where
  name : List Char
  provider : List Char
  text : List Char

def keptValues (stored : Profile) (provider : List Char) : Dict (List Char) (List Char) :=
  if stored.provider = provider then stored.values else .empty

/-- `save_dns_provider` -/
def saveDnsProvider (read : List Char → Option (List Char)) (payload : Payload) : Except String Saved :=
  let name := Text.lower (Text.strip payload.name)
  let provider := Text.lower (Text.strip payload.provider)
  match dnsProviders.get? provider with
  | none => .error "unsupported DNS provider"
  | some keys =>
    if isProfileName name then
      match payload.credentials with
      | none => .error "credentials must be an object"
      | some supplied =>
        if supplied.keys.all (keys.contains ·) then
          match entryLines supplied (keptValues (readDnsProfile (read name)) provider) keys with
          | .error text => .error text
          | .ok [] => .error "no credentials were supplied"
          | .ok (line :: lines) => .ok ⟨name, provider, writeLines (providerLine provider :: line :: lines)⟩
        else .error "credentials contain an unsupported field"
    else .error "invalid DNS provider profile name"

/-! ## Runs -/

/-- A save that succeeded. -/
structure Save where
  provider : List Char
  supplied : Credentials

structure State where
  files : List Char → Option (List Char)
  /-- Each profile's saves, the last one first. -/
  saves : List Char → List Save

structure Call where
  payload : Payload
  /-- Reading the stored file raises an `OSError`. -/
  unreadable : Bool

def start : State := ⟨fun _ => none, fun _ => []⟩

def State.read (s : State) (call : Call) (name : List Char) : Option (List Char) :=
  if call.unreadable then none else s.files name

def step (s : State) (call : Call) : State :=
  match saveDnsProvider (s.read call) call.payload with
  | .error _ => s
  | .ok saved =>
    { files := Function.update s.files saved.name (some saved.text)
      saves := Function.update s.saves saved.name
        (⟨saved.provider, call.payload.credentials.getD .empty⟩ :: s.saves saved.name) }

/-- The last value that was not empty among the saves since the provider changed. -/
def lastSupplied (saves : List Save) (key : List Char) : Option (List Char) :=
  match saves with
  | [] => none
  | save :: _ => (saves.takeWhile (·.provider = save.provider)).findSome? (·.supplied.filled key)

def Accurate (s : State) : Prop :=
  ∀ name key, (readDnsProfile (s.files name)).values.get? key = lastSupplied (s.saves name) key

def OneLine (supplied : Credentials) : Prop :=
  ∀ key value, supplied.filled key = some value → ∀ c ∈ value, isLineEnd c = false

/-- What a save for a provider leaves of the earlier values. -/
def carried (saves : List Save) (provider key : List Char) : Option (List Char) :=
  if saves.head?.map Save.provider = some provider then lastSupplied saves key else none

/-- A save that succeeds has no line end in its values, and sends every stored one where it cannot read them. -/
def Sound (s : State) (call : Call) : Prop :=
  ∀ saved supplied, saveDnsProvider (s.read call) call.payload = .ok saved →
    call.payload.credentials = some supplied →
    OneLine supplied ∧
      (call.unreadable = true → ∀ key, (carried (s.saves saved.name) saved.provider key).isSome →
        (supplied.filled key).isSome)

end EasyHaProxy.Certs.DnsProfiles
