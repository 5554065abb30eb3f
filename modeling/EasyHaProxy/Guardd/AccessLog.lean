import EasyHaProxy.Guardd.Basic

/-! What `parse_access_line` keeps of a line, and why the gateway turned a request away. -/
namespace EasyHaProxy.Guardd

/-- `ParsedRequest`: one access-log line, reduced to what is safe to keep. -/
structure ParsedRequest where
  clientIp : Ip
  status : Int
  frontend : String := ""
  backend : String
  method : String := ""
  path : String := ""
  host : String := ""
  badRequest : Bool := false
  ts : Int := 0
  requestId : String := ""
  bytesOut : Int := 0
  durationMs : Int := 0
  responseMs : Int := -1
  times : String := ""
  term : String := ""
  banReason : String := ""
  userAgent : String := ""
  deriving DecidableEq

inductive Refusal
  | banned | rateLimited | geo | zeroTrust | denied | invalidRequest | refused
  deriving DecidableEq, Repr

def Refusal.text : Refusal → String
  | banned => "banned"
  | rateLimited => "rate-limited"
  | geo => "geo"
  | zeroTrust => "zero-trust"
  | denied => "denied"
  | invalidRequest => "invalid-request"
  | refused => "refused"

/-- `backend.endswith("/<NOSRV>")`: no server was chosen. -/
def noServer (backend : String) : Bool := "/<NOSRV>".toList.isSuffixOf backend.toList

/-- Why the gateway itself turned this request away. -/
def liveRefusal (status : Int) (backend term banReason : String) : Option Refusal :=
  if status = 423 ∨ banReason ≠ "" then some .banned
  else if status = 429 then some .rateLimited
  else if ¬ noServer backend then none
  else if status = 451 then some .geo
  else if status = 401 then some .zeroTrust
  else if status = 403 then some .denied
  else if status = 400 then some .invalidRequest
  else if "PR".toList.isPrefixOf term.toList then some .refused
  else none

def ParsedRequest.refusal (request : ParsedRequest) : Option Refusal :=
  liveRefusal request.status request.backend request.term request.banReason

end EasyHaProxy.Guardd
