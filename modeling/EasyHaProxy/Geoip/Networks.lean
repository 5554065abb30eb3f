import Mathlib.Algebra.Group.Nat.Defs
import Mathlib.Data.List.Dedup
import Mathlib.Data.List.Sort
import Mathlib.Tactic.Common
import EasyHaProxy.Lib.Text

/-! Networks as Python's `ipaddress` has them, and the lists `derive_acl` makes of a database: one for each
selected country, and `allowed.geo` with the networks of all of them. -/
namespace EasyHaProxy.Geoip

inductive Version
  | v4
  | v6
  deriving DecidableEq

def Version.bits : Version → Nat
  | .v4 => 32
  | .v6 => 128

def Version.number : Version → Nat
  | .v4 => 4
  | .v6 => 6

/-- `ipaddress.IPv4Network` and `IPv6Network`: no host bit is set. -/
structure Network where
  version : Version
  address : Nat
  prefixlen : Nat
  prefixlen_le : prefixlen ≤ version.bits
  address_lt : address < 2 ^ version.bits
  aligned : 2 ^ (version.bits - prefixlen) ∣ address
  deriving DecidableEq

namespace Network

/-- `ip_network((address, length), strict=False)`. -/
def of (version : Version) (address length : Nat) : Network where
  version := version
  address := address % 2 ^ version.bits / 2 ^ (version.bits - min length version.bits) *
    2 ^ (version.bits - min length version.bits)
  prefixlen := min length version.bits
  prefixlen_le := Nat.min_le_right _ _
  address_lt := (Nat.div_mul_le_self _ _).trans_lt (Nat.mod_lt _ (Nat.two_pow_pos _))
  aligned := Nat.dvd_mul_left _ _

def isHost (n : Network) : Bool := n.prefixlen = n.version.bits

/-- `broadcast_address`. -/
def broadcast (n : Network) : Nat := n.address + 2 ^ (n.version.bits - n.prefixlen) - 1

def supernet (n : Network) : Network :=
  if n.prefixlen = 0 then n else of n.version n.address (n.prefixlen - 1)

/-- `_network_sort_key`, and the order of networks of one version. -/
def le (m n : Network) : Bool :=
  m.version.number < n.version.number ||
    m.version.number = n.version.number &&
      (m.address < n.address || m.address = n.address && m.prefixlen ≤ n.prefixlen)

end Network

/-- `sorted` of a set. -/
def sortedSet (networks : List Network) : List Network := networks.dedup.insertionSort fun m n => m.le n

/-! ## `ipaddress.collapse_addresses` -/

/-- The first loop of `_collapse_addresses_internal`: the next to merge is the head, `subnets` the
dictionary from a supernet to the one half of it that has been met. Two halves met become the
supernet, so `2 * n` rounds are enough for `n` networks. -/
def mergeHalves : Nat → List Network → List (Network × Network) → List (Network × Network)
  | 0, _, subnets => subnets
  | _, [], subnets => subnets
  | fuel + 1, net :: rest, subnets =>
    match subnets.lookup net.supernet with
    | none => mergeHalves fuel rest ((net.supernet, net) :: subnets)
    | some existing =>
      if existing = net then mergeHalves fuel rest subnets
      else mergeHalves fuel (net.supernet :: rest) (subnets.filter fun e => e.1 ≠ net.supernet)

/-- The second loop: what lies in the network before it is left out. -/
def skipSubsumed (last : Option Network) : List Network → List Network
  | [] => []
  | net :: rest =>
    if last.any fun l => net.broadcast ≤ l.broadcast then skipSubsumed last rest
    else net :: skipSubsumed (some net) rest

/-- `_collapse_addresses_internal`. `pop` takes from the end. -/
def collapseInternal (networks : List Network) : List Network :=
  skipSubsumed none (sortedSet ((mergeHalves (2 * networks.length) networks.reverse []).map Prod.snd))

/-- `_find_address_range`: the runs of consecutive addresses, from `first` to `last` so far. -/
def findAddressRange (first last : Nat) : List Nat → List (Nat × Nat)
  | [] => [(first, last)]
  | ip :: rest =>
    if ip = last + 1 then findAddressRange first ip rest else (first, last) :: findAddressRange ip ip rest

/-- `_count_righthand_zero_bits`. -/
def countRighthandZeroBits : Nat → Nat → Nat
  | _, 0 => 0
  | number, bits + 1 => if number % 2 = 0 then countRighthandZeroBits (number / 2) bits + 1 else 0

/-- `summarize_address_range`: each round goes at least one address on. -/
def summarizeAddressRange (version : Version) : Nat → Nat → Nat → List Network
  | 0, _, _ => []
  | fuel + 1, first, last =>
    if first ≤ last then
      let nbits := min (countRighthandZeroBits first version.bits) (last - first + 1).log2
      .of version first (version.bits - nbits) :: summarizeAddressRange version fuel (first + 2 ^ nbits) last
    else []

/-- `collapse_addresses`, of networks of one version: single addresses are put together first. -/
def collapseAddresses (version : Version) (networks : List Network) : List Network :=
  let hosts := (sortedSet (networks.filter (·.isHost))).map (·.address)
  let ranges :=
    match hosts with
    | [] => []
    | ip :: rest => findAddressRange ip ip rest
  let addresses := ranges.flatMap fun r => summarizeAddressRange version (r.2 + 1 - r.1) r.1 r.2
  collapseInternal (addresses ++ networks.filter fun n => !n.isHost)

/-- `_collapse`. -/
def collapse (networks : List Network) : List Network :=
  collapseAddresses .v4 (sortedSet (networks.filter fun n => n.version = .v4)) ++
    collapseAddresses .v6 (sortedSet (networks.filter fun n => n.version = .v6))

/-! ## The database -/

/-- An ISO code: two capital letters. -/
abbrev Country := List Char

/-- A record: its network and the `iso_code` of its country, where it has one. -/
structure Record where
  network : Network
  isoCode : Option (List Char)
  deriving DecidableEq

def Record.country (r : Record) : Country := (r.isoCode.map fun code => Text.upper (Text.strip code)).getD []

/-- An MMDB file: what its metadata says, and its records. One that cannot be opened is not `readable`. -/
structure Database where
  readable : Bool
  databaseType : List Char
  nodeCount : Nat
  records : List Record
  deriving DecidableEq

/-- `MIN_DATABASE_NODES`. -/
def minDatabaseNodes : Nat := 10000

/-- `validate_database`. -/
def validateDatabase (db : Database) : Bool :=
  db.readable && (Text.lower db.databaseType).tails.any (['c', 'o', 'u', 'n', 't', 'r', 'y'].isPrefixOf ·) &&
    minDatabaseNodes ≤ db.nodeCount

/-- `allowed.geo` and the `.cidr` file of each country, one network a line. -/
structure Lists where
  allowed : List Network
  cidr : List (Country × List Network)
  deriving DecidableEq

/-- `selected[code]`. -/
def selected (db : Database) (code : Country) : List Network :=
  (db.records.filter fun r => r.country = code).map (·.network)

/-- `derive_acl`. -/
def deriveAcl (db : Database) (countries : List Country) : Option Lists :=
  if !validateDatabase db then none
  else if db.records.length < minDatabaseNodes ∨
      ¬ (db.records.any (·.network.version = .v4) ∧ db.records.any (·.network.version = .v6)) then none
  else if countries.any fun code => (selected db code).isEmpty then none
  else
    let collapsed := countries.map fun code => (code, collapse (selected db code))
    some ⟨sortedSet (collapsed.flatMap Prod.snd), collapsed⟩

/-! ## A database to look at -/

/-- The least database that passes: these records among ten thousand of no country. -/
def padded (records : List Record) : Database where
  readable := true
  databaseType := ['C', 'o', 'u', 'n', 't', 'r', 'y']
  nodeCount := minDatabaseNodes
  records := records ++ List.replicate minDatabaseNodes ⟨.of .v6 0 128, none⟩

/-- The lists of that database. -/
def listsOf (records : List Record) (countries : List Country) : Lists :=
  let collapsed := countries.map fun code => (code, collapse ((records.filter fun r => r.country = code).map (·.network)))
  ⟨sortedSet (collapsed.flatMap Prod.snd), collapsed⟩

theorem validateDatabase_padded (records : List Record) : validateDatabase (padded records) = true := by
  change (_ && decide (minDatabaseNodes ≤ minDatabaseNodes)) = true
  rw [decide_eq_true (le_refl _), Bool.and_true]
  rfl

theorem selected_padded {records : List Record} {code : Country} (h : code ≠ []) :
    selected (padded records) code = (records.filter fun r => r.country = code).map (·.network) := by
  have hne : ¬ (Record.country ⟨.of .v6 0 128, none⟩ = code) := fun heq => h heq.symm
  simp only [selected, padded, List.filter_append, List.filter_replicate, hne]
  simp

theorem deriveAcl_padded {records : List Record} {countries : List Country}
    (hv : records.any (fun r => r.network.version = .v4) = true)
    (hc : ∀ code ∈ countries, code ≠ [] ∧ records.any (fun r => r.country = code) = true) :
    deriveAcl (padded records) countries = some (listsOf records countries) := by
  have hlength : ¬ (padded records).records.length < minDatabaseNodes := by
    simp [padded]
  have hversions : (padded records).records.any (fun r => r.network.version = .v4) = true ∧
      (padded records).records.any (fun r => r.network.version = .v6) = true := by
    refine ⟨by simp only [padded, List.any_append, hv, Bool.true_or], ?_⟩
    have hmem : ⟨.of .v6 0 128, none⟩ ∈ (padded records).records :=
      List.mem_append_right _ (List.mem_replicate.mpr ⟨by decide, rfl⟩)
    exact List.any_eq_true.mpr ⟨_, hmem, rfl⟩
  have hselected : ∀ code ∈ countries,
      selected (padded records) code = (records.filter fun r => r.country = code).map (·.network) :=
    fun code hcode => selected_padded (hc code hcode).1
  have hpresent : ¬ (countries.any fun code => (selected (padded records) code).isEmpty) = true := by
    simp only [List.any_eq_true, not_exists, not_and, Bool.not_eq_true]
    intro code hcode
    rw [hselected code hcode]
    simpa using (hc code hcode).2
  have hcollapsed : countries.map (fun code => (code, collapse (selected (padded records) code))) =
      countries.map fun code => (code, collapse ((records.filter fun r => r.country = code).map (·.network))) :=
    List.map_congr_left fun code hcode => by rw [hselected code hcode]
  unfold deriveAcl listsOf
  rw [validateDatabase_padded, if_neg (by simp), if_neg, if_neg hpresent, hcollapsed]
  rintro (h | h)
  · exact hlength h
  · exact h hversions

end EasyHaProxy.Geoip
