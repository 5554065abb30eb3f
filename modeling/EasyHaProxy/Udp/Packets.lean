import EasyHaProxy.Udp.Rules

/-! The chains of the loader seen by a UDP packet: the ban and the access gate before anything else, then
the rewriting to the backend, then the way out. -/
namespace EasyHaProxy.Udp

open EasyHaProxy.Netfilter

/-- What becomes of a packet before it is routed. -/
inductive Fate
  | dropped
  | rewritten (ip : Ip4) (port : Nat)
  | unchanged

/-- `raw` comes before `nat`, each with the chain of the loader. -/
def fate (tables : Tables Ip4) (sets : Sets Ip4) (p : Packet Ip4) : Fate :=
  match verdict sets p (tables "raw" rawChain) with
  | some .drop => .dropped
  | _ =>
    match verdict sets p (tables "nat" natPre) with
    | some (.dnat ip port) => .rewritten ip port
    | _ => .unchanged

def Masqueraded (tables : Tables Ip4) (sets : Sets Ip4) (p : Packet Ip4) : Prop :=
  verdict sets p (tables "nat" natPost) = some .masquerade

def Accepted (tables : Tables Ip4) (sets : Sets Ip4) (p : Packet Ip4) : Prop :=
  verdict sets p (tables "filter" fwdChain) = some .accept

def udpPacket (src dst : Ip4) (port : Nat) (state : ConnState) : Packet Ip4 := ⟨.udp, src, dst, port, state⟩

/-- The source is banned where bans count, or unauthorised where the gate does. -/
def Forward.Refuses (names : SetNames) (sets : Sets Ip4) (fwd : Forward) (src : Ip4) : Prop :=
  fwd.banCheck = true ∧ sets names.ban src = true ∨ fwd.zeroTrust = true ∧ sets names.auth src = false

def Forward.backendPort (fwd : Forward) (port : Nat) : Nat := fwd.backend.start + (port - fwd.listen.start)

section

variable {py : Outside} {path : String} {file : File} {names : SetNames} {forwards : List Forward}
  {before : Tables Ip4} {sets : Sets Ip4} {src dst : Ip4} {port : Nat} {state : ConnState} {fwd : Forward}

theorem dropRule_applies {r : PortRange} {set : String} {wanted : Bool} :
    (dropRule r set wanted).applies sets (udpPacket src dst port state) = true ↔
      port ∈ r.ports ∧ sets set src = wanted := by
  simp [applies_iff, dropRule, udpPacket, and_assoc]

theorem dnatRule_applies {ip : Ip4} {listenPort backendPort : Nat} :
    (dnatRule ip listenPort backendPort).applies sets (udpPacket src dst port state) = true ↔ port = listenPort := by
  simp only [applies_iff, dnatRule, udpPacket, List.forall_mem_cons, holds_proto, holds_dport, List.not_mem_nil,
    false_implies, implies_true, and_true, true_and]
  omega

theorem backendRule_applies {ip : Ip4} {backendPort : Nat} {target : Target Ip4} :
    (backendRule ip backendPort target).applies sets (udpPacket src ip backendPort state) = true := by
  simp [applies_iff, backendRule, udpPacket]

theorem rawRules_applies : (∃ r ∈ rawRules names fwd, r.applies sets (udpPacket src dst port state) = true) ↔
    port ∈ fwd.listen.ports ∧ fwd.Refuses names sets src := by
  unfold rawRules Forward.Refuses
  cases fwd.banCheck <;> cases fwd.zeroTrust <;> simp [dropRule_applies, and_or_left]

theorem raw_drop : verdict sets (udpPacket src dst port state) (restored names forwards before "raw" rawChain) =
    some .drop ↔ ∃ fwd ∈ forwards, port ∈ fwd.listen.ports ∧ fwd.Refuses names sets src := by
  have htarget : ∀ r ∈ forwards.flatMap (rawRules names), r.target = .drop := by
    intro r hr
    obtain ⟨fwd, -, hr⟩ := List.mem_flatMap.mp hr
    rcases List.mem_append.mp hr with hr | hr
    · split at hr
      · rw [List.mem_singleton.mp hr, dropRule]
      · cases hr
    · split at hr
      · rw [List.mem_singleton.mp hr, dropRule]
      · cases hr
  rw [restored_raw, verdict_of_target htarget]
  constructor
  · rintro ⟨r, hr, happ⟩
    obtain ⟨fwd, hfwd, hr⟩ := List.mem_flatMap.mp hr
    exact ⟨fwd, hfwd, rawRules_applies.mp ⟨r, hr, happ⟩⟩
  · rintro ⟨fwd, hfwd, href⟩
    obtain ⟨r, hr, happ⟩ := rawRules_applies.mpr href
    exact ⟨r, List.mem_flatMap.mpr ⟨fwd, hfwd, hr⟩, happ⟩

theorem fate_dropped : fate (restored names forwards before) sets (udpPacket src dst port state) = .dropped ↔
    ∃ fwd ∈ forwards, port ∈ fwd.listen.ports ∧ fwd.Refuses names sets src := by
  have hdrop : verdict sets (udpPacket src dst port state) (restored names forwards before "raw" rawChain) =
      some .drop ↔ _ := raw_drop
  rw [← hdrop]
  unfold fate
  split
  · simp [*]
  · rename_i hraw
    constructor
    · intro h
      split at h <;> cases h
    · exact fun h => absurd h hraw

theorem mem_natPre {r : Rule Ip4} : r ∈ restored names forwards before "nat" natPre ↔
    ∃ fwd ∈ forwards, ∃ listenPort ∈ fwd.listen.ports,
      r = dnatRule fwd.backendIp listenPort (fwd.backendPort listenPort) := by
  simp only [restored_natPre, List.mem_flatMap, List.mem_map, Prod.exists, Forward.mem_portPairs,
    Forward.backendPort]
  grind

theorem mem_natPost (hfwd : fwd ∈ forwards) (hport : port ∈ fwd.listen.ports) :
    backendRule fwd.backendIp (fwd.backendPort port) .masquerade ∈ restored names forwards before "nat" natPost := by
  rw [restored_natPost]
  exact List.mem_flatMap.mpr ⟨fwd, hfwd, List.mem_map.mpr ⟨(port, fwd.backendPort port),
    Forward.mem_portPairs.mpr ⟨hport, rfl⟩, rfl⟩⟩

theorem mem_filter (hfwd : fwd ∈ forwards) (hport : port ∈ fwd.listen.ports) :
    backendRule fwd.backendIp (fwd.backendPort port) .accept ∈ restored names forwards before "filter" fwdChain := by
  rw [restored_filter]
  exact List.mem_cons_of_mem _ (List.mem_flatMap.mpr ⟨fwd, hfwd, List.mem_map.mpr ⟨(port, fwd.backendPort port),
    Forward.mem_portPairs.mpr ⟨hport, rfl⟩, rfl⟩⟩)

theorem forward_unique (h : loadForwards py path file = .ok forwards) {g : Forward} (hfwd : fwd ∈ forwards)
    (hg : g ∈ forwards) (hport : port ∈ fwd.listen.ports) (hport' : port ∈ g.listen.ports) : g = fwd := by
  by_contra hne
  exact (apart_of_loadForwards h).forall hg hfwd hne port hport' hport

theorem natPre_dnat (h : loadForwards py path file = .ok forwards) (hfwd : fwd ∈ forwards)
    (hport : port ∈ fwd.listen.ports) :
    verdict sets (udpPacket src dst port state) (restored names forwards before "nat" natPre) =
      some (.dnat fwd.backendIp (fwd.backendPort port)) := by
  refine verdict_of_agree (mem_natPre.mpr ⟨fwd, hfwd, port, hport, rfl⟩) (dnatRule_applies.mpr rfl) ?_
  intro s hs happ
  obtain ⟨g, hg, listenPort, hlisten, rfl⟩ := mem_natPre.mp hs
  obtain rfl := dnatRule_applies.mp happ
  rw [forward_unique h hfwd hg hport hlisten]

theorem natPre_none (hport : ∀ fwd ∈ forwards, port ∉ fwd.listen.ports) :
    verdict sets (udpPacket src dst port state) (restored names forwards before "nat" natPre) = none := by
  rw [verdict_eq_none]
  intro r hr
  obtain ⟨fwd, hfwd, listenPort, hlisten, rfl⟩ := mem_natPre.mp hr
  by_contra happ
  rw [Bool.not_eq_false, dnatRule_applies] at happ
  subst happ
  exact hport fwd hfwd hlisten

theorem masqueraded_of_mem (hfwd : fwd ∈ forwards) (hport : port ∈ fwd.listen.ports) :
    Masqueraded (restored names forwards before) sets (udpPacket src fwd.backendIp (fwd.backendPort port) state) := by
  refine (verdict_of_target ?_).mpr ⟨_, mem_natPost hfwd hport, backendRule_applies⟩
  intro r hr
  rw [restored_natPost] at hr
  obtain ⟨g, -, hr⟩ := List.mem_flatMap.mp hr
  obtain ⟨pair, -, rfl⟩ := List.mem_map.mp hr
  rfl

theorem accepted_of_mem (hfwd : fwd ∈ forwards) (hport : port ∈ fwd.listen.ports) :
    Accepted (restored names forwards before) sets (udpPacket src fwd.backendIp (fwd.backendPort port) state) := by
  refine (verdict_of_target ?_).mpr ⟨_, mem_filter hfwd hport, backendRule_applies⟩
  intro r hr
  rw [restored_filter] at hr
  rcases List.mem_cons.mp hr with rfl | hr
  · rfl
  · obtain ⟨g, -, hr⟩ := List.mem_flatMap.mp hr
    obtain ⟨pair, -, rfl⟩ := List.mem_map.mp hr
    rfl

theorem backendPort_valid (hport : port ∈ fwd.listen.ports) :
    1 ≤ fwd.backendPort port ∧ fwd.backendPort port ≤ 65535 := by
  have hcount := fwd.sameCount
  have hlisten := fwd.listen.le
  have hbackend := fwd.backend.le
  have hpos := fwd.backend.pos
  have hbound := fwd.backend.bound
  rw [PortRange.mem_ports] at hport
  unfold PortRange.count at hcount
  unfold Forward.backendPort
  omega

/-- The rules drop what a forward refuses, send what it takes to the one backend port, and leave every
other port alone. -/
theorem packets_follow_forwards (h : loadForwards py path file = .ok forwards) (names : SetNames) (before : Tables Ip4) :
    ∃ after, restore Ip4.read before (restoreText (buildRuleCommands names forwards)) = some after ∧
      ∀ (sets : Sets Ip4) (src dst : Ip4) (port : Nat) (state : ConnState),
        (fate after sets (udpPacket src dst port state) = .dropped ↔
          ∃ fwd ∈ forwards, port ∈ fwd.listen.ports ∧ fwd.Refuses names sets src) ∧
        (∀ fwd ∈ forwards, port ∈ fwd.listen.ports →
          (∀ g ∈ forwards, port ∈ g.listen.ports → g = fwd) ∧
          (¬ fwd.Refuses names sets src →
            fate after sets (udpPacket src dst port state) = .rewritten fwd.backendIp (fwd.backendPort port) ∧
            1 ≤ fwd.backendPort port ∧ fwd.backendPort port ≤ 65535 ∧
            Masqueraded after sets (udpPacket src fwd.backendIp (fwd.backendPort port) state) ∧
            Accepted after sets (udpPacket src fwd.backendIp (fwd.backendPort port) state))) ∧
        ((∀ fwd ∈ forwards, port ∉ fwd.listen.ports) →
          fate after sets (udpPacket src dst port state) = .unchanged) := by
  refine ⟨restored names forwards before, restore_rules before, fun sets src dst port state => ⟨fate_dropped, ?_, ?_⟩⟩
  · intro fwd hfwd hport
    have hunique : ∀ g ∈ forwards, port ∈ g.listen.ports → g = fwd :=
      fun g hg hg' => forward_unique h hfwd hg hport hg'
    refine ⟨hunique, fun hnot => ⟨?_, (backendPort_valid hport).1, (backendPort_valid hport).2,
      masqueraded_of_mem hfwd hport, accepted_of_mem hfwd hport⟩⟩
    have hraw : ¬ verdict sets (udpPacket src dst port state) (restored names forwards before "raw" rawChain) =
        some .drop := by
      rw [raw_drop]
      rintro ⟨g, hg, hg', href⟩
      exact hnot (hunique g hg hg' ▸ href)
    unfold fate
    split
    · exact absurd ‹_› hraw
    · rw [natPre_dnat h hfwd hport]
  · intro hnone
    have hraw : ¬ verdict sets (udpPacket src dst port state) (restored names forwards before "raw" rawChain) =
        some .drop := by
      rw [raw_drop]
      rintro ⟨g, hg, hg', -⟩
      exact hnone g hg hg'
    unfold fate
    split
    · exact absurd ‹_› hraw
    · rw [natPre_none hnone]

end

/-- A host without a resolver. -/
def noResolver : Outside := ⟨fun _ => "", id, fun _ => .error (.os "no resolver")⟩

def dnsFile : File :=
  .parsed (.map [("udp_forwards", .list
    [.map [("listen_port", .int 53), ("backend_host", .str "10.0.0.5"), ("backend_port", .int 5353)]])])

def dnsForward : Forward where
  name := "udp53"
  listen := ⟨53, 53, by decide, by decide, by decide, by decide⟩
  backendIp := ⟨"10.0.0.5", by decide⟩
  backend := ⟨5353, 5353, by decide, by decide, by decide, by decide⟩
  banCheck := true
  zeroTrust := false
  sameCount := by decide
  notLoopback := by decide

def client : Ip4 := ⟨"192.0.2.7", by decide⟩

def proxy : Ip4 := ⟨"192.0.2.1", by decide⟩

theorem packets_follow_forwards_dns : ∃ after,
    restore Ip4.read (fun _ _ => []) (restoreText (buildRuleCommands .default [dnsForward])) = some after ∧
    fate after (fun _ _ => false) (udpPacket client proxy 53 .new) = .rewritten dnsForward.backendIp 5353 := by
  have hload : loadForwards noResolver "udp.yml" dnsFile = .ok [dnsForward] := by rfl
  obtain ⟨after, hafter, h⟩ := packets_follow_forwards hload .default (fun _ _ => [])
  obtain ⟨-, hin, -⟩ := h (fun _ _ => false) client proxy 53 .new
  refine ⟨after, hafter, ((hin dnsForward (by simp) (by decide)).2 ?_).1⟩
  rintro (⟨-, hset⟩ | ⟨hzero, -⟩)
  · cases hset
  · cases hzero

end EasyHaProxy.Udp
