import HanzoDNS.Dns.Edns
import HanzoDNS.K8sExternal.Theorems.Zone
import HanzoDNS.Kubernetes.Theorems.Exposure

open Dns Strings Plugin Kubernetes Channel List

namespace K8sExternal

open Config Zones External Except Cluster Net.IP Plugin Sample

inductive Request
  | query (r : Msg)
  | externalQuery (r : Msg)
  | transfer (zone : Str) (serial : UInt32)
  | externalTransfer (zone : Str) (serial : UInt32)

structure Setting where
  lib : Edns
  k : Config
  e : External
  lookup : State → (name : Str) → (qtype : RRType) → Option Msg
  order : Order
  keyOrder : KeyOrder

namespace Setting

variable (s : Setting)

def env (c : Cluster) : Env where
  lookup := s.lookup
  k := s.k
  cluster := c

def Same (c₁ c₂ : Cluster) : Request → Prop
  | .query r => s.k.serveDNS s.lib.toLibrary c₁ s.lookup r = s.k.serveDNS s.lib.toLibrary c₂ s.lookup r
  | .externalQuery r => s.e.serveDNS s.lib.toLibrary (s.env c₁) r = s.e.serveDNS s.lib.toLibrary (s.env c₂) r
  | .transfer zone serial =>
    (s.k.transfer s.lib.toLibrary s.order c₁ zone serial).map Multiset.ofList =
      (s.k.transfer s.lib.toLibrary s.order c₂ zone serial).map Multiset.ofList
  | .externalTransfer zone serial =>
    (s.e.transfer s.lib.toLibrary (s.env c₁) s.keyOrder zone serial).map Multiset.ofList =
      (s.e.transfer s.lib.toLibrary (s.env c₂) s.keyOrder zone serial).map Multiset.ofList

def address (r : Msg) : Str :=
  extractAddressFromReverse ((stateOf s.lib.toLibrary r []).name s.lib.toLibrary)

-- The requests whose answers do not check whether namespaces are exposed: names of addresses, if namespaces are chosen
-- by their labels and not by a list, and transfers for addresses outside of the cluster.
def Leaks : Request → Prop
  | .query r => s.k.namespaceLabels ∧ s.k.namespaces = [] ∧ r.qtype = .ptr ∧ s.address r ≠ [] ∧
    Zones.matches s.lib.isSubDomain s.k.zones (r.qname s.lib.toLibrary).text ≠ []
  | .externalQuery r => s.k.namespaceLabels ∧ s.k.namespaces = [] ∧ r.qtype = .ptr ∧ s.address r ≠ [] ∧
    Zones.matches s.lib.isSubDomain s.e.zones (r.name s.lib.toLibrary) ≠ [] ∧
    s.e.place s.lib.toLibrary (r.name s.lib.toLibrary) = .service
  | .transfer .. => False
  | .externalTransfer zone serial => s.k.Restricted ∧ Zones.matches s.lib.isSubDomain s.e.zones zone = zone ∧
    serial ≠ 0xffffffff

variable {s} {c₁ c₂ : Cluster} (h : s.k.Agree c₁ c₂) (hk : s.k.Restricted)

include h hk

theorem query_same {r : Msg} (hl : ¬s.Leaks (.query r)) : s.Same c₁ c₂ (.query r) := by
  by_cases hz : Zones.matches s.lib.isSubDomain s.k.zones (r.qname s.lib.toLibrary).text = []
  case pos => simp [Same, Config.serveDNS, hz]
  case neg =>
    refine h.serveDNS fun hp zone => h.reverse (or_iff_not_imp_left.mpr fun hn => ?_)
    by_contra ha
    exact hl ⟨hk.resolve_right hn, not_not.mp hn, hp, ha, hz⟩

theorem externalQuery_same {r : Msg} (hl : ¬s.Leaks (.externalQuery r)) : s.Same c₁ c₂ (.externalQuery r) := by
  refine serveDNS_congr (soa_congr (by rw [h.modified])) (addresses_congr (by rw [h.nsAddrs])) rfl fun hz hp zone => ?_
  refine h.external (or_iff_not_imp_left.mpr fun hn => ?_)
  by_contra ha
  rw [not_or, not_not] at ha
  exact hl ⟨hk.resolve_right hn, not_not.mp hn, ha.1, ha.2, hz, hp⟩

omit hk in
theorem transfer_same {zone : Str} {serial : UInt32} : s.Same c₁ c₂ (.transfer zone serial) := by
  rw [Same, Config.transfer, Config.transfer]
  split
  case isTrue => rfl
  case isFalse => exact congrArg ok (Multiset.coe_eq_coe.mpr h.goroutine_perm)

-- The largest serial is never older.
theorem externalTransfer_same {zone : Str} {serial : UInt32} (hl : ¬s.Leaks (.externalTransfer zone serial)) :
    s.Same c₁ c₂ (.externalTransfer zone serial) := by
  rw [Same, External.transfer, External.transfer]
  split
  case isTrue => rfl
  case isFalse hz =>
    have hm : serial = 0xffffffff := not_not.mp fun hm => hl ⟨hk, not_not.mp hz, hm⟩
    have hc (x : UInt32) : serial ≠ 0 ∧ serial ≥ x := by
      subst hm
      exact ⟨by decide, UInt32.le_iff_toNat_le.mpr (Nat.le_of_lt_succ x.toNat_lt)⟩
    have hs : s.e.soa s.lib.toLibrary (s.env c₁) = s.e.soa s.lib.toLibrary (s.env c₂) := soa_congr (by rw [h.modified])
    rw [if_pos (hc _), if_pos (hc _), hs]

theorem same_of_not_leaks {request : Request} (hl : ¬s.Leaks request) : s.Same c₁ c₂ request := by
  cases request
  case query => exact query_same h hk hl
  case externalQuery => exact externalQuery_same h hk hl
  case transfer => exact transfer_same h
  case externalTransfer => exact externalTransfer_same h hk hl

omit h hk

-- Leaks show in a cluster with one service, in a namespace that is not exposed.
section Hidden

def fresh (k : Config) : Namespace where
  text := List.replicate ((k.namespaces.map length).sum + 1) 'x'
  valid := all_eq_true.mpr fun c hc => eq_of_mem_replicate hc ▸ by decide

def hidden (n : Namespace) (clusterIP : Str) (externalIPs : List Str) : Kubernetes.Service where
  version := ['1']
  name := ['s']
  «namespace» := n
  clusterIP := clusterIP
  otherClusterIPs := []
  type := .clusterIP
  externalName := []
  ports := [{ name := "http", port := 80, protocol := "TCP" }]
  externalIPs := externalIPs

def clusterOf (k : Config) (services : List Kubernetes.Service) : Cluster where
  services := services
  namespaces := if k.namespaceLabels then [] else [fresh k]
  modified := fun _ => 0xffffffff

theorem fresh_not_exposed {k : Config} (hk : k.Restricted) (services : List Kubernetes.Service) :
    k.namespaceExposed (clusterOf k services) (fresh k).text = false := by
  obtain hl | hn := hk
  case inl => simp [namespaceExposed, namespaceExists, clusterOf, hl]
  case inr =>
    have hf : (fresh k).text ∉ k.namespaces := by
      intro hm
      have hl := List.le_sum_of_mem (mem_map_of_mem (f := length) hm)
      rw [fresh, length_replicate] at hl
      omega
    simp [namespaceExposed, configuredNamespace, hn, hf]

theorem agree_without {k : Config} (hk : k.Restricted) (ip : Str) (ips : List Str) :
    k.Agree (clusterOf k []) (clusterOf k [hidden (fresh k) ip ips]) where
  namespaces := rfl
  modified := rfl
  hasSynced := rfl
  nsAddrs := by
    funext external headless zone
    simp [nsAddrs, localEndpoints, epIndexReverse, clusterOf]
  services := by
    refine (filter_eq_nil_iff.mpr (forall_mem_singleton.mpr ?_)).symm
    exact ne_true_of_eq_false (fresh_not_exposed hk _)
  endpoints := rfl
  serviceImports := rfl
  mcEndpoints := rfl
  pods := rfl

theorem watched_clusterOf (k : Config) (ip : Str) (ips : List Str) :
    k.Watched (clusterOf k []) ∧ k.Watched (clusterOf k [hidden (fresh k) ip ips]) := by
  simp +contextual [Watched, Cluster.owners, clusterOf, hidden]

theorem parse_hidden (rest : Str) : parse ('s' :: '.' :: rest) = none := by
  have hf : ('s' :: '.' :: rest).find? (· ∈ ['.', ':', '%']) = some '.' := by
    simp [List.find?]
  have hd : ∀ c ∈ ['s'], (c == '.') = false := by simp
  have hs : ('s' :: '.' :: rest).splitOn '.' = ['s'] :: rest.splitOn '.' :=
    splitOnP_append_cons_of_forall_mem hd '.' rfl rest
  have hp : parseIPv4 ('s' :: '.' :: rest) = none := by
    rw [parseIPv4, hs]
    split
    case isTrue => rfl
    case isFalse => rfl
  simp [parse, hp, Option.map_none]

variable {s : Setting}

-- A service that is found for its address, although nothing is exposed.
theorem serviceRecordForIP_hidden {k : Config} (hn : k.namespaces = []) (ip : Str) :
    k.serviceRecordForIP (clusterOf k [hidden (fresh k) ip []]) ip =
      [{ host := 's' :: '.' :: List.intercalate ['.'] [(fresh k).text, svc, k.primaryZone], ttl := k.ttl }] := by
  simp [serviceRecordForIP, svcIndexReverse, hides, hn, clusterOf, hidden, Kubernetes.Service.clusterIPs,
    List.intercalate]

theorem lookup_ptr {lib : Library} {b : Backend} {zone : Str} {state : State}
    {reverse : State → Except Error (List Etcd.Service)} (hp : state.qtype = .ptr) :
    Kubernetes.lookup lib b zone state reverse = (ptr lib reverse state).map ({ records := · }) := by
  rw [Kubernetes.lookup, hp]
  rfl

theorem reverse_nothing {k : Config} {lib : Library} {state : State} {ip : Str}
    (hi : extractAddressFromReverse (state.name lib) = ip) (ha : ip ≠ []) :
    k.reverse lib (clusterOf k []) state = .error .noItems := by
  rw [Config.reverse, hi]
  split
  case h_1 => contradiction
  case h_2 => rfl

theorem reverse_hidden {k : Config} {lib : Library} {state : State} {ip : Str} (hn : k.namespaces = [])
    (hi : extractAddressFromReverse (state.name lib) = ip) (ha : ip ≠ []) :
    k.reverse lib (clusterOf k [hidden (fresh k) ip []]) state =
      .ok [{ host := 's' :: '.' :: List.intercalate ['.'] [(fresh k).text, svc, k.primaryZone], ttl := k.ttl }] := by
  rw [Config.reverse, hi]
  split
  case h_1 => contradiction
  case h_2 => rw [serviceRecordForIP_hidden hn]

theorem ptr_error {lib : Library} {reverse : State → Except Error (List Etcd.Service)} {state : State} {err : Error}
    (h : reverse state = .error err) : Plugin.ptr lib reverse state = .error err := by
  rw [Plugin.ptr, h]
  rfl

theorem ptr_single {lib : Library} {reverse : State → Except Error (List Etcd.Service)} {state : State}
    {serv : Etcd.Service} (h : reverse state = .ok [serv]) (hn : parse serv.host = none) :
    ptr lib reverse state = .ok [serv.newPTR lib.toLabels (state.qname lib) serv.host] := by
  simp [Plugin.ptr, h, hn, bind, Except.bind, pure, Except.pure, List.eraseDupsBy, List.eraseDupsBy.loop]

section Query

variable {k : Config} {lib : Library} {lookup : State → Str → RRType → Option Msg} {r : Msg} (hp : r.qtype = .ptr)
  (hz : Zones.matches lib.isSubDomain k.zones (r.qname lib).text ≠ [])

include hp hz

variable (lookup) in
theorem serveDNS_ptr (c : Cluster) : ∃ zone, k.serveDNS lib c lookup r =
    k.respond lib c (k.backend lib c lookup) (Config.stateOf lib r zone).zone (Config.stateOf lib r zone) r
      ((Plugin.ptr lib (k.reverse lib c) (Config.stateOf lib r zone)).map ({ records := · })) := by
  have hx : ¬(r.qtype = .axfr ∨ r.qtype = .ixfr) := by
    rw [hp]
    decide
  refine ⟨Zones.matches lib.isSubDomain k.zones (r.qname lib).text, ?_⟩
  have hs (zone : Str) : (Config.stateOf lib r zone).qtype = .ptr := hp
  simp [Config.serveDNS, if_neg hz, if_neg hx, lookup_ptr (hs _)]

variable {ip : Str} (hi : extractAddressFromReverse ((stateOf lib r []).name lib) = ip) (ha : ip ≠ [])

include hi ha

theorem serveDNS_nothing {m : Msg} (h : k.serveDNS lib (clusterOf k []) lookup r = .written m) :
    m.answer = (lib.setReply r).answer := by
  obtain ⟨zone, hs⟩ := serveDNS_ptr lookup hp hz (clusterOf k [])
  have hr : k.reverse lib (clusterOf k []) (stateOf lib r zone) = .error .noItems := reverse_nothing hi ha
  have hn : Kubernetes.Error.isNameError .noItems = true := rfl
  rw [hs, ptr_error hr, Except.map, Config.respond, if_pos hn] at h
  split at h
  case isTrue => cases h
  case isFalse =>
    obtain rfl := Outcome.written.inj h
    rfl

theorem serveDNS_hidden (hn : k.namespaces = []) : ∃ m rr, m.answer = (lib.setReply r).answer ++ [rr] ∧
    k.serveDNS lib (clusterOf k [hidden (fresh k) ip []]) lookup r = .written m := by
  obtain ⟨zone, hs⟩ := serveDNS_ptr lookup hp hz (clusterOf k [hidden (fresh k) ip []])
  have hr : k.reverse lib (clusterOf k [hidden (fresh k) ip []]) (stateOf lib r zone) = .ok _ := reverse_hidden hn hi ha
  rw [ptr_single hr (parse_hidden _), Except.map, Config.respond, if_neg (cons_ne_nil _ _)] at hs
  exact ⟨_, _, rfl, hs⟩

end Query

theorem query_leaks {r : Msg} (hl : s.Leaks (.query r)) :
    ¬s.Same (clusterOf s.k []) (clusterOf s.k [hidden (fresh s.k) (s.address r) []]) (.query r) := by
  obtain ⟨-, hn, hp, ha, hz⟩ := hl
  intro h
  obtain ⟨m, rr, hm, hs⟩ := serveDNS_hidden hp hz rfl ha hn
  have hm' := serveDNS_nothing hp hz rfl ha (h.trans hs)
  simp [hm] at hm'

section ExternalQuery

variable {k : Config} {lib : Library} {state : State} {ip : Str} {headless : Bool} (hp : state.qtype = .ptr)
  (hi : extractAddressFromReverse (state.name lib) = ip) (ha : ip ≠ [])

include hp hi ha

theorem external_nothing : k.external lib (clusterOf k []) state headless = ([], Msg.rcodeNameError) := by
  rw [external, if_pos hp, hi]
  split
  case h_1 => contradiction
  case h_2 => rfl

theorem external_hidden (hn : k.namespaces = []) :
    k.external lib (clusterOf k [hidden (fresh k) [] [ip]]) state headless =
      ([{ host := 's' :: '.' :: (fresh k).text, ttl := k.ttl }], Msg.rcodeSuccess) := by
  have hs : k.serviceRecordForExternalIP (clusterOf k [hidden (fresh k) [] [ip]]) ip =
      [{ host := 's' :: '.' :: (fresh k).text, ttl := k.ttl }] := by
    simp [serviceRecordForExternalIP, svcExtIndexReverse, hides, hn, clusterOf, hidden,
      List.intercalate]
  rw [external, if_pos hp, hi]
  split
  case h_1 => contradiction
  case h_2 => rw [hs]

end ExternalQuery

section

variable {r : Msg} {c : Cluster}
  (hz : Zones.matches s.lib.isSubDomain s.e.zones (r.name s.lib.toLibrary) ≠ [])
  (hs : s.e.place s.lib.toLibrary (r.name s.lib.toLibrary) = .service)

include hz hs

theorem serveDNS_service : ∃ zone, s.e.serveDNS s.lib.toLibrary (s.env c) r =
    s.e.answer s.lib.toLibrary (s.env c) (External.stateOf r zone) r
      (s.k.external s.lib.toLibrary c (External.stateOf r zone) s.e.headless) := by
  refine ⟨Zones.matches s.lib.isSubDomain s.e.zones (r.name s.lib.toLibrary), ?_⟩
  simp only [External.serveDNS, if_neg hz, hs]
  rfl

theorem answer_nothing {rcode : Nat} {m : Msg}
    (hx : ∀ zone, s.k.external s.lib.toLibrary c (stateOf r zone) s.e.headless = ([], rcode))
    (h : s.e.serveDNS s.lib.toLibrary (s.env c) r = .written m) : m.answer = [] := by
  obtain ⟨zone, he⟩ := serveDNS_service (c := c) hz hs
  rw [he, hx, answer] at h
  split at h
  case isTrue => cases h
  case isFalse =>
    obtain rfl := Outcome.written.inj h
    have hr := s.lib.setReply_records r
    simp_all [Msg.records]

theorem answer_single {serv : Etcd.Service} {rcode : Nat} (hp : r.qtype = .ptr)
    (hx : ∀ zone, s.k.external s.lib.toLibrary c (External.stateOf r zone) s.e.headless = ([serv], rcode)) :
    ∃ m, s.e.serveDNS s.lib.toLibrary (s.env c) r = .written m ∧ m.answer ≠ [] := by
  obtain ⟨zone, he⟩ := serveDNS_service (c := c) hz hs
  rw [hx] at he
  have hw : s.e.answer s.lib.toLibrary (s.env c) (External.stateOf r zone) r ([serv], rcode) =
      .written (s.e.respond s.lib.toLibrary (s.env c) (External.stateOf r zone) r [serv]) := rfl
  refine ⟨_, he.trans hw, ?_⟩
  have hq : (External.stateOf r zone).qtype = .ptr := hp
  have hd : RRType.ptr ≠ .a ∧ RRType.ptr ≠ .aaaa ∧ RRType.ptr ≠ .srv := by decide
  simp [External.respond, hq, hd, External.ptr, List.eraseDupsBy, List.eraseDupsBy.loop]

end

theorem externalQuery_leaks {r : Msg} (hl : s.Leaks (.externalQuery r)) :
    ¬s.Same (clusterOf s.k []) (clusterOf s.k [hidden (fresh s.k) [] [s.address r]]) (.externalQuery r) := by
  obtain ⟨-, hn, hp, ha, hz, hs⟩ := hl
  intro h
  obtain ⟨m, hm, hne⟩ := answer_single hz hs hp fun zone => external_hidden hp rfl ha hn
  exact hne (answer_nothing hz hs (fun zone => external_nothing hp rfl ha) (h.trans hm))

section ExternalTransfer

theorem addressBatches_ne_nil {serv : Etcd.Service} {name : Str} {ip : Net.IP} (hs : serv.hostType = .a ip) {c : Cluster} :
    s.e.addressBatches s.lib.toLibrary (s.env c) [serv] name ≠ [] := by
  have hr : (s.e.a s.lib.toLibrary (s.env c).lookup [serv] (External.question name)).records ≠ [] := by
    have ht (serv : Etcd.Service) (name : Str) : (serv.newA name ip).rrtype = .a := rfl
    simp [External.a, External.addAddress, hs, Plugin.newAddress, Option.filter, ht]
  rw [addressBatches, nonempty, if_neg hr]
  exact cons_ne_nil _ _

theorem length_body {services : List Kubernetes.Service} {zone : Str} :
    (s.e.body s.lib.toLibrary (s.env (clusterOf s.k services)) s.keyOrder zone).length =
      1 + (s.k.nsAddrs (clusterOf s.k services) true s.e.headless zone).length +
        (s.e.serviceBatches s.lib.toLibrary (s.env (clusterOf s.k services)) []
          (s.k.externalServices s.lib.toLibrary (clusterOf s.k services) zone s.e.headless)).length := by
  have hg : s.k.headlessServices s.lib.toLibrary (clusterOf s.k services) zone s.e.headless = [] := by
    simp [headlessServices, epIndex, clusterOf]
  have hk : s.keyOrder.keys [] = [] := (s.keyOrder.perm []).eq_nil
  simp [body, addresses, externalAddress, env, hg, hk]
  omega

theorem hostType_hidden {serv : Etcd.Service} (h : serv.host = "1.2.3.4".toList) : serv.hostType = .a [1, 2, 3, 4] := by
  have hp : parse "1.2.3.4".toList = some (v4InV6Prefix ++ [1, 2, 3, 4]) := by
    decide +kernel
  rw [Etcd.Service.hostType, h, hp]
  rfl

theorem serviceBatches_hidden (zone : Str) :
    s.e.serviceBatches s.lib.toLibrary (s.env (clusterOf s.k [hidden (fresh s.k) [] ["1.2.3.4".toList]])) []
      (s.k.externalServices s.lib.toLibrary (clusterOf s.k [hidden (fresh s.k) [] ["1.2.3.4".toList]])
        zone s.e.headless) ≠ [] := by
  have hi : isHeadless s.e.headless (hidden (fresh s.k) [] ["1.2.3.4".toList]) = false := by
    simp [isHeadless, hidden]
  have hs : s.k.externalServices s.lib.toLibrary (clusterOf s.k [hidden (fresh s.k) [] ["1.2.3.4".toList]])
      zone s.e.headless =
      s.k.externalPort [Etcd.path s.lib.toLabels zone coredns, (fresh s.k).text, ['s']] "1.2.3.4"
        { name := "http", port := 80, protocol := "TCP" } := by
    simp only [externalServices, clusterOf, filter_cons, hi]
    rfl
  rw [hs, externalPort, serviceBatches, if_pos rfl]
  intro h
  exact addressBatches_ne_nil (hostType_hidden rfl) (append_eq_nil_iff.mp (append_eq_nil_iff.mp h).1).1

end ExternalTransfer

theorem externalTransfer_leaks {zone : Str} {serial : UInt32} (hl : s.Leaks (.externalTransfer zone serial)) :
    ¬s.Same (clusterOf s.k []) (clusterOf s.k [hidden (fresh s.k) [] ["1.2.3.4".toList]])
      (.externalTransfer zone serial) := by
  obtain ⟨hk, hz, hm⟩ := hl
  have hc (services : List Kubernetes.Service) :
      ¬(serial ≠ 0 ∧ serial ≥ Config.externalSerial (s.env (clusterOf s.k services)).cluster) := by
    rintro ⟨-, h⟩
    have h : (0xffffffff : UInt32) ≤ serial := h
    have := serial.toNat_lt
    have : 4294967295 ≤ serial.toNat := UInt32.le_iff_toNat_le.mp h
    have : serial.toNat = 4294967295 := by omega
    exact hm (UInt32.toNat_inj.mp this)
  intro h
  rw [Same, External.transfer, External.transfer, if_neg (not_not.mpr hz), if_neg (not_not.mpr hz)] at h
  simp only [if_neg (hc _)] at h
  have hl := congrArg Multiset.card (Except.ok.inj h)
  simp only [Multiset.coe_card, length_append, length_map, length_cons, length_body] at hl
  have hp := length_pos_of_ne_nil (serviceBatches_hidden (s := s) (if zone = ['.'] then [] else zone))
  have he : s.e.serviceBatches s.lib.toLibrary (s.env (clusterOf s.k [])) []
      (s.k.externalServices s.lib.toLibrary (clusterOf s.k []) (if zone = ['.'] then [] else zone) s.e.headless) = [] := rfl
  rw [he, (agree_without hk [] ["1.2.3.4".toList]).nsAddrs] at hl
  simp only [length_nil] at hl
  omega

end Hidden

theorem same_iff_not_leaks (s : Setting) (request : Request) :
    (∀ c₁ c₂, s.k.Watched c₁ → s.k.Watched c₂ → s.k.Agree c₁ c₂ → s.Same c₁ c₂ request) ↔ ¬s.Leaks request := by
  constructor
  case mp =>
    intro h hl
    have same (hk : s.k.Restricted) (ip : Str) (ips : List Str) :
        s.Same (clusterOf s.k []) (clusterOf s.k [hidden (fresh s.k) ip ips]) request :=
      h _ _ (watched_clusterOf _ ip ips).1 (watched_clusterOf _ ip ips).2 (agree_without hk _ _)
    cases request
    case query => exact query_leaks hl (same (.inl hl.1) _ _)
    case externalQuery => exact externalQuery_leaks hl (same (.inl hl.1) _ _)
    case transfer => exact hl
    case externalTransfer => exact externalTransfer_leaks hl (same hl.1 _ _)
  case mpr =>
    intro hl c₁ c₂ h₁ h₂ h
    by_cases hk : s.k.Restricted
    case pos => exact same_of_not_leaks h hk hl
    case neg =>
      obtain rfl := h.eq hk h₁ h₂
      cases request <;> rfl

namespace Sample

def setting : Setting where
  lib := .reference
  k := {
    zones := ["cluster.local.".toList, "10.in-addr.arpa.".toList]
    primaryZoneIndex := 0
    namespaceLabels := true
  }
  e := { zones := ["example.org.".toList] }
  lookup := fun _ _ _ => none
  order := .reference
  keyOrder := { keys := id, perm := .refl }

def reverse : Msg where
  question := [{ name := "7.0.0.10.in-addr.arpa.", qtype := .ptr, qclass := Msg.classINET }]

end Sample

theorem not_same_reverse :
    let k := Sample.setting.k
    let c := clusterOf k [hidden (fresh k) (Sample.setting.address Sample.reverse) []]
    (k.Watched (clusterOf k []) ∧ k.Watched c) ∧ k.Agree (clusterOf k []) c ∧
      ¬Sample.setting.Same (clusterOf k []) c (.query Sample.reverse) := by
  refine ⟨watched_clusterOf _ _ _, agree_without (.inl rfl) _ _, query_leaks ⟨rfl, rfl, rfl, ?_, ?_⟩⟩
  · decide +kernel
  · decide +kernel

end Setting
end K8sExternal
