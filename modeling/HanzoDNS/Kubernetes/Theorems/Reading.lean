import HanzoDNS.Kubernetes.Controller
import HanzoDNS.Kubernetes.External
import HanzoDNS.Kubernetes.Theorems.Zone

open Dns Strings Plugin Channel List Function

namespace Kubernetes

open Endpoints EndpointSubset Config Kind Event Cluster Kubernetes

def EndpointAddress.plain (endpointNameMode : Bool) (a : EndpointAddress) : EndpointAddress where
  ip := a.ip
  hostname := endpointHostname a endpointNameMode
  targetRefName := []

@[simp]
theorem ip_plain (mode : Bool) (a : EndpointAddress) : (a.plain mode).ip = a.ip :=
  rfl

@[simp]
theorem endpointHostname_plain (mode : Bool) (a : EndpointAddress) :
    endpointHostname (a.plain mode) mode = endpointHostname a mode := by
  by_cases h : endpointHostname a mode = []
  case neg => exact if_pos h
  case pos =>
    rw [h]
    simp only [endpointHostname] at h
    split_ifs at h with h₁ h₂ h₃ h₄ h₅
    all_goals simp_all [endpointHostname, EndpointAddress.plain]

def EndpointSubset.plain (endpointNameMode : Bool) (eps : EndpointSubset) : EndpointSubset where
  addresses := eps.addresses.map (·.plain endpointNameMode)
  ports := eps.ports

-- Endpoints without what is only needed for the names of their addresses.
def Endpoints.plain (endpointNameMode : Bool) (e : Endpoints) : Endpoints :=
  { e with version := [], subsets := e.subsets.map (·.plain endpointNameMode) }

def Endpoints.compared (e : Endpoints) : List (List (Str × Str) × List Port) :=
  e.subsets.map fun eps => (eps.addresses.map fun a => (a.ip, a.hostname), eps.ports)

theorem isEqv_iff_map_eq {α β : Type} {f : α → β} {p : α → α → Bool} (hp : ∀ a b, p a b ↔ f a = f b) (l l' : List α) :
    l.isEqv l' p ↔ l.map f = l'.map f := by
  induction l generalizing l'
  case nil =>
    cases l'
    case nil => simp [List.isEqv]
    case cons => simp [List.isEqv]
  case cons a l hi =>
    cases l'
    case nil => simp [List.isEqv]
    case cons => simp [List.isEqv, hi, hp]

theorem endpointsEquivalent_iff (e e' : Endpoints) : endpointsEquivalent e e' ↔ e.compared = e'.compared := by
  refine isEqv_iff_map_eq (fun eps eps' => ?_) e.subsets e'.subsets
  rw [subsetsEquivalent, Bool.and_eq_true, Prod.mk.injEq, isEqv_iff_map_eq (f := fun a => (a.ip, a.hostname)) (by simp),
    decide_eq_true_iff]

section Plain

variable (k : Config) (e : Endpoints)

@[simp]
theorem index_plain (mode : Bool) : (e.plain mode).index = e.index :=
  rfl

@[simp]
theorem indexIP_plain (mode : Bool) : (e.plain mode).indexIP = e.indexIP := by
  simp [Endpoints.indexIP, Endpoints.addresses, Endpoints.plain, EndpointSubset.plain, EndpointAddress.plain,
    flatMap_map, map_flatMap, comp_def]

theorem endpointAddrs_plain (svcName : Str) :
    k.endpointAddrs svcName (e.plain k.endpointNameMode) = k.endpointAddrs svcName e := by
  simp [Config.endpointAddrs, Endpoints.addresses, Endpoints.plain, EndpointSubset.plain, flatMap_map,
    map_flatMap, comp_def]

theorem endpointServices_plain (base : List Str) (r : RecordRequest) (accept : Str → Bool) :
    k.endpointServices base r (fun a => accept (endpointHostname a k.endpointNameMode)) (e.plain k.endpointNameMode) =
      k.endpointServices base r (fun a => accept (endpointHostname a k.endpointNameMode)) e := by
  simp [Config.endpointServices, Endpoints.plain, EndpointSubset.plain, flatMap_map, filter_map,
    comp_def]

theorem endpointRecords_plain (dns : Labels) (base : List Str) :
    k.endpointRecords dns base (e.plain k.endpointNameMode) = k.endpointRecords dns base e := by
  rw [Config.endpointRecords, Endpoints.plain, flatMap_map]
  refine flatMap_congr fun eps _ => ?_
  simp [Config.subsetRecords, EndpointSubset.plain, flatMap_map, length_map, endpointHostname_plain, ip_plain]

end Plain

def Service.inside (s : Service) : Service :=
  { s with version := [], externalIPs := [] }

def ServiceImport.plain (s : ServiceImport) : ServiceImport :=
  { s with version := [] }

def MultiClusterEndpoints.plain (endpointNameMode : Bool) (e : MultiClusterEndpoints) : MultiClusterEndpoints :=
  { e with toEndpoints := e.toEndpoints.plain endpointNameMode }

namespace Config

section

variable (k : Config) (c : Cluster)

def ForeignEndpoints (e : Endpoints) : Prop :=
  ∀ ip ∈ k.localIPs, ip.string ∉ e.indexIP

def ForeignService (s : Service) : Prop :=
  ∀ e ∈ k.localEndpoints c, s.index ≠ e.index

-- An import that only has the addresses of endpoints, and no endpoints.
structure IdleImport (s : ServiceImport) : Prop where
  headless : s.headless
  address : s.clusterIPs.head?.bind Net.IP.parse = none
  empty : isEmpty ((c.mcEpIndex s.index).map (·.toEndpoints))

def IdleEndpoints (e : MultiClusterEndpoints) : Prop :=
  ∀ s ∈ c.serviceImports, e.index ≠ s.index

end

variable {k : Config} {c : Cluster} {external headless : Bool} {zone : Str} {lib : Library}

theorem index_eq_of_key {s s' : Service} (h : service.key s = service.key s') : s.index = s'.index := by
  obtain ⟨hn, hm⟩ := Prod.mk.inj h
  rw [Service.index, Service.index, hn, hm]

theorem isEmpty_eq (eps : List Endpoints) : isEmpty eps = decide (eps.flatMap (·.indexIP) = []) := by
  simp [isEmpty, indexIP, all_eq]

def namesFor (k : Config) (ip : Str) (ep : Endpoints) : List Etcd.Service :=
  (ep.addresses.filter (·.ip = ip)).map fun addr =>
    { host := List.intercalate ['.'] [endpointHostname addr k.endpointNameMode, ep.index, svc, k.primaryZone]
      ttl := k.ttl }

theorem namesFor_plain (ip : Str) (ep : Endpoints) : k.namesFor ip (ep.plain k.endpointNameMode) = k.namesFor ip ep := by
  simp [namesFor, Endpoints.addresses, Endpoints.plain, EndpointSubset.plain, flatMap_map, map_flatMap,
    filter_flatMap, filter_map, comp_def, index]
  rfl

theorem serviceRecordForIP_eq (ip : Str) : k.serviceRecordForIP c ip =
    (((c.svcIndexReverse ip).filter (!k.hides c ·.namespace)).flatMap fun s => [(s.name, s.namespace)]).head?.elim
      (((c.epIndexReverse ip).filter (!k.hides c ·.namespace)).flatMap (k.namesFor ip))
      fun s => [{ host := List.intercalate ['.'] [s.1, s.2.text, svc, k.primaryZone], ttl := k.ttl }] := by
  rw [serviceRecordForIP]
  split
  case h_1 hf => rw [hf]; rfl
  case h_2 hf => rw [hf]; rfl

section Services

variable {d : Delta Service} {same : Service → Service → Prop} {idle : Service → Prop}
  (h : d.Keeps service.key same idle c.services)

include h

theorem nsAddrs_service
    (hs : ∀ {s s'}, service.key s = service.key s' → same s s' → ∀ ep ∈ k.localEndpoints c, s.index = ep.index →
      k.serviceAddrs external headless zone ep s = k.serviceAddrs external headless zone ep s')
    (hi : ∀ {s}, idle s → k.ForeignService c s) :
    k.nsAddrs ((service d).store c) external headless zone = k.nsAddrs c external headless zone := by
  have hl : k.localEndpoints ((service d).store c) = k.localEndpoints c := rfl
  rw [nsAddrs, nsAddrs, hl]
  split
  case isTrue => rfl
  case isFalse =>
    refine flatMap_congr fun ep he => ?_
    refine h.filter_flatMap_apply (fun hk _ => ?_) (fun hk hw hp => ?_) fun hv hp => ?_
    case refine_1 => rw [index_eq_of_key hk]
    case refine_2 => exact hs hk hw ep he (of_decide_eq_true hp)
    case refine_3 => exact absurd (of_decide_eq_true hp) (hi hv ep he)

variable (hs : ∀ {s s'}, same s s' → s.clusterIPs = s'.clusterIPs) (hi : ∀ {s}, ¬idle s)

include hs hi in
theorem serviceRecordForIP_service (ip : Str) :
    k.serviceRecordForIP ((service d).store c) ip = k.serviceRecordForIP c ip := by
  have hf : ((((service d).store c).svcIndexReverse ip).filter (!k.hides c ·.namespace)).flatMap
      (fun s => [(s.name, s.namespace)]) =
      ((c.svcIndexReverse ip).filter (!k.hides c ·.namespace)).flatMap fun s => [(s.name, s.namespace)] := by
    rw [svcIndexReverse, svcIndexReverse, filter_filter, filter_filter]
    refine h.filter_flatMap_apply (fun {s s'} hk hw => ?_) (fun hk _ _ => ?_) fun hv => absurd hv hi
    case refine_1 =>
      have hn : s.namespace = s'.namespace := (Prod.mk.inj hk).1
      rw [hs hw, hn]
    case refine_2 => rw [(Prod.mk.inj hk).1, (Prod.mk.inj hk).2]
  rw [serviceRecordForIP_eq, serviceRecordForIP_eq]
  exact congrArg (fun l : List (Str × Namespace) => l.head?.elim _ _) hf

end Services

section Inside

variable {d : Delta Service} {idle : Service → Prop} (hi : ∀ {s}, ¬idle s)
  (h : d.Keeps service.key (fun s s' => s.inside = s'.inside ∨ idle s ∧ idle s') idle c.services)

include hi h

theorem findServices_service : k.findServices ((service d).store c) = k.findServices c := by
  funext zonePath r
  have hf (p : Service → Bool) (f : Service → Option (List Etcd.Service)) (hp : ∀ s, p s.inside = p s)
      (hf : ∀ s, f s.inside = f s) :
      (((service d).store c).services.filter p).map f = (c.services.filter p).map f := by
    rw [map_eq_flatMap, map_eq_flatMap]
    exact h.filter_flatMap_view hp (fun s => congrArg ([·]) (hf s)) (absurd · hi)
  simp only [findServices, svcIndex, filter_filter]
  rw [hf _ _ (fun _ => rfl) fun _ => rfl]
  rfl

theorem exposedRecords_service (hm : ¬k.isMultiClusterZone lib zone) :
    k.exposedRecords lib ((service d).store c) zone = k.exposedRecords lib c zone := by
  rw [exposedRecords, exposedRecords, if_neg hm, if_neg hm]
  exact h.filter_flatMap_view (fun _ => rfl) (fun _ => rfl) (absurd · hi)

end Inside

section Endpoints

variable {d : Delta Endpoints}

variable {idle : Endpoints → Prop} (h : d.Keeps endpoints.key
  (fun e e' => e.plain k.endpointNameMode = e'.plain k.endpointNameMode ∨ idle e ∧ idle e') idle c.endpoints)

section Servers

variable (hi : ∀ {e}, idle e → k.ForeignEndpoints e)

include h hi

theorem localEndpoints_flatMap {γ : Type} {f : Endpoints → List γ} (hf : ∀ e, f (e.plain k.endpointNameMode) = f e) :
    (k.localEndpoints ((endpoints d).store c)).flatMap f = (k.localEndpoints c).flatMap f := by
  rw [localEndpoints, localEndpoints, flatMap_assoc, flatMap_assoc]
  refine flatMap_congr fun ip hip => h.filter_flatMap_view (fun e => ?_) hf fun hv => decide_eq_false (hi hv ip hip)
  rw [indexIP_plain]

theorem nsAddrs_endpoints :
    k.nsAddrs ((endpoints d).store c) external headless zone = k.nsAddrs c external headless zone := by
  have hn : k.localEndpoints ((endpoints d).store c) = [] ↔ k.localEndpoints c = [] := by
    have hu := localEndpoints_flatMap h hi (f := fun _ => [()]) fun _ => rfl
    simpa [eq_nil_iff_forall_not_mem] using congrArg (· = []) hu
  have hf : (k.localEndpoints ((endpoints d).store c)).flatMap (fun ep =>
      (c.svcIndex ep.index).flatMap (k.serviceAddrs external headless zone ep)) =
      (k.localEndpoints c).flatMap fun ep =>
        (c.svcIndex ep.index).flatMap (k.serviceAddrs external headless zone ep) := by
    refine localEndpoints_flatMap h hi fun e => ?_
    rw [index_plain]
    refine flatMap_congr fun s _ => ?_
    simp [serviceAddrs, endpointAddrs_plain]
  simp only [nsAddrs, hn]
  rw [←hf]
  rfl

end Servers

variable (hi : ∀ {e}, ¬idle e)

include h hi

theorem serviceRecordForIP_endpoints (ip : Str) :
    k.serviceRecordForIP ((endpoints d).store c) ip = k.serviceRecordForIP c ip := by
  have hf : ((((endpoints d).store c).epIndexReverse ip).filter (!k.hides c ·.namespace)).flatMap (k.namesFor ip) =
      ((c.epIndexReverse ip).filter (!k.hides c ·.namespace)).flatMap (k.namesFor ip) := by
    rw [epIndexReverse, epIndexReverse, filter_filter, filter_filter]
    refine h.filter_flatMap_view (fun e => ?_) (namesFor_plain ip) (absurd · hi)
    rw [indexIP_plain]
    rfl
  rw [serviceRecordForIP_eq, serviceRecordForIP_eq, ←hf]
  rfl

theorem findServices_endpoints : k.findServices ((Event.endpoints d).store c) = k.findServices c := by
  funext zonePath r
  have hf (idx : Str) (s : Service) : k.findService zonePath r (((Event.endpoints d).store c).epIndex idx) s =
      k.findService zonePath r (c.epIndex idx) s := by
    have he : isEmpty (((Event.endpoints d).store c).epIndex idx) = isEmpty (c.epIndex idx) := by
      have hf : (((Event.endpoints d).store c).epIndex idx).flatMap (·.indexIP) = (c.epIndex idx).flatMap (·.indexIP) :=
        h.filter_flatMap_view (fun _ => rfl) (fun e => indexIP_plain e _) (absurd · hi)
      rw [isEmpty_eq, isEmpty_eq, hf]
    have hx (base : List Str) (idx' : Str) :
        ((((Event.endpoints d).store c).epIndex idx).filter (·.index = idx')).flatMap (k.endpointServices base r
          fun addr => Kubernetes.match r.endpoint (endpointHostname addr k.endpointNameMode)) =
        ((c.epIndex idx).filter (·.index = idx')).flatMap (k.endpointServices base r
          fun addr => Kubernetes.match r.endpoint (endpointHostname addr k.endpointNameMode)) := by
      rw [Cluster.epIndex, Cluster.epIndex, filter_filter, filter_filter]
      exact h.filter_flatMap_view (fun _ => rfl) (fun e => endpointServices_plain k e base r _) (absurd · hi)
    simp [findService, he, hx]
  have hf := fun idx => funext (hf idx)
  simp only [Config.findServices, hf]
  rfl

theorem exposedRecords_endpoints (hm : ¬k.isMultiClusterZone lib zone) :
    k.exposedRecords lib ((endpoints d).store c) zone = k.exposedRecords lib c zone := by
  have hf (idx : Str) (base : List Str) :
      (((endpoints d).store c).epIndex idx).flatMap (k.endpointRecords lib.toLabels base) =
        (c.epIndex idx).flatMap (k.endpointRecords lib.toLabels base) :=
    h.filter_flatMap_view (fun _ => rfl) (fun e => endpointRecords_plain k e _ base) (absurd · hi)
  rw [exposedRecords, exposedRecords, if_neg hm, if_neg hm]
  refine flatMap_congr fun s _ => ?_
  simp [serviceRecords, hf]

end Endpoints
section Empty

variable {e : Endpoints} (h : e.addresses = [])

include h

theorem addresses_of_mem {eps : EndpointSubset} (hm : eps ∈ e.subsets) : eps.addresses = [] :=
  flatMap_eq_nil_iff.mp h eps hm

theorem endpointServices_nil {base : List Str} {r : RecordRequest} {accept : EndpointAddress → Bool} :
    k.endpointServices base r accept e = [] := by
  refine flatMap_eq_nil_iff.mpr fun eps hm => ?_
  rw [addresses_of_mem h hm]
  rfl

theorem endpointRecords_nil {dns : Labels} {base : List Str} : k.endpointRecords dns base e = [] := by
  refine flatMap_eq_nil_iff.mpr fun eps hm => ?_
  rw [subsetRecords, addresses_of_mem h hm]
  rfl

end Empty

theorem collect_eq (l : List (Option (List Etcd.Service))) : collect l =
    if l.flatMap Option.toList = [] then .error .noItems else .ok (l.flatMap Option.toList).flatten := by
  have hn : l.flatMap Option.toList = [] ↔ l.all (· = none) := by simp
  have hf : l.flatMap (·.getD []) = (l.flatMap Option.toList).flatten := by
    rw [flatten_eq_flatMap, flatMap_assoc]
    refine flatMap_congr fun a _ => ?_
    cases a
    case none => rfl
    case some => exact (append_nil _).symm
  simp [collect, hn, hf]

theorem IdleImport.addresses {s : ServiceImport} (h : IdleImport c s) {e : MultiClusterEndpoints}
    (hm : e ∈ c.mcEpIndex s.index) : e.toEndpoints.addresses = [] := by
  have := all_eq_true.mp h.empty e.toEndpoints (mem_map_of_mem hm)
  exact of_decide_eq_true this

theorem IdleImport.findServiceImport {s : ServiceImport} (h : IdleImport c s) (zonePath : Str) (r : RecordRequest) :
    k.findServiceImport zonePath r (c.mcEpIndex s.index) s = none := by
  have hn (base : MultiClusterEndpoints → List Str) (accept : MultiClusterEndpoints → EndpointAddress → Bool) (idx : Str) :
      ((c.mcEpIndex s.index).filter (·.index = idx)).flatMap
        (fun ep => k.endpointServices (base ep) r (accept ep) ep.toEndpoints) = [] := by
    refine flatMap_eq_nil_iff.mpr fun ep hm => ?_
    exact endpointServices_nil (h.addresses (mem_filter.mp hm).1)
  simp only [Config.findServiceImport, h.headless, Bool.not_true, Bool.false_eq_true, false_and, and_false,
    true_or, if_true,
    if_false, hn]
  rfl

section ServiceImports

variable {d : Delta ServiceImport}
  (h : d.Keeps serviceImport.key (fun s s' => s.plain = s'.plain) (IdleImport c) c.serviceImports)

include h

theorem findMultiClusterServices_serviceImport :
    k.findMultiClusterServices ((serviceImport d).store c) = k.findMultiClusterServices c := by
  funext zonePath r
  have hf (p : ServiceImport → Bool) (hp : ∀ s, p s.plain = p s) :
      ((((serviceImport d).store c).serviceImports.filter fun s => p s && s.index = key r.service r.namespace).map
        (k.findServiceImport zonePath r (c.mcEpIndex (key r.service r.namespace)))).flatMap Option.toList =
      ((c.serviceImports.filter fun s => p s && s.index = key r.service r.namespace).map
        (k.findServiceImport zonePath r (c.mcEpIndex (key r.service r.namespace)))).flatMap Option.toList := by
    have hx (s : ServiceImport) : s.plain.index = s.index := rfl
    have hr (s : ServiceImport) : k.findServiceImport zonePath r (c.mcEpIndex (key r.service r.namespace)) s.plain =
        k.findServiceImport zonePath r (c.mcEpIndex (key r.service r.namespace)) s := rfl
    rw [flatMap_map, flatMap_map]
    refine h.filter_flatMap_apply (fun {s s'} _ hw => ?_) (fun {s s'} _ hw _ => ?_) fun {s} hs hp => ?_
    case refine_1 => rw [←hp s, ←hx s, hw, hp, hx]
    case refine_2 => rw [←hr s, hw, hr]
    case refine_3 =>
      rw [Bool.and_eq_true, decide_eq_true_iff] at hp
      rw [←hp.2, hs.findServiceImport]
      rfl
  have hc : ((serviceImport d).store c).mcEpIndex = c.mcEpIndex := rfl
  simp only [findMultiClusterServices, svcImportIndex, filter_filter, collect_eq, hc]
  rw [hf _ fun _ => rfl]
  rfl

theorem exposedRecords_serviceImport (hm : k.isMultiClusterZone lib zone) :
    k.exposedRecords lib ((serviceImport d).store c) zone = k.exposedRecords lib c zone := by
  have hr (s : ServiceImport) : k.serviceImportRecords lib.toLabels c (Etcd.path lib.toLabels zone coredns) s.plain =
      k.serviceImportRecords lib.toLabels c (Etcd.path lib.toLabels zone coredns) s := rfl
  rw [exposedRecords, exposedRecords, if_pos hm, if_pos hm]
  refine h.filter_flatMap_apply (fun {s s'} hk _ => ?_) (fun {s s'} _ hw _ => ?_) fun {s} hs _ => ?_
  case refine_1 => rw [(Prod.mk.inj hk).1]
  case refine_2 =>
    have hw := hr s ▸ hr s' ▸ congrArg (k.serviceImportRecords lib.toLabels c (Etcd.path lib.toLabels zone coredns)) hw
    exact congrArg List.flatten hw
  case refine_3 =>
    rw [flatten_eq_nil_iff]
    intro l hl
    rw [serviceImportRecords, if_neg (not_not.mpr hs.address)] at hl
    obtain ⟨ep, hm, hl⟩ := mem_flatMap.mp hl
    rw [endpointRecords_nil (hs.addresses hm)] at hl
    cases hl

end ServiceImports

section MultiClusterEndpoints

variable {d : Delta MultiClusterEndpoints}
  (h : d.Keeps mcEndpoints.key
    (fun e e' => e.plain k.endpointNameMode = e'.plain k.endpointNameMode ∨ IdleEndpoints c e ∧ IdleEndpoints c e')
    (IdleEndpoints c) c.mcEndpoints)

include h

theorem filter_flatMap_mcEndpoints {γ : Type} {s : ServiceImport} (hs : s ∈ c.serviceImports)
    {p : MultiClusterEndpoints → Bool} {f : MultiClusterEndpoints → List γ}
    (hp : ∀ e, p (e.plain k.endpointNameMode) = p e) (hf : ∀ e, f (e.plain k.endpointNameMode) = f e) :
    (((((mcEndpoints d).store c).mcEpIndex s.index).filter p).flatMap f) =
      ((c.mcEpIndex s.index).filter p).flatMap f := by
  rw [mcEpIndex, mcEpIndex, filter_filter, filter_filter]
  refine h.filter_flatMap_view (fun e => ?_) hf fun hv => ?_
  case refine_1 => exact congrArg (· && _) (hp e)
  case refine_2 => rw [decide_eq_false (hv s hs), Bool.and_false]

theorem findMultiClusterServices_mcEndpoints :
    k.findMultiClusterServices ((Event.mcEndpoints d).store c) = k.findMultiClusterServices c := by
  funext zonePath r
  have hf {s : ServiceImport} (hs : s ∈ c.serviceImports) :
      k.findServiceImport zonePath r (((Event.mcEndpoints d).store c).mcEpIndex s.index) s =
        k.findServiceImport zonePath r (c.mcEpIndex s.index) s := by
    have he : isEmpty ((((Event.mcEndpoints d).store c).mcEpIndex s.index).map (·.toEndpoints)) =
        isEmpty ((c.mcEpIndex s.index).map (·.toEndpoints)) := by
      have hf := filter_flatMap_mcEndpoints h hs (p := fun _ => true) (f := fun e => e.toEndpoints.indexIP) (fun _ => rfl)
        fun e => indexIP_plain e.toEndpoints _
      rw [filter_true, filter_true] at hf
      rw [isEmpty_eq, isEmpty_eq, flatMap_map, flatMap_map, hf]
    have hx := filter_flatMap_mcEndpoints h hs (p := fun e => e.index = key s.name s.namespace.text)
      (f := fun ep => k.endpointServices ([zonePath, svc, s.namespace.text, s.name] ++ [ep.clusterId]) r
        (fun addr => Kubernetes.match r.cluster ep.clusterId ∧
          Kubernetes.match r.endpoint (endpointHostname addr k.endpointNameMode)) ep.toEndpoints)
      (fun _ => rfl) fun e => endpointServices_plain k e.toEndpoints _ r
        fun host => Kubernetes.match r.cluster e.clusterId ∧ Kubernetes.match r.endpoint host
    simp only [findServiceImport, he, hx]
  have hc : ((Event.mcEndpoints d).store c).svcImportIndex = c.svcImportIndex := rfl
  have hm (p : ServiceImport → Bool) : ((c.svcImportIndex (key r.service r.namespace)).filter p).map
      (k.findServiceImport zonePath r (((Event.mcEndpoints d).store c).mcEpIndex (key r.service r.namespace))) =
      ((c.svcImportIndex (key r.service r.namespace)).filter p).map
        (k.findServiceImport zonePath r (c.mcEpIndex (key r.service r.namespace))) := by
    refine map_congr_left fun s hs => ?_
    obtain ⟨hs, hx⟩ := mem_filter.mp (mem_filter.mp hs).1
    rw [←of_decide_eq_true hx, hf hs]
  simp only [Config.findMultiClusterServices, hc, hm]
  rfl

theorem exposedRecords_mcEndpoints (hm : k.isMultiClusterZone lib zone) :
    k.exposedRecords lib ((mcEndpoints d).store c) zone = k.exposedRecords lib c zone := by
  rw [exposedRecords, exposedRecords, if_pos hm, if_pos hm]
  refine flatMap_congr fun s hs => ?_
  have hf := filter_flatMap_mcEndpoints h (mem_filter.mp hs).1 (p := fun _ => true)
    (f := fun ep => k.endpointRecords lib.toLabels
      [Etcd.path lib.toLabels zone coredns, svc, s.namespace.text, s.name] ep.toEndpoints)
    (fun _ => rfl) fun e => endpointRecords_plain k e.toEndpoints _ _
  rw [filter_true, filter_true, ServiceImport.index] at hf
  simp [serviceImportRecords, hf]

end MultiClusterEndpoints

end Config
end Kubernetes
