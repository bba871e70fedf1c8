import HanzoDNS.Kubernetes.Theorems.Reading

open Dns Strings Plugin Channel List

namespace Kubernetes

open Kind ModifiedMode

namespace Kind

variable {α : Type} {kind : Kind α} {store : List α} {d : Delta α} {mode : ModifiedMode}

theorem find?_key (hn : (store.map kind.key).Nodup) {old new : α} (hm : old ∈ store) (hk : kind.key old = kind.key new) :
    store.find? (kind.key · = kind.key new) = some old := by
  cases hf : store.find? (kind.key · = kind.key new)
  case none => exact absurd (decide_eq_true hk) (find?_eq_none.mp hf old hm)
  case some a =>
    have ha : kind.key a = kind.key new := by simpa using find?_some hf
    rw [inj_on_of_nodup_map hn (mem_of_find?_eq_some hf) hm (ha.trans hk.symm)]

-- If a counter is not set, then nothing that is compared for it has changed, and for the zones of the cluster nothing has
-- come or gone.
theorem keeps {same same' : α → α → Prop} {idle : α → Prop} (hn : (store.map kind.key).Nodup)
    (hv : kind.Versioned store d) (ht : d.Keeps kind.key same idle store) (hm : mode ∉ kind.modified store d)
    (hr : ∀ a, same' a a)
    (hs : ∀ {old new}, kind.key old = kind.key new → mode ∉ kind.modes old new → same old new → same' old new) :
    d.Keeps kind.key same' (fun a => idle a ∧ mode ≠ .internal) store := by
  cases d
  case updated new =>
    constructor
    case left =>
      intro old ho hk
      by_cases hv' : kind.version old = kind.version new
      case pos => exact hv old ho hk hv' ▸ hr old
      case neg =>
        rw [modified, change, find?_key hn ho hk, Option.elim_some, handle, detectChanges, if_neg hv'] at hm
        exact hs hk hm (ht.1 old ho hk)
    case right =>
      intro hnew
      have hf : store.find? (kind.key · = kind.key new) = none :=
        find?_eq_none.mpr fun a ha => by simpa using hnew a ha
      rw [modified, change, hf] at hm
      exact ⟨ht.2 hnew, fun h => hm (h ▸ mem_singleton_self _)⟩
  case deleted old => exact fun a ha hk => ⟨ht a ha hk, fun h => hm (h ▸ mem_singleton_self _)⟩

end Kind

namespace Config

variable {k : Config} {c : Cluster} {headless : Bool} {zone : Str} {lib : Library}

section

variable (lib : Library) (k : Config) (zone : Str) (c : Cluster)

def Forward : Prop :=
  ∀ r, (k.question lib r).zone = zone → k.asked lib r = []

-- Updates of services and endpoints that change something also change something that is compared.
def TrackedInside : Event → Prop
  | .service d => d.Keeps service.key
    (fun old new => old.externalName = new.externalName → old.ports = new.ports →
      old.clusterIPs = new.clusterIPs ∧ old.type = new.type)
    (fun _ => True) c.services
  | .endpoints d => d.Keeps endpoints.key
    (fun old new => old.compared = new.compared → old.plain k.endpointNameMode = new.plain k.endpointNameMode)
    (fun _ => True) c.endpoints
  | _ => True

-- The same goes for imported services, and in zones for several clusters nothing comes or goes that has addresses. The
-- name servers stay the same, and there are no names of addresses.
def TrackedAcross : Event → Prop
  | .service d => d.Keeps service.key
    (fun old new => old.clusterIPs = new.clusterIPs ∨ k.ForeignService c old ∧ k.Forward lib zone)
    (fun s => k.ForeignService c s ∧ k.Forward lib zone) c.services
  | .endpoints d => d.Keeps endpoints.key
    (fun old new => old.plain k.endpointNameMode = new.plain k.endpointNameMode ∨
      (k.ForeignEndpoints old ∧ k.ForeignEndpoints new) ∧ k.Forward lib zone)
    (fun e => k.ForeignEndpoints e ∧ k.Forward lib zone) c.endpoints
  | .serviceImport d => d.Keeps serviceImport.key
    (fun old new => old.type = new.type → old.ports = new.ports → old.clusterIPs = new.clusterIPs)
    (IdleImport c) c.serviceImports
  | .mcEndpoints d => d.Keeps mcEndpoints.key
    (fun old new => (old.compared = new.compared → old.clusterId = new.clusterId →
      old.toEndpoints.plain k.endpointNameMode = new.toEndpoints.plain k.endpointNameMode) ∨
      IdleEndpoints c old ∧ IdleEndpoints c new)
    (IdleEndpoints c) c.mcEndpoints

end

structure Unique (c : Cluster) : Prop where
  services : (c.services.map service.key).Nodup
  endpoints : (c.endpoints.map endpoints.key).Nodup
  serviceImports : (c.serviceImports.map serviceImport.key).Nodup
  mcEndpoints : (c.mcEndpoints.map mcEndpoints.key).Nodup

theorem Unique.process {c : Cluster} (h : Unique c) (unix : Int) (e : Event) : Unique (e.process c unix) := by
  cases e
  case service => exact { h with services := Delta.nodup_apply h.services }
  case endpoints => exact { h with endpoints := Delta.nodup_apply h.endpoints }
  case serviceImport => exact { h with serviceImports := Delta.nodup_apply h.serviceImports }
  case mcEndpoints => exact { h with mcEndpoints := Delta.nodup_apply h.mcEndpoints }

section Compared

variable {old new : Service}

theorem serviceModified_fst : (serviceModified (.updated old new)).1 = false ↔
    old.externalName = new.externalName ∧ old.ports = new.ports := by
  by_cases hn : old.externalName = new.externalName <;> by_cases hp : old.ports = new.ports <;>
    by_cases hi : old.externalIPs = new.externalIPs <;> simp [serviceModified, hn, hp, hi]

theorem serviceModified_snd : (serviceModified (.updated old new)).2 = false ↔
    old.externalIPs = new.externalIPs ∧ old.ports = new.ports := by
  by_cases hn : old.externalName = new.externalName <;> by_cases hp : old.ports = new.ports <;>
    by_cases hi : old.externalIPs = new.externalIPs <;> simp [serviceModified, hn, hp, hi]

end Compared

section Steps

variable {e : Event} {unix : Int}

theorem sameAt_process (hm : k.mode lib zone ∉ e.modes c)
    (nsAddrs : ∀ zone, k.nsAddrs (e.store c) false false zone = k.nsAddrs c false false zone)
    (inside : ¬k.isMultiClusterZone lib zone → k.findServices (e.store c) = k.findServices c)
    (across : k.isMultiClusterZone lib zone → k.findMultiClusterServices (e.store c) = k.findMultiClusterServices c)
    (reverse : ¬k.Forward lib zone → ∀ ip, k.serviceRecordForIP (e.store c) ip = k.serviceRecordForIP c ip)
    (content : k.exposedRecords lib (e.store c) zone = k.exposedRecords lib c zone) :
    k.SameAt lib zone (e.process c unix) c where
  namespaces := by cases e <;> rfl
  pods := by cases e <;> rfl
  hasSynced := by cases e <;> rfl
  modified := if_neg hm
  nsAddrs := funext nsAddrs
  inside := inside
  across := across
  reverse r hz ha := reverse (fun h => ha (h r hz)) _
  content := content

theorem inside_eq {old new : Service} (hk : service.key old = service.key new)
    (hi : old.clusterIPs = new.clusterIPs) (ht : old.type = new.type) (hn : old.externalName = new.externalName)
    (hp : old.ports = new.ports) : old.inside = new.inside := by
  obtain ⟨hns, hname⟩ := Prod.mk.inj hk
  obtain ⟨hc, ho⟩ := List.cons.inj hi
  simp [Service.inside, hns, hname, hc, ho, ht, hn, hp]

theorem serviceAddrs_eq {old new : Service} (hk : service.key old = service.key new)
    (hi : old.clusterIPs = new.clusterIPs) (ep : Endpoints) :
    k.serviceAddrs false headless zone ep old = k.serviceAddrs false headless zone ep new := by
  obtain ⟨hns, hname⟩ := Prod.mk.inj hk
  obtain ⟨hc, ho⟩ := List.cons.inj hi
  simp only [serviceAddrs, hns, hname, Service.headless, Service.clusterIPs, hc, ho, Bool.false_eq_true, if_false]
  rfl

theorem sameAt_inside (hz : ¬k.isMultiClusterZone lib zone) (hu : Unique c) (hv : e.Versioned c)
    (ht : k.TrackedInside c e) (hm : .internal ∉ e.modes c) : k.SameAt lib zone (e.process c unix) c := by
  have hm' : k.mode lib zone ∉ e.modes c := by rwa [mode, if_neg hz]
  cases e
  case service d =>
    have hk : d.Keeps service.key (fun old new => old.inside = new.inside) (fun _ => True ∧ internal ≠ .internal)
        c.services := by
      refine keeps hu.services hv ht hm (fun _ => rfl) fun {old new} hk hn hs => ?_
      obtain ⟨hn, hp⟩ := serviceModified_fst.mp (by simpa [service] using hn)
      exact inside_eq hk (hs hn hp).1 (hs hn hp).2 hn hp
    have hk' := hk.view
    have hi {old new : Service} (h : old.inside = new.inside) : old.clusterIPs = new.clusterIPs := by
      change old.inside.clusterIPs = new.inside.clusterIPs
      rw [h]
    refine sameAt_process hm' (fun zone => ?_) (fun _ => ?_) (absurd · hz) (fun _ ip => ?_) ?_
    · exact nsAddrs_service hk (fun hk h ep _ _ => serviceAddrs_eq hk (hi h) ep) fun h => absurd rfl h.2
    · exact findServices_service (fun h => h.2 rfl) hk'
    · exact serviceRecordForIP_service hk hi (fun h => h.2 rfl) ip
    · exact exposedRecords_service (fun h => h.2 rfl) hk' hz
  case endpoints d =>
    have hk : d.Keeps endpoints.key
        (fun old new => old.plain k.endpointNameMode = new.plain k.endpointNameMode)
        (fun _ => True ∧ internal ≠ .internal) c.endpoints := by
      refine keeps hu.endpoints hv ht hm (fun _ => rfl) fun {old new} hk hn hs => hs ?_
      rw [←endpointsEquivalent_iff]
      simpa [endpoints] using hn
    have hk := hk.view
    refine sameAt_process hm' (fun zone => ?_) (fun _ => ?_) (absurd · hz) (fun _ ip => ?_) ?_
    · exact nsAddrs_endpoints hk fun h => absurd rfl h.2
    · exact findServices_endpoints hk fun h => h.2 rfl
    · exact serviceRecordForIP_endpoints hk (fun h => h.2 rfl) ip
    · exact exposedRecords_endpoints hk (fun h => h.2 rfl) hz
  case serviceImport =>
    refine sameAt_process hm' (fun _ => rfl) (fun _ => rfl) (absurd · hz) (fun _ _ => rfl) ?_
    rw [exposedRecords, exposedRecords, if_neg hz, if_neg hz]
    rfl
  case mcEndpoints =>
    refine sameAt_process hm' (fun _ => rfl) (fun _ => rfl) (absurd · hz) (fun _ _ => rfl) ?_
    rw [exposedRecords, exposedRecords, if_neg hz, if_neg hz]
    rfl

theorem sameAt_across (hz : k.isMultiClusterZone lib zone) (hu : Unique c) (hv : e.Versioned c)
    (ht : k.TrackedAcross lib zone c e) (hm : .multiCluster ∉ e.modes c) : k.SameAt lib zone (e.process c unix) c := by
  have hm' : k.mode lib zone ∉ e.modes c := by rwa [mode, if_pos hz]
  cases e
  case service d =>
    refine sameAt_process hm' (fun zone => ?_) (absurd hz) (fun _ => rfl) (fun hf ip => ?_) ?_
    · refine nsAddrs_service ht (fun hk h ep he hx => ?_) fun h => h.1
      obtain h | h := h
      case inl => exact serviceAddrs_eq hk h ep
      case inr => exact absurd hx (h.1 ep he)
    · refine serviceRecordForIP_service ht (fun h => ?_) (fun h => hf h.2) ip
      exact h.resolve_right fun h => hf h.2
    · rw [exposedRecords, exposedRecords, if_pos hz, if_pos hz]
      rfl
  case endpoints d =>
    refine sameAt_process hm' (fun zone => ?_) (absurd hz) (fun _ => rfl) (fun hf ip => ?_) ?_
    · exact nsAddrs_endpoints (ht.mono (fun _ h => h.imp_right And.left) And.left) id
    · refine serviceRecordForIP_endpoints (ht.mono (fun _ h => ?_) fun h => hf h.2) id ip
      exact .inl (h.resolve_right fun h => hf h.2)
    · rw [exposedRecords, exposedRecords, if_pos hz, if_pos hz]
      rfl
  case serviceImport d =>
    have hk : d.Keeps serviceImport.key (fun old new => old.plain = new.plain)
        (fun s => IdleImport c s ∧ multiCluster ≠ .internal) c.serviceImports := by
      refine keeps hu.serviceImports hv ht hm (fun _ => rfl) fun {old new} hk hn hs => ?_
      obtain ⟨ht, hp⟩ : old.type = new.type ∧ old.ports = new.ports := by
        simpa [serviceImport, serviceImportEquivalent] using hn
      obtain ⟨hns, hname⟩ := Prod.mk.inj hk
      simp [ServiceImport.plain, hns, hname, hs ht hp, ht, hp]
    refine sameAt_process hm' (fun _ => rfl) (absurd hz) (fun _ => ?_) (fun _ _ => rfl) ?_
    · exact findMultiClusterServices_serviceImport (hk.mono (fun _ h => h) And.left)
    · exact exposedRecords_serviceImport (hk.mono (fun _ h => h) And.left) hz
  case mcEndpoints d =>
    have hk : d.Keeps mcEndpoints.key
        (fun old new => old.plain k.endpointNameMode = new.plain k.endpointNameMode ∨
          IdleEndpoints c old ∧ IdleEndpoints c new)
        (fun e => IdleEndpoints c e ∧ multiCluster ≠ .internal) c.mcEndpoints := by
      refine keeps hu.mcEndpoints hv ht hm (fun _ => .inl rfl) fun {old new} hk hn hs => ?_
      obtain ⟨he, hc⟩ : endpointsEquivalent old.toEndpoints new.toEndpoints ∧ old.clusterId = new.clusterId := by
        simpa [mcEndpoints, multiclusterEndpointsEquivalent] using hn
      refine hs.imp_left fun hs => ?_
      simp [MultiClusterEndpoints.plain, hs ((endpointsEquivalent_iff _ _).mp he) hc, hc]
    refine sameAt_process hm' (fun _ => rfl) (absurd hz) (fun _ => ?_) (fun _ _ => rfl) ?_
    · exact findMultiClusterServices_mcEndpoints (hk.mono (fun _ h => h) And.left)
    · exact exposedRecords_mcEndpoints (hk.mono (fun _ h => h) And.left) hz

end Steps

end Config
end Kubernetes
