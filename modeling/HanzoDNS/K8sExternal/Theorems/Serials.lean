import HanzoDNS.Lib.Transition
import HanzoDNS.K8sExternal.Theorems.Noninterference
import HanzoDNS.K8sExternal.Theorems.Zone

open Dns Strings Plugin Kubernetes Channel List

namespace K8sExternal

open Config Control External Setting.Sample

-- A zone of one of the two plugins. Those of the cluster are spelled as in a question.
inductive Zone
  | cluster (zone : Str)
  | external (zone : Str)

def answered : Outcome → List RR
  | .written m => m.answer ++ m.extra
  | _ => []

def transferred : Except Transfer.Error (List (Op (List RR))) → List RR
  | .ok ops => sent ops
  | .error _ => []

namespace Setting

variable (s : Setting)

def mode : Zone → ModifiedMode
  | .cluster zone => s.k.mode s.lib.toLibrary zone
  | .external _ => .external

-- The records of a zone, except for its SOA: those in answers to questions about it, and those that a transfer sends.
def served (c : Cluster) : Zone → Set RR
  | .cluster zone => {rr | rr.rrtype ≠ .soa ∧
    ((∃ r, (s.k.question s.lib.toLibrary r).zone = zone ∧ rr ∈ answered (s.k.serveDNS s.lib.toLibrary c s.lookup r)) ∨
      rr ∈ transferred (s.k.transfer s.lib.toLibrary s.order c zone 0))}
  | .external zone => {rr | rr.rrtype ≠ .soa ∧
    ((∃ r, Zones.matches s.lib.isSubDomain s.e.zones (r.name s.lib.toLibrary) = zone ∧
        rr ∈ answered (s.e.serveDNS s.lib.toLibrary (s.env c) r)) ∨
      rr ∈ transferred (s.e.transfer s.lib.toLibrary (s.env c) s.keyOrder zone 0))}

def Follows (zone : Zone) (c c' : Cluster) : Prop :=
  s.served c' zone ≠ s.served c zone → c.modified (s.mode zone) < c'.modified (s.mode zone)

def Tracked (c : Cluster) (e : Event) : Zone → Prop
  | .cluster zone =>
    if s.k.isMultiClusterZone s.lib.toLibrary zone then
      s.k.TrackedAcross s.lib.toLibrary zone c e
    else
      s.k.TrackedInside c e
  | .external _ => TrackedOutside s.k s.e.headless c e

variable {s} {c : Cluster} {e : Event} {unix : Int} {zone : Zone}

theorem mem_transferred {rr : RR} {out : Except Transfer.Error (List (Op (List RR)))} :
    rr ∈ transferred out ↔ ∃ ops, out = .ok ops ∧ rr ∈ sent ops := by
  cases out
  case ok => simp [transferred]
  case error => simp [transferred]

theorem served_cluster {zone : Str} {c₁ c₂ : Cluster} (h : s.k.SameAt s.lib.toLibrary zone c₁ c₂) :
    s.served c₁ (.cluster zone) = s.served c₂ (.cluster zone) := by
  ext rr
  refine and_congr_right fun hr => or_congr ?_ ?_
  case refine_1 => exact exists_congr fun r => and_congr_right fun hz => by rw [h.serveDNS hz]
  case refine_2 => rw [mem_transferred, mem_transferred, h.sent_transfer hr]

theorem served_external {zone : Str} {c₁ c₂ : Cluster} (h : SameOutside s.lib.toLibrary s.k s.e.headless c₁ c₂) :
    s.served c₁ (.external zone) = s.served c₂ (.external zone) := by
  simp only [served, env, h.serveDNS, h.transfer]

theorem served_process (hu : Config.Unique c) (hv : e.Versioned c) (ht : s.Tracked c e zone)
    (hm : s.mode zone ∉ e.modes c) :
    s.served (e.process c unix) zone = s.served c zone := by
  cases zone
  case external => exact served_external (sameOutside hu hv ht hm)
  case cluster zone =>
    rw [mode, Config.mode] at hm
    rw [Tracked] at ht
    split at ht
    case isTrue hz => exact served_cluster (sameAt_across hz hu hv ht (by rwa [if_pos hz] at hm))
    case isFalse hz => exact served_cluster (sameAt_inside hz hu hv ht (by rwa [if_neg hz] at hm))

end Setting

-- Objects have different keys, and no counter is ahead of the clock.
structure Valid (ctl : Control) : Prop where
  unique : Config.Unique ctl.cluster
  modified : ∀ mode, ctl.cluster.modified mode ≤ ctl.now

variable {pods : List Pod} {namespaces : List Namespace} {hasSynced : Bool} {ctl ctl' : Control} {e : Int × Event}

theorem valid_start : Valid (.start pods namespaces hasSynced) where
  unique := ⟨nodup_nil, nodup_nil, nodup_nil, nodup_nil⟩
  modified := fun _ => le_refl 0

theorem Valid.step (hc : Valid ctl) (h : ctl.Step e ctl') : Valid ctl' := by
  obtain ⟨clock, -, rfl⟩ := h
  refine ⟨hc.unique.process e.1 e.2, fun mode => ?_⟩
  change (if mode ∈ e.2.modes ctl.cluster then e.1 else ctl.cluster.modified mode) ≤ e.1
  split
  case isTrue => exact le_refl _
  case isFalse => exact (hc.modified mode).trans clock.le

theorem Valid.follows {s : Setting} (hc : Valid ctl) (h : ctl.Step e ctl') {zone : Zone}
    (ht : s.Tracked ctl.cluster e.2 zone) : s.Follows zone ctl.cluster ctl'.cluster := by
  obtain ⟨clock, hv, rfl⟩ := h
  intro hs
  by_cases hm : s.mode zone ∈ e.2.modes ctl.cluster
  case neg => exact absurd (Setting.served_process hc.unique hv ht hm) hs
  case pos =>
    change _ < if s.mode zone ∈ e.2.modes ctl.cluster then e.1 else _
    rw [if_pos hm]
    exact (hc.modified _).trans_lt clock

-- In every run, the serial of a zone follows an event that the zone's counter keeps track of.
theorem serial_follows (s : Setting) (r : Reachable Control.Step (.start pods namespaces hasSynced) ctl)
    (h : ctl.Step e ctl') (zone : Zone) (ht : s.Tracked ctl.cluster e.2 zone) :
    s.Follows zone ctl.cluster ctl'.cluster :=
  (r.invariant valid_start Valid.step).follows h ht

section Start

variable {s : Setting} (hl : s.k.localIPs = [])

include hl

theorem addresses_start (state : State) (name : Str) :
    s.e.addresses (s.env (start pods namespaces hasSynced).cluster) state name = [] := by
  simp [addresses, externalAddress, nsAddrs, localEndpoints, Setting.env, hl]

omit hl in
theorem external_start (state : State) : ∃ rcode, s.k.external s.lib.toLibrary (start pods namespaces hasSynced).cluster
    state s.e.headless = ([], rcode) := by
  have hf (zonePath : Str) (r : RecordRequest) :
      s.k.findExternal (start pods namespaces hasSynced).cluster s.e.headless zonePath r = [] := rfl
  rw [external]
  split
  case h_2 => exact ⟨_, rfl⟩
  case h_1 =>
    rw [externalForward]
    split
    case h_1 => exact ⟨_, rfl⟩
    case h_2 =>
      split
      case isTrue => exact ⟨_, rfl⟩
      case isFalse =>
        split
        case isTrue => exact ⟨_, rfl⟩
        case isFalse =>
          split
          case h_1 => exact ⟨_, rfl⟩
          case h_2 =>
            simp only [hf, ite_self]
            exact ⟨_, rfl⟩

theorem body_start (zone : Str) : ∃ ns : RR, ns.rrtype = .ns ∧
    s.e.body s.lib.toLibrary (s.env (start pods namespaces hasSynced).cluster) s.keyOrder zone = [[ns]] := by
  have hk : s.keyOrder.keys [] = [] := (s.keyOrder.perm []).eq_nil
  refine ⟨{ name := zone, ttl := s.e.ttl, data := .ns ("ns1.".toList ++ s.e.apex ++ '.' :: zone) }, rfl, ?_⟩
  simp only [body, addresses_start hl]
  change _ ++ [] ++ [] ++ (s.keyOrder.keys []).flatMap _ = _
  rw [hk]
  rfl

theorem rrtype_of_mem_served_start {zone : Str} {rr : RR}
    (h : rr ∈ s.served (start pods namespaces hasSynced).cluster (.external zone)) : rr.rrtype = .ns := by
  have hr (r : Msg) := s.lib.setReply_records r
  simp only [Msg.records, append_eq_nil_iff] at hr
  obtain ⟨hs, h⟩ := h
  have hsoa (zone : Str) : rr ≠ s.e.soa s.lib.toLibrary (s.env (start pods namespaces hasSynced).cluster) zone := by
    rintro rfl
    exact hs rfl
  obtain ⟨r, -, hm⟩ | hm := h
  case inl =>
    simp only [External.serveDNS] at hm
    split at hm
    case isTrue => cases hm
    case isFalse =>
      split at hm
      case h_1 =>
        simp only [serveApex] at hm
        split_ifs at hm
        case pos => simp [answered, hr, hsoa] at hm
        case pos =>
          obtain rfl : rr = s.e.ns s.lib.toLibrary _ := by simpa [answered, hr, addresses_start hl] using hm
          rfl
        case neg => simp [answered, hr] at hm
      case h_2 =>
        simp only [serveSubApex, addresses_start hl, filter_nil, if_true] at hm
        split_ifs at hm
        all_goals simp [answered, hr] at hm
      case h_3 =>
        obtain ⟨rcode, hx⟩ := external_start (s := s)
          (stateOf r (Zones.matches s.lib.isSubDomain s.e.zones (r.name s.lib.toLibrary)))
        rw [Setting.env] at hm
        rw [hx, answer] at hm
        split at hm
        case isTrue => cases hm
        case isFalse => simp [answered, hr] at hm
  case inr =>
    rw [External.transfer] at hm
    split at hm
    case isTrue => cases hm
    case isFalse =>
      rw [if_neg fun h => h.1 rfl] at hm
      rw [transferred, sent_append, sent_map_send] at hm
      obtain ⟨ns, hn, hb⟩ := @body_start pods namespaces hasSynced s hl (if zone = ['.'] then [] else zone)
      rw [hb] at hm
      obtain rfl : rr = ns := by simpa [sent, hsoa] using hm
      exact hn

end Start

namespace Sample

def x : Namespace :=
  ⟨['x'], by decide⟩

def shop : Kubernetes.Service :=
  Setting.hidden x "10.0.0.7" ["1.2.3.4".toList]

def inside : Kubernetes.Service :=
  { shop with version := ['0'], externalIPs := [] }

def address : RR where
  name := "s.x.example.org."
  ttl := 5
  data := .a [1, 2, 3, 4]

def before : Control :=
  .start [] [x] true

def after (ctl : Control) (unix : Int) (s : Kubernetes.Service) : Control where
  cluster := Event.process ctl.cluster unix (.service (.updated s))
  now := unix

def org : Zone :=
  .external "example.org."

theorem address_not_mem : address ∉ setting.served before.cluster org :=
  fun h => absurd (rrtype_of_mem_served_start rfl h) (by decide)

theorem step_shop : before.Step (1, .service (.updated shop)) (after before 1 shop) where
  clock := by decide
  versioned := forall_mem_nil _
  eq := rfl

theorem step_inside : before.Step (1, .service (.updated inside)) (after before 1 inside) where
  clock := by decide
  versioned := forall_mem_nil _
  eq := rfl

theorem step_outside : (after before 1 inside).Step (2, .service (.updated shop))
    (after (after before 1 inside) 2 shop) where
  clock := by decide
  versioned := forall_mem_singleton.mpr fun _ h => absurd h (by decide)
  eq := rfl

-- The service is not part of the zone as long as it only has an address in the cluster.
theorem served_inside : setting.served (after before 1 inside).cluster org = setting.served before.cluster org := by
  refine Setting.served_process valid_start.unique step_inside.versioned ⟨forall_mem_nil _, fun _ => ?_⟩ (by decide)
  exact ⟨rfl, fun h => absurd h (by decide), forall_mem_nil _⟩

end Sample

open Sample

-- The records of a service that is added are not noticed, although they are part of a zone.
theorem not_follows_added :
    Reachable Control.Step (.start [] [x] true) before ∧ before.Step (1, .service (.updated shop)) (after before 1 shop) ∧
    ¬setting.Follows org before.cluster (after before 1 shop).cluster := by
  refine ⟨.refl, step_shop, fun h => ?_⟩
  have hm : address ∈ setting.served (after before 1 shop).cluster org := ⟨by decide, .inr (by decide +kernel)⟩
  have := h fun he => address_not_mem (he ▸ hm)
  revert this
  decide +kernel

-- Its address outside of the cluster is noticed if it comes later.
theorem serial_follows_shop :
    let ctl := after before 1 inside; let ctl' := after ctl 2 shop
    setting.Tracked ctl.cluster (.service (.updated shop)) org ∧
    setting.served ctl'.cluster org ≠ setting.served ctl.cluster org ∧
    ctl.cluster.modified .external < ctl'.cluster.modified .external := by
  have ht : setting.Tracked (after before 1 inside).cluster (.service (.updated shop)) org :=
    ⟨forall_mem_singleton.mpr fun _ h => absurd h (by decide), fun h => absurd rfl (h inside (mem_singleton_self _))⟩
  have hm : address ∈ setting.served (after (after before 1 inside) 2 shop).cluster org :=
    ⟨by decide, .inr (by decide +kernel)⟩
  have hs : setting.served (after (after before 1 inside) 2 shop).cluster org ≠
      setting.served (after before 1 inside).cluster org :=
    fun he => address_not_mem (served_inside ▸ he ▸ hm)
  exact ⟨ht, hs, serial_follows setting ⟨_, .single step_inside⟩ step_outside org ht hs⟩

end K8sExternal
