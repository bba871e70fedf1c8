import HanzoDNS.Kubernetes.External
import HanzoDNS.Kubernetes.Handler
import HanzoDNS.Kubernetes.Transfer

open Dns Strings Plugin Channel List

namespace Kubernetes

open Char Bool Kubernetes Config

theorem ne_dot_of_isLabelChar {c : Char} (h : isLabelChar c) : c ≠ '.' := by
  rintro rfl
  revert h
  decide

theorem toLower_of_isLabelChar {c : Char} (h : isLabelChar c) : c.toLower = c := by
  have hd : ∀ n < 128, isLabelChar (Char.ofNat n) → (Char.ofNat n).toLower = Char.ofNat n := by
    decide +kernel
  have hc : c.toNat < 128 := by
    simp only [isLabelChar, Char.isLower, Char.isDigit, Bool.or_eq_true, Bool.and_eq_true, decide_eq_true_eq,
      UInt32.le_iff_toNat_le] at h
    obtain (⟨-, h⟩ | ⟨-, h⟩) | rfl := h
    · exact lt_of_le_of_lt h (by decide)
    · exact lt_of_le_of_lt h (by decide)
    · decide
  simpa only [Char.ofNat_toNat] using hd c.toNat hc (by rwa [Char.ofNat_toNat])

theorem eq_of_folds {c d : Char} (hc : isLabelChar c) (hd : isLabelChar d) (h : folds c d) : c = d := by
  obtain h | ⟨-, rfl⟩ | ⟨-, rfl⟩ := of_decide_eq_true h
  case inl => rwa [toLower_of_isLabelChar hc, toLower_of_isLabelChar hd] at h
  case inr.inl => exact absurd hd (by decide)
  case inr.inr => exact absurd hd (by decide)

theorem eq_of_foldsAll {s t : Str} (hs : s.all isLabelChar) (ht : t.all isLabelChar) (h : foldsAll s t) : s = t := by
  induction s generalizing t
  case nil =>
    cases t
    case nil => rfl
    case cons => cases h
  case cons c s hi =>
    cases t
    case nil => cases h
    case cons d t =>
      rw [all_cons, and_eq_true] at hs ht
      rw [foldsAll, and_eq_true] at h
      rw [eq_of_folds hs.1 ht.1 h.1, hi hs.2 ht.2 h.2]

namespace Namespace

variable {m n : Namespace}

theorem isLabelChar_of_mem {c : Char} (h : c ∈ n.text) : isLabelChar c :=
  all_eq_true.mp n.valid c h

-- A namespace has no dots, so that it is what comes after the last one in a key.
theorem takeWhile_key (name : Str) (n : Namespace) :
    (key name n.text).reverse.takeWhile (· ≠ '.') = n.text.reverse := by
  have hn : ∀ c ∈ n.text.reverse, decide (c ≠ '.') := by
    intro c hc
    exact decide_eq_true (ne_dot_of_isLabelChar (isLabelChar_of_mem (mem_reverse.mp hc)))
  rw [key, reverse_append, reverse_cons, append_assoc, takeWhile_append_of_pos hn]
  simp

theorem text_eq_of_key_eq {a b : Str} (h : key a m.text = key b n.text) : m.text = n.text := by
  have := congrArg (·.reverse.takeWhile (· ≠ '.')) h
  simp only [takeWhile_key] at this
  exact reverse_injective this

-- Namespaces have no upper case letters, so that case makes no difference for them.
theorem text_eq_of_match (h : Kubernetes.match m.text n.text) : m.text = n.text :=
  eq_of_foldsAll m.valid n.valid h

end Namespace

def Cluster.owners (c : Cluster) : List Namespace :=
  c.services.map (·.namespace) ++ c.endpoints.map (·.namespace) ++ c.serviceImports.map (·.namespace) ++
    c.mcEndpoints.map (·.namespace) ++ c.pods.map (·.namespace)

namespace Config

-- Every namespace that has objects is known, unless namespaces are chosen by their labels.
def Watched (k : Config) (c : Cluster) : Prop :=
  k.namespaceLabels = false → c.owners ⊆ c.namespaces

def Restricted (k : Config) : Prop :=
  k.namespaceLabels ∨ k.namespaces ≠ []

-- Two clusters with the same objects in the namespaces that are exposed. The addresses of the name servers are the
-- same, whatever namespace their services are in.
structure Agree (k : Config) (c₁ c₂ : Cluster) : Prop where
  namespaces : c₁.namespaces = c₂.namespaces
  modified : c₁.modified = c₂.modified
  hasSynced : c₁.hasSynced = c₂.hasSynced
  nsAddrs : k.nsAddrs c₁ = k.nsAddrs c₂
  services : c₁.services.filter (k.namespaceExposed c₁ ·.namespace.text) =
    c₂.services.filter (k.namespaceExposed c₂ ·.namespace.text)
  endpoints : c₁.endpoints.filter (k.namespaceExposed c₁ ·.namespace.text) =
    c₂.endpoints.filter (k.namespaceExposed c₂ ·.namespace.text)
  serviceImports : c₁.serviceImports.filter (k.namespaceExposed c₁ ·.namespace.text) =
    c₂.serviceImports.filter (k.namespaceExposed c₂ ·.namespace.text)
  mcEndpoints : c₁.mcEndpoints.filter (k.namespaceExposed c₁ ·.namespace.text) =
    c₂.mcEndpoints.filter (k.namespaceExposed c₂ ·.namespace.text)
  pods : c₁.pods.filter (k.namespaceExposed c₁ ·.namespace.text) =
    c₂.pods.filter (k.namespaceExposed c₂ ·.namespace.text)

variable {k : Config} {c c₁ c₂ : Cluster} {lib : Library}

theorem exists_namespace {name : Str} (h : k.namespaceExposed c name) : ∃ n : Namespace, n.text = name := by
  obtain ⟨n, -, hn⟩ := any_eq_true.mp (and_eq_true_iff.mp h).2
  exact ⟨n, of_decide_eq_true hn⟩

theorem filter_eq {α : Type} {p q : α → Bool} {l₁ l₂ : List α} (h : l₁.filter q = l₂.filter q) (hp : ∀ a, p a → q a) :
    l₁.filter p = l₂.filter p := by
  have hf (l : List α) : l.filter p = (l.filter q).filter p := by
    rw [filter_filter]
    refine filter_congr fun a _ => ?_
    cases ha : p a
    case false => rfl
    case true => simp [hp a ha]
  rw [hf, h, ←hf]

theorem exposed_of_key {name «namespace» m : Str} {n : Namespace} (he : k.namespaceExposed c «namespace»)
    (hk : key m n.text = key name «namespace») : k.namespaceExposed c n.text := by
  obtain ⟨n', rfl⟩ := exists_namespace he
  rwa [Namespace.text_eq_of_key_eq hk]

theorem exposed_of_match {«namespace» : Str} {n : Namespace} (he : k.namespaceExposed c «namespace»)
    (hm : Kubernetes.match «namespace» n.text) : k.namespaceExposed c n.text := by
  obtain ⟨n', rfl⟩ := exists_namespace he
  rwa [←Namespace.text_eq_of_match hm]

theorem exposed_of_not_hides {n : Namespace} (hn : k.namespaces ≠ []) (hh : !k.hides c n) :
    k.namespaceExposed c n.text := by
  simpa [hides, hn] using hh

theorem namespace_of_parseExternal {name : Str} {segs : List Str} {r : RecordRequest}
    (h : parseExternal name segs = some r) : r.namespace = name := by
  rw [parseExternal.eq_def] at h
  split at h
  case h_4 => cases h
  all_goals
    obtain rfl := Option.some.inj h
    rfl

theorem sorted_perm {α : Type} {name : α → Str} {n : α → Namespace} {l₁ l₂ : List α} {f₁ f₂ : α → List (List RR)}
    (sorting : Sorting name)
    (hl : l₁.filter (k.namespaceExposed c₁ <| n · |>.text) = l₂.filter (k.namespaceExposed c₂ <| n · |>.text))
    (hf : ∀ a, k.namespaceExposed c₂ (n a).text → f₁ a = f₂ a) :
    (((sorting.sort l₁).filter (k.namespaceExposed c₁ <| n · |>.text)).flatMap f₁).Perm
      (((sorting.sort l₂).filter (k.namespaceExposed c₂ <| n · |>.text)).flatMap f₂) := by
  have hp (c : Cluster) (l : List α) : ((sorting.sort l).filter (k.namespaceExposed c <| n · |>.text)).Perm
      (l.filter (k.namespaceExposed c <| n · |>.text)) := (sorting.perm l).filter _
  have he : (l₁.filter (k.namespaceExposed c₁ <| n · |>.text)).flatMap f₁ =
      (l₂.filter (k.namespaceExposed c₂ <| n · |>.text)).flatMap f₂ := by
    rw [hl]
    exact flatMap_congr fun a ha => hf a (mem_filter.mp ha).2
  exact ((hp c₁ l₁).flatMap_right f₁).trans (he ▸ ((hp c₂ l₂).flatMap_right f₂).symm)

namespace Agree

variable (h : k.Agree c₁ c₂)

include h

theorem namespaceExposed : k.namespaceExposed c₁ = k.namespaceExposed c₂ := by
  funext name
  rw [Config.namespaceExposed, Config.namespaceExposed, Cluster.namespaceExists, Cluster.namespaceExists, h.namespaces]

theorem hides : k.hides c₁ = k.hides c₂ := by
  funext name
  rw [Config.hides, Config.hides, h.namespaceExposed]

-- If nothing restricts the namespaces, all objects are exposed.
theorem eq (hk : ¬k.Restricted) (h₁ : k.Watched c₁) (h₂ : k.Watched c₂) : c₁ = c₂ := by
  obtain ⟨hl, hn⟩ : k.namespaceLabels = false ∧ k.namespaces = [] := by simpa [Restricted] using hk
  have all {α : Type} {f : α → Namespace} {l : List α} {c : Cluster} (hw : k.Watched c) (hm : ∀ a ∈ l, f a ∈ c.owners) :
      l.filter (fun a => k.namespaceExposed c (f a).text) = l := by
    refine filter_eq_self.mpr fun a ha => ?_
    have hx : c.namespaceExists (f a).text :=
      any_eq_true.mpr ⟨f a, hw hl (hm a ha), decide_eq_true rfl⟩
    simp [Config.namespaceExposed, configuredNamespace, hn, hx]
  obtain ⟨hns, hmod, hsync, -, hs, he, hi, hme, hp⟩ := h
  rw [all h₁ (by grind [Cluster.owners]), all h₂ (by grind [Cluster.owners])] at hs he hi hme hp
  cases c₁
  cases c₂
  simp_all

section Index

variable {name «namespace» : Str} (he : k.namespaceExposed c₂ «namespace»)

include he

theorem svcIndex : c₁.svcIndex (key name «namespace») = c₂.svcIndex (key name «namespace») := by
  refine filter_eq (h.namespaceExposed ▸ h.services) fun s hs => ?_
  exact exposed_of_key he (of_decide_eq_true hs)

theorem epIndex : c₁.epIndex (key name «namespace») = c₂.epIndex (key name «namespace») := by
  refine filter_eq (h.namespaceExposed ▸ h.endpoints) fun e hs => ?_
  exact exposed_of_key he (of_decide_eq_true hs)

theorem svcImportIndex : c₁.svcImportIndex (key name «namespace») = c₂.svcImportIndex (key name «namespace») := by
  refine filter_eq (h.namespaceExposed ▸ h.serviceImports) fun s hs => ?_
  exact exposed_of_key he (of_decide_eq_true hs)

theorem mcEpIndex : c₁.mcEpIndex (key name «namespace») = c₂.mcEpIndex (key name «namespace») := by
  refine filter_eq (h.namespaceExposed ▸ h.mcEndpoints) fun e hs => ?_
  exact exposed_of_key he (of_decide_eq_true hs)

theorem podIndex (ip : Str) :
    (c₁.podIndex ip).filter (fun p => ip = p.podIP ∧ Kubernetes.match «namespace» p.namespace.text) =
      (c₂.podIndex ip).filter (fun p => ip = p.podIP ∧ Kubernetes.match «namespace» p.namespace.text) := by
  rw [Cluster.podIndex, Cluster.podIndex, filter_filter, filter_filter]
  refine filter_eq (h.namespaceExposed ▸ h.pods) fun p hp => ?_
  simp only [Bool.and_eq_true, decide_eq_true_eq] at hp
  exact exposed_of_match he hp.1.2

end Index

theorem findPods : k.findPods c₁ = k.findPods c₂ := by
  funext zonePath r
  by_cases he : k.namespaceExposed c₂ r.namespace
  case pos => simp only [Config.findPods, h.namespaceExposed, h.podIndex he]
  case neg => simp [Config.findPods, h.namespaceExposed, he]

theorem findServices : k.findServices c₁ = k.findServices c₂ := by
  funext zonePath r
  by_cases he : k.namespaceExposed c₂ r.namespace
  case pos => simp [Config.findServices, h.namespaceExposed, h.svcIndex he, h.epIndex he]
  case neg => simp [Config.findServices, h.namespaceExposed, he]

theorem findMultiClusterServices : k.findMultiClusterServices c₁ = k.findMultiClusterServices c₂ := by
  funext zonePath r
  by_cases he : k.namespaceExposed c₂ r.namespace
  case pos => simp [Config.findMultiClusterServices, h.namespaceExposed, h.svcImportIndex he, h.mcEpIndex he]
  case neg => simp [Config.findMultiClusterServices, h.namespaceExposed, he]

theorem records : k.records lib c₁ = k.records lib c₂ := by
  funext state
  simp [Config.records, h.namespaceExposed, h.findPods, h.findServices, h.findMultiClusterServices]

theorem serial : k.serial lib c₁ = k.serial lib c₂ := by
  funext state
  rw [Config.serial, Config.serial, h.modified]

theorem backend : k.backend lib c₁ = k.backend lib c₂ := by
  funext lookup
  have hs : k.services lib c₁ = k.services lib c₂ := by
    funext state
    simp only [Config.services, h.records, h.nsAddrs]
  rw [Config.backend, Config.backend, hs, h.serial]

-- With a list of namespaces, what is found for an address is exposed.
section Reverse

variable (hn : k.namespaces ≠ [])

include hn

theorem visible {α : Type} {n : α → Namespace} {p : α → Bool} {l₁ l₂ : List α}
    (hl : l₁.filter (k.namespaceExposed c₁ <| n · |>.text) = l₂.filter (k.namespaceExposed c₂ <| n · |>.text)) :
    (l₁.filter p).filter (fun a => !k.hides c₁ (n a)) = (l₂.filter p).filter (fun a => !k.hides c₂ (n a)) := by
  rw [h.hides, filter_filter, filter_filter]
  refine filter_eq (h.namespaceExposed ▸ hl) fun a ha => ?_
  exact exposed_of_not_hides hn (and_eq_true_iff.mp ha).1

theorem serviceRecordForIP : k.serviceRecordForIP c₁ = k.serviceRecordForIP c₂ := by
  funext ip
  have hs : (c₁.svcIndexReverse ip).filter (!k.hides c₁ ·.namespace) =
      (c₂.svcIndexReverse ip).filter (!k.hides c₂ ·.namespace) := h.visible hn h.services
  have he : (c₁.epIndexReverse ip).filter (!k.hides c₁ ·.namespace) =
      (c₂.epIndexReverse ip).filter (!k.hides c₂ ·.namespace) := h.visible hn h.endpoints
  rw [Config.serviceRecordForIP, Config.serviceRecordForIP, hs, he]

theorem serviceRecordForExternalIP : k.serviceRecordForExternalIP c₁ = k.serviceRecordForExternalIP c₂ := by
  funext ip
  have hs : (c₁.svcExtIndexReverse ip).filter (!k.hides c₁ ·.namespace) =
      (c₂.svcExtIndexReverse ip).filter (!k.hides c₂ ·.namespace) := h.visible hn h.services
  rw [Config.serviceRecordForExternalIP, Config.serviceRecordForExternalIP, hs]

end Reverse

theorem reverse {state : State} (hs : k.namespaces ≠ [] ∨ extractAddressFromReverse (state.name lib) = []) :
    k.reverse lib c₁ state = k.reverse lib c₂ state := by
  rw [Config.reverse, Config.reverse, h.records]
  obtain hn | he := hs
  case inl => rw [h.serviceRecordForIP hn]
  case inr => rw [he]

theorem serveDNS {lookup : State → Str → RRType → Option Msg} {r : Msg}
    (hr : r.qtype = .ptr → ∀ zone, k.reverse lib c₁ (stateOf lib r zone) = k.reverse lib c₂ (stateOf lib r zone)) :
    k.serveDNS lib c₁ lookup r = k.serveDNS lib c₂ lookup r := by
  have hl (zone : Str) (b : Backend) :
      Kubernetes.lookup lib b (stateOf lib r zone).zone (stateOf lib r zone) (k.reverse lib c₁) =
        Kubernetes.lookup lib b (stateOf lib r zone).zone (stateOf lib r zone) (k.reverse lib c₂) := by
    by_cases hp : r.qtype = .ptr
    case pos => rw [Kubernetes.lookup, Kubernetes.lookup, Plugin.ptr, Plugin.ptr, hr hp]
    case neg =>
      have hp : (stateOf lib r zone).qtype ≠ .ptr := hp
      simp only [Kubernetes.lookup, if_neg hp]
  have hb (b : Backend) : k.respond lib c₁ b = k.respond lib c₂ b := by
    funext zone state r found
    cases found
    case error => simp [Config.respond, h.hasSynced]
    case ok => rfl
  simp [Config.serveDNS, h.backend, hl, hb]

section External

theorem findExternal {headless : Bool} {zonePath : Str} {r : RecordRequest}
    (he : k.namespaceExposed c₂ r.namespace) :
    k.findExternal c₁ headless zonePath r = k.findExternal c₂ headless zonePath r := by
  have hx : k.externalFor c₁ headless zonePath r = k.externalFor c₂ headless zonePath r := by
    funext s
    rw [externalFor, externalFor, h.epIndex he]
  rw [Config.findExternal, Config.findExternal, h.svcIndex he, hx]

theorem externalForward {state : State} {headless : Bool} :
    k.externalForward lib c₁ state headless = k.externalForward lib c₂ state headless := by
  simp only [Config.externalForward, h.namespaceExposed]
  rcases (lib.splitDomainName (trimZone lib.toLabels (state.name lib) state.zone)).reverse with _ | ⟨name, segs⟩
  case nil => rfl
  case cons =>
    by_cases he : k.namespaceExposed c₂ name
    case neg => simp [he]
    case pos =>
      rcases hp : parseExternal name segs with _ | r
      case none => simp [hp]
      case some =>
        obtain rfl := namespace_of_parseExternal hp
        simp [hp, h.findExternal he]

theorem external {state : State} {headless : Bool}
    (hs : k.namespaces ≠ [] ∨ state.qtype ≠ .ptr ∨ extractAddressFromReverse (state.name lib) = []) :
    k.external lib c₁ state headless = k.external lib c₂ state headless := by
  rw [Config.external, Config.external, h.externalForward]
  obtain hn | hp | he := hs
  case inl => rw [h.serviceRecordForExternalIP hn]
  case inr.inl => rw [if_neg hp]
  case inr.inr => rw [he, ite_self]

end External

section Transfer

variable {order : Order} {zone : Str}

theorem zoneServices_perm : (k.zoneServices lib order c₁ zone).Perm (k.zoneServices lib order c₂ zone) := by
  rw [zoneServices, zoneServices]
  split
  case isTrue =>
    refine sorted_perm order.serviceImports h.serviceImports fun s hs => ?_
    rw [serviceImportRecords, serviceImportRecords, h.mcEpIndex hs]
  case isFalse =>
    refine sorted_perm order.services h.services fun s hs => ?_
    rw [serviceRecords, serviceRecords, h.epIndex hs]

theorem sendAll_perm {soa : RR} {nsAddrs addrs : List RR} {hosts : List Str} :
    (k.sendAll lib order c₁ zone soa nsAddrs hosts addrs).Perm (k.sendAll lib order c₂ zone soa nsAddrs hosts addrs) := by
  induction addrs generalizing hosts
  case nil => exact .refl _
  case cons a addrs hi =>
    rw [sendAll, sendAll]
    exact ((((h.zoneServices_perm).append_left _).append_right _).map _).append (hi.cons _)

theorem goroutine_perm {serial : UInt32} :
    (k.goroutine lib order c₁ zone serial).Perm (k.goroutine lib order c₂ zone serial) := by
  have hs : k.soaFor lib c₁ = k.soaFor lib c₂ := by
    funext zone state
    rw [soaFor, soaFor, h.backend]
  rw [goroutine, goroutine, hs, h.serial, h.nsAddrs]
  split
  case isTrue => exact .refl _
  case isFalse => exact h.sendAll_perm.cons _

end Transfer

end Agree
end Config
end Kubernetes
