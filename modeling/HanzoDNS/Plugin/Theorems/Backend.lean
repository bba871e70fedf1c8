import HanzoDNS.Plugin.Backend

open Dns Strings Plugin

-- Answers in a zone only depend on what a backend knows about that zone.
namespace Plugin

open Plugin Family

structure AgreeAt (zone : Str) (b₁ b₂ : Backend) : Prop where
  services : ∀ state, state.zone = zone → b₁.services state = b₂.services state
  serial : ∀ state, state.zone = zone → b₁.serial state = b₂.serial state
  lookup : b₁.lookup = b₂.lookup
  minTTL : b₁.minTTL = b₂.minTTL

namespace AgreeAt

variable {lib : Library} {b₁ b₂ : Backend} {zone : Str} {state : State} (h : AgreeAt zone b₁ b₂) (hz : state.zone = zone)

include h hz

theorem checkForApex : checkForApex lib b₁ zone state = checkForApex lib b₂ zone state := by
  have ha := h.services { state with question := File.join lib.toLabels ["apex.dns", zone] } hz
  rw [Plugin.checkForApex, Plugin.checkForApex, h.services state hz, ha]

theorem initial (f : Family) : f.initial lib b₁ zone state = f.initial lib b₂ zone state := by
  cases f
  case txt => exact h.services state hz
  case a => exact h.checkForApex hz
  case aaaa => exact h.checkForApex hz

omit hz in
theorem followed {f : Family} {previous : List RR} {acc : Answers} {serv : Etcd.Service}
    {follow₁ follow₂ : State → List RR → Except Error (List RR × Bool)}
    (hf : ∀ next previous, next.zone = zone → follow₁ next previous = follow₂ next previous) :
    f.followed lib b₁ zone (some follow₁) state previous acc serv =
      f.followed lib b₂ zone (some follow₂) state previous acc serv := by
  simp only [Family.followed, h.lookup]
  rw [hf _ _ rfl]

theorem familyLookup (f : Family) (left : Nat) (previous : List RR) :
    f.lookup lib b₁ zone left state previous = f.lookup lib b₂ zone left state previous := by
  induction left generalizing state previous
  case zero =>
    have ha : f.add lib b₁ zone none state previous = f.add lib b₂ zone none state previous := rfl
    rw [Family.lookup, Family.lookup, h.initial hz f, ha]
  case succ left hi =>
    have ha : f.add lib b₁ zone (some (f.lookup lib b₁ zone left)) state previous =
        f.add lib b₂ zone (some (f.lookup lib b₂ zone left)) state previous := by
      funext acc serv
      rw [add, add, h.followed fun next previous hn => hi hn previous]
    rw [Family.lookup, Family.lookup, h.initial hz f, ha]

theorem srv (hs : ∀ services, b₂.services state = .ok services → ∀ serv ∈ services, serv.hostType ≠ .cname) :
    srv lib b₁ zone state = srv lib b₂ zone state := by
  rw [Plugin.srv, Plugin.srv, h.services state hz]
  cases hv : b₂.services state
  case error => rfl
  case ok services =>
    have hf : services.foldl (srvTarget lib b₁ zone state (Etcd.srvWeight services.length)) {} =
        services.foldl (srvTarget lib b₂ zone state (Etcd.srvWeight services.length)) {} := by
      refine List.foldl_ext _ _ _ fun acc serv hm => ?_
      rw [srvTarget, srvTarget]
      split
      case isTrue => rfl
      case isFalse =>
        split
        case h_1 => rfl
        case h_2 hc => exact absurd hc (hs services hv serv hm)
        case h_3 => rfl
    change Except.ok _ = Except.ok _
    rw [hf]

theorem ns : ns lib b₁ zone state = ns lib b₂ zone state := by
  have hn := h.services { state with question := File.join lib.toLabels ["ns.dns.", zone] } hz
  rw [Plugin.ns, Plugin.ns, hn]

theorem soa : Plugin.soa lib b₁ zone state = Plugin.soa lib b₂ zone state := by
  rw [Plugin.soa, Plugin.soa, h.serial state hz, h.minTTL]

end AgreeAt
end Plugin
