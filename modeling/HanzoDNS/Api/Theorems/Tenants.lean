import HanzoDNS.Api.Routes
import HanzoDNS.Api.Theorems.Handlers
import HanzoDNS.Store.Theorems.Isolation

open Prog

namespace Hanzodns

open Store

variable {A B org : Org} {s s₁ s₂ : Store} {e : Env} {k : Str} {zd : ZoneData} {c : Call}

theorem Call.reply_injective (c : Call) : Function.Injective c.reply := by
  intro a b h
  cases c <;> simp_all [Call.reply]

namespace Store

theorem perform_result (h : Agree org s₁ s₂) (c : Call) :
    (s₁.perform e org c).result = (s₂.perform e org c).result := by
  have ⟨hr, _⟩ := exec_agree (e := e) h c
  simp only [exec, Outcome.map_result] at hr
  generalize (s₁.perform e org c).result = r₁, (s₂.perform e org c).result = r₂ at hr
  cases r₁ <;> cases r₂ <;> simp_all [Except.map, c.reply_injective.eq_iff]

theorem perform_foreign (ho : zd.zone.org ≠ org) :
    (s.perform e org c).store.zones.get k = some zd ↔ s.zones.get k = some zd :=
  have h : Change s org c.key c.names (s.perform e org c).store := exec_change c
  ⟨fun hg => (h.owner_or_mem hg).resolve_left ho, fun hg => h.preserves_foreign hg ho⟩

end Store

-- Stores that differ in the content of the zones of one org only.
def AgreeBut (A : Org) (s₁ s₂ : Store) : Prop :=
  ∀ k, (s₁.zones.get k = none ↔ s₂.zones.get k = none) ∧
    ∀ zd, zd.zone.org ≠ A → (s₁.zones.get k = some zd ↔ s₂.zones.get k = some zd)

namespace AgreeBut

theorem agree (h : AgreeBut A s₁ s₂) (ne : B ≠ A) : Agree B s₁ s₂ := by
  intro k
  have ⟨hn, hs⟩ := h k
  simp only [view]
  cases h₁ : s₁.zones.get k <;> cases h₂ : s₂.zones.get k <;> grind

theorem perform (h : AgreeBut A s₁ s₂) (ne : org ≠ A) (c : Call) :
    AgreeBut A (s₁.perform e org c).store (s₂.perform e org c).store := by
  have ha : Agree org (s₁.perform e org c).store _ := (exec_agree (h.agree ne) c).2
  refine fun k => ⟨ha.get_none_iff, fun zd hz => ?_⟩
  by_cases ho : zd.zone.org = org
  case pos => exact ha.get_some_iff ho
  case neg => rw [perform_foreign ho, perform_foreign ho]; exact (h k).2 zd hz

end AgreeBut

namespace Api

-- Any number of HTTP requests at the same time, each to the server as it finds it. The history is an arbitrary
-- interleaving of what happens on behalf of those that are handled, completed or not.
structure Traffic [DecidableEq ι] (quote : Str → Str) (arrivals : ι → Server × HttpRequest)
    (s₁ : Store) (history : List (ι × Answered)) (s₂ : Store) : Prop where
  handled : ∀ i, history.of i ≠ [] → ∃ org request es response,
    (arrivals i).1.dispatch (arrivals i).2 = .handled org request ∧
    (handle quote org request).Path (history.of i ++ es) response
  store : Steps Answers s₁ (history.map Prod.snd) s₂

theorem dispatch_org {srv : Server} {r : HttpRequest} (h : srv.dispatch r = .handled org request) :
    srv.authChain r.authorization = .ok org := by
  rw [Server.dispatch] at h
  split at h <;> try contradiction
  case h_4 route _ =>
    cases route <;> simp only [Server.route] at h <;> try contradiction
    all_goals
      split at h <;> try contradiction
      split at h <;> cases h
      assumption

variable [DecidableEq ι] {quote : Str → Str} {arrivals : ι → Server × HttpRequest} {history : List (ι × Answered)}

theorem Traffic.caller (t : Traffic quote arrivals s₁ history s₂) (hx : ⟨.store org c, a⟩ ∈ history.map Prod.snd) :
    ∃ i, (arrivals i).1.authChain (arrivals i).2.authorization = .ok org := by
  obtain ⟨⟨i, x⟩, hm, rfl⟩ := List.mem_map.mp hx
  obtain ⟨es₁, es₂, he⟩ := List.append_of_mem (List.mem_of_iff.mpr hm)
  obtain ⟨o, req, es, resp, hd, hp⟩ := t.handled i (by simp [he])
  rw [he, List.append_assoc] at hp
  obtain ⟨ho, _⟩ := handle_admitted.admissible hp
  exact ⟨i, ho ▸ dispatch_org hd⟩

-- Traffic without a token of an org neither changes the zones of that org nor depends on what is in them.
theorem tenants_apart (t : Traffic quote arrivals s₁ history s₂)
    (h : ∀ i, (arrivals i).1.authChain (arrivals i).2.authorization ≠ .ok A) :
    (∀ k zd, zd.zone.org = A → (s₂.zones.get k = some zd ↔ s₁.zones.get k = some zd)) ∧
    ∀ t₁, AgreeBut A s₁ t₁ → ∃ t₂, Traffic quote arrivals t₁ history t₂ ∧ AgreeBut A s₂ t₂ := by
  have ne {org c a} (hx : ⟨.store org c, a⟩ ∈ history.map Prod.snd) : org ≠ A := by
    rintro rfl
    have ⟨i, hi⟩ := t.caller hx
    exact h i hi
  constructor
  case left =>
    intro k zd ho
    apply t.store.related (R := fun s₁ s₂ => s₂.zones.get k = some zd ↔ s₁.zones.get k = some zd)
    case hr => exact fun _ => .rfl
    case ht => exact fun h₁ h₂ => h₂.trans h₁
    case h =>
      rintro s₁ ⟨_ | _, a⟩ s₂ hx hs
      case store =>
        obtain ⟨e, rfl, -⟩ := hs
        exact perform_foreign (ho ▸ (ne hx).symm)
      all_goals exact hs ▸ .rfl
  case right =>
    intro t₁ ha
    refine (t.store.simulate ?_ ha).imp fun _ => And.imp_left (⟨t.handled, ·⟩)
    rintro s₁ ⟨_ | _, a⟩ s₂ t₁ hx ha hs
    case store =>
      obtain ⟨e, rfl, rfl⟩ := hs
      exact ⟨_, ⟨e, rfl, (perform_result (ha.agree (ne hx)) _).symm⟩, ha.perform (ne hx) _⟩
    all_goals exact ⟨t₁, rfl, hs ▸ ha⟩

namespace Shared

def zone (now : Time) (org name : Str) : ZoneData :=
  newZone { now, uuid := fun _ => [] } org name providerAuthoritative

-- A store with a zone of each of two orgs.
def store (now : Time) : Store :=
  (newStore.set (zone 0 "b" "b.example")).set (zone now "a" "a.example")

theorem agreeBut (now now' : Time) : AgreeBut "a" (store now) (store now') := by
  intro k
  have hn : (zone now "a" "a.example").name = (zone now' "a" "a.example").name := rfl
  simp only [store, Store.set, Table.get_put, hn]
  split
  case isFalse => exact ⟨.rfl, fun _ _ => .rfl⟩
  case isTrue =>
    refine ⟨by simp, fun zd ho => ⟨?_, ?_⟩⟩
    all_goals
      rintro ⟨⟩
      exact absurd rfl ho

def listing : Server × HttpRequest :=
  (⟨"i", [], [], .ok⟩, ⟨"GET", Strings.bytes ("/v1/dns/zones" : Str), "Bearer b", ⟨none, none, none, none⟩⟩)

def listed : List (Unit × Answered) :=
  [((), ⟨.store "b" .listZones, .ok {(zone 0 "b" "b.example").info}⟩)]

theorem traffic : Traffic id (fun _ => listing) (store 0) listed (store 0) where
  handled _ _ := ⟨"b", .listZones, [], _, by decide +kernel, _, _, rfl, rfl, rfl⟩
  store := .single ⟨⟨0, fun _ => []⟩, rfl, by decide +kernel⟩

end Shared

open Shared

theorem tenants_apart_listed : store 1 ≠ store 0 ∧
    ∃ t₂, Traffic id (fun _ => listing) (store 1) listed t₂ ∧ AgreeBut "a" (store 0) t₂ :=
  ⟨by decide +kernel, (tenants_apart traffic fun _ => by decide +kernel).2 (store 1) (agreeBut 0 1)⟩

end Api
end Hanzodns
