import HanzoDNS.Api.Theorems.Handlers
import HanzoDNS.Store.Theorems.Change

open Prog

namespace Hanzodns

def Store.Indexed (s : Store) (key : Str) (r : Record) : Prop :=
  ∃ zd, s.zones.get key = some zd ∧ zd.zone.provider = providerCloudflare ∧ r ∈ zd.records.values

namespace Store

variable {s : Store} {e : Env} {org : Org} {zone key id : Str} {zd zd' : ZoneData} {r : Record}

theorem zoneProvider_eq_cloudflare_iff : s.zoneProvider org zone = some providerCloudflare ↔
      ∃ zd, s.zoneForOrg org zone = some zd ∧ zd.zone.provider = providerCloudflare := by
  have hn : providerCloudflare ≠ [] := by decide
  have ha : providerAuthoritative ≠ providerCloudflare := by decide
  simp only [zoneProvider, Option.map_eq_some_iff]
  refine exists_congr fun zd => and_congr_right fun _ => ?_
  by_cases hp : zd.zone.provider = []
  case pos => simp [hp, ha, hn.symm]
  case neg => simp [hp]

theorem Indexed.set (h : (s.set zd).Indexed key r) : s.Indexed key r ∨
      zd.name = key ∧ zd.zone.provider = providerCloudflare ∧ r ∈ zd.records.values := by
  have ⟨zd', hg, hp, hr⟩ := h
  by_cases hk : key = zd.name
  case neg =>
    rw [Change.set_get_ne hk] at hg
    exact .inl ⟨zd', hg, hp, hr⟩
  case pos =>
    rw [hk, Change.set_get_self] at hg
    cases hg
    exact .inr ⟨hk.symm, hp, hr⟩

theorem Indexed.of_set {Q : Prop} (h : (s.set zd').Indexed key r)
    (hf : s.zoneForOrg org zone = some zd) (hn : zd'.name = zd.name) (hp : zd'.zone.provider = zd.zone.provider)
    (hr : r ∈ zd'.records.values → r ∈ zd.records.values ∨ Q) :
    s.Indexed key r ∨ normZone zone = key ∧ s.zoneProvider org zone = some providerCloudflare ∧ Q := by
  have ⟨hm, _⟩ := zoneForOrg_eq_some_iff.mp hf
  obtain h | ⟨hk, hp', hr'⟩ := h.set
  case inl => exact .inl h
  case inr =>
    have hk : normZone zone = key := by rw [←hk, hn]; exact (Table.key_eq hm).symm
    obtain hr' | hq := hr hr'
    · exact .inl ⟨zd, hk ▸ hm, hp ▸ hp', hr'⟩
    · exact .inr ⟨hk, zoneProvider_eq_cloudflare_iff.mpr ⟨zd, hf, hp ▸ hp'⟩, hq⟩

theorem Indexed.of_put (h : (s.set zd').Indexed key r) (hf : s.zoneForOrg org zone = some zd)
    (hn : zd'.name = zd.name) (hp : zd'.zone.provider = zd.zone.provider)
    (hr : zd'.records = zd.records.put r') : s.Indexed key r ∨
      normZone zone = key ∧ s.zoneProvider org zone = some providerCloudflare ∧ r = r' := by
  refine h.of_set hf hn hp fun hm => ?_
  rw [hr] at hm
  exact ZoneData.mem_putRecord_values hm |>.symm

theorem Indexed.of_drop (h : (s.set ((zd.dropRecord id).touch now)).Indexed key r)
    (hf : s.zoneForOrg org zone = some zd) : s.Indexed key r := by
  have h := h.of_set (Q := False) hf rfl rfl fun hr => .inl (ZoneData.mem_dropRecord_values hr)
  simpa using h

end Store

inductive Answered.Indexes (s : Store) (r : Record) : Answered → Str → Prop
  | createRecord {a : Except Error Record} (h : s.zoneProvider org zone = some providerCloudflare) :
      Indexes s r ⟨.store org (.createRecord zone name rtype ttl content priority proxied), a⟩
        (normZone zone)
  | updateRecord {id : Str} {a : Except Error Record}
      (h : s.zoneProvider org zone = some providerCloudflare) :
      Indexes s r ⟨.store org (.updateRecord zone id patch), a⟩ (normZone zone)
  | putMirror : Indexes s r ⟨.store org (.putMirror zone r.upstream), .ok ()⟩ (normZone zone)
  | bulkSync {a : Except Error SyncResponse}
      (h : s.zoneProvider org req.zone = some providerCloudflare)
      (records : ∃ sr ∈ req.records, sr.type ∈ validRecordTypes) :
      Indexes s r ⟨.store org (.bulkSync req), a⟩ (normZone req.zone)

namespace Store

variable {s s₁ s₂ : Store} {e : Env} {org : Org} {zone name key id : Str} {r : Record}

theorem createZone_indexed (h : (s.createZone e org name provider).store.Indexed key r) : s.Indexed key r := by
  simp only [createZone] at h
  split at h
  case h_1 => exact h
  case h_2 =>
    obtain h | ⟨_, _, hr⟩ := h.set
    · exact h
    · simp [newZone] at hr

theorem deleteZone_indexed (h : (s.deleteZone org name).store.Indexed key r) : s.Indexed key r := by
  simp only [deleteZone] at h
  split at h
  case h_1 => exact h
  case h_2 =>
    obtain ⟨zd, hg, hi⟩ := h
    by_cases hk : key = normZone name
    case pos => simp [hk] at hg
    case neg => exact ⟨zd, Table.get_drop_ne hk ▸ hg, hi⟩

theorem createRecord_indexed
    (h : (s.createRecord e org zone name rtype ttl content priority proxied).store.Indexed key r) :
    s.Indexed key r ∨ normZone zone = key ∧ s.zoneProvider org zone = some providerCloudflare := by
  simp only [createRecord] at h
  split at h <;> try split at h
  case h_2 hf => exact h.of_put hf rfl rfl rfl |>.imp_right fun hz => ⟨hz.1, hz.2.1⟩
  all_goals exact .inl h

theorem updateRecord_indexed (h : (s.updateRecord e org zone id patch).store.Indexed key r) :
    s.Indexed key r ∨ normZone zone = key ∧ s.zoneProvider org zone = some providerCloudflare := by
  simp only [updateRecord] at h
  split at h <;> try split at h <;> try split at h
  · exact .inl h
  · exact .inl h
  all_goals
    have hf := ‹s.zoneForOrg org zone = some _›
    exact h.of_put hf rfl rfl rfl |>.imp_right fun hz => ⟨hz.1, hz.2.1⟩

theorem deleteRecord_indexed (h : (s.deleteRecord e org zone id).store.Indexed key r) : s.Indexed key r := by
  simp only [deleteRecord] at h
  split at h <;> try split at h
  case h_2 hf _ _ _ => exact h.of_drop hf
  all_goals exact h

theorem dropMirror_indexed (h : (s.dropMirror e org zone id).store.Indexed key r) : s.Indexed key r := by
  simp only [dropMirror] at h
  split at h <;> try split at h
  case h_2 hf _ _ _ => exact h.of_drop hf
  all_goals exact h

theorem putMirror_indexed (h : (s.putMirror e org zone pr).store.Indexed key r) : s.Indexed key r ∨
      normZone zone = key ∧ r.upstream = pr ∧ (s.putMirror e org zone pr).result = .ok () := by
  simp only [putMirror] at h ⊢
  split at h <;> try split at h <;> try split at h
  case h_2 hf =>
    obtain h | ⟨hk, _, rfl⟩ := h.of_put hf rfl rfl rfl
    · exact .inl h
    · exact .inr ⟨hk, rfl, by simp [*]⟩
  all_goals exact .inl h

theorem bulkSync_indexed (h : (s.bulkSync e org req).store.Indexed key r) :
    s.Indexed key r ∨ normZone req.zone = key ∧ s.zoneProvider org req.zone = some providerCloudflare ∧
      ∃ sr ∈ req.records, sr.type ∈ validRecordTypes := by
  have records (hr : r ∈ (Table.ofList (req.newRecords e) : Table Record.id).values) :
      ∃ sr ∈ req.records, sr.type ∈ validRecordTypes :=
    have ⟨sr, hm, _, ht, _⟩ := SyncZoneRequest.mem_newRecords (Table.mem_of_mem_ofList hr)
    ⟨sr, hm, ht⟩
  simp only [bulkSync] at h
  split at h <;> try split at h
  case isTrue hg ho =>
    exact h.of_set (zoneForOrg_eq_some_iff.mpr ⟨hg, ho⟩) rfl rfl fun hr => .inr (records hr)
  case isFalse => exact .inl h
  case h_2 =>
    -- A zone that a sync request creates is not delegated.
    obtain h | ⟨_, hp, _⟩ := h.set
    · exact .inl h
    · exact absurd hp (show [] ≠ providerCloudflare by decide)

theorem Answers.indexed {x : Answered} (h : s₁.Answers x s₂) (hr : s₂.Indexed key r) :
    s₁.Indexed key r ∨ Answered.Indexes s₁ r x key := by
  obtain ⟨q, a⟩ := x
  cases q
  case store org c =>
    obtain ⟨e, rfl, rfl⟩ := h
    cases c
    case createZone => exact .inl (createZone_indexed hr)
    case deleteZone => exact .inl (deleteZone_indexed hr)
    case deleteRecord => exact .inl (deleteRecord_indexed hr)
    case dropMirror => exact .inl (dropMirror_indexed hr)
    case createRecord =>
      refine (createRecord_indexed hr).imp_right fun ⟨hk, hp⟩ => ?_
      exact hk ▸ .createRecord hp
    case updateRecord =>
      refine (updateRecord_indexed hr).imp_right fun ⟨hk, hp⟩ => ?_
      exact hk ▸ .updateRecord hp
    case putMirror =>
      refine (putMirror_indexed hr).imp_right fun ⟨hk, hu, ha⟩ => ?_
      rw [←hk, ←hu]
      rw [←hu] at ha
      exact ha ▸ .putMirror
    case bulkSync =>
      refine (bulkSync_indexed hr).imp_right fun ⟨hk, hp, hs⟩ => ?_
      exact hk ▸ .bulkSync hp hs
    all_goals exact .inl hr
  all_goals
    cases h
    exact .inl hr

theorem bulkSync_delegated (h : (s.bulkSync e org req).store.zoneProvider org zone = some providerCloudflare) :
    s.zoneProvider org zone = some providerCloudflare := by
  simp only [zoneProvider_eq_cloudflare_iff, zoneForOrg_eq_some_iff] at h ⊢
  have ⟨zd, ⟨hg, ho⟩, hp⟩ := h
  simp only [bulkSync] at hg
  split at hg <;> try split at hg
  case isFalse => exact ⟨zd, ⟨hg, ho⟩, hp⟩
  all_goals
    simp only [bulkSync.replace, Outcome.done_store, set, Table.get_put] at hg
    split at hg <;> try exact ⟨zd, ⟨hg, ho⟩, hp⟩
    cases hg
  case h_1.isTrue.isTrue.refl hg' ho' hk =>
    refine ⟨_, ⟨hk ▸ ?_, ho'⟩, hp⟩
    exact (Table.key_eq hg').symm ▸ hg'
  case h_2.isTrue.refl => exact absurd hp (show [] ≠ providerCloudflare by decide)

theorem Answers.zoneProvider {a : Option Str}
    (h : Steps Answers s₁ [⟨.store org (.zoneProvider zone), .ok a⟩] s₂) :
    s₂ = s₁ ∧ s₁.zoneProvider org zone = a := by
  obtain _ | ⟨⟨_, rfl, ha⟩, _ | _⟩ := h
  exact ⟨rfl, by simpa [perform] using ha⟩

end Store

namespace Api

-- What a sync request has to respect: delegated zones are left to their providers. An entry without any
-- valid record is harmless, it only empties the index.
def Exchange.Respects (s : Store) (x : Exchange) : Prop :=
  ∀ zones, x.request = .sync (some zones) → ∀ zr ∈ zones,
    (∃ sr ∈ zr.records, sr.type ∈ validRecordTypes) →
    s.zoneProvider x.org zr.zone ≠ some providerCloudflare

-- A request that stores a record by mirroring one which the provider of the zone has returned to it.
def Exchange.Mirrors (x : Exchange) (key : Str) (r : Record) : Prop :=
  ∃ zone es₁ es₂, normZone zone = key ∧
    x.events = es₁ ++ ⟨.store x.org (.putMirror zone r.upstream), .ok ()⟩ :: es₂ ∧
    Returned es₁ x.org zone r.upstream

variable {quote : Str → Str} {s s₁ s₂ : Store} {x : Exchange} {key : Str} {r : Record}

theorem Step.indexed (h : Step quote s₁ x s₂) (hr : x.Respects s₁) (hi : s₂.Indexed key r) :
    s₁.Indexed key r ∨ x.Mirrors key r := by
  obtain ⟨hp, hs⟩ := h
  have ho := hs.origin (K := fun s y _ => y.Indexes s r key) (fun h => h.indexed) hi
  obtain ⟨hi, _⟩ | ⟨es₁, y, es₂, t₁, t₂, he, hs₁, -, hk, -⟩ := ho
  case inl => exact .inl hi
  case inr =>
    have ha := handle_admitted.admissible (he ▸ hp)
    cases hk
    case createRecord hc | updateRecord hc =>
      -- The handler has just seen that the zone is not delegated.
      obtain ⟨rfl, _, kind, hk, rfl⟩ := ha
      have ⟨ht, hz⟩ := Store.Answers.zoneProvider hs₁
      exact absurd (Option.some.inj (hz.symm.trans (ht ▸ hc))) hk
    case putMirror zone =>
      obtain ⟨rfl, _, hret⟩ := ha
      exact .inr ⟨zone, es₁, es₂, rfl, he, hret⟩
    case bulkSync zr _ hc hv =>
      obtain ⟨rfl, ⟨zones, hreq, hm⟩, hes⟩ := ha
      -- So far only other entries have been applied, so the zone has been delegated all along.
      have hc₁ : s₁.zoneProvider x.org zr.zone = some providerCloudflare := by
        refine hs₁.related (R := fun s₁ s₂ => s₂.zoneProvider x.org zr.zone = some providerCloudflare →
          s₁.zoneProvider x.org zr.zone = some providerCloudflare) (fun _ => id) ?_ ?_ hc
        · exact fun h₁ h₂ h => h₁ (h₂ h)
        · intro t y t' hy ha
          obtain ⟨zr', a, rfl⟩ := hes y hy
          obtain ⟨_, rfl, _⟩ := ha
          exact Store.bulkSync_delegated
      exact absurd hc₁ (hr zones hreq zr hm hv)

-- The local index of a delegated zone only ever holds records of the zone's provider, as long as sync
-- requests respect the delegation: every record in it was mirrored from a record that the provider
-- returned to an earlier request, and has been there since.
theorem delegated_zone_provenance {xs : List Exchange} {zd : ZoneData}
    (run : Steps (fun s₁ x s₂ => Step quote s₁ x s₂ ∧ x.Respects s₁) newStore xs s)
    (hz : s.zones.get key = some zd) (hp : zd.zone.provider = providerCloudflare) (hr : r ∈ zd.records.values) :
    ∃ xs₁ x xs₂ s₁ s₂, xs = xs₁ ++ x :: xs₂ ∧ Steps (Step quote) newStore xs₁ s₁ ∧
      Step quote s₁ x s₂ ∧ x.Mirrors key r ∧ s₂.Indexed key r ∧
      Steps (fun s x s' => Step quote s x s' ∧ s'.Indexed key r) s₂ xs₂ s := by
  have ho := run.origin (P := (·.Indexed key r)) (K := fun _ x _ => x.Mirrors key r)
    (fun h => h.left.indexed h.right) ⟨zd, hz, hp, hr⟩
  obtain ⟨⟨_, hg, _⟩, _⟩ | ⟨xs₁, x, xs₂, s₁, s₂, he, r₁, h, hm, hi, r₂⟩ := ho
  case inl => simp [newStore] at hg
  case inr =>
    have r₂ : Steps (fun s x s' => Step quote s x s' ∧ s'.Indexed key r) s₂ xs₂ s :=
      r₂.mono fun h => ⟨h.left.left, h.right⟩
    exact ⟨xs₁, x, xs₂, s₁, s₂, he, r₁.mono And.left, h.left, hm, hi, r₂⟩

def World.sample : World where
  env := { now := 5, uuid := fun _ => "u" }
  kmsSecret := fun _ _ => .ok "token"
  provider
    | _, .zoneIDForName _ => .ok "z"
    | _, .createRecord _ input => .ok {
        id := "r", name := input.name, type := input.type, content := input.content
        ttl := input.ttl, proxied := input.proxied, priority := input.priority
      }
    | _, _ => .error "unavailable"

def quoted (t : Str) : Str :=
  ['"'] ++ t ++ ['"']

def delegated : Exchange × Store :=
  World.sample.serve quoted newStore "acme" <| .createZone <| some { zone := "shop.example", provider := "cloudflare" }

instance : Decidable (s.Indexed key r) :=
  inferInstanceAs (Decidable (∃ zd ∈ s.zones.get key, _ ∧ _))

theorem delegated_zone_provenance_shop :
    let www : RecordBody := ⟨"www", "A", 0, "192.0.2.1", 0, false⟩
    let sync : SyncZoneRequest := ⟨"blog.example", [⟨[], "@", "A", 60, "192.0.2.2", 0, false⟩]⟩
    let x₁ := World.sample.serve quoted delegated.2 "acme" (.createRecord "shop.example" (some www))
    let x₂ := World.sample.serve quoted x₁.2 "acme" (.sync (some [sync]))
    ∃ r, x₂.2.Indexed "shop.example." r ∧
      ∃ x ∈ [delegated.1, x₁.1, x₂.1], x.Mirrors "shop.example." r := by
  intro www sync x₁ x₂
  let r : Record := ⟨"r", "www", "A", 300, "192.0.2.1", 0, false, 5, 5⟩
  have run : Steps (fun s₁ x s₂ => Step quoted s₁ x s₂ ∧ x.Respects s₁) newStore
      [delegated.1, x₁.1, x₂.1] x₂.2 := by
    refine .trans ⟨World.sample.serve_step .., ?_⟩ <|
      .trans ⟨World.sample.serve_step .., ?_⟩ <| .single ⟨World.sample.serve_step .., ?_⟩
    · rintro _ ⟨⟩
    · rintro _ ⟨⟩
    · rintro _ ⟨⟩ zr hm
      cases List.mem_singleton.mp hm
      exact fun _ => by decide +kernel
  have ⟨zd, hz, hp, hr⟩ : x₂.2.Indexed "shop.example." r := by decide +kernel
  have ⟨xs₁, x, xs₂, _, _, he, _, _, hm, _⟩ := delegated_zone_provenance run hz hp hr
  exact ⟨r, ⟨zd, hz, hp, hr⟩, x, by simp [he], hm⟩

-- A sync request writes to a delegated zone behind the back of its provider.
theorem sync_bypasses_provider :
    let sync : SyncZoneRequest := ⟨"shop.example", [⟨[], "www", "A", 60, "192.0.2.2", 0, false⟩]⟩
    let x₁ := World.sample.serve quoted delegated.2 "acme" (.sync (some [sync]))
    Steps (Step quoted) newStore [delegated.1, x₁.1] x₁.2 ∧ x₁.1.response.status = 200 ∧
      ∃ r, x₁.2.Indexed "shop.example." r ∧ ∀ x ∈ [delegated.1, x₁.1], ¬x.Mirrors "shop.example." r := by
  intro sync x₁
  let r : Record := ⟨"u", "www", "A", 60, "192.0.2.2", 0, false, 5, 5⟩
  have hi : x₁.2.Indexed "shop.example." r := by decide +kernel
  refine ⟨.trans (World.sample.serve_step ..) <| .single (World.sample.serve_step ..), ?_, r, hi, ?_⟩
  · decide +kernel
  · have hq : ∀ x ∈ [delegated.1, x₁.1], ∀ y ∈ x.events,
        y.1 = .store "acme" (.createZone "shop.example" "cloudflare") ∨
        y.1 = .store "acme" (.bulkSync sync) := by decide +kernel
    rintro x hx ⟨_, es₁, es₂, _, he, _⟩
    have := hq x hx _ (he ▸ List.mem_append_right _ (.head _))
    simp at this

end Api
end Hanzodns
