import HanzoDNS.Store.Theorems.Change

open Option Multiset

namespace Hanzodns

open Table Outcome Store

-- What an org can see of the zone map: its own zones, and which other names are taken.
def Store.view (s : Store) (org : Org) (k : Str) : Option (Option ZoneData) :=
  (s.zones.get k).map fun zd => if zd.zone.org = org then some zd else none

-- Stores that look the same to an org. The zones of other orgs can have any owner and content.
def Agree (org : Org) (s₁ s₂ : Store) : Prop :=
  ∀ k, s₁.view org k = s₂.view org k

-- What a call gets to see if the zone that it addresses belongs to another org. It depends on the call
-- alone.
def Call.denial (c : Call) : Except Error Reply :=
  match c with
  | createZone .. | bulkSync _ => .error (.zoneExists c.key)
  | createRecord _ _ rtype .. =>
    if rtype ∉ validRecordTypes then .error (.invalidType rtype) else .error (.zoneNotFound c.key)
  | putMirror _ pr =>
    if pr.id = [] then .error .mirrorWithoutId
    else if pr.type ∉ validRecordTypes then .error (.invalidType pr.type)
    else .error (.zoneNotFound c.key)
  | dropMirror .. => .ok .done
  | getZone _ => .ok (.zone? none)
  | zoneProvider _ => .ok (.provider none)
  | _ => .error (.zoneNotFound c.key)

namespace Store

variable {s : Store} {e : Env} {org : Org} {name : Str} {zd : ZoneData}

theorem zoneForOrg_eq_view : s.zoneForOrg org name = (s.view org (normZone name)).join := by
  simp only [zoneForOrg, view]
  split <;> simp_all

theorem zoneForOrg_of_foreign (h : s.zones.get (normZone name) = some zd) (ho : zd.zone.org ≠ org) :
    s.zoneForOrg org name = none := by
  simp [zoneForOrg, h, ho]

theorem get_nil : s.zones.get [] = none := by
  cases h : s.zones.get []
  case none => rfl
  case some zd => exact absurd (key_eq h) zd.name_ne_nil

-- The calls either find the zone of the caller through `zoneForOrg` or, when they create zones, test
-- the owner themselves. Both ways end in the denial.
theorem exec_denied (c : Call) (h : s.zones.get c.key = some zd) (ho : zd.zone.org ≠ org) :
    (s.exec e org c).result = c.denial := by
  cases c <;> simp only [Call.key] at h
  case listZones => simp [get_nil] at h
  case createZone => simp [exec, perform, createZone, h, Except.map, Call.denial, Call.key]
  case bulkSync => simp [exec, perform, bulkSync, h, ho, Except.map, Call.denial, Call.key]
  all_goals have hf := zoneForOrg_of_foreign h ho
  case createRecord rtype _ _ _ _ =>
    simp only [exec, perform, createRecord, hf, Call.denial, Call.key, map_result]
    split <;> rfl
  case putMirror pr =>
    simp only [exec, perform, putMirror, hf, Call.denial, Call.key, map_result]
    split <;> try split
    all_goals rfl
  case deleteZone => simp [exec, perform, deleteZone, hf, Except.map, Call.denial, Call.key]
  case updateRecord => simp [exec, perform, updateRecord, hf, Except.map, Call.denial, Call.key]
  case deleteRecord => simp [exec, perform, deleteRecord, hf, Except.map, Call.denial, Call.key]
  case dropMirror => simp [exec, perform, dropMirror, hf, Except.map, Call.reply, Call.denial]
  case getZone => simp [exec, perform, getZone, hf, Except.map, Call.reply, Call.denial]
  case zoneProvider => simp [exec, perform, zoneProvider, hf, Except.map, Call.reply, Call.denial]
  case listRecords => simp [exec, perform, listRecords, hf, Except.map, Call.denial, Call.key]
  case getRecord => simp [exec, perform, getRecord, hf, Except.map, Call.denial, Call.key]

end Store

namespace Agree

variable {org : Org} {s₁ s₂ : Store} {k name : Str} {zd : ZoneData}

section

variable (h : Agree org s₁ s₂)

include h

theorem zoneForOrg : s₁.zoneForOrg org name = s₂.zoneForOrg org name := by
  simp [zoneForOrg_eq_view, h (normZone name)]

theorem get_none_iff : s₁.zones.get k = none ↔ s₂.zones.get k = none := by
  have hk := congrArg Option.isNone (h k)
  simp only [view, isNone_map] at hk
  simp [←isNone_iff_eq_none, hk]

theorem get_some_iff (ho : zd.zone.org = org) : s₁.zones.get k = some zd ↔ s₂.zones.get k = some zd := by
  have key {s₁ s₂ : Store} (h : Agree org s₁ s₂) (hg : s₁.zones.get k = some zd) :
      s₂.zones.get k = some zd := by
    have hk := h k
    simp only [view, hg, map_some, ho, if_true] at hk
    obtain ⟨zd', hg', he⟩ := map_eq_some_iff.mp hk.symm
    split at he <;> simp_all
  exact ⟨key h, key fun k => (h k).symm⟩

theorem set : Agree org (s₁.set zd) (s₂.set zd) := by
  intro k
  by_cases hk : k = zd.name
  case pos => subst hk; simp [view]
  case neg => simp only [view, Change.set_get_ne hk]; exact h k

theorem drop : Agree org { zones := s₁.zones.drop k } { zones := s₂.zones.drop k } := by
  intro k'
  by_cases hk : k' = k
  case pos => subst hk; simp [view]
  case neg => simp only [view, get_drop_ne hk]; exact h k'

theorem listZones : s₁.listZones org = s₂.listZones org := by
  suffices hv : s₁.zones.values.filter (·.zone.org = org) = s₂.zones.values.filter (·.zone.org = org) by
    simp [Store.listZones, hv]
  apply (Nodup.ext (s₁.zones.values_nodup.filter _) (s₂.zones.values_nodup.filter _)).mpr
  intro zd
  simp only [mem_filter, mem_values_iff]
  exact and_congr_left fun ho => h.get_some_iff ho

end

end Agree

namespace Store

variable {s s₁ s₂ : Store} {e : Env} {org : Org} {id : Str}

theorem exec_agree (h : Agree org s₁ s₂) (c : Call) : (s₁.exec e org c).result = (s₂.exec e org c).result ∧
    Agree org (s₁.exec e org c).store (s₂.exec e org c).store := by
  cases c <;> simp only [exec, perform, map_result, map_store, read_result, read_store]
  case listZones => exact ⟨by rw [h.listZones], h⟩
  case getZone => exact ⟨by simp only [getZone, h.zoneForOrg], h⟩
  case zoneProvider => exact ⟨by simp only [zoneProvider, h.zoneForOrg], h⟩
  case listRecords => exact ⟨by simp only [listRecords, h.zoneForOrg], h⟩
  case getRecord => exact ⟨by simp only [getRecord, h.zoneForOrg], h⟩
  case deleteZone =>
    simp only [deleteZone, h.zoneForOrg]
    split
    · exact ⟨rfl, h⟩
    · exact ⟨rfl, h.drop⟩
  case createRecord =>
    simp only [createRecord, h.zoneForOrg]
    split <;> try split
    · exact ⟨rfl, h⟩
    · exact ⟨rfl, h⟩
    · exact ⟨rfl, h.set⟩
  case updateRecord =>
    simp only [updateRecord, h.zoneForOrg]
    split <;> try split <;> try split
    · exact ⟨rfl, h⟩
    · exact ⟨rfl, h⟩
    · exact ⟨rfl, h.set⟩
    · exact ⟨rfl, h.set⟩
  case deleteRecord =>
    simp only [deleteRecord, h.zoneForOrg]
    split <;> try split
    · exact ⟨rfl, h⟩
    · exact ⟨rfl, h⟩
    · exact ⟨rfl, h.set⟩
  case putMirror =>
    simp only [putMirror, h.zoneForOrg]
    split <;> try split <;> try split
    · exact ⟨rfl, h⟩
    · exact ⟨rfl, h⟩
    · exact ⟨rfl, h⟩
    · exact ⟨rfl, h.set⟩
  case dropMirror =>
    simp only [dropMirror, h.zoneForOrg]
    split <;> try split
    · exact ⟨rfl, h⟩
    · exact ⟨rfl, h⟩
    · exact ⟨rfl, h.set⟩
  case createZone name _ =>
    simp only [createZone]
    cases hg : s₁.zones.get (normZone name)
    case none => simp [h.get_none_iff.mp hg, h.set]
    case some =>
      have hn := h.get_none_iff (k := normZone name) |>.not.mp (by simp [hg])
      obtain ⟨zd', hg'⟩ := ne_none_iff_exists'.mp hn
      simp [hg', h]
  case bulkSync req =>
    simp only [bulkSync]
    cases hg : s₁.zones.get (normZone req.zone)
    case none => simp [h.get_none_iff.mp hg, bulkSync.replace, h.set]
    case some zd =>
      by_cases ho : zd.zone.org = org
      case pos => simp [ho, h.get_some_iff ho |>.mp hg, bulkSync.replace, h.set]
      case neg =>
        -- The name is taken by some other org in the second store as well, though not by the same.
        have hn := h.get_none_iff (k := normZone req.zone) |>.not.mp (by simp [hg])
        obtain ⟨zd', hg'⟩ := ne_none_iff_exists'.mp hn
        have ho' : zd'.zone.org ≠ org := fun ho' => by
          have := h.get_some_iff ho' |>.mpr hg'
          simp_all
        simp [hg', ho, ho', h]

theorem exec_zonesOf (c : Call) (h : (s.exec e org c).result = .ok reply) (hz : z ∈ reply.zonesOf) :
    z.org = org := by
  cases c <;> simp only [exec, perform, map_result, read_result] at h
  case listZones =>
    cases h
    simp only [Call.reply, Reply.zonesOf, listZones, Multiset.mem_map, Multiset.mem_filter] at hz
    obtain ⟨zd, ⟨_, ho⟩, rfl⟩ := hz
    exact ho
  case getZone name =>
    cases h
    cases hf : s.zoneForOrg org name <;> simp [Call.reply, Reply.zonesOf, getZone, hf] at hz
    subst hz
    exact zoneForOrg_eq_some_iff.mp hf |>.right
  case createZone =>
    simp only [createZone] at h
    split at h <;> cases h
    cases mem_singleton.mp hz
    rfl
  case zoneProvider => cases h; simp [Call.reply, Reply.zonesOf] at hz
  -- The replies of the other calls hold no zones.
  all_goals
    obtain ⟨_, _, rfl⟩ := map_eq_ok h
    simp [Call.reply, Reply.zonesOf] at hz

theorem mem_putRecord_self : r ∈ (ZoneData.putRecord zd r).records.values :=
  mem_values_of_get get_put_self

theorem createRecord_ok
    (h : (s.createRecord e org zone name rtype ttl content priority proxied).result = .ok r) :
    ∃ zd, s.zoneForOrg org zone = some zd ∧
      (s.createRecord e org zone name rtype ttl content priority proxied).store =
        s.set ((zd.putRecord r).touch e.now) := by
  simp only [createRecord] at h ⊢
  split at h
  case isTrue => cases h
  case isFalse ht =>
    rw [if_neg ht]
    cases hf : s.zoneForOrg org zone <;> simp only [hf] at h ⊢ <;> cases h
    exact ⟨_, rfl, rfl⟩

theorem updateRecord_ok (h : (s.updateRecord e org zone id patch).result = .ok r) :
    ∃ zd, s.zoneForOrg org zone = some zd ∧
      (s.updateRecord e org zone id patch).store = s.set ((zd.putRecord r).touch e.now) := by
  simp only [updateRecord] at h ⊢
  cases hf : s.zoneForOrg org zone <;> simp only [hf] at h ⊢
  case none => cases h
  case some zd =>
    cases hg : zd.records.get id <;> simp only [hg] at h ⊢
    case none => cases h
    case some =>
      cases hp : patch.invalidType? <;> simp only [hp] at h ⊢ <;> cases h
      exact ⟨_, rfl, rfl⟩

theorem exec_recordsOf (c : Call) (h : (s.exec e org c).result = .ok reply) (hr : r ∈ reply.recordsOf) :
    ∃ zd, (s.exec e org c).store.zones.get c.key = some zd ∧ zd.zone.org = org ∧ r ∈ zd.records.values := by
  cases c <;>
    simp only [exec, perform, map_result, map_store, read_result, read_store] at h ⊢
  case listZones | getZone | zoneProvider => cases h; simp [Call.reply, Reply.recordsOf] at hr
  all_goals obtain ⟨_, hk, rfl⟩ := map_eq_ok h
  case listRecords =>
    simp only [listRecords] at hk
    split at hk
    case h_1 => cases hk
    case h_2 hf =>
      cases hk
      have ⟨hm, ho⟩ := zoneForOrg_eq_some_iff.mp hf
      exact ⟨_, hm, ho, hr⟩
  case getRecord =>
    simp only [getRecord] at hk
    split at hk <;> try split at hk
    all_goals cases hk
    case h_2.refl hf _ hg =>
      have ⟨hm, ho⟩ := zoneForOrg_eq_some_iff.mp hf
      cases mem_singleton.mp hr
      exact ⟨_, hm, ho, mem_values_of_get hg⟩
  case createRecord =>
    have ⟨zd, hf, hs⟩ := createRecord_ok hk
    have ⟨hm, ho⟩ := zoneForOrg_eq_some_iff.mp hf
    cases mem_singleton.mp hr
    refine ⟨(zd.putRecord r).touch e.now, ?_, ho, mem_putRecord_self⟩
    rw [hs]
    exact set_get_of_name_eq hm rfl
  case updateRecord =>
    have ⟨zd, hf, hs⟩ := updateRecord_ok hk
    have ⟨hm, ho⟩ := zoneForOrg_eq_some_iff.mp hf
    cases mem_singleton.mp hr
    refine ⟨(zd.putRecord r).touch e.now, ?_, ho, mem_putRecord_self⟩
    rw [hs]
    exact set_get_of_name_eq hm rfl
  all_goals simp [Call.reply, Reply.recordsOf] at hr

end Store

-- Tenant isolation of the management plane. A history of calls by one org leaves the zones of all other
-- orgs and all ownership untouched. Its replies only show zones and records of the caller, deny access
-- to zones of other orgs in a way that depends on the call alone, and are the same in every other
-- store that looks the same to the caller.
theorem tenant_isolation {A B : Org} {s s' : Store} {h : List Exchange} (ne : A ≠ B)
    (run : Steps Store.Step s h s') (caller : ∀ x ∈ h, x.org = B) :
    (∀ k zd, zd.zone.org = A → (s'.zones.get k = some zd ↔ s.zones.get k = some zd)) ∧
    (∀ k zd zd', s.zones.get k = some zd → s'.zones.get k = some zd' → zd'.zone.org = zd.zone.org) ∧
    (∀ h₁ x h₂, h = h₁ ++ x :: h₂ → ∃ s₁ s₂,
      Steps Store.Step s h₁ s₁ ∧ s₁.Step x s₂ ∧ Steps Store.Step s₂ h₂ s' ∧ (∀ reply, x.reply = .ok reply →
        (∀ z ∈ reply.zonesOf, z.org = B) ∧
        (∀ r ∈ reply.recordsOf, ∃ k zd, s₂.zones.get k = some zd ∧ zd.zone.org = B ∧ r ∈ zd.records.values)) ∧
      (∀ zd, s₁.zones.get x.call.key = some zd → zd.zone.org = A → x.reply = x.call.denial)) ∧
    (∀ t, Agree B s t → ∃ t', Steps Store.Step t h t' ∧ Agree B s' t') := by
  have change {x s₁ s₂} (hx : x ∈ h) (hs : Store.Step s₁ x s₂) : Change s₁ B x.call.key x.call.names s₂ :=
    caller x hx ▸ hs.left ▸ exec_change x.call
  have foreign k zd (ho : zd.zone.org ≠ B) : s'.zones.get k = some zd ↔ s.zones.get k = some zd := by
    apply run.related (R := fun s₁ s₂ => s₂.zones.get k = some zd ↔ s₁.zones.get k = some zd)
    case hr => exact fun _ => .rfl
    case ht => intro _ _ _ h₁ h₂; exact h₂.trans h₁
    case h =>
      intro _ _ _ hx hs
      exact ⟨fun hg => (change hx hs).owner_or_mem hg |>.resolve_left ho,
        fun hg => (change hx hs).preserves_foreign hg ho⟩
  refine ⟨fun k zd ho => foreign k zd (ho ▸ ne), ?owner, ?replies, ?agree⟩
  case owner =>
    intro k zd zd' hg hg'
    by_cases ho : zd.zone.org = B
    case neg => simp_all [(foreign k zd ho).mpr hg]
    case pos =>
      by_contra hne
      have := (foreign k zd' (ho ▸ hne)).mp hg'
      simp_all
  case replies =>
    rintro h₁ x h₂ rfl
    obtain ⟨s₁, r₁, r₂⟩ := run.split
    cases r₂
    case trans s₂ hs r₂ =>
      have hx : x.org = B := caller x (by simp)
      refine ⟨s₁, s₂, r₁, hs, r₂, fun reply hr => ⟨fun z hz => ?_, fun r hr' => ?_⟩, fun zd hg ho => ?_⟩
      · exact hx ▸ exec_zonesOf x.call (hs.right.trans hr) hz
      · have ⟨zd, hg, ho, hm⟩ := exec_recordsOf x.call (hs.right.trans hr) hr'
        exact ⟨_, zd, hs.left ▸ hg, hx ▸ ho, hm⟩
      · exact hs.right ▸ exec_denied x.call hg (by rw [ho, hx]; exact ne)
  case agree =>
    intro t ha
    refine run.simulate (fun {s₁ x s₂ t₁} hx ha hs => ?_) ha
    have ⟨hr, ha'⟩ := exec_agree (e := x.env) ha x.call
    refine ⟨_, ⟨rfl, ?_⟩, ?_⟩
    · rw [caller x hx, ←hr, ←caller x hx]; exact hs.right
    · rw [←hs.left, caller x hx]; exact ha'

-- A zone of one org next to another org that tries to take it over and then drops it.
theorem tenant_isolation_takeover :
    let e : Env := { now := 0, uuid := fun _ => "id" }
    let s := (newStore.exec e "acme" (.createZone "shop.example" "authoritative")).store
    let sync : Call := .bulkSync { zone := "SHOP.example.", records := [] }
    let drop : Call := .deleteZone "shop.example"
    let s' := ((s.exec e "evil" sync).store.exec e "evil" drop).store
    s'.zones.get (normZone "shop.example") =
      some (newZone e "acme" "shop.example" "authoritative") := by
  intro e s sync drop s'
  have run : Steps Store.Step s
      [⟨"evil", e, sync, (s.exec e "evil" sync).result⟩,
       ⟨"evil", e, drop, ((s.exec e "evil" sync).store.exec e "evil" drop).result⟩] s' :=
    .trans ⟨rfl, rfl⟩ <| .single ⟨rfl, rfl⟩
  have h := tenant_isolation (A := "acme") (B := "evil") (by decide) run (by simp)
  exact h.left _ _ rfl |>.mpr get_put_self

end Hanzodns
