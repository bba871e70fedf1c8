import HanzoDNS.Store.Theorems.Change

open Strings List Multiset

namespace Hanzodns

open Table Outcome

def Store.Held (s : Store) (org : Org) (key id : Str) (r : Record) : Prop :=
  ∃ zd, s.zones.get key = some zd ∧ zd.zone.org = org ∧ zd.records.get id = some r

-- The calls that drop a record or put another one in its place.
def Call.Overwrites (key id : Str) (e : Env) : Call → Prop
  | deleteZone zone => normZone zone = key
  | bulkSync req => normZone req.zone = key
  | createRecord zone .. => normZone zone = key ∧ e.uuid 0 = id
  | updateRecord zone id' _ => normZone zone = key ∧ id' = id
  | deleteRecord zone id' => normZone zone = key ∧ id' = id
  | putMirror zone rec => normZone zone = key ∧ rec.id = id
  | dropMirror zone id' => normZone zone = key ∧ id' = id
  | _ => False

def Exchange.Overwrites (org : Org) (key id : Str) (x : Exchange) : Prop :=
  x.org = org ∧ x.call.Overwrites key id x.env

namespace Store

variable {s s' : Store} {e : Env} {org : Org} {zone key id : Str} {r r' : Record} {zd zd' : ZoneData}

theorem zoneForOrg_of_get (hz : s.zones.get (normZone zone) = some zd) (ho : zd.zone.org = org) :
    s.zoneForOrg org zone = some zd :=
  zoneForOrg_eq_some_iff.mpr ⟨hz, ho⟩

theorem held_set (hz : s.zones.get key = some zd) (hn : zd'.name = zd.name) (ho : zd'.zone.org = org)
    (hr : zd'.records.get id = some r) : (s.set zd').Held org key id r :=
  ⟨zd', set_get_of_name_eq hz hn, ho, hr⟩

theorem held_putRecord (hz : s.zones.get key = some zd) (ho : zd.zone.org = org) (hr : zd.records.get id = some r)
    (hi : r'.id ≠ id) {now : Time} : (s.set ((zd.putRecord r').touch now)).Held org key id r :=
  held_set hz rfl ho ((get_put_ne hi.symm).trans hr)

theorem held_dropRecord {id' : Str} (hz : s.zones.get key = some zd) (ho : zd.zone.org = org)
    (hr : zd.records.get id = some r) (hi : id' ≠ id) {now : Time} :
    (s.set ((zd.dropRecord id').touch now)).Held org key id r :=
  held_set hz rfl ho ((get_drop_ne hi.symm).trans hr)

theorem Held.exec_own {c : Call} (h : s.Held org key id r) (hk : c.key = key) (hc : ¬c.Overwrites key id e) :
    (s.exec e org c).store.Held org key id r := by
  subst hk
  obtain ⟨zd, hz, ho, hr⟩ := h
  have kept : s.Held org c.key id r := ⟨zd, hz, ho, hr⟩
  cases c
  case createZone =>
    rw [Call.key] at hz
    simp only [exec, perform, createZone, map_store, hz]
    exact kept
  case deleteZone => exact absurd rfl hc
  case bulkSync => exact absurd rfl hc
  case createRecord =>
    simp only [exec, perform, createRecord, map_store, zoneForOrg_of_get hz ho]
    split
    case isTrue => exact kept
    case isFalse => exact held_putRecord hz ho hr fun hi => hc ⟨rfl, hi⟩
  case updateRecord id' patch =>
    simp only [exec, perform, updateRecord, map_store, zoneForOrg_of_get hz ho]
    split
    case h_1 => exact kept
    case h_2 r' hr' =>
      have hi : r'.id ≠ id := fun hi => hc ⟨rfl, (key_eq hr').symm.trans hi⟩
      have hn : (patch.applyName r').id ≠ id := hi
      have hp : (patch.applyRest (patch.applyName r') e.now).id ≠ id := hi
      split
      case h_1 => exact held_set hz rfl ho ((get_put_ne hn.symm).trans hr)
      case h_2 => exact held_putRecord hz ho hr hp
  case deleteRecord =>
    simp only [exec, perform, deleteRecord, map_store, zoneForOrg_of_get hz ho]
    split
    case h_1 => exact kept
    case h_2 => exact held_dropRecord hz ho hr fun hi => hc ⟨rfl, hi⟩
  case putMirror =>
    simp only [exec, perform, putMirror, map_store, zoneForOrg_of_get hz ho]
    split
    case isTrue => exact kept
    case isFalse =>
      split
      case isTrue => exact kept
      case isFalse => exact held_putRecord hz ho hr fun hi => hc ⟨rfl, hi⟩
  case dropMirror =>
    simp only [exec, perform, dropMirror, map_store, zoneForOrg_of_get hz ho]
    split
    case h_1 => exact kept
    case h_2 => exact held_dropRecord hz ho hr fun hi => hc ⟨rfl, hi⟩
  all_goals exact kept

theorem Held.step {x : Exchange} (h : s.Held org key id r) (hs : s.Step x s') (hx : ¬x.Overwrites org key id) :
    s'.Held org key id r := by
  obtain ⟨rfl, -⟩ := hs
  have hc : Change s x.org x.call.key x.call.names (s.exec x.env x.org x.call).store := exec_change x.call
  obtain ⟨zd, hz, ho, hr⟩ := h
  by_cases hk : x.call.key = key
  case neg => exact ⟨zd, (hc.get_ne (Ne.symm hk)).trans hz, ho, hr⟩
  case pos =>
    by_cases hx' : x.org = org
    case neg =>
      rw [hc.eq_of_foreign (hk ▸ hz) (ho.trans_ne (Ne.symm hx'))]
      exact ⟨zd, hz, ho, hr⟩
    case pos =>
      subst hx'
      exact Held.exec_own ⟨zd, hz, ho, hr⟩ hk fun h => hx ⟨rfl, h⟩

theorem Held.run {xs : List Exchange} (h : s.Held org key id r) (hs : Steps Store.Step s xs s')
    (hx : ∀ x ∈ xs, ¬x.Overwrites org key id) : s'.Held org key id r := by
  refine Steps.related (R := fun s s' => s.Held org key id r → s'.Held org key id r) (fun _ h => h)
    (fun h₁ h₂ h => h₂ (h₁ h)) (fun hm hs h => h.step hs (hx _ hm)) hs h

-- The query for a name that is complete, except for the dot at its end.
def queryName (name : Str) : Str :=
  toLower name ++ ['.']

theorem toLower_queryName {name : Str} : toLower (queryName name) = queryName name := by
  have hd : toLower ['.'] = ['.'] := by decide
  rw [queryName, toLower_append, toLower_idem, hd]

theorem toLower_name (zd : ZoneData) : toLower zd.name = zd.name := by
  have hn := toLower_normZone zd.zone.name
  rwa [zd.norm] at hn

-- Names that do not end in a dot are completed with the name of the zone, unless they stand for the zone itself.
theorem fqdn_eq_queryName_iff {name : Str} (hd : ¬['.'] <:+ name) :
    toLower (fqdn name zd.name) = queryName name ↔ (name = ['@'] ∨ name = []) ∧ zd.name = queryName name := by
  rw [fqdn]
  split
  case isTrue ha => rw [toLower_name, and_iff_right ha]
  case isFalse ha =>
    split
    case isTrue hs => exact absurd (hasSuffix_iff.mp hs) hd
    case isFalse =>
      rw [toLower_append, toLower_append, toLower_name]
      refine iff_of_false (fun h => zd.name_ne_nil ?_) (ha ·.1)
      have hl := congrArg List.length h
      simp only [queryName, length_append, length_toLower] at hl
      exact eq_nil_of_length_eq_zero (by omega)

theorem exists_zone_of_mem_lookup (hd : ¬['.'] <:+ r.name) (h : r ∈ s.lookup (queryName r.name) r.type) :
    (r.name = ['@'] ∨ r.name = []) ∧ ∃ zd, s.zones.get (queryName r.name) = some zd := by
  obtain ⟨zd, hz, hm⟩ := mem_bind.mp h
  rw [ZoneData.answers, toLower_queryName] at hm
  split at hm
  case isFalse => exact absurd hm (notMem_zero r)
  case isTrue =>
    obtain ⟨-, hn, -⟩ := mem_filter.mp hm
    obtain ⟨ha, hk⟩ := (fqdn_eq_queryName_iff hd).mp hn
    exact ⟨ha, zd, hk ▸ mem_values_iff.mp hz⟩

theorem Held.mem_lookup (h : s.Held org key id r) (ha : r.name = ['@'] ∨ r.name = []) (hk : key = queryName r.name) :
    r ∈ s.lookup (queryName r.name) r.type := by
  obtain ⟨zd, hz, -, hr⟩ := h
  have hn : zd.name = queryName r.name := (key_eq hz).trans hk
  refine mem_bind.mpr ⟨zd, mem_values_of_get hz, ?_⟩
  rw [ZoneData.answers, toLower_queryName, hn, if_pos (hasSuffix_iff.mpr (suffix_refl _))]
  refine mem_filter.mpr ⟨mem_values_of_get hr, ?_, rfl⟩
  rw [fqdn, if_pos ha, toLower_queryName]

variable {pr : ProviderRecord}

theorem held_putMirror (hz : s.zoneForOrg org zone = some zd) (hi : pr.id ≠ []) (ht : pr.type ∈ validRecordTypes) :
    (s.putMirror e org zone pr).store.Held org zd.name pr.id (mirror pr (zd.records.get pr.id) e.now) := by
  obtain ⟨hg, ho⟩ := zoneForOrg_eq_some_iff.mp hz
  simp only [putMirror, if_neg hi, if_neg (not_not.mpr ht), hz]
  exact held_set (mem_values_iff.mp (mem_values_of_get hg)) rfl ho get_put_self

theorem exists_run_without (hk : queryName pr.name ≠ key) (hz : s.zones.get (queryName pr.name) = some zd) :
    ∃ xs s', Steps Store.Step s xs s' ∧ (∀ x ∈ xs, ¬x.Overwrites org key id) ∧
      s'.zones.get (queryName pr.name) = none := by
  have hn : normZone (queryName pr.name) = queryName pr.name := by
    rw [←key_eq hz]
    exact zd.norm
  let x : Exchange := {
    org := zd.zone.org
    env := { now := 0, uuid := fun _ => [] }
    call := .deleteZone (queryName pr.name)
    reply := (s.exec { now := 0, uuid := fun _ => [] } zd.zone.org (.deleteZone (queryName pr.name))).result
  }
  refine ⟨[x], _, .single ⟨rfl, rfl⟩, fun y hy hw => ?_, ?_⟩
  · obtain rfl := List.mem_singleton.mp hy
    exact hk (hn.symm.trans hw.2)
  · have hf : s.zoneForOrg zd.zone.org (queryName pr.name) = some zd := zoneForOrg_of_get (hn.symm ▸ hz) rfl
    simp only [x, exec, perform, deleteZone, hf, map_store, done_store, hn]
    exact get_drop_self

-- A record with the complete name that its provider gives it is served under that name until it is dropped or overwritten.
def MirrorServed (s : Store) (e : Env) (org : Org) (zone : Str) (zd : ZoneData) (pr : ProviderRecord) : Prop :=
  ∀ xs s', Steps Store.Step (s.putMirror e org zone pr).store xs s' → (∀ x ∈ xs, ¬x.Overwrites org zd.name pr.id) →
    mirror pr (zd.records.get pr.id) e.now ∈ s'.lookup (queryName pr.name) pr.type

theorem mirrorServed_iff (hz : s.zoneForOrg org zone = some zd) (hi : pr.id ≠ []) (ht : pr.type ∈ validRecordTypes)
    (hd : ¬['.'] <:+ pr.name) :
    s.MirrorServed e org zone zd pr ↔ (pr.name = ['@'] ∨ pr.name = []) ∧ zd.name = queryName pr.name := by
  have exists_zone {s' : Store} (h : mirror pr (zd.records.get pr.id) e.now ∈ s'.lookup (queryName pr.name) pr.type) :
      (pr.name = ['@'] ∨ pr.name = []) ∧ ∃ zd, s'.zones.get (queryName pr.name) = some zd :=
    exists_zone_of_mem_lookup (r := mirror pr (zd.records.get pr.id) e.now) hd h
  constructor
  case mp =>
    intro h
    obtain ⟨ha, zd', hz'⟩ := exists_zone (h [] _ .refl (by simp))
    refine ⟨ha, ?_⟩
    by_contra hk
    obtain ⟨xs, s', hs, hx, hn⟩ := exists_run_without (Ne.symm hk) hz'
    obtain ⟨-, zd'', hz''⟩ := exists_zone (h xs s' hs hx)
    cases hn.symm.trans hz''
  case mpr =>
    rintro ⟨ha, hk⟩ xs s' hs hx
    have hm : s'.Held org zd.name pr.id (mirror pr (zd.records.get pr.id) e.now) := (held_putMirror hz hi ht).run hs hx
    exact hm.mem_lookup ha hk

end Store

namespace Mirror.Sample

def env : Env where
  now := 0
  uuid := fun _ => "id"

def store (zone : Str) : Store :=
  (newStore.createZone env "acme" zone providerCloudflare).store

def record (name : Str) : ProviderRecord where
  id := "r"
  name := name
  type := "A"
  content := "192.0.2.1"
  ttl := 300
  proxied := false
  priority := 0

end Mirror.Sample

open Mirror.Sample

theorem mirrorServed_root :
    (store ".").MirrorServed env "acme" "." (Store.newZone env "acme" "." providerCloudflare) (record []) := by
  refine (Store.mirrorServed_iff ?_ ?_ ?_ ?_).mpr ⟨.inr rfl, ?_⟩
  all_goals decide +kernel

-- The record www.example.com of the zone example.com is served as www.example.com.example.com.
theorem not_mirrorServed_www :
    let s := ((store "example.com").putMirror env "acme" "example.com" (record "www.example.com")).store
    ¬(store "example.com").MirrorServed env "acme" "example.com"
        (Store.newZone env "acme" "example.com" providerCloudflare) (record "www.example.com") ∧
      s.lookup "www.example.com.example.com." "A" ≠ 0 := by
  intro s
  refine ⟨fun h => ?_, by decide +kernel⟩
  have hl : s.lookup (Store.queryName "www.example.com") "A" = 0 := by decide +kernel
  exact notMem_zero _ (hl ▸ h [] s .refl (by simp))

end Hanzodns
