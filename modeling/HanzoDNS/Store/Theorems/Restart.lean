import HanzoDNS.Store.Snapshot

open Multiset

namespace Hanzodns

open ZoneData Store

-- Zones that were created without a provider get one when they pass through a snapshot.
def Zone.defaulted (z : Zone) : Zone :=
  { z with provider := if z.provider = [] then providerAuthoritative else z.provider }

def ZoneData.defaulted (zd : ZoneData) : ZoneData :=
  { zd with zone := zd.zone.defaulted }

namespace ZoneData

variable {zd : ZoneData}

theorem snapshot_zoneData : zd.snapshot.zoneData = zd.defaulted := by
  apply ZoneData.ext
  case zone =>
    simp only [snapshot, SnapshotZone.zoneData, defaulted, Zone.defaulted, zd.norm]
    by_cases hp : zd.zone.provider = [] <;> simp [hp]
  case records =>
    apply Table.get_ext
    intro k
    have h := Table.get_ofList_map_sorted (t := zd.records) (k := k) (f := id) (by simp)
    simpa [snapshot, SnapshotZone.zoneData, defaulted] using h

theorem defaulted_answers : zd.defaulted.answers = zd.answers :=
  rfl

end ZoneData

namespace Store

variable {s : Store} {org : Org} {name : Str}

theorem restart_get {k : Str} : s.restart.zones.get k = (s.zones.get k).map defaulted := by
  have hf : SnapshotZone.zoneData ∘ snapshot = defaulted :=
    funext fun _ => snapshot_zoneData
  simp only [restart, importState, exportState, List.map_map, hf]
  exact Table.get_ofList_map_sorted fun _ => rfl

theorem restart_values : s.restart.zones.values = s.zones.values.map defaulted :=
  Table.values_map (fun _ => rfl) fun _ => restart_get

theorem restart_zoneForOrg : s.restart.zoneForOrg org name = (s.zoneForOrg org name).map defaulted := by
  simp only [zoneForOrg, restart_get]
  cases s.zones.get (normZone name)
  case none => rfl
  case some zd =>
    have ho : zd.defaulted.zone.org = zd.zone.org := rfl
    simp only [Option.map_some, ho]
    split <;> rfl

theorem restart_lookup : s.restart.lookup qname qtype = s.lookup qname qtype := by
  simp [lookup, restart_values, bind_map, defaulted_answers]

end Store

theorem restart_transparent (s : Store) :
    (∀ org, s.restart.listZones org = (s.listZones org).map Zone.defaulted) ∧
    (∀ org name, s.restart.getZone org name = (s.getZone org name).map Zone.defaulted) ∧
    (∀ org name, s.restart.zoneProvider org name = s.zoneProvider org name) ∧
    (∀ org zone, s.restart.listRecords org zone = s.listRecords org zone) ∧
    (∀ org zone id, s.restart.getRecord org zone id = s.getRecord org zone id) ∧
    (∀ qname qtype, s.restart.lookup qname qtype = s.lookup qname qtype) ∧
    s.restart.zoneNames = s.zoneNames := by
  refine ⟨fun org => ?_, fun org name => ?_, fun org name => ?_, fun org zone => ?_,
    fun org zone id => ?_, fun qname qtype => ?_, ?_⟩
  · simp only [listZones, restart_values, filter_map, map_map]
    rfl
  · simp only [getZone, restart_zoneForOrg, Option.map_map]
    rfl
  · simp only [zoneProvider, restart_zoneForOrg, Option.map_map]
    have ha : providerAuthoritative ≠ [] := by decide
    congr 1
    funext zd
    by_cases hp : zd.zone.provider = [] <;> simp [hp, ha, defaulted, Zone.defaulted]
  · simp only [listRecords, restart_zoneForOrg]
    cases s.zoneForOrg org zone <;> rfl
  · simp only [getRecord, restart_zoneForOrg]
    cases s.zoneForOrg org zone <;> rfl
  · exact restart_lookup
  · simp only [zoneNames, Table.keys_val, restart_values, map_map]
    rfl

-- A zone that came in through the sync endpoint reports a different provider after a restart.
theorem restart_changes_provider :
    let e : Env := { now := 0, uuid := fun _ => "id" }
    let s := (newStore.exec e "acme" (.bulkSync { zone := "shop.example", records := [] })).store
    s.restart.getZone "acme" "shop.example" ≠ s.getZone "acme" "shop.example" := by
  intro e s
  simp only [getZone, restart_zoneForOrg]
  decide +kernel

end Hanzodns
