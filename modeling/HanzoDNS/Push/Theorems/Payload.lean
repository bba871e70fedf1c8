import HanzoDNS.Push.Json
import HanzoDNS.Store.Theorems.Sync

open Strings Json List

namespace Hanzodns

theorem SyncRecord.decode_json (r : SyncRecord) : decode .zero r.json = some r := by
  by_cases hi : r.id = []
  all_goals by_cases hp : r.priority = 0
  all_goals simp +decide [decode, json, decodeStruct, zero, hi, hp]
  · rw [←hi, ←hp]
  · rw [←hi]
  · rw [←hp]

theorem SyncZoneRequest.decode_json (req : SyncZoneRequest) : decode .zero req.json = some req := by
  have hr : decodeList .zero SyncRecord.decode [] (.array (req.records.map (·.json))) = some (req.records.map id) :=
    decodeList_map fun r _ => r.decode_json
  rw [map_id] at hr
  simp +decide [decode, json, decodeStruct, zero, hr]

end Hanzodns

namespace Watcher

open Hanzodns

theorem decodeSyncRequest_payload (zones : List ZoneWithRecords) :
    decodeSyncRequest (payload zones) = some (zones.map (·.sync)) := by
  have hz : decodeList .zero SyncZoneRequest.decode [] (.array ((zones.map (·.sync)).map (·.json))) =
      some ((zones.map (·.sync)).map id) :=
    decodeList_map fun req _ => req.decode_json
  rw [map_id] at hz
  rw [decodeSyncRequest, payload, decodeStruct, field_cons, if_pos (by decide), hz]
  rfl

namespace DBRecord

def Representable (r : DBRecord) : Prop :=
  (0 ≤ r.ttl ∧ r.ttl < 2 ^ 32) ∧ ∀ p ∈ r.priority, 0 ≤ p ∧ p < 2 ^ 16

structure Kept (r : DBRecord) (rec : Record) : Prop where
  id : rec.id = r.id
  name : rec.name = r.name
  type : rec.type = r.type
  content : rec.content = r.content
  proxied : rec.proxied = r.proxied
  ttl : rec.ttl.toNat = if r.ttl = 0 then 300 else r.ttl
  priority : rec.priority.toNat = r.priority.getD 0

end DBRecord

def received (s : Store) (e : Env) (org : Org) (zwr : ZoneWithRecords) (id : Str) : Option Record :=
  (decodeSyncRequest (payload [zwr])).bind fun zones =>
    let s' := zones.foldl (fun s req => (s.bulkSync e org req).store) s
    (s'.zones.get (normZone zwr.sync.zone)).bind (·.records.get id)

section

variable {zwr : ZoneWithRecords} {r : DBRecord} {s : Store} {e : Env} {org : Org}

theorem get_newRecords_sync (hd : (zwr.records.map (·.id)).Nodup) (hn : ∀ r ∈ zwr.records, r.id ≠ [])
    (hr : r ∈ zwr.records) (ht : r.type ∈ validRecordTypes) :
    (Table.ofList (zwr.sync.newRecords e) : Table Record.id).get r.id = some (r.sync.record [] e.now) := by
  have hm : r.sync ∈ zwr.sync.valid := mem_filter.mpr ⟨mem_map_of_mem hr, decide_eq_true ht⟩
  have hd' : (zwr.sync.records.map (·.id)).Nodup := by
    rw [ZoneWithRecords.sync, map_map]
    exact hd
  have hn' : ∀ sr ∈ zwr.sync.records, sr.id ≠ [] := by
    intro sr hm
    obtain ⟨r, hr, rfl⟩ := mem_map.mp hm
    exact hn r hr
  exact SyncZoneRequest.get_newRecords_of_distinct hn' hd' hm

theorem received_eq (hd : (zwr.records.map (·.id)).Nodup) (hn : ∀ r ∈ zwr.records, r.id ≠ [])
    (hs : s.Admits org zwr.sync.zone) (hr : r ∈ zwr.records) (ht : r.type ∈ validRecordTypes) :
    received s e org zwr r.id = some (r.sync.record [] e.now) := by
  rw [received, decodeSyncRequest_payload]
  simp only [map_cons, map_nil, Option.bind_some, foldl_cons, foldl_nil, Store.bulkSync_get hs]
  exact get_newRecords_sync hd hn hr ht

theorem toNat_ofInt32 {n : Int} (h : 0 ≤ n ∧ n < 2 ^ 32) : ((UInt32.ofInt n).toNat : Int) = n := by
  rw [UInt32.ofInt, UInt32.toNat_ofNat', Int.emod_eq_of_lt h.1 h.2, Nat.mod_eq_of_lt (by omega)]
  exact Int.toNat_of_nonneg h.1

theorem toNat_ofInt16 {n : Int} (h : 0 ≤ n ∧ n < 2 ^ 16) : ((UInt16.ofInt n).toNat : Int) = n := by
  rw [UInt16.ofInt, UInt16.toNat_ofNat', Int.emod_eq_of_lt h.1 h.2, Nat.mod_eq_of_lt (by omega)]
  exact Int.toNat_of_nonneg h.1

theorem sync_ttl (h : 0 ≤ r.ttl ∧ r.ttl < 2 ^ 32) {now : Hanzodns.Time} :
    ((r.sync.record [] now).ttl.toNat : Int) = if r.ttl = 0 then 300 else r.ttl := by
  have ht := toNat_ofInt32 h
  by_cases hz : r.ttl = 0
  case pos =>
    simp only [SyncRecord.record, DBRecord.sync, hz]
    decide
  case neg =>
    have hn : UInt32.ofInt r.ttl ≠ 0 := by
      intro he
      rw [he] at ht
      exact hz ht.symm
    have hi : (r.sync.record [] now).ttl = UInt32.ofInt r.ttl := if_neg hn
    rw [hi, ht, if_neg hz]

theorem sync_priority (h : ∀ p ∈ r.priority, 0 ≤ p ∧ p < 2 ^ 16) {now : Hanzodns.Time} :
    ((r.sync.record [] now).priority.toNat : Int) = r.priority.getD 0 := by
  cases hp : r.priority
  case none => simp [SyncRecord.record, DBRecord.sync, hp]
  case some p =>
    simp only [SyncRecord.record, DBRecord.sync, hp]
    exact toNat_ofInt16 (h p hp)

theorem DBRecord.Representable.kept (h : r.Representable) (hi : r.id ≠ []) {now : Hanzodns.Time} :
    r.Kept (r.sync.record [] now) where
  id := if_neg hi
  name := rfl
  type := rfl
  content := rfl
  proxied := rfl
  ttl := sync_ttl h.1
  priority := sync_priority h.2

-- The rows whose numbers fit arrive as they are.
theorem received_kept (hd : (zwr.records.map (·.id)).Nodup) (hn : ∀ r ∈ zwr.records, r.id ≠ [])
    (hs : s.Admits org zwr.sync.zone) : ∀ r ∈ zwr.records, r.type ∈ validRecordTypes → r.Representable →
      ∃ rec, received s e org zwr r.id = some rec ∧ r.Kept rec := by
  intro r hr ht hp
  exact ⟨_, received_eq hd hn hs hr ht, hp.kept (hn r hr)⟩

end

namespace Sample

def row (id : Str) (ttl : Int) (priority : Option Int) : DBRecord where
  id := id
  zoneId := "z"
  name := "www"
  type := "A"
  content := "192.0.2.1"
  ttl := ttl
  priority := priority
  proxied := false
  syncToCloudflare := false
  cloudflareRecordId := none
  updatedAt := 0

def env : Env where
  now := 0
  uuid := fun _ => []

def zone (records : List DBRecord) : ZoneWithRecords where
  zone := {
    id := "z", orgId := "acme", name := "shop.example", status := "active", cloudflareZoneId := none, updatedAt := 0
  }
  records := records

end Sample

open Sample

theorem received_kept_rows :
    let rows := [row "a" 60 none, row "b" 4294967295 (some 65535)]
    rows.length = 2 ∧ ∀ r ∈ rows, ∃ rec, received newStore env "acme" (zone rows) r.id = some rec ∧ r.Kept rec := by
  refine ⟨rfl, fun r hr => ?_⟩
  refine received_kept (by decide +kernel) (by decide +kernel) (fun zd hz => by cases hz) r hr ?_ ?_
  · revert r
    decide +kernel
  · have hp : ∀ r ∈ [row "a" 60 none, row "b" 4294967295 (some 65535)],
        (0 ≤ r.ttl ∧ r.ttl < 2 ^ 32) ∧ ∀ p ∈ r.priority, 0 ≤ p ∧ p < 2 ^ 16 := by
      decide +kernel
    exact hp r hr

-- A TTL of zero arrives as the default of the server.
theorem received_default_ttl :
    (received newStore env "acme" (zone [row "a" 0 none]) "a").map (·.ttl) = some 300 := by
  decide +kernel

end Watcher
