import HanzoDNS.Store.Basic

namespace Hanzodns

structure SyncRecord where
  id : Str
  name : Str
  type : RecordType
  ttl : UInt32
  content : Str
  priority : UInt16
  proxied : Bool
deriving DecidableEq

structure SyncZoneRequest where
  zone : Str
  records : List SyncRecord
deriving DecidableEq

structure SyncResponse where
  zone : Str
  recordCount : Nat
  created : Nat
  deleted : Nat
deriving DecidableEq

-- The stored form of a synced record. Only an empty id is replaced by a fresh one, and only a TTL of
-- zero by the default.
def SyncRecord.record (sr : SyncRecord) (uuid : Str) (now : Time) : Record where
  id := if sr.id = [] then uuid else sr.id
  name := sr.name
  type := sr.type
  ttl := if sr.ttl = 0 then 300 else sr.ttl
  content := sr.content
  priority := sr.priority
  proxied := sr.proxied
  createdAt := now
  updatedAt := now

-- The new records of a zone. Entries of an invalid type are skipped, and of several entries with one
-- id the last one stays.
def SyncZoneRequest.newRecords (req : SyncZoneRequest) (e : Env) : List Record :=
  (req.records.filter (·.type ∈ validRecordTypes)).mapIdx fun i sr => sr.record (e.uuid (i + 1)) e.now

namespace Store

-- Unlike the other calls, this one invokes the change hook also when it fails. A zone that does not
-- exist yet is created without a provider.
def bulkSync (s : Store) (e : Env) (org : Org) (req : SyncZoneRequest) : Outcome SyncResponse :=
  match s.zones.get (normZone req.zone) with
  | some zd =>
    if zd.zone.org = org then
      replace zd
    else
      { store := s, result := .error (.zoneExists (normZone req.zone)), notified := true }
  | none => replace (newZone e org req.zone [])
where
  replace (zd : ZoneData) : Outcome SyncResponse :=
    let records := Table.ofList (req.newRecords e)
    let count := records.values.card
    .done (s.set ({ zd with records }.touch e.now)) {
      zone := normZone req.zone
      recordCount := count
      created := count
      deleted := zd.records.values.card
    }

end Store
end Hanzodns
