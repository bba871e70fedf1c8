import HanzoDNS.Cloudflare.Basic

open Strings

namespace Watcher

abbrev Time := Nat

structure DBZone where
  id : Str
  orgId : Str
  name : Str
  status : Str
  cloudflareZoneId : Option Str
  updatedAt : Time
deriving DecidableEq

structure DBRecord where
  id : Str
  zoneId : Str
  name : Str
  type : Str
  content : Str
  ttl : Int
  priority : Option Int
  proxied : Bool
  syncToCloudflare : Bool
  cloudflareRecordId : Option Str
  updatedAt : Time
deriving DecidableEq

structure ZoneWithRecords where
  zone : DBZone
  records : List DBRecord
deriving DecidableEq

def DBZone.active (z : DBZone) : Bool :=
  z.status = "active"

-- The name under which a record goes to Cloudflare. A name with a dot in it is taken to be complete.
def fqdn (name zone : Str) : Str :=
  if name = ['@'] ∨ name = [] then zone
  else if ¬contains name ['.'] then name ++ ['.'] ++ zone
  else name

structure Database where
  zones : Table DBZone.id
  records : Str → List DBRecord

namespace Database

-- A transaction on one zone and its records. The database stamps the zone.
def commit (db : Database) (now : Time) (zone : DBZone) (records : List DBRecord) : Database where
  zones := db.zones.put { zone with updatedAt := now }
  records := Function.update db.records zone.id records

def delete (db : Database) (id : Str) : Database where
  zones := db.zones.drop id
  records := Function.update db.records id []

def fetchZones (db : Database) : Multiset DBZone :=
  db.zones.values.filter (·.active)

def fetchChangedZones (db : Database) (since : Time) : Multiset DBZone :=
  db.zones.values.filter fun z => z.active ∧ z.updatedAt > since

end Database

-- Where the watcher is in a cycle: waiting for the ticker, fetching the records of the zones that it has
-- listed one after the other, or done with CoreDNS and busy with Cloudflare.
inductive Phase
  | idle
  | fetching (pending : List DBZone) (batch : List ZoneWithRecords)
  | pushed

-- What CoreDNS holds: the name and the records of each zone as they were last pushed with success.
def Served :=
  Str → Option (Str × List DBRecord)

def Served.push (coredns : Served) (batch : List ZoneWithRecords) : Served :=
  batch.foldl (fun coredns zwr =>
    Function.update coredns zwr.zone.id (some (zwr.zone.name, zwr.records))) coredns

-- The time of the last sync is `none` for the zero time.
structure State where
  clock : Time
  db : Database
  coredns : Served
  lastSync : Option Time
  phase : Phase

namespace State

-- The zones that a cycle goes through. The first cycle, and every one until a full sync got through,
-- is a full one.
def listing (s : State) : Multiset DBZone :=
  match s.lastSync with
  | none => s.db.fetchZones
  | some since => s.db.fetchChangedZones since

end State

inductive Action
  | tick
  | commit (zone : DBZone) (records : List DBRecord)
  | delete (id : Str)
  | list
  | listFails
  | fetch
  | fetchFails
  | push
  | pushFails
  | finish

-- The steps of the watcher, of the database and of the clock. The time of the last sync is read off the
-- clock at the end of a cycle, whether or not the fetches and the push succeeded. It stays as it is if
-- the zones cannot be listed, or if an incremental cycle has nothing to do.
inductive Step : State → Action → State → Prop
  | tick : Step s .tick { s with clock := s.clock + 1 }
  | commit : Step s (.commit zone records) { s with db := s.db.commit s.clock zone records }
  | delete {id : Str} : Step s (.delete id) { s with db := s.db.delete id }
  | list (idle : s.phase = .idle) (zones : List DBZone) (listing : ↑zones = s.listing)
      (some : zones ≠ [] ∨ s.lastSync = none) :
    Step s .list { s with phase := .fetching zones [] }
  | nothing (idle : s.phase = .idle) (listing : s.listing = 0) (incremental : s.lastSync ≠ none) :
    Step s .list s
  | listFails (idle : s.phase = .idle) : Step s .listFails s
  | fetch (fetching : s.phase = .fetching (z :: pending) batch) :
    Step s .fetch { s with phase := .fetching pending (batch ++ [.mk z (s.db.records z.id)]) }
  | fetchFails (fetching : s.phase = .fetching (z :: pending) batch) :
    Step s .fetchFails { s with phase := .fetching pending batch }
  | push (fetching : s.phase = .fetching [] batch) :
    Step s .push { s with coredns := s.coredns.push batch, phase := .pushed }
  | pushFails (fetching : s.phase = .fetching [] batch) (some : batch ≠ []) :
    Step s .pushFails { s with phase := .pushed }
  | finish (pushed : s.phase = .pushed) :
    Step s .finish { s with lastSync := some s.clock, phase := .idle }

end Watcher
