import HanzoDNS.Lib.Table
import HanzoDNS.Operator.Basic

namespace Operator

-- The client of the operator for the records of Cloudflare, and what the service behind it does.
namespace Cloudflare

structure Record where
  id : Str
  type : Str
  name : Str
  content : Str
  ttl : Int
  proxied : Bool
  priority : Option Int
deriving DecidableEq

abbrev Edge := Str → Table Record.id

-- What Cloudflare is free to choose: which of the records with a given name and type it lists first, and
-- the ids of new records.
structure Service where
  first : Table Record.id → (name type : Str) → Option Record
  newID : Edge → (zoneID : Str) → Record → Str
  first_some : first t name type = some r → t.get r.id = some r ∧ r.name = name ∧ r.type = type
  first_none : first t name type = none → ∀ r ∈ t.values, ¬(r.name = name ∧ r.type = type)
  newID_ne : newID edge zoneID r ≠ []
  newID_fresh : ∀ {edge : Edge} {zoneID r}, (edge zoneID).get (newID edge zoneID r) = none

namespace Edge

def put (edge : Edge) (zoneID : Str) (r : Record) : Edge :=
  Function.update edge zoneID ((edge zoneID).put r)

def deleteRecord (edge : Edge) (zoneID id : Str) : Edge :=
  Function.update edge zoneID ((edge zoneID).drop id)

def updateRecord (edge : Edge) (zoneID id : Str) (r : Record) : Option Edge :=
  match (edge zoneID).get id with
  | none => none
  | some _ => edge.put zoneID { r with id }

def createRecord (service : Service) (edge : Edge) (zoneID : Str) (r : Record) : Edge × Str :=
  (edge.put zoneID { r with id := service.newID edge zoneID r }, service.newID edge zoneID r)

def findRecord (service : Service) (edge : Edge) (zoneID name type : Str) : Option Record :=
  service.first (edge zoneID) name type

end Edge
end Cloudflare

structure DnsZone where
  name : Str
  zone : Str
  cloudflareZoneID : Str
deriving DecidableEq

structure DnsRecordSpec where
  zoneRef : Str
  name : Str
  type : Str
  content : Str
  ttl : Int
  priority : Option Int
  proxied : Bool
  syncToCloudflare : Bool
deriving DecidableEq

inductive Phase
  | pending
  | active
  | syncing
  | error
deriving DecidableEq

structure DnsRecordStatus where
  phase : Option Phase
  cloudflareRecordID : Str
  lastSyncTime : Option Nat
deriving DecidableEq

structure DnsRecord where
  name : Str
  deletionTimestamp : Option Nat
  finalizers : List Str
  spec : DnsRecordSpec
  status : DnsRecordStatus
deriving DecidableEq

def cloudflareFinalizer : Str :=
  "dns.hanzo.ai/cloudflare-cleanup"

namespace DnsRecord

def addFinalizer (record : DnsRecord) : DnsRecord :=
  if cloudflareFinalizer ∈ record.finalizers then record
  else { record with finalizers := record.finalizers ++ [cloudflareFinalizer] }

def removeFinalizer (record : DnsRecord) : DnsRecord :=
  { record with finalizers := record.finalizers.filter (· ≠ cloudflareFinalizer) }

def markError (record : DnsRecord) : DnsRecord :=
  { record with status.phase := some .error }

def markActive (record : DnsRecord) (id : Str) (now : Nat) : DnsRecord :=
  { record with status := { phase := some .active, cloudflareRecordID := id, lastSyncTime := some now } }

end DnsRecord

-- One namespace of the cluster, and the state of Cloudflare. The list `created` is only there to be
-- talked about: it holds the zone and the id of each record that the reconciler ever created.
structure World where
  records : Table DnsRecord.name
  zones : List DnsZone
  edge : Cloudflare.Edge
  created : List (Str × Str)

structure Faults where
  get : Bool := false
  zoneID : Bool := false
  zoneName : Bool := false
  update : Bool := false
  status : Bool := false

inductive Failure
  | kubernetes
  | cloudflare

abbrev Result := Option Nat

namespace World

-- An object that is being deleted is gone once its last finalizer is.
def update (w : World) (record : DnsRecord) : World :=
  if record.deletionTimestamp.isSome ∧ record.finalizers = [] then
    { w with records := w.records.drop record.name }
  else
    { w with records := w.records.put record }

-- An object without finalizers is gone at once.
def delete (w : World) (name : Str) (now : Nat) : World :=
  match w.records.get name with
  | none => w
  | some record =>
    if record.deletionTimestamp.isSome then w
    else w.update { record with deletionTimestamp := some now }

def updateStatus (w : World) (record : DnsRecord) : World :=
  { w with records := w.records.put record }

-- A zone that cannot be listed is treated like one that does not exist.
def zone (w : World) (fault : Bool) (zoneRef : Str) : Option DnsZone :=
  if fault then none else w.zones.find? (·.name = zoneRef)

def zoneID (w : World) (fault : Bool) (zoneRef : Str) : Str :=
  ((w.zone fault zoneRef).map (·.cloudflareZoneID)).getD []

def zoneName (w : World) (fault : Bool) (zoneRef : Str) : Str :=
  ((w.zone fault zoneRef).map (·.zone)).getD []

end World

def ttlOrDefault (ttl : Int) : Int :=
  if ttl ≤ 0 then 1 else ttl

-- The record that Cloudflare should have; its id is not part of that.
def desired (spec : DnsRecordSpec) (zoneName : Str) : Cloudflare.Record where
  id := []
  type := spec.type
  name := fqdn spec.name zoneName
  content := spec.content
  ttl := ttlOrDefault spec.ttl
  proxied := spec.proxied
  priority := spec.priority

structure CloudflareReconciler where
  cf : Option Cloudflare.Service

namespace CloudflareReconciler

variable (r : CloudflareReconciler) (f : Faults)

-- This block stands in the source twice, for a deleted record and for one that is opted out.
def release (w : World) (record : DnsRecord) (zoneID : Str) : World × Except Failure Result :=
  if cloudflareFinalizer ∈ record.finalizers then
    let id := record.status.cloudflareRecordID
    let w := if zoneID ≠ [] ∧ id ≠ [] ∧ r.cf.isSome
      then { w with edge := w.edge.deleteRecord zoneID id } else w
    if f.update then (w, .error .kubernetes)
    else (w.update record.removeFinalizer, .ok none)
  else
    (w, .ok none)

-- An existing record of the same name and type is adopted if the status has no id yet.
def ensure (cf : Cloudflare.Service) (w : World) (zoneID id : Str) (r : Cloudflare.Record) :
    World × Except Failure Str :=
  let overwrite (id : Str) :=
    match w.edge.updateRecord zoneID id r with
    | none => (w, .error .cloudflare)
    | some edge => ({ w with edge }, .ok id)
  if id = [] then
    match w.edge.findRecord cf zoneID r.name r.type with
    | some existing => overwrite existing.id
    | none =>
      let (edge, id) := w.edge.createRecord cf zoneID r
      ({ w with edge, created := (zoneID, id) :: w.created }, .ok id)
  else
    overwrite id

def push (cf : Cloudflare.Service) (now : Nat) (w : World) (record : DnsRecord) (zoneID : Str) :
    World × Except Failure Result :=
  let zoneName := w.zoneName f.zoneName record.spec.zoneRef
  let finalized := record.addFinalizer
  if finalized ≠ record ∧ f.update then
    (w, .error .kubernetes)
  else
    let w := if finalized ≠ record then w.update finalized else w
    let id := record.status.cloudflareRecordID
    match ensure cf w zoneID id (desired record.spec zoneName) with
    | (w, .error e) => (w, .error e)
    | (w, .ok id) =>
      if f.status then (w, .error .kubernetes)
      else (w.updateStatus (finalized.markActive id now), .ok (some 300))

def reconcile (now : Nat) (w : World) (name : Str) : World × Except Failure Result :=
  if f.get then
    (w, .error .kubernetes)
  else match w.records.get name with
    | none => (w, .ok none)
    | some record =>
      let zoneID := w.zoneID f.zoneID record.spec.zoneRef
      if record.deletionTimestamp.isSome then
        r.release f w record zoneID
      else if ¬record.spec.syncToCloudflare then
        r.release f w record zoneID
      else match r.cf with
        | none => (w, .ok none)
        | some cf =>
          if zoneID = [] then
            if f.status then (w, .error .kubernetes)
            else (w.updateStatus record.markError, .ok (some 60))
          else
            push f cf now w record zoneID

end CloudflareReconciler
end Operator
