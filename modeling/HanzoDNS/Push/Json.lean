import HanzoDNS.Lib.Json
import HanzoDNS.Push.Basic

open Strings Json

-- The body of a push, as its sender encodes and as the server decodes it.
namespace Hanzodns

namespace SyncRecord

def zero : SyncRecord where
  id := []
  name := []
  type := []
  ttl := 0
  content := []
  priority := 0
  proxied := false

def decode : Decoder SyncRecord :=
  decodeStruct fun members r => do
    let id ← field "id" decodeString members r.id
    let name ← field "name" decodeString members r.name
    let type ← field "type" decodeString members r.type
    let ttl ← field "ttl" decodeUint32 members r.ttl
    let content ← field "content" decodeString members r.content
    let priority ← field "priority" decodeUint16 members r.priority
    let proxied ← field "proxied" decodeBool members r.proxied
    return { id, name, type, ttl, content, priority, proxied }

-- An id that is empty and a priority of zero are left out.
def json (r : SyncRecord) : Json :=
  let id : List (Str × Json) := if r.id = [] then [] else [("id", .string r.id)]
  let others : List (Str × Json) :=
    [("name", .string r.name), ("type", .string r.type), ("content", .string r.content),
      ("ttl", .number (Strconv.itoa r.ttl.toNat))]
  let priority : List (Str × Json) :=
    if r.priority = 0 then [] else [("priority", .number (Strconv.itoa r.priority.toNat))]
  let proxied : List (Str × Json) := [("proxied", .bool r.proxied)]
  .object (id ++ others ++ priority ++ proxied)

end SyncRecord

namespace SyncZoneRequest

def zero : SyncZoneRequest where
  zone := []
  records := []

def decode : Decoder SyncZoneRequest :=
  decodeStruct fun members req => do
    let zone ← field "zone" decodeString members req.zone
    let records ← field "records" (decodeList .zero SyncRecord.decode) members req.records
    return { zone, records }

def json (req : SyncZoneRequest) : Json :=
  .object [(("zone" : Str), .string req.zone), (("records" : Str), .array (req.records.map (·.json)))]

end SyncZoneRequest

def decodeSyncRequest (body : Json) : Option (List SyncZoneRequest) :=
  decodeStruct (field "zones" (decodeList .zero SyncZoneRequest.decode)) [] body

end Hanzodns

namespace Watcher

open Hanzodns

def payload (zones : List ZoneWithRecords) : Json :=
  .object [(("zones" : Str), .array ((zones.map (·.sync)).map (·.json)))]

end Watcher
