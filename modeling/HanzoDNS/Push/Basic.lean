import HanzoDNS.Api.Routes
import HanzoDNS.Operator.Reconcile
import HanzoDNS.Watcher.Basic

open Strings Hanzodns

-- The clients that push zones to the server: the watcher of the database and the operator.
namespace Push

-- The base URL of a server, of which only what follows the host matters here. It has no query and no fragment.
structure Endpoint where
  path : Str
  rooted : path.head? = none ∨ path.head? = some '/'
  plain : '?' ∉ path ∧ '#' ∉ path

-- The body of a push has none of the fields that other requests have.
def payload (zones : Option (List SyncZoneRequest)) : Payload where
  zone := some ⟨[], []⟩
  record := some ⟨[], [], 0, [], 0, false⟩
  patch := some {}
  sync := zones

def isControl (b : UInt8) : Bool :=
  b < 32 ∨ b = 127

def post (endpoint : Endpoint) (authorization : Str) (zones : Option (List SyncZoneRequest)) : Option HttpRequest :=
  let raw := bytes (endpoint.path ++ ("/api/v1/sync" : Str))
  if raw.any isControl then
    none
  else
    (Http.escapedPath raw).map fun path => { method := "POST", path, authorization, payload := payload zones }

end Push

namespace Watcher

def DBRecord.sync (r : DBRecord) : SyncRecord where
  id := r.id
  name := r.name
  type := r.type
  ttl := UInt32.ofInt r.ttl
  content := r.content
  priority := (r.priority.map UInt16.ofInt).getD 0
  proxied := r.proxied

def ZoneWithRecords.sync (zwr : ZoneWithRecords) : SyncZoneRequest where
  zone := if hasSuffix zwr.zone.name ['.'] then zwr.zone.name else zwr.zone.name ++ ['.']
  records := zwr.records.map (·.sync)

def syncToCoreDNS (endpoint : Push.Endpoint) (apiKey : Str) (zones : List ZoneWithRecords) : Option HttpRequest :=
  if zones = [] then
    none
  else
    Push.post endpoint (if apiKey ≠ [] then ("Bearer " : Str) ++ apiKey else []) (some (zones.map (·.sync)))

end Watcher

namespace Operator

-- What the operator reads of a zone in order to push it. The endpoint is optional.
structure DnsZoneSpec where
  zone : Str
  orgID : Str
  coreDNSEndpoint : Option Push.Endpoint

def defaultEndpoint : Push.Endpoint where
  path := []
  rooted := .inl rfl
  plain := ⟨List.not_mem_nil, List.not_mem_nil⟩

-- The operator sends numbers as they are, and the server only takes those that fit.
def DnsRecordSpec.sync (r : DnsRecordSpec) : Option SyncRecord :=
  let priority := r.priority.getD 0
  if (0 ≤ r.ttl ∧ r.ttl < 2 ^ 32) ∧ (0 ≤ priority ∧ priority < 2 ^ 16) then
    some {
      id := [], name := r.name, type := r.type, ttl := UInt32.ofInt r.ttl, content := r.content
      priority := UInt16.ofInt priority, proxied := r.proxied
    }
  else
    none

-- The server ignores the org in the request.
def syncToCoreDNS (zone : DnsZoneSpec) (records : List DnsRecordSpec) : Option HttpRequest :=
  let zones := (records.mapM DnsRecordSpec.sync).map fun records => [{ zone := zone.zone, records }]
  Push.post (zone.coreDNSEndpoint.getD defaultEndpoint) [] zones

end Operator
