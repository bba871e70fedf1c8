import HanzoDNS.Api.Basic
import HanzoDNS.Cloudflare.Http

open Strings Json Cloudflare

namespace Hanzodns

open Strconv

inductive CfError
  | request (err : Str)
  | failed
  | api (status : Nat) (first : Option (Int × Str))
  | malformedResponse
  | malformedResult
deriving DecidableEq

-- No text has the token in it.
def CfError.text : CfError → Str
  | request err => err
  | failed => "cloudflare request failed"
  | api status (some (code, message)) =>
    "cloudflare API error (" ++ itoa status ++ "): [" ++ itoa code ++ "] " ++ message
  | api status none => "cloudflare API error (status " ++ itoa status ++ ")"
  | malformedResponse => "cloudflare: malformed response"
  | malformedResult => "cloudflare: malformed result"

-- What is read of every reply. The errors are pairs of a code and a message.
structure CfEnvelope where
  success : Bool := false
  errors : List (Int × Str) := []

namespace CfEnvelope

def decodeError : Json → Int × Str
  | .object members => (fieldLoose "code" decodeInt64 members 0, fieldLoose "message" decodeString members [])
  | _ => (0, [])

def decodeErrors : Decoder (List (Int × Str))
  | _, .null => some []
  | _, .array items => some (items.map decodeError)
  | _, _ => none

def decode : Json → CfEnvelope
  | .object members => {
      success := fieldLoose "success" decodeBool members false
      errors := fieldLoose "errors" decodeErrors members []
    }
  | _ => {}

def err (e : CfEnvelope) (status : Nat) : Option CfError :=
  if e.success then none else some (.api status e.errors.head?)

end CfEnvelope

def rawResult : Json → Option (Option Json)
  | .null => some none
  | .object members => some ((members.filter fun m => foldsAll "result" m.1).getLast?.map Prod.snd)
  | _ => none

structure CfZone where
  id : Str := []
  name : Str := []
  status : Str := []
  nameServers : List Str := []
deriving DecidableEq

def CfZone.decode : Decoder CfZone :=
  decodeStruct fun members z => do
    let id ← field "id" decodeString members z.id
    let name ← field "name" decodeString members z.name
    let status ← field "status" decodeString members z.status
    let nameServers ← field "name_servers" (decodeList [] decodeString) members z.nameServers
    return { id, name, status, nameServers }

structure CfRecord where
  id : Str := []
  name : Str := []
  type : Str := []
  content : Str := []
  ttl : UInt32 := 0
  proxied : Bool := false
  priority : UInt16 := 0
deriving DecidableEq

namespace CfRecord

def decode : Decoder CfRecord :=
  decodeStruct fun members r => do
    let id ← field "id" decodeString members r.id
    let name ← field "name" decodeString members r.name
    let type ← field "type" decodeString members r.type
    let content ← field "content" decodeString members r.content
    let ttl ← field "ttl" decodeUint32 members r.ttl
    let proxied ← field "proxied" decodeBool members r.proxied
    let priority ← field "priority" decodeUint16 members r.priority
    return { id, name, type, content, ttl, proxied, priority }

def toProvider (r : CfRecord) : ProviderRecord where
  id := r.id
  name := r.name
  type := r.type
  content := r.content
  ttl := r.ttl
  proxied := r.proxied
  priority := r.priority

end CfRecord

structure ProviderZone where
  id : Str
  name : Str
  status : Str
  nameServers : List Str
deriving DecidableEq

def CfZone.toProvider (z : CfZone) : ProviderZone where
  id := z.id
  name := z.name
  status := z.status
  nameServers := z.nameServers

section

-- How texts are parsed as JSON, unless they are not valid.
variable (parse : Http.Bytes → Option Json)

-- At most this much of a body is read.
def bodyLimit : Nat := 1048576

-- What a reply is taken for. There is nothing to look at if it has no content.
def unwrap (out : Option (Decoder α)) (init : α) (status : Nat) (body : Http.Bytes) : Except CfError α :=
  if status = 204 then
    .ok init
  else
    let data := body.take bodyLimit
    let env := if data ≠ [] then (parse data).elim {} CfEnvelope.decode else {}
    match env.err status with
    | some err => .error err
    | none =>
      match out with
      | none => .ok init
      | some decode =>
        match (parse data).bind rawResult with
        | none => .error .malformedResponse
        | some none => .ok init
        | some (some j) =>
          match decode init j with
          | none => .error .malformedResult
          | some a => .ok a

def received (out : Option (Decoder α)) (init : α) : Cloudflare.Exchange → Except CfError α
  | .unsent err => .error (.request err)
  | .failed _ => .error .failed
  | .response status body _ => unwrap parse out init status body

def cfDo (r : Cloudflare.Request) (out : Option (Decoder α)) (init : α) : Net (Except CfError α) :=
  return received parse out init (← send r)

def recordsPath (zoneID : Str) : Http.Bytes :=
  bytes ("/zones/" : Str) ++ Http.pathEscape (bytes zoneID) ++ bytes ("/dns_records" : Str)

def recordPath (zoneID recordID : Str) : Http.Bytes :=
  recordsPath zoneID ++ [Http.slash] ++ Http.pathEscape (bytes recordID)

def cfRecordBody (r : RecordInput) : Json :=
  let ttl : List (Str × Json) := if 0 < r.ttl then [("ttl", .number (itoa r.ttl.toNat))] else []
  let priority : List (Str × Json) :=
    if 0 < r.priority then [("priority", .number (itoa r.priority.toNat))] else []
  .object ([("type".toList, .string r.type), ("name".toList, .string r.name), ("content".toList, .string r.content),
    ("proxied".toList, .bool r.proxied)] ++ ttl ++ priority)

def cfPatchBody (p : RecordPatch) : Json :=
  .object (List.reduceOption [
    p.type.map ("type".toList, .string ·), p.name.map ("name".toList, .string ·),
    p.content.map ("content".toList, .string ·), p.ttl.map fun n => ("ttl".toList, .number (itoa n.toNat)),
    p.priority.map fun n => ("priority".toList, .number (itoa n.toNat)), p.proxied.map ("proxied".toList, .bool ·)
  ])

namespace Provider

def zonesRequest : Cloudflare.Request where
  method := "GET"
  path := bytes ("/zones" : Str)
  query := [("per_page", "50")]

def listZones : Net (Except CfError (List ProviderZone)) := do
  let zones ← cfDo parse zonesRequest (some (decodeList {} CfZone.decode)) []
  return zones.map (·.map CfZone.toProvider)

def recordsRequest (zoneID : Str) : Cloudflare.Request where
  method := "GET"
  path := recordsPath zoneID
  query := [("per_page", "100")]

def listRecords (zoneID : Str) : Net (Except CfError (List ProviderRecord)) := do
  let recs ← cfDo parse (recordsRequest zoneID) (some (decodeList {} CfRecord.decode)) []
  return recs.map (·.map CfRecord.toProvider)

def createRecord (zoneID : Str) (input : RecordInput) : Net (Except CfError ProviderRecord) := do
  let r : Cloudflare.Request := { method := "POST", path := recordsPath zoneID, body := some (cfRecordBody input) }
  let found ← cfDo parse r (some CfRecord.decode) {}
  return found.map CfRecord.toProvider

def updateRecord (zoneID recordID : Str) (patch : RecordPatch) : Net (Except CfError ProviderRecord) := do
  let r : Cloudflare.Request :=
    { method := "PATCH", path := recordPath zoneID recordID, body := some (cfPatchBody patch) }
  let found ← cfDo parse r (some CfRecord.decode) {}
  return found.map CfRecord.toProvider

def deleteRecord (zoneID recordID : Str) : Net (Except CfError Unit) :=
  cfDo parse { method := "DELETE", path := recordPath zoneID recordID } none ()

end Provider
end
end Hanzodns
