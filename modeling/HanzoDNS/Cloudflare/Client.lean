import HanzoDNS.Cloudflare.Basic
import HanzoDNS.Cloudflare.Http

open Strings Json

namespace Cloudflare

structure Zone where
  id : Str := []
  name : Str := []
  status : Str := []
deriving DecidableEq

def Zone.decode : Decoder Zone :=
  decodeStruct fun members z => do
    let id ← field "id" decodeString members z.id
    let name ← field "name" decodeString members z.name
    let status ← field "status" decodeString members z.status
    return { id, name, status }

def Record.zero : Record where
  id := []
  type := []
  name := []
  content := []
  ttl := 0
  priority := none
  proxied := none

def Record.decode : Decoder Record :=
  decodeStruct fun members r => do
    let id ← field "id" decodeString members r.id
    let type ← field "type" decodeString members r.type
    let name ← field "name" decodeString members r.name
    let content ← field "content" decodeString members r.content
    let ttl ← field "ttl" decodeInt64 members r.ttl
    let priority ← field "priority" (decodePointer 0 decodeInt64) members r.priority
    let proxied ← field "proxied" (decodePointer false decodeBool) members r.proxied
    return { id, type, name, content, ttl, priority, proxied }

structure PageInfo where
  page : Int := 0
  perPage : Int := 0
  totalPages : Int := 0
  count : Int := 0
  totalCount : Int := 0

def PageInfo.decode : Decoder PageInfo :=
  decodeStruct fun members i => do
    let page ← field "page" decodeInt64 members i.page
    let perPage ← field "per_page" decodeInt64 members i.perPage
    let totalPages ← field "total_pages" decodeInt64 members i.totalPages
    let count ← field "count" decodeInt64 members i.count
    let totalCount ← field "total_count" decodeInt64 members i.totalCount
    return { page, perPage, totalPages, count, totalCount }

structure ApiError where
  code : Int := 0
  message : Str := []
deriving DecidableEq

def ApiError.decode : Decoder ApiError :=
  decodeStruct fun members e => do
    let code ← field "code" decodeInt64 members e.code
    let message ← field "message" decodeString members e.message
    return { code, message }

structure ApiResponse (α : Type) where
  success : Bool := false
  errors : List ApiError := []
  result : α
  resultInfo : Option PageInfo := none

def ApiResponse.decode (decode : Decoder α) : Decoder (ApiResponse α) :=
  decodeStruct fun members r => do
    let success ← field "success" decodeBool members r.success
    let errors ← field "errors" (decodeList {} ApiError.decode) members r.errors
    let result ← field "result" decode members r.result
    let resultInfo ← field "result_info" (decodePointer {} PageInfo.decode) members r.resultInfo
    return { success, errors, result, resultInfo }

inductive ClientError
  | request (err : Str)
  | read (err : Str)
  | api (first : ApiError)
  | status (method : Str) (path : Http.Bytes) (status : Nat)
  | malformed
deriving DecidableEq

section

-- How texts are parsed as JSON, unless they are not valid.
variable (parse : Http.Bytes → Option Json)

def decodeReply (decode : Decoder α) (zero : α) (data : Http.Bytes) : Except ClientError (ApiResponse α) :=
  ((parse data).bind (ApiResponse.decode decode { result := zero })).elim (.error .malformed) .ok

-- The result of an error, whatever it is, is accepted.
def decodeRaw : Decoder Unit :=
  fun _ _ => some ()

-- What is read of a reply that is not the last of too many requests.
def readReply (r : Request) (status : Nat) (body : Http.Bytes) : Option Str → Except ClientError Http.Bytes
  | some err => .error (.read err)
  | none =>
    if 400 ≤ status then
      match (decodeReply parse decodeRaw () body).toOption.bind (·.errors.head?) with
      | some first => .error (.api first)
      | none => .error (.status r.method r.path status)
    else
      .ok body

def tooManyRequests : Nat := 429

-- The attempts that are left. The body of a reply to too many requests has been closed.
def attempt (r : Request) : Nat → Net (Except ClientError Http.Bytes)
  | 0 => return .error (.read "http: read on closed response body")
  | n + 1 => do
    match ← send r with
    | .unsent err | .failed err => return .error (.request err)
    | .response status body err =>
      if status ≠ tooManyRequests then
        return readReply parse r status body err
      else
        attempt r n

namespace Client

def doRequest (r : Request) : Net (Except ClientError Http.Bytes) :=
  attempt parse r 3

def zonesRequest : Request where
  method := "GET"
  path := bytes ("/zones" : Str)
  query := [("per_page", "50")]

def listZones : Net (Except ClientError (List Zone)) := do
  match ← doRequest parse zonesRequest with
  | .error err => return .error err
  | .ok data => return (decodeReply parse (decodeList {} Zone.decode) [] data).map (·.result)

-- The id of the zone is not escaped.
def recordsPath (zoneID : Str) : Http.Bytes :=
  bytes ("/zones/" : Str) ++ bytes zoneID ++ bytes ("/dns_records" : Str)

def recordsRequest (zoneID : Str) (page : Nat) : Request where
  method := "GET"
  path := recordsPath zoneID
  query := [("per_page", "100"), ("page", Strconv.itoa page)]

def listRecordsFrom (zoneID : Str) : Nat → Nat → List Record → Net (Option (Except ClientError (List Record)))
  | 0, _, _ => return none
  | fuel + 1, page, all => do
    match ← doRequest parse (recordsRequest zoneID page) with
    | .error err => return some (.error err)
    | .ok data =>
      match decodeReply parse (decodeList .zero Record.decode) [] data with
      | .error err => return some (.error err)
      | .ok resp =>
        let all := all ++ resp.result
        if resp.resultInfo.all fun info => info.totalPages ≤ (page : Int) then
          return some (.ok all)
        else
          listRecordsFrom zoneID fuel (page + 1) all

def listRecords (fuel : Nat) (zoneID : Str) : Net (Option (Except ClientError (List Record))) :=
  listRecordsFrom parse zoneID fuel 1 []

end Client
end
end Cloudflare
