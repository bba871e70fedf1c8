import HanzoDNS.Lib.Http
import HanzoDNS.Api.Basic

open Strings

namespace Hanzodns

-- The body of a request, as what the handlers decode from it. There is none if it is not valid JSON for them.
structure Payload where
  zone : Option ZoneBody
  record : Option RecordBody
  patch : Option RecordPatch
  sync : Option (List SyncZoneRequest)

-- A request as it arrives at the server. The value of a missing header is empty.
structure HttpRequest where
  method : Str
  path : Http.Bytes
  authorization : Str
  payload : Payload

-- The configuration of the server, and what comes of fetching the keys of the issuer and validating a token.
structure Server where
  oidcIssuer : Str
  apiKey : Str
  devInsecure : Str
  validateToken : Str → Except Response Org

-- The token of a header. No other letters than those in lower and in upper case fold to the ones of the scheme.
def bearer (auth : Str) : Option Str :=
  if ' ' ∈ auth ∧ toLower (auth.takeWhile (· ≠ ' ')) = "bearer" then
    some ((auth.dropWhile (· ≠ ' ')).drop 1)
  else
    none

namespace Server

def authMiddleware (srv : Server) (auth : Str) : Except Response Org :=
  if srv.apiKey = [] then
    .error (writeError 503 "unconfigured" "authentication is not configured")
  else if auth = [] then
    .error (writeError 401 "unauthorized" "missing Authorization header")
  else if bearer auth ≠ some srv.apiKey then
    .error (writeError 401 "unauthorized" "invalid bearer token")
  else
    .ok []

def oidcMiddleware (srv : Server) (auth : Str) : Except Response Org :=
  if auth = [] then
    .error (writeError 401 "unauthorized" "missing Authorization header")
  else
    match bearer auth with
    | none => .error (writeError 401 "unauthorized" "invalid Authorization header")
    | some token => srv.validateToken token

-- The org on whose behalf a request is handled. It is empty unless it comes from a token.
def authChain (srv : Server) (auth : Str) : Except Response Org :=
  if srv.oidcIssuer ≠ [] then
    srv.oidcMiddleware auth
  else if srv.apiKey ≠ [] then
    srv.authMiddleware auth
  else if srv.devInsecure = "1" then
    .ok []
  else
    .error (writeError 503 "unconfigured" "authentication is not configured")

end Server

def methodNotAllowed : Response :=
  writeError 405 "method_not_allowed" "method not allowed"

-- Bytes that are no UTF-8 become replacement characters, as they do where a name is normalized.
def text (b : Http.Bytes) : Str :=
  go b.length b
where
  go : Nat → Http.Bytes → Str
    | 0, _ => []
    | n + 1, b =>
      if b = [] then
        []
      else
        let c := ByteArray.utf8DecodeChar? ⟨b.toArray⟩ 0
        c.getD '\uFFFD' :: go n (b.drop (c.elim 1 Char.utf8Size))

def trimPrefix (b start : Http.Bytes) : Http.Bytes :=
  if start <+: b then b.drop start.length else b

def trimSuffix (b ending : Http.Bytes) : Http.Bytes :=
  if ending <:+ b then b.take (b.length - ending.length) else b

def routeParts (method : Str) (payload : Payload) : (parts : List Http.Bytes) → Except Response Request
  | [zones] =>
    if zones = bytes ("zones" : Str) then
      if method = "GET" then .ok .listZones
      else if method = "POST" then .ok (.createZone payload.zone)
      else .error methodNotAllowed
    else
      notFound
  | [zones, zone] =>
    if zones = bytes ("zones" : Str) then
      if method = "GET" then .ok (.getZone (text zone))
      else if method = "DELETE" then .ok (.deleteZone (text zone))
      else .error methodNotAllowed
    else
      notFound
  | [zones, zone, records] =>
    if zones = bytes ("zones" : Str) ∧ records = bytes ("records" : Str) then
      if method = "GET" then .ok (.listRecords (text zone))
      else if method = "POST" then .ok (.createRecord (text zone) payload.record)
      else .error methodNotAllowed
    else
      notFound
  | [zones, zone, records, id] =>
    if zones = bytes ("zones" : Str) ∧ records = bytes ("records" : Str) then
      if method = "GET" then .ok (.getRecord (text zone) (text id))
      else if method = "PATCH" ∨ method = "PUT" then .ok (.updateRecord (text zone) (text id) payload.patch)
      else if method = "DELETE" then .ok (.deleteRecord (text zone) (text id))
      else .error methodNotAllowed
    else
      notFound
  | _ => notFound
where
  notFound : Except Response Request :=
    .error (writeError 404 "not_found" "endpoint not found")

-- Finds the handler for a path below that of the zones. The path is decoded.
def apiRouter (method : Str) (path : Http.Bytes) (payload : Payload) : Except Response Request :=
  let path := trimSuffix (trimPrefix path (bytes ("/v1/dns" : Str))) [Http.slash]
  routeParts method payload (Http.segments (trimPrefix path [Http.slash]))

inductive Route
  | health
  | zones
  | sync
deriving DecidableEq

def registerRoutes : List (Http.Pattern × Route) := [
  ({ method := some "GET", segments := ["v1", "dns", "health"].map (bytes ·.toList), subtree := false }, .health),
  ({ method := none, segments := ["v1", "dns", "zones"].map (bytes ·.toList), subtree := false }, .zones),
  ({ method := none, segments := ["v1", "dns", "zones"].map (bytes ·.toList), subtree := true }, .zones),
  ({ method := none, segments := ["v1", "dns", "sync"].map (bytes ·.toList), subtree := false }, .sync)
]

inductive Dispatch
  | notFound
  | notAllowed
  | redirect (path : Http.Bytes)
  | health
  | refused (response : Response)
  | handled (org : Org) (request : Request)
deriving DecidableEq

def Server.route (srv : Server) (r : HttpRequest) : Route → Dispatch
  | .health => .health
  | .zones =>
    match srv.authChain r.authorization with
    | .error response => .refused response
    | .ok org =>
      match apiRouter r.method ((Http.unescape r.path).getD r.path) r.payload with
      | .error response => .refused response
      | .ok request => .handled org request
  | .sync =>
    match srv.authChain r.authorization with
    | .error response => .refused response
    | .ok org =>
      if r.method = "POST" then
        .handled org (.sync r.payload.sync)
      else
        .refused (writeError 405 "method_not_allowed" "only POST is allowed")

def Server.dispatch (srv : Server) (r : HttpRequest) : Dispatch :=
  match Http.handler registerRoutes r.method r.path with
  | .notFound => .notFound
  | .methodNotAllowed => .notAllowed
  | .redirect path => .redirect path
  | .handler route => srv.route r route

end Hanzodns
