import HanzoDNS.Lib.Interaction
import HanzoDNS.Store.Calls

open Strings Prog

namespace Hanzodns

structure RecordInput where
  name : Str
  type : Str
  content : Str
  ttl : UInt32
  proxied : Bool
  priority : UInt16
deriving DecidableEq

inductive ProviderCall
  | zoneIDForName (name : Str)
  | listRecords (zoneID : Str)
  | createRecord (zoneID : Str) (input : RecordInput)
  | updateRecord (zoneID recordID : Str) (patch : RecordPatch)
  | deleteRecord (zoneID recordID : Str)
deriving DecidableEq

abbrev ProviderCall.Result : ProviderCall → Type
  | zoneIDForName _ => Str
  | listRecords _ => List ProviderRecord
  | createRecord .. | updateRecord .. => ProviderRecord
  | deleteRecord .. => Unit

structure Provider where
  token : Str
deriving DecidableEq

-- What a handler asks of its surroundings. Each question is answered in one atomic step: an operation of
-- the store in one critical section, a call of the provider or of the key management in one exchange.
inductive Query
  | store (org : Org) (c : Call)
  | provider (p : Provider) (c : ProviderCall)
  | kmsSecret (org : Org) (path : Str)
  | now
deriving DecidableEq

-- Errors of the outside world are given by their texts.
abbrev Query.Answer : Query → Type
  | store _ c => Except Error c.Result
  | provider _ c => Except Str c.Result
  | kmsSecret .. => Except Str Str
  | now => Time

abbrev Answered := Prog.Event Query.Answer

abbrev Handler := Prog Query.Answer

inductive Body
  | empty
  | error (code message : Str)
  | zone (z : Zone)
  | zones (zs : Multiset Zone) (total : Nat)
  | record (r : Record)
  | records (rs : Multiset Record) (total : Nat)
  | synced (results : List SyncResponse) (total : Nat)
deriving DecidableEq

structure Response where
  status : Nat
  body : Body
deriving DecidableEq

def writeError (status : Nat) (code msg : Str) : Response where
  status := status
  body := .error code msg

abbrev Query.ofStore (org : Org) (c : Call) : Handler (Except Error c.Result) :=
  query (A := Query.Answer) (.store org c)

abbrev Provider.call (p : Provider) (c : ProviderCall) : Handler (Except Str c.Result) :=
  query (A := Query.Answer) (.provider p c)

abbrev kmsSecret (org : Org) (path : Str) : Handler (Except Str Str) :=
  query (A := Query.Answer) (.kmsSecret org path)

abbrev timeNow : Handler Time :=
  query (A := Query.Answer) .now

def validProviders : List Str :=
  [providerAuthoritative, providerCloudflare]

-- The form in which texts are quoted in messages.
variable (quote : Str → Str)

def Error.text : Error → Str
  | zoneExists key => "zone " ++ quote key ++ " already exists"
  | zoneNotFound key => "zone " ++ quote key ++ " not found"
  | recordNotFound id => "record " ++ quote id ++ " not found"
  | invalidType type => "invalid record type " ++ quote type
  | mirrorWithoutId => "mirror record requires an id"

def normProvider (p : Str) : Except Str Str :=
  if p = [] then
    .ok providerAuthoritative
  else if p ∉ validProviders then
    .error ("unknown provider " ++ quote p)
  else
    .ok p

def providerFor (org : Org) (kind : Str) : Handler (Except Str (Option Provider)) :=
  if kind = [] ∨ kind = providerAuthoritative then
    return .ok none
  else if kind = providerCloudflare then do
    match ← kmsSecret org "integrations/cloudflare/api_token" with
    | .error err => return .error err
    | .ok token => return .ok (some { token })
  else
    return .error ("unknown provider " ++ quote kind)

inductive BackendError
  | zoneNotFound
  | provider (message : Str)
deriving DecidableEq

-- How the records of a zone are served: by the local store, or by a provider under its own zone id.
def zoneBackend (org : Org) (zoneName : Str) : Handler (Except BackendError (Option (Provider × Str))) := do
  match ← Query.ofStore org (.zoneProvider zoneName) with
  | .ok (some kind) =>
    if kind = providerAuthoritative then
      return .ok none
    else
      match ← providerFor quote org kind with
      | .error err => return .error (.provider err)
      -- The store reports a zone without a provider as authoritative, so there always is a connector.
      | .ok none => return .ok none
      | .ok (some prov) =>
        match ← prov.call (.zoneIDForName zoneName) with
        | .error err => return .error (.provider err)
        | .ok zoneID => return .ok (some (prov, zoneID))
  | _ => return .error .zoneNotFound

def Query.Probes (org : Org) : Query → Prop
  | store o (.zoneProvider _) | kmsSecret o _ => o = org
  | provider _ (.zoneIDForName _) => True
  | _ => False

-- The events that lead to the connector of a zone's provider and the provider's id of the zone.
def connected (org : Org) (zone token zoneID : Str) : List Answered := [
  ⟨.store org (.zoneProvider zone), .ok (some providerCloudflare)⟩,
  ⟨.kmsSecret org "integrations/cloudflare/api_token", .ok token⟩,
  ⟨.provider { token } (.zoneIDForName zone), .ok zoneID⟩
]

theorem zoneBackend_meets {adm : List Answered → Query → Prop}
    {post : List Answered → Except BackendError (Option (Provider × Str)) → Prop} {h : List Answered}
    (probes : ∀ h q, q.Probes org → adm h q)
    (refused : ∀ es err, (∀ x ∈ es, x.1.Probes org) → post (h ++ es) (.error err))
    (served : ∀ kind, kind ≠ providerCloudflare →
      post (h ++ [⟨.store org (.zoneProvider zone), .ok (some kind)⟩]) (.ok none)) (delegated : ∀ token zoneID,
      post (h ++ connected org zone token zoneID) (.ok (some ({ token }, zoneID)))) :
    (zoneBackend quote org zone).Meets adm post h := by
  have ne : providerAuthoritative ≠ providerCloudflare := by decide
  rw [zoneBackend, meets_query_bind]
  refine ⟨probes _ _ rfl, fun a => ?_⟩
  match a with
  | .error _ | .ok none => exact refused _ _ (by simp [Query.Probes])
  | .ok (some kind) =>
    dsimp only
    split
    case isTrue hk => exact served kind (hk ▸ ne)
    case isFalse hk =>
      rw [meets_bind, providerFor]
      split
      case isTrue hk' =>
        have hk' := hk'.resolve_right hk
        subst hk'
        exact served [] (by decide)
      split
      case isFalse => exact refused _ _ (by simp [Query.Probes])
      case isTrue hc =>
        subst hc
        rw [meets_query_bind]
        refine ⟨probes _ _ rfl, fun a => ?_⟩
        cases a
        case error =>
          rw [List.append_assoc]
          exact refused _ _ (by simp [Query.Probes])
        case ok token =>
          refine ⟨probes _ _ trivial, fun a => ?_⟩
          cases a
          case error =>
            simp only [List.append_assoc]
            exact refused _ _ (by simp [Query.Probes])
          case ok zoneID =>
            simp only [List.append_assoc]
            exact delegated token zoneID

def toRecord (pr : ProviderRecord) (now : Time) : Record where
  id := pr.id
  name := pr.name
  type := pr.type
  ttl := pr.ttl
  content := pr.content
  priority := pr.priority
  proxied := pr.proxied
  createdAt := now
  updatedAt := now

-- A record as its provider has it, without the times that are only kept locally.
def Record.upstream (r : Record) : ProviderRecord where
  id := r.id
  name := r.name
  type := r.type
  content := r.content
  ttl := r.ttl
  proxied := r.proxied
  priority := r.priority

@[simp]
theorem Store.mirror_upstream : (mirror pr existing now).upstream = pr :=
  rfl

def writeBackendError : BackendError → Response
  | .zoneNotFound => writeError 404 "not_found" "zone not found"
  | .provider err => writeError 502 "provider_error" err

-- The handlers tell the errors of the store apart by their texts.
def writeZoneError (err : Error) : Response :=
  if contains (err.text quote) "already exists" then
    writeError 409 "conflict" (err.text quote)
  else
    writeError 500 "internal_error" (err.text quote)

def writeRecordError (err : Error) : Response :=
  if contains (err.text quote) "not found" then
    writeError 404 "not_found" (err.text quote)
  else
    writeError 400 "bad_request" (err.text quote)

def handleListZones (org : Org) : Handler Response := do
  let zones := (← Query.ofStore org .listZones).toOption.getD 0
  return { status := 200, body := .zones zones zones.card }

def handleGetZone (org : Org) (zoneName : Str) : Handler Response := do
  match ← Query.ofStore org (.getZone zoneName) with
  | .ok (some z) => return { status := 200, body := .zone z }
  | _ => return writeError 404 "not_found" "zone not found"

structure ZoneBody where
  zone : Str
  provider : Str
deriving DecidableEq

-- Here and below, the body of a request is `none` if it is not valid JSON.
def handleCreateZone (org : Org) : Option ZoneBody → Handler Response
  | none => return writeError 400 "bad_request" "invalid JSON body"
  | some body =>
    if body.zone = [] then
      return writeError 400 "bad_request" "zone name is required"
    else
      match normProvider quote body.provider with
      | .error err => return writeError 400 "bad_request" err
      | .ok provider => do
        match ← Query.ofStore org (.createZone body.zone provider) with
        | .error err => return writeZoneError quote err
        | .ok z => return { status := 201, body := .zone z }

def handleDeleteZone (org : Org) (zoneName : Str) : Handler Response := do
  match ← Query.ofStore org (.deleteZone zoneName) with
  | .error err => return writeError 404 "not_found" (err.text quote)
  | .ok _ => return { status := 200, body := .empty }

def handleListRecords (org : Org) (zoneName : Str) : Handler Response := do
  match ← zoneBackend quote org zoneName with
  | .error err => return writeBackendError err
  | .ok (some (prov, zoneID)) =>
    match ← prov.call (.listRecords zoneID) with
    | .error err => return writeError 502 "provider_error" err
    | .ok prs =>
      let now ← timeNow
      return { status := 200, body := .records (prs.map (toRecord · now)) prs.length }
  | .ok none =>
    match ← Query.ofStore org (.listRecords zoneName) with
    | .error err => return writeError 404 "not_found" (err.text quote)
    | .ok records => return { status := 200, body := .records records records.card }

def handleGetRecord (org : Org) (zoneName recordID : Str) : Handler Response := do
  match ← Query.ofStore org (.getRecord zoneName recordID) with
  | .error err => return writeError 404 "not_found" (err.text quote)
  | .ok r => return { status := 200, body := .record r }

-- The end of the requests that create or update a record at the provider. A failure to mirror the record
-- is only logged.
def mirrorRecord (org : Org) (zoneName : Str) (status : Nat) (pr : ProviderRecord) : Handler Response := do
  let _ ← Query.ofStore org (.putMirror zoneName pr)
  let now ← timeNow
  return { status, body := .record (toRecord pr now) }

structure RecordBody where
  name : Str
  type : RecordType
  ttl : UInt32
  content : Str
  priority : UInt16
  proxied : Bool
deriving DecidableEq

def handleCreateRecord (org : Org) (zoneName : Str) : Option RecordBody → Handler Response
  | none => return writeError 400 "bad_request" "invalid JSON body"
  | some body =>
    if body.name = [] then
      return writeError 400 "bad_request" "name is required"
    else if body.type = [] then
      return writeError 400 "bad_request" "type is required"
    else if body.content = [] then
      return writeError 400 "bad_request" "content is required"
    else do
      let ttl := if body.ttl = 0 then 300 else body.ttl
      match ← zoneBackend quote org zoneName with
      | .error err => return writeBackendError err
      | .ok (some (prov, zoneID)) =>
        let input := {
          name := body.name, type := body.type, content := body.content
          ttl, proxied := body.proxied, priority := body.priority
        }
        match ← prov.call (.createRecord zoneID input) with
        | .error err => return writeError 502 "provider_error" err
        | .ok pr => mirrorRecord org zoneName 201 pr
      | .ok none =>
        match ← Query.ofStore org
          (.createRecord zoneName body.name body.type ttl body.content body.priority body.proxied) with
        | .error err => return writeRecordError quote err
        | .ok r => return { status := 201, body := .record r }

def handleUpdateRecord (org : Org) (zoneName recordID : Str) : Option RecordPatch → Handler Response
  | none => return writeError 400 "bad_request" "invalid JSON body"
  | some patch => do
    match ← zoneBackend quote org zoneName with
    | .error err => return writeBackendError err
    | .ok (some (prov, zoneID)) =>
      match ← prov.call (.updateRecord zoneID recordID patch) with
      | .error err => return writeError 502 "provider_error" err
      | .ok pr => mirrorRecord org zoneName 200 pr
    | .ok none =>
      match ← Query.ofStore org (.updateRecord zoneName recordID patch) with
      | .error err => return writeRecordError quote err
      | .ok r => return { status := 200, body := .record r }

def handleDeleteRecord (org : Org) (zoneName recordID : Str) : Handler Response := do
  match ← zoneBackend quote org zoneName with
  | .error err => return writeBackendError err
  | .ok (some (prov, zoneID)) =>
    match ← prov.call (.deleteRecord zoneID recordID) with
    | .error err => return writeError 502 "provider_error" err
    | .ok _ =>
      let _ ← Query.ofStore org (.dropMirror zoneName recordID)
      return { status := 200, body := .empty }
  | .ok none =>
    match ← Query.ofStore org (.deleteRecord zoneName recordID) with
    | .error err => return writeError 404 "not_found" (err.text quote)
    | .ok _ => return { status := 200, body := .empty }

-- The loop over the entries of a sync request. Entries that were applied before one is refused stay
-- applied.
def syncZones (org : Org) (results : List SyncResponse) : List SyncZoneRequest → Handler Response
  | [] => return { status := 200, body := .synced results results.length }
  | zr :: zones =>
    if zr.zone = [] then
      return writeError 400 "bad_request" "zone name is required in each entry"
    else do
      match ← Query.ofStore org (.bulkSync zr) with
      | .error err => return writeZoneError quote err
      | .ok resp => syncZones org (results ++ [resp]) zones

def handleSync (org : Org) : Option (List SyncZoneRequest) → Handler Response
  | none => return writeError 400 "bad_request" "invalid JSON body"
  | some zones =>
    if zones = [] then
      return writeError 400 "bad_request" "at least one zone is required"
    else
      syncZones quote org [] zones

inductive Request
  | listZones
  | getZone (zone : Str)
  | createZone (body : Option ZoneBody)
  | deleteZone (zone : Str)
  | listRecords (zone : Str)
  | getRecord (zone id : Str)
  | createRecord (zone : Str) (body : Option RecordBody)
  | updateRecord (zone id : Str) (patch : Option RecordPatch)
  | deleteRecord (zone id : Str)
  | sync (body : Option (List SyncZoneRequest))
deriving DecidableEq

def handle (org : Org) : Request → Handler Response
  | .listZones => handleListZones org
  | .getZone zone => handleGetZone org zone
  | .createZone body => handleCreateZone quote org body
  | .deleteZone zone => handleDeleteZone quote org zone
  | .listRecords zone => handleListRecords quote org zone
  | .getRecord zone id => handleGetRecord quote org zone id
  | .createRecord zone body => handleCreateRecord quote org zone body
  | .updateRecord zone id p => handleUpdateRecord quote org zone id p
  | .deleteRecord zone id => handleDeleteRecord quote org zone id
  | .sync body => handleSync quote org body

-- What an event does to the store, at any reading of the clock and with any new ids.
def Store.Answers (s₁ : Store) : Answered → Store → Prop
  | ⟨.store org c, a⟩, s₂ => ∃ e, (s₁.perform e org c).store = s₂ ∧ (s₁.perform e org c).result = a
  | _, s₂ => s₂ = s₁

namespace Api

-- A request as it shows up in a history: who made it, what happened on its behalf, and the response.
structure Exchange where
  org : Org
  request : Request
  events : List Answered
  response : Response

def Step (s₁ : Store) (x : Exchange) (s₂ : Store) : Prop :=
  (handle quote x.org x.request).Path x.events x.response ∧ Steps Store.Answers s₁ x.events s₂

structure World where
  env : Env
  kmsSecret : Org → Str → Except Str Str
  provider : Provider → (c : ProviderCall) → Except Str c.Result

def World.answer (w : World) (s : Store) : (q : Query) → q.Answer × Store
  | .store org c => ((s.perform w.env org c).result, (s.perform w.env org c).store)
  | .provider p c => (w.provider p c, s)
  | .kmsSecret org path => (w.kmsSecret org path, s)
  | .now => (w.env.now, s)

theorem World.answers (w : World) (s : Store) (q : Query) :
    s.Answers ⟨q, (w.answer s q).1⟩ (w.answer s q).2 := by
  cases q
  case store => exact ⟨w.env, rfl, rfl⟩
  all_goals rfl

def World.serve (w : World) (s : Store) (org : Org) (request : Request) : Exchange × Store :=
  let served := (handle quote org request).serve w.answer s
  ({ org, request, events := served.events, response := served.result }, served.state)

theorem World.serve_step (w : World) (s : Store) (org : Org) (request : Request) :
    Step quote s (w.serve quote s org request).1 (w.serve quote s org request).2 :=
  ⟨serve_path, serve_steps w.answers⟩

end Api
end Hanzodns
