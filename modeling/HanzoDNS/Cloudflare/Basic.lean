import HanzoDNS.Lib.Strings
import HanzoDNS.Lib.Table

namespace Cloudflare

@[ext]
structure Record where
  id : Str
  type : Str
  name : Str
  content : Str
  ttl : Int
  priority : Option Int
  proxied : Option Bool
deriving DecidableEq

def Record.key (r : Record) : Str × Str :=
  (r.type, r.name)

abbrev byKey (rs : List Record) : Table Record.key :=
  .ofList rs

def protectedTypes : List Str :=
  ["NS", "SOA"]

-- A TTL of zero, and an absent priority or proxy flag, are not compared.
def recordChanged (current desired : Record) : Bool :=
  current.content ≠ desired.content
    || (current.ttl ≠ desired.ttl && desired.ttl ≠ 0)
    || (desired.proxied.isSome && current.proxied ≠ desired.proxied)
    || (desired.priority.isSome && current.priority ≠ desired.priority)

-- The calls of the Cloudflare API for one zone, with the state of the service made explicit.
structure Api (σ ε : Type) where
  listRecords : σ → Except ε (List Record)
  createRecord : σ → Record → σ × Except ε Record
  updateRecord : σ → Str → Record → σ × Except ε Record
  deleteRecord : σ → Str → σ × Except ε Unit

inductive Operation
  | create
  | update
  | delete

structure SyncError (ε : Type) where
  operation : Operation
  type : Str
  name : Str
  cause : ε

structure SyncResult (ε : Type) where
  created : Nat := 0
  updated : Nat := 0
  deleted : Nat := 0
  errors : List (SyncError ε) := []

namespace SyncResult

def fail (result : SyncResult ε) (operation : Operation) (r : Record) (cause : ε) : SyncResult ε :=
  { result with errors := result.errors ++ [{ operation, type := r.type, name := r.name, cause }] }

end SyncResult

section

variable (api : Api σ ε)

def pushRecord (currentByKey : Table Record.key) (s : σ × SyncResult ε) (want : Record) : σ × SyncResult ε :=
  match currentByKey.get want.key with
  | none =>
    match api.createRecord s.1 want with
    | (s', .error e) => (s', s.2.fail .create want e)
    | (s', .ok _) => (s', { s.2 with created := s.2.created + 1 })
  | some found =>
    if recordChanged found want then
      match api.updateRecord s.1 found.id { want with id := found.id } with
      | (s', .error e) => (s', s.2.fail .update want e)
      | (s', .ok _) => (s', { s.2 with updated := s.2.updated + 1 })
    else
      s

def dropRecord (desiredByKey : Table Record.key) (s : σ × SyncResult ε) (found : Record) : σ × SyncResult ε :=
  if found.type ∈ protectedTypes then
    s
  else if (desiredByKey.get found.key).isSome then
    s
  else
    match api.deleteRecord s.1 found.id with
    | (s', .error e) => (s', s.2.fail .delete found e)
    | (s', .ok _) => (s', { s.2 with deleted := s.2.deleted + 1 })

-- Of several records with the same type and name on one side, only the last one is looked at. The two
-- loops run over maps, in the orders `wants` and `haves`.
def syncZone (wants haves : Table.Range Record.key) (desired : List Record) (s : σ) :
    σ × Except ε (SyncResult ε) :=
  match api.listRecords s with
  | .error e => (s, .error e)
  | .ok current =>
    let r := (wants.list (byKey desired)).foldl (pushRecord api (byKey current)) (s, {})
    let r := (haves.list (byKey current)).foldl (dropRecord api (byKey desired)) r
    (r.1, .ok r.2)

end

-- The service when all of its calls succeed. It keeps the records of the zone in a fixed order, and gives
-- every new record an id that is not in use.
def service (fresh : List Record → Str) : Api (List Record) Empty where
  listRecords rs := .ok rs
  createRecord rs r := (rs ++ [{ r with id := fresh rs }], .ok { r with id := fresh rs })
  updateRecord rs id r := (rs.map fun r' => if r'.id = id then { r with id } else r', .ok { r with id })
  deleteRecord rs id := (rs.filter (·.id ≠ id), .ok ())

end Cloudflare
