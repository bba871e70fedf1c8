import HanzoDNS.Lib.Channel
import HanzoDNS.K8sExternal.Basic
import HanzoDNS.Transfer.Basic

open Dns Strings Etcd Plugin Kubernetes Channel

namespace K8sExternal

-- The order in which a map is read.
structure KeyOrder where
  keys : List GroupKey → List GroupKey
  perm : ∀ l, (keys l).Perm l

-- Records whose names were not seen before, and all the names that are seen now.
def unseen (seen : List Str) : List RR → List RR × List Str
  | [] => ([], seen)
  | rr :: rrs =>
    if rr.name ∈ seen then
      unseen seen rrs
    else
      let (rest, seen) := unseen (rr.name :: seen) rrs
      (rr :: rest, seen)

def nonempty (rrs : List RR) : List (List RR) :=
  if rrs = [] then [] else [rrs]

namespace External

variable (lib : Library) (e : External) (env : Env)

section

variable (services : List Etcd.Service) (name : Str)

def question : State where
  question := name
  qtype := 0

def addressBatches : List (List RR) :=
  nonempty (e.a lib env.lookup services (question name)).records ++
  nonempty (e.aaaa lib env.lookup services (question name)).records

def srvRecords : List RR :=
  (e.srv lib env.lookup services (question name)).records

-- The SRV records are sent together, and then one by one.
def endpointBatches : List (List RR) :=
  let recs := e.srvRecords lib env services name
  e.addressBatches lib env services name ++ [recs] ++ recs.map ([·])

end

-- What is sent for services with addresses outside of the cluster. A name only gets one SRV record.
def serviceBatches : (seen : List Str) → List Etcd.Service → List (List RR)
  | _, [] => []
  | seen, s :: svcs =>
    let name := Etcd.domain lib.toLabels s.key
    let (recs, seen) := unseen seen (e.srvRecords lib env [s] name)
    (if s.targetStrip = 0 then e.addressBatches lib env [s] name else []) ++ recs.map ([·]) ++
      serviceBatches seen svcs

def groupBatches (groups : List (GroupKey × Etcd.Service)) (key : GroupKey) : List (List RR) :=
  let svcs := (groups.filter (·.1 = key)).map (·.2)
  let name := Etcd.domain lib.toLabels key.base
  match key.kind with
  | .endpoint =>
    e.endpointBatches lib env svcs name ++
      svcs.flatMap fun s => e.endpointBatches lib env [s] (Etcd.domain lib.toLabels s.key)
  | .portProtocol => [e.srvRecords lib env svcs name]

def body (order : KeyOrder) (zone : Str) : List (List RR) :=
  let nsName := "ns1.".toList ++ e.apex ++ '.' :: zone
  let groups := env.k.headlessServices lib env.cluster zone e.headless
  [[{ name := zone, ttl := e.ttl, data := .ns nsName }]] ++
    (e.addresses env { question := [], qtype := 0, zone } nsName).map ([·]) ++
    e.serviceBatches lib env [] (env.k.externalServices lib env.cluster zone e.headless) ++
    (order.keys (groups.map (·.1)).eraseDups).flatMap (e.groupBatches lib env groups)

def transfer (order : KeyOrder) (zone : Str) (serial : UInt32) : Except Transfer.Error (List (Op (List RR))) :=
  if Zones.matches lib.isSubDomain e.zones zone ≠ zone then
    .error .notAuthoritative
  else
    let zone := if zone = ['.'] then [] else zone
    let soa := e.soa lib env zone
    if serial ≠ 0 ∧ serial ≥ Config.externalSerial env.cluster then
      .ok [.send [soa], .close]
    else
      .ok (([soa] :: e.body lib env order zone ++ [[soa]]).map .send ++ [.close])

end External
end K8sExternal
