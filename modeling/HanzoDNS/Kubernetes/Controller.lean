import HanzoDNS.Lib.Keyed
import HanzoDNS.Kubernetes.Objects

-- How the server follows what happens in a cluster.
namespace Kubernetes

inductive Change (α : Type)
  | added (new : α)
  | updated (old new : α)
  | deleted (old : α)

-- Whether a change of a service concerns the zones of the cluster, and the zones for addresses outside of it.
def serviceModified : Change Service → Bool × Bool
  | .deleted old => (true, old.externalIPs ≠ [])
  | .added new => (true, new.externalIPs ≠ [])
  | .updated old new =>
    let extSvc : Bool := old.externalIPs ≠ new.externalIPs
    let intSvc : Bool := old.externalName ≠ new.externalName
    if intSvc && extSvc then
      (intSvc, extSvc)
    else if old.ports ≠ new.ports then
      (true, true)
    else
      (intSvc, extSvc)

def subsetsEquivalent (sa sb : EndpointSubset) : Bool :=
  sa.addresses.isEqv sb.addresses (fun a b => a.ip = b.ip && a.hostname = b.hostname) && sa.ports = sb.ports

def endpointsEquivalent (a b : Endpoints) : Bool :=
  a.subsets.isEqv b.subsets subsetsEquivalent

def multiclusterEndpointsEquivalent (a b : MultiClusterEndpoints) : Bool :=
  endpointsEquivalent a.toEndpoints b.toEndpoints && a.clusterId = b.clusterId

def serviceImportEquivalent : Change ServiceImport → Bool
  | .updated old new => old.type = new.type && old.ports = new.ports
  | _ => false

-- A kind of objects: how they are identified, and which counters are set when one is updated.
structure Kind (α : Type) where
  key : α → Namespace × Str
  version : α → Str
  modes : (old new : α) → List ModifiedMode

namespace Kind

def service : Kind Service where
  key s := (s.namespace, s.name)
  version := Service.version
  modes old new :=
    (if (serviceModified (.updated old new)).1 then [.internal] else []) ++
      if (serviceModified (.updated old new)).2 then [.external] else []

def endpoints : Kind Endpoints where
  key e := (e.namespace, e.name)
  version := Endpoints.version
  modes old new := if endpointsEquivalent old new then [] else [.internal]

def serviceImport : Kind ServiceImport where
  key s := (s.namespace, s.name)
  version := ServiceImport.version
  modes old new := if serviceImportEquivalent (.updated old new) then [] else [.multiCluster]

def mcEndpoints : Kind MultiClusterEndpoints where
  key e := (e.namespace, e.name)
  version e := e.version
  modes old new := if multiclusterEndpointsEquivalent old new then [] else [.multiCluster]

variable {α : Type} (kind : Kind α)

-- Objects with the same resource version are not compared.
def detectChanges (old new : α) : List ModifiedMode :=
  if kind.version old = kind.version new then [] else kind.modes old new

-- The counters that the handlers for changes set. The one for the zones of the cluster is set for whatever comes or goes.
def handle : Change α → List ModifiedMode
  | .added _ => [.internal]
  | .updated old new => kind.detectChanges old new
  | .deleted _ => [.internal]

def change (store : List α) : Delta α → Change α
  | .updated new => (store.find? (kind.key · = kind.key new)).elim (.added new) (.updated · new)
  | .deleted old => .deleted old

def modified (store : List α) (d : Delta α) : List ModifiedMode :=
  kind.handle (kind.change store d)

-- The API server gives every version of an object a resource version of its own.
def Versioned (store : List α) : Delta α → Prop
  | .updated new => ∀ old ∈ store, kind.key old = kind.key new → kind.version old = kind.version new → old = new
  | .deleted _ => True

end Kind

inductive Event
  | service (d : Delta Service)
  | endpoints (d : Delta Endpoints)
  | serviceImport (d : Delta ServiceImport)
  | mcEndpoints (d : Delta MultiClusterEndpoints)

namespace Event

def modes (c : Cluster) : Event → List ModifiedMode
  | service d => Kind.service.modified c.services d
  | endpoints d => Kind.endpoints.modified c.endpoints d
  | serviceImport d => Kind.serviceImport.modified c.serviceImports d
  | mcEndpoints d => Kind.mcEndpoints.modified c.mcEndpoints d

def store (c : Cluster) : Event → Cluster
  | service d => { c with services := d.apply Kind.service.key c.services }
  | endpoints d => { c with endpoints := d.apply Kind.endpoints.key c.endpoints }
  | serviceImport d => { c with serviceImports := d.apply Kind.serviceImport.key c.serviceImports }
  | mcEndpoints d => { c with mcEndpoints := d.apply Kind.mcEndpoints.key c.mcEndpoints }

def Versioned (c : Cluster) : Event → Prop
  | service d => Kind.service.Versioned c.services d
  | endpoints d => Kind.endpoints.Versioned c.endpoints d
  | serviceImport d => Kind.serviceImport.Versioned c.serviceImports d
  | mcEndpoints d => Kind.mcEndpoints.Versioned c.mcEndpoints d

-- An object is stored before the handlers are called. A counter is set to the current time.
def process (c : Cluster) (unix : Int) (e : Event) : Cluster :=
  { e.store c with modified := fun mode => if mode ∈ e.modes c then unix else c.modified mode }

end Event

structure Control where
  cluster : Cluster
  now : Int

namespace Control

def start (pods : List Pod) (namespaces : List Namespace) (hasSynced : Bool) : Control where
  cluster := { pods, namespaces, hasSynced }
  now := 0

structure Step (s : Control) (e : Int × Event) (s' : Control) : Prop where
  clock : s.now < e.1
  versioned : e.2.Versioned s.cluster
  eq : s' = ⟨e.2.process s.cluster e.1, e.1⟩

end Control
end Kubernetes
