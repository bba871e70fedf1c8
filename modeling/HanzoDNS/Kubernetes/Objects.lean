import HanzoDNS.Lib.Strings

-- The objects of a cluster, as far as the server keeps them.
namespace Kubernetes

def isLabelChar (c : Char) : Bool :=
  c.isLower || c.isDigit || c = '-'

-- The name of a namespace. The API server only accepts labels in lower case.
structure Namespace where
  text : Str
  valid : text.all isLabelChar
deriving DecidableEq

inductive ServiceType
  | clusterIP
  | nodePort
  | loadBalancer
  | externalName
deriving DecidableEq

structure Port where
  name : Str
  port : Int
  protocol : Str
deriving DecidableEq

def clusterIPNone : Str := "None"

-- A service always has a first cluster IP, which can be empty.
structure Service where
  version : Str
  name : Str
  «namespace» : Namespace
  clusterIP : Str
  otherClusterIPs : List Str
  type : ServiceType
  externalName : Str
  ports : List Port
  externalIPs : List Str
deriving DecidableEq

def key (name : Str) («namespace» : Str) : Str :=
  name ++ '.' :: «namespace»

namespace Service

def index (s : Service) : Str :=
  key s.name s.namespace.text

def clusterIPs (s : Service) : List Str :=
  s.clusterIP :: s.otherClusterIPs

def headless (s : Service) : Bool :=
  s.clusterIP = clusterIPNone

end Service

structure EndpointAddress where
  ip : Str
  hostname : Str
  targetRefName : Str
deriving DecidableEq

structure EndpointSubset where
  addresses : List EndpointAddress
  ports : List Port
deriving DecidableEq

-- The service that endpoints belong to comes from a label.
structure Endpoints where
  version : Str
  name : Str
  «namespace» : Namespace
  service : Str
  subsets : List EndpointSubset
deriving DecidableEq

namespace Endpoints

def index (e : Endpoints) : Str :=
  key e.service e.namespace.text

def addresses (e : Endpoints) : List EndpointAddress :=
  e.subsets.flatMap (·.addresses)

def indexIP (e : Endpoints) : List Str :=
  e.addresses.map (·.ip)

end Endpoints

structure MultiClusterEndpoints extends Endpoints where
  clusterId : Str
deriving DecidableEq

inductive ServiceImportType
  | clusterSetIP
  | headless
deriving DecidableEq

structure ServiceImport where
  version : Str
  name : Str
  «namespace» : Namespace
  clusterIPs : List Str
  type : ServiceImportType
  ports : List Port
deriving DecidableEq

namespace ServiceImport

def index (s : ServiceImport) : Str :=
  key s.name s.namespace.text

def headless (s : ServiceImport) : Bool :=
  s.type = .headless

end ServiceImport

structure Pod where
  version : Str
  name : Str
  «namespace» : Namespace
  podIP : Str
deriving DecidableEq

-- What is counted separately: the content of the zones of the cluster, of zones for addresses outside of it, and of
-- zones for several clusters.
inductive ModifiedMode
  | internal
  | external
  | multiCluster
deriving DecidableEq

-- What the server knows about a cluster. The order of the objects is the one in which the store lists them.
structure Cluster where
  services : List Service := []
  endpoints : List Endpoints := []
  serviceImports : List ServiceImport := []
  mcEndpoints : List MultiClusterEndpoints := []
  pods : List Pod := []
  namespaces : List Namespace := []
  modified : ModifiedMode → Int := fun _ => 0
  hasSynced : Bool := true

namespace Cluster

variable (c : Cluster)

def svcIndex (idx : Str) : List Service :=
  c.services.filter (·.index = idx)

def svcIndexReverse (ip : Str) : List Service :=
  c.services.filter (ip ∈ ·.clusterIPs)

def svcExtIndexReverse (ip : Str) : List Service :=
  c.services.filter (ip ∈ ·.externalIPs)

def svcImportIndex (idx : Str) : List ServiceImport :=
  c.serviceImports.filter (·.index = idx)

def podIndex (ip : Str) : List Pod :=
  c.pods.filter (·.podIP = ip)

def epIndex (idx : Str) : List Endpoints :=
  c.endpoints.filter (·.index = idx)

def epIndexReverse (ip : Str) : List Endpoints :=
  c.endpoints.filter (ip ∈ ·.indexIP)

def mcEpIndex (idx : Str) : List MultiClusterEndpoints :=
  c.mcEndpoints.filter (·.index = idx)

def namespaceExists (name : Str) : Bool :=
  c.namespaces.any (·.text = name)

end Cluster
end Kubernetes
