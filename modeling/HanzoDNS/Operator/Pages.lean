import HanzoDNS.Operator.Reconcile

open Strings

-- The reconciler of Cloudflare Pages sites, which leaves the DNS of a site to a record of its own.
namespace Operator

structure PagesProjectSpec where
  accountID : Str
  projectName : Str
  productionBranch : Str
  customDomain : Str
  zoneRef : Str
deriving DecidableEq

inductive PagesPhase
  | pending
  | ready
  | error
deriving DecidableEq

structure PagesProjectStatus where
  phase : Option PagesPhase
  subdomain : Str
deriving DecidableEq

-- The key of an object is its namespace and its name.
structure PagesProject where
  key : Str × Str
  uid : Str
  deletionTimestamp : Option Nat
  spec : PagesProjectSpec
  status : PagesProjectStatus
deriving DecidableEq

structure OwnerReference where
  kind : Str
  name : Str
  uid : Str
deriving DecidableEq

def PagesProject.ref (pp : PagesProject) : OwnerReference where
  kind := "PagesProject"
  name := pp.key.2
  uid := pp.uid

-- A record with the namespace that it is in and the owner that controls it, if there is one.
structure OwnedRecord where
  ns : Str
  record : DnsRecord
  controller : Option OwnerReference
deriving DecidableEq

def OwnedRecord.key (o : OwnedRecord) : Str × Str :=
  (o.ns, o.record.name)

structure Cluster where
  projects : Table PagesProject.key
  records : Table OwnedRecord.key

-- The schema has a default for the TTL.
def DnsRecordSpec.defaulted (spec : DnsRecordSpec) : DnsRecordSpec :=
  { spec with ttl := if spec.ttl = 0 then 300 else spec.ttl }

def OwnedRecord.defaulted (o : OwnedRecord) : OwnedRecord :=
  { o with record.spec := o.record.spec.defaulted }

-- What the library does in order to make an object the controller of another one. It only fails if there is
-- another controller.
structure Runtime where
  setControllerReference : PagesProject → OwnedRecord → Option OwnedRecord
  sets : setControllerReference pp o = some o' → o' = { o with controller := some pp.ref }
  accepts : o.controller = none ∨ o.controller = some pp.ref → (setControllerReference pp o).isSome

-- An object that does not exist is created. Nothing is written if it cannot be mutated.
def createOrUpdate (records : Table OwnedRecord.key) (fresh : OwnedRecord) (mutate : OwnedRecord → Option OwnedRecord) :
    Option (Table OwnedRecord.key) :=
  (mutate ((records.get fresh.key).getD fresh)).map fun o => records.put o.defaulted

namespace Cloudflare

structure PagesProject where
  name : Str
  subdomain : Str
  productionBranch : Str
deriving DecidableEq

-- The answers of Cloudflare, or the text of an error.
structure Pages where
  getPagesProject : (accountID name : Str) → Except Str (Option PagesProject)
  createPagesProject : (accountID : Str) → PagesProject → Except Str PagesProject
  addPagesDomain : (accountID project domain : Str) → Except Str Unit

end Cloudflare

structure PagesFaults where
  get : Bool := false
  record : Bool := false
  status : Bool := false

namespace PagesProject

variable (pp : PagesProject)

def cloudflareName : Str :=
  if pp.spec.projectName = [] then pp.key.2 else pp.spec.projectName

def ensureProject (cf : Cloudflare.Pages) : Except Str Cloudflare.PagesProject := do
  match ← cf.getPagesProject pp.spec.accountID pp.cloudflareName with
  | some proj => return proj
  | none =>
    let branch := if pp.spec.productionBranch = [] then "main".toList else pp.spec.productionBranch
    cf.createPagesProject pp.spec.accountID { name := pp.cloudflareName, subdomain := [], productionBranch := branch }

def domainKey : Str × Str :=
  (pp.key.1, pp.key.2 ++ "-domain".toList)

def domainSpec (subdomain : Str) : DnsRecordSpec where
  zoneRef := pp.spec.zoneRef
  name := pp.spec.customDomain
  type := "CNAME"
  content := subdomain
  ttl := 0
  priority := none
  proxied := true
  syncToCloudflare := true

-- The record under the name for the domain, before anything is known about it.
def freshRecord : OwnedRecord where
  ns := pp.domainKey.1
  record := {
    name := pp.domainKey.2
    deletionTimestamp := none
    finalizers := []
    spec := {
      zoneRef := [], name := [], type := [], content := [], ttl := 0, priority := none, proxied := false
      syncToCloudflare := false
    }
    status := { phase := none, cloudflareRecordID := [], lastSyncTime := none }
  }
  controller := none

-- Nothing is looked at before the specification is overwritten.
def ensureDomainRecord (rt : Runtime) (f : PagesFaults) (records : Table OwnedRecord.key) (subdomain : Str) :
    Except Str (Table OwnedRecord.key) :=
  let mutated := createOrUpdate records pp.freshRecord fun o =>
    rt.setControllerReference pp { o with record.spec := pp.domainSpec subdomain }
  match mutated with
  | some records => if f.record then .error "kubernetes" else .ok records
  | none => .error "already owned"

def wire (rt : Runtime) (cf : Cloudflare.Pages) (f : PagesFaults) (records : Table OwnedRecord.key) (subdomain : Str) :
    Except Str (Table OwnedRecord.key) :=
  if pp.spec.customDomain ≠ [] then do
    cf.addPagesDomain pp.spec.accountID pp.cloudflareName pp.spec.customDomain
    if pp.spec.zoneRef ≠ [] then pp.ensureDomainRecord rt f records subdomain else return records
  else
    return records

end PagesProject

-- The reconciler has no client if there is no API token.
structure PagesProjectReconciler where
  rt : Runtime
  cf : Option Cloudflare.Pages

namespace PagesProjectReconciler

def updateStatus (f : PagesFaults) (w : Cluster) (pp : PagesProject) (status : PagesProjectStatus) (result : Result) :
    Cluster × Except Failure Result :=
  if f.status then (w, .error .kubernetes)
  else ({ w with projects := w.projects.put { pp with status } }, .ok result)

def fail (f : PagesFaults) (w : Cluster) (pp : PagesProject) : Cluster × Except Failure Result :=
  updateStatus f w pp { pp.status with phase := some .error } (some 60)

def reconcile (r : PagesProjectReconciler) (f : PagesFaults) (w : Cluster) (key : Str × Str) :
    Cluster × Except Failure Result :=
  if f.get then
    (w, .error .kubernetes)
  else match w.projects.get key with
    | none => (w, .ok none)
    | some pp =>
      if pp.deletionTimestamp.isSome then
        (w, .ok none)
      else match r.cf with
        | none => (w, .ok none)
        | some cf =>
          match pp.ensureProject cf with
          | .error _ => fail f w pp
          | .ok proj =>
            match pp.wire r.rt cf f w.records proj.subdomain with
            | .error _ => fail f w pp
            | .ok records =>
              updateStatus f { w with records } pp { phase := some .ready, subdomain := proj.subdomain } (some 600)

end PagesProjectReconciler
end Operator
