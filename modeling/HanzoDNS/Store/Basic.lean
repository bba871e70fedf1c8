import HanzoDNS.Lib.Strings
import HanzoDNS.Lib.Table

open Strings

namespace Hanzodns

abbrev Org := Str

-- Instants in UTC. The store only copies them around.
abbrev Time := Nat

-- In the source this is an open string type: an API call can carry any value, and the operations
-- check it against `validRecordTypes`.
abbrev RecordType := Str

def validRecordTypes : List RecordType :=
  ["A", "AAAA", "CNAME", "MX", "TXT", "SRV", "NS", "SOA", "CAA"]

def providerAuthoritative : Str := "authoritative"

def providerCloudflare : Str := "cloudflare"

structure Record where
  id : Str
  name : Str
  type : RecordType
  ttl : UInt32
  content : Str
  priority : UInt16
  proxied : Bool
  createdAt : Time
  updatedAt : Time
deriving DecidableEq

structure Zone where
  id : Str
  name : Str
  org : Org
  provider : Str
  status : Str
  nameservers : List Str
  recordCount : Nat
  dnssecEnabled : Bool
  createdAt : Time
  updatedAt : Time
deriving DecidableEq

structure ProviderRecord where
  id : Str
  name : Str
  type : Str
  content : Str
  ttl : UInt32
  proxied : Bool
  priority : UInt16
deriving DecidableEq

structure RecordPatch where
  name : Option Str := none
  type : Option RecordType := none
  ttl : Option UInt32 := none
  content : Option Str := none
  priority : Option UInt16 := none
  proxied : Option Bool := none
deriving DecidableEq

def normZone (name : Str) : Str :=
  let name := toLower (trimSpace name)
  if hasSuffix name "." then name else name ++ ['.']

theorem normZone_ne_nil (name : Str) : normZone name ≠ [] := by
  simp only [normZone]
  split
  · intro h; simp_all
  · simp

theorem dot_suffix_normZone (name : Str) : ['.'] <:+ normZone name := by
  simp only [normZone]
  split
  · exact hasSuffix_iff.mp ‹_›
  · exact List.suffix_append _ _

theorem trimSpace_normZone (name : Str) : trimSpace (normZone name) = normZone name := by
  apply trimSpace_eq_self
  case hl =>
    intro c hc
    obtain ⟨s, hs⟩ := dot_suffix_normZone name
    rw [←hs] at hc
    simp at hc
    subst hc
    decide
  case hh =>
    intro c hc
    simp only [normZone, ←trimSpace_toLower] at hc
    split at hc
    · exact head?_trimSpace hc
    · cases hs : trimSpace (toLower name) <;> simp [hs] at hc
      case nil => subst hc; decide
      case cons => exact head?_trimSpace (s := toLower name) (by simp [hs, hc])

@[simp]
theorem toLower_normZone (name : Str) : toLower (normZone name) = normZone name := by
  have : toLower ['.'] = ['.'] := by decide
  simp only [normZone]
  split <;> simp [this]

-- The keys of the zone map are fixed points of `normZone`, so that reading a zone name back from the
-- store addresses the same zone again.
@[simp]
theorem normZone_idem (name : Str) : normZone (normZone name) = normZone name := by
  conv_lhs => rw [normZone]
  simp [trimSpace_normZone, dot_suffix_normZone]

-- A zone and its records. Record ids are the keys of the record map, and every way into the zone map
-- normalizes the zone name first.
@[ext]
structure ZoneData where
  zone : Zone
  records : Table Record.id
  norm : normZone zone.name = zone.name
deriving DecidableEq

def ZoneData.name (zd : ZoneData) : Str :=
  zd.zone.name

theorem ZoneData.name_ne_nil (zd : ZoneData) : zd.name ≠ [] := by
  rw [name, ←zd.norm]
  exact normZone_ne_nil _

@[ext]
structure Store where
  zones : Table ZoneData.name
deriving DecidableEq

def newStore : Store where
  zones := ∅

-- What a call takes from the outside world: the reading of the clock, and the results of the
-- successive calls of `uuid.New`.
structure Env where
  now : Time
  uuid : Nat → Str

inductive Error
  | zoneExists (key : Str)
  | zoneNotFound (key : Str)
  | recordNotFound (id : Str)
  | invalidType (type : RecordType)
  | mirrorWithoutId
deriving DecidableEq

-- The end of a call: its result, the state it leaves behind, which a failing call returns as well, and
-- whether it goes on to invoke the change hook.
structure Outcome (α : Type) where
  store : Store
  result : Except Error α
  notified : Bool

namespace Outcome

@[simps]
def fail (s : Store) (e : Error) : Outcome α where
  store := s
  result := .error e
  notified := false

@[simps]
def done (s : Store) (a : α) : Outcome α where
  store := s
  result := .ok a
  notified := true

variable {s : Store} {e : Error} {a : α}

-- The calls in which nothing should have happened: those that fail, and those that do not invoke the
-- change hook.
def Silent (o : Outcome α) : Prop :=
  o.notified = false ∨ ∃ e, o.result = .error e

@[simp]
theorem not_silent_done : ¬(done s a).Silent := by
  simp [Silent]

end Outcome

namespace ZoneData

def info (zd : ZoneData) : Zone :=
  { zd.zone with recordCount := zd.records.values.card }

def touch (zd : ZoneData) (now : Time) : ZoneData :=
  { zd with zone := { zd.zone with updatedAt := now } }

def putRecord (zd : ZoneData) (r : Record) : ZoneData :=
  { zd with records := zd.records.put r }

def dropRecord (zd : ZoneData) (id : Str) : ZoneData :=
  { zd with records := zd.records.drop id }

end ZoneData

namespace Store

def set (s : Store) (zd : ZoneData) : Store where
  zones := s.zones.put zd

-- The single tenant-isolation gate: a foreign zone and an absent one are both `none`.
def zoneForOrg (s : Store) (org : Org) (name : Str) : Option ZoneData :=
  match s.zones.get (normZone name) with
  | none => none
  | some zd => if zd.zone.org = org then some zd else none

def listZones (s : Store) (org : Org) : Multiset Zone :=
  (s.zones.values.filter (·.zone.org = org)).map ZoneData.info

def getZone (s : Store) (org : Org) (name : Str) : Option Zone :=
  (s.zoneForOrg org name).map ZoneData.info

def newZone (e : Env) (org : Org) (name provider : Str) : ZoneData where
  zone := {
    id := e.uuid 0
    name := normZone name
    org := org
    provider := provider
    status := "active"
    nameservers := ["ns1.hanzo.ai.", "ns2.hanzo.ai."]
    recordCount := 0
    dnssecEnabled := false
    createdAt := e.now
    updatedAt := e.now
  }
  records := ∅
  norm := normZone_idem name

def createZone (s : Store) (e : Env) (org : Org) (name provider : Str) : Outcome Zone :=
  match s.zones.get (normZone name) with
  | some _ => .fail s (.zoneExists (normZone name))
  | none => .done (s.set (newZone e org name provider)) (newZone e org name provider).zone

def zoneProvider (s : Store) (org : Org) (name : Str) : Option Str :=
  (s.zoneForOrg org name).map fun zd =>
    if zd.zone.provider = [] then providerAuthoritative else zd.zone.provider

def deleteZone (s : Store) (org : Org) (name : Str) : Outcome Unit :=
  match s.zoneForOrg org name with
  | none => .fail s (.zoneNotFound (normZone name))
  | some _ => .done { zones := s.zones.drop (normZone name) } ()

def listRecords (s : Store) (org : Org) (zone : Str) : Except Error (Multiset Record) :=
  match s.zoneForOrg org zone with
  | none => .error (.zoneNotFound (normZone zone))
  | some zd => .ok zd.records.values

def getRecord (s : Store) (org : Org) (zone id : Str) : Except Error Record :=
  match s.zoneForOrg org zone with
  | none => .error (.zoneNotFound (normZone zone))
  | some zd =>
    match zd.records.get id with
    | none => .error (.recordNotFound id)
    | some r => .ok r

def createRecord (s : Store) (e : Env) (org : Org) (zone name : Str) (rtype : RecordType)
    (ttl : UInt32) (content : Str) (priority : UInt16) (proxied : Bool) : Outcome Record :=
  if rtype ∉ validRecordTypes then
    .fail s (.invalidType rtype)
  else
    match s.zoneForOrg org zone with
    | none => .fail s (.zoneNotFound (normZone zone))
    | some zd =>
      let r : Record := {
        id := e.uuid 0, name, type := rtype, ttl, content, priority, proxied
        createdAt := e.now, updatedAt := e.now
      }
      .done (s.set ((zd.putRecord r).touch e.now)) r

-- The mirror of a provider's record, which keeps the creation time of the record it replaces.
def mirror (pr : ProviderRecord) (existing : Option Record) (now : Time) : Record where
  id := pr.id
  name := pr.name
  type := pr.type
  ttl := pr.ttl
  content := pr.content
  priority := pr.priority
  proxied := pr.proxied
  createdAt := (existing.map Record.createdAt).getD now
  updatedAt := now

def putMirror (s : Store) (e : Env) (org : Org) (zone : Str) (rec : ProviderRecord) : Outcome Unit :=
  if rec.id = [] then
    .fail s .mirrorWithoutId
  else if rec.type ∉ validRecordTypes then
    .fail s (.invalidType rec.type)
  else
    match s.zoneForOrg org zone with
    | none => .fail s (.zoneNotFound (normZone zone))
    | some zd =>
      let r := mirror rec (zd.records.get rec.id) e.now
      .done (s.set ((zd.putRecord r).touch e.now)) ()

-- This call cannot fail: dropping a record that is not there does nothing.
def dropMirror (s : Store) (e : Env) (org : Org) (zone id : Str) : Outcome Unit :=
  match s.zoneForOrg org zone with
  | none => { store := s, result := .ok (), notified := false }
  | some zd =>
    match zd.records.get id with
    | none => { store := s, result := .ok (), notified := false }
    | some _ => .done (s.set ((zd.dropRecord id).touch e.now)) ()

end Store

namespace RecordPatch

def invalidType? (patch : RecordPatch) : Option RecordType :=
  patch.type.filter (· ∉ validRecordTypes)

def applyName (patch : RecordPatch) (r : Record) : Record :=
  { r with name := patch.name.getD r.name }

def applyRest (patch : RecordPatch) (r : Record) (now : Time) : Record :=
  { r with
    type := patch.type.getD r.type
    ttl := patch.ttl.getD r.ttl
    content := patch.content.getD r.content
    priority := patch.priority.getD r.priority
    proxied := patch.proxied.getD r.proxied
    updatedAt := now }

end RecordPatch

namespace Store

-- The record is patched through a pointer into the store. Its name is written before the new type is
-- checked, so the state of the failing branch is not `s` but the one with the name already replaced.
def updateRecord (s : Store) (e : Env) (org : Org) (zone id : Str) (patch : RecordPatch) : Outcome Record :=
  match s.zoneForOrg org zone with
  | none => .fail s (.zoneNotFound (normZone zone))
  | some zd =>
    match zd.records.get id with
    | none => .fail s (.recordNotFound id)
    | some r =>
      let r := patch.applyName r
      match patch.invalidType? with
      | some t => .fail (s.set (zd.putRecord r)) (.invalidType t)
      | none =>
        let r := patch.applyRest r e.now
        .done (s.set ((zd.putRecord r).touch e.now)) r

def deleteRecord (s : Store) (e : Env) (org : Org) (zone id : Str) : Outcome Unit :=
  match s.zoneForOrg org zone with
  | none => .fail s (.zoneNotFound (normZone zone))
  | some zd =>
    match zd.records.get id with
    | none => .fail s (.recordNotFound id)
    | some _ => .done (s.set ((zd.dropRecord id).touch e.now)) ()

-- The owner name of a record, with the zone name as the zone map has it.
def fqdn (name zone : Str) : Str :=
  if name = ['@'] ∨ name = [] then zone
  else if hasSuffix name "." then name
  else name ++ ['.'] ++ zone

end Store

-- The records with which a zone contributes to the answer to a (lower-case) query name. The test on the
-- zone name compares strings, not labels.
def ZoneData.answers (zd : ZoneData) (qname : Str) (qtype : RecordType) : Multiset Record :=
  if hasSuffix qname zd.name then
    zd.records.values.filter fun r => toLower (Store.fqdn r.name zd.name) = qname ∧ r.type = qtype
  else
    0

namespace Store

def lookup (s : Store) (qname : Str) (qtype : RecordType) : Multiset Record :=
  s.zones.values.bind (·.answers (toLower qname) qtype)

def zoneNames (s : Store) : Multiset Str :=
  s.zones.keys.val

end Store
end Hanzodns
