import HanzoDNS.Etcd.Msg
import HanzoDNS.Plugin.Normalize
import HanzoDNS.Request

open Dns Strings Etcd

namespace Plugin

structure State where
  question : Str
  qtype : RRType
  zone : Str := []

namespace State

variable (lib : Library)

def qname (state : State) : Str :=
  (lib.nameString state.question).text

def name (state : State) : Str :=
  toLower (state.qname lib)

-- The zone is not part of the new question.
def newWithQuestion (name : Str) (qtype : RRType) : State where
  question := lib.fqdn name
  qtype := qtype

end State

inductive Error
  | noItems
  | nsNotExposed
  | invalidRequest
  | other (text : Str)
deriving DecidableEq

-- What answers are made of, except for those to reverse lookups.
structure Backend where
  services : State → Except Error (List Service)
  -- The response of the server itself, unless there is an error.
  lookup : State → (name : Str) → (qtype : RRType) → Option Msg
  serial : State → UInt32
  minTTL : UInt32

-- The three types whose records are looked up in the same way.
inductive Family
  | a
  | aaaa
  | txt
deriving DecidableEq

-- The record for a service, and what another one with the same record has in common with it.
def Family.record (qname : Str) (serv : Service) : Family → HostType → Option (Str × RR)
  | a, .a ip => some (serv.host, serv.newA qname ip)
  | aaaa, .aaaa ip => some (serv.host, serv.newAAAA qname ip)
  | txt, .txt => some (serv.text, serv.newTXT qname)
  | _, _ => none

structure Answers where
  records : List RR := []
  truncated : Bool := false
  dup : List Str := []

def maxCnameChainLength : Nat := 10

def duplicateCNAME (r : RR) (records : List RR) : Bool :=
  records.any fun rr => rr.rrtype = .cname ∧ rr.data = r.data

def newAddress (s : Service) (name : Str) : HostType → Option RR
  | .a ip => some (s.newA name ip)
  | .aaaa ip => some (s.newAAAA name ip)
  | _ => none

def isCname (rr : RR) : Bool :=
  rr.rrtype = .cname

section

variable (lib : Library) (b : Backend) (zone : Str)

def Name.matches (n child : Str) : Bool :=
  n = child || lib.isSubDomain n child

def checkForApex (state : State) : Except Error (List Service) :=
  if state.name lib ≠ zone then
    b.services state
  else
    match b.services { state with question := File.join lib.toLabels ["apex.dns", zone] } with
    | .ok services => .ok services
    | .error _ => b.services state

-- What a service that is an alias adds. It is not followed if the chain gets too long.
def Family.followed (f : Family) (follow : Option (State → List RR → Except Error (List RR × Bool))) (state : State)
    (previous : List RR) (acc : Answers) (serv : Service) : Answers :=
  let newRecord := serv.newCNAME lib.toLabels (state.qname lib) serv.host
  let target := lib.fqdn serv.host
  match follow with
  | none => acc
  | some follow =>
    if Name.matches lib (state.name lib) target ∨ duplicateCNAME newRecord previous then
      acc
    else if lib.isSubDomain zone target then
      let next := { State.newWithQuestion lib serv.host state.qtype with zone }
      match follow next (previous ++ [newRecord]) with
      | .error _ => acc
      | .ok (records, tc) =>
        { acc with
          records := acc.records ++ if records = [] then [] else newRecord :: records
          truncated := acc.truncated || tc }
    else
      match b.lookup state target state.qtype with
      | none => acc
      | some m1 =>
        { acc with
          records := acc.records ++ newRecord :: m1.answer
          truncated := acc.truncated || (f ≠ .txt && m1.truncated) }

def Family.add (f : Family) (follow : Option (State → List RR → Except Error (List RR × Bool))) (state : State)
    (previous : List RR) (acc : Answers) (serv : Service) : Answers :=
  match serv.hostType with
  | .cname => f.followed lib b zone follow state previous acc serv
  | what =>
    match f.record (state.qname lib) serv what with
    | none => acc
    | some (key, rr) =>
      if key ∈ acc.dup then acc else { acc with records := acc.records ++ [rr], dup := key :: acc.dup }

def Family.initial (f : Family) (state : State) : Except Error (List Service) :=
  match f with
  | .txt => b.services state
  | _ => checkForApex lib b zone state

-- The records of a type, and whether they are truncated. The number says how many more aliases are followed.
def Family.lookup (f : Family) : Nat → State → (previous : List RR) → Except Error (List RR × Bool)
  | 0, state, previous => do
    let services ← f.initial lib b zone state
    let acc := services.foldl (f.add lib b zone none state previous) {}
    return (acc.records, acc.truncated)
  | left + 1, state, previous => do
    let services ← f.initial lib b zone state
    let acc := services.foldl (f.add lib b zone (some (f.lookup left)) state previous) {}
    return (acc.records, acc.truncated)

def a (state : State) : Except Error (List RR × Bool) :=
  Family.a.lookup lib b zone (maxCnameChainLength + 1) state []

def aaaa (state : State) : Except Error (List RR × Bool) :=
  Family.aaaa.lookup lib b zone (maxCnameChainLength + 1) state []

def txt (state : State) : Except Error (List RR × Bool) :=
  Family.txt.lookup lib b zone (maxCnameChainLength + 1) state []

-- What is in the answer and the additional section so far. An item is a name with a port or with an address.
structure Targets where
  records : List RR := []
  extra : List RR := []
  dup : List (Str × UInt16 × Str) := []
  lookup : List Str := []

-- Two kinds of items for one service: one decides about its record, the other about its address.
def Targets.add (acc : Targets) (record : RR) (name : Str) (port : UInt16) (addr : Str) (extra : List RR) : Targets where
  records := acc.records ++ if (name, port, []) ∈ acc.dup then [] else [record]
  extra := acc.extra ++ if (name, 0, addr) ∈ (name, port, []) :: acc.dup then [] else extra
  dup := (name, 0, addr) :: (name, port, []) :: acc.dup
  lookup := acc.lookup

def srvTarget (state : State) (weight : UInt16) (acc : Targets) (serv : Service) : Targets :=
  if serv.port = -1 then
    acc
  else
    match serv.hostType with
    | .txt => acc
    | .cname =>
      let srv := serv.newSRV lib.toLabels (state.qname lib) weight
      let target := serv.target lib.toLabels
      let acc := { acc with records := acc.records ++ [srv] }
      if target ∈ acc.lookup then
        acc
      else
        let extra :=
          if lib.isSubDomain zone target then
            match a lib b zone (State.newWithQuestion lib target .a) with
            | .ok (addr, _) => addr
            | .error _ => []
          else
            ((b.lookup state target .a).elim [] (·.answer)) ++
            ((b.lookup state target .aaaa).elim [] (·.answer.filter (!isCname ·)))
        { acc with extra := acc.extra ++ extra, lookup := target :: acc.lookup }
    | what =>
      let named := { serv with host := Etcd.domain lib.toLabels serv.key }
      let target := named.target lib.toLabels
      acc.add (named.newSRV lib.toLabels (state.qname lib) weight) target (UInt16.ofInt serv.port) serv.host
        (newAddress named target what).toList

def srv (state : State) : Except Error (List RR × List RR) := do
  let services ← b.services state
  let acc := services.foldl (srvTarget lib b zone state (srvWeight services.length)) {}
  return (acc.records, acc.extra)

-- None of the services is for mail.
def mx (state : State) : Except Error (List RR × List RR) := do
  let _ ← b.services state
  return ([], [])

def cname (state : State) : Except Error (List RR) := do
  let services ← b.services state
  return services.head?.elim [] fun serv =>
    if Net.IP.parse serv.host = none then [serv.newCNAME lib.toLabels (state.qname lib) serv.host] else []

def ptr (reverse : State → Except Error (List Service)) (state : State) : Except Error (List RR) := do
  let services ← reverse state
  let names := (services.filter fun serv => Net.IP.parse serv.host = none).eraseDupsBy (·.host = ·.host)
  return names.map fun serv => serv.newPTR lib.toLabels (state.qname lib) serv.host

structure NameServers where
  records : List RR := []
  extra : List RR := []

def nsTarget (qname : Str) (acc : NameServers) (serv : Service) : Except Error NameServers :=
  match serv.hostType with
  | .cname => .error (.other ("NS record must be an IP address: ".toList ++ serv.host))
  | .txt => .ok acc
  | what =>
    let named := { serv with host := Etcd.domain lib.toLabels serv.key }
    let target := named.target lib.toLabels
    let ns := named.newNS lib.toLabels qname
    .ok {
      records := acc.records ++ if acc.records.any (·.data = ns.data) then [] else [ns]
      extra := acc.extra ++ (newAddress named target what).toList
    }

def ns (state : State) : Except Error (List RR × List RR) := do
  let services ← b.services { state with question := File.join lib.toLabels ["ns.dns.", zone] }
  let acc ← services.foldlM (nsTarget lib (state.qname lib)) {}
  return (acc.records, acc.extra)

def soa (state : State) : RR where
  name := zone
  ttl := min b.minTTL 300
  data := .soa {
    mbox := File.join lib.toLabels ["hostmaster", zone]
    ns := File.join lib.toLabels ["ns.dns", zone]
    serial := b.serial state
    refresh := 7200
    retry := 1800
    expire := 86400
    minttl := b.minTTL
  }

def backendError (r : Msg) (rcode : Nat) (state : State) : Msg :=
  { lib.setReply r with rcode, authoritative := true, ns := [soa lib b zone state] }

end
end Plugin
