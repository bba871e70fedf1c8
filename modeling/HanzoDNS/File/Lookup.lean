import HanzoDNS.File.Zone

open Dns

namespace File

inductive Result
  | success
  | nameError
  | delegation
  | noData
  | serverFailure
deriving DecidableEq

structure Answer where
  answer : List RR := []
  ns : List RR := []
  extra : List RR := []
  result : Result
deriving DecidableEq

-- What a lookup reads of a request: the lower-cased name of its question, the type, and whether DNSSEC
-- records are wanted.
structure Request where
  name : Str
  qtype : RRType
  dnssec : Bool

structure Msg where
  rcode : Nat
  answer : List RR

def rcodeSuccess : Nat := 0
def rcodeServerFailure : Nat := 2
def rcodeNameError : Nat := 3

-- A lookup of names outside of the zone by the server itself, with the depth of nested lookups. It can
-- fail or give no message.
abbrev Upstream := (loop : Nat) → (name : Str) → (qtype : RRType) → Except Unit (Option Msg)

-- The target of an alias. The type assertion of the source panics for other records.
def cnameTarget (rr : RR) : Option Str :=
  match rr.data with
  | .cname target => some target
  | _ => none

def additionalName (rr : RR) : Str :=
  match rr.data with
  | .srv _ _ _ target => target
  | .mx _ mx => mx
  | .svcb _ target _ => target
  | .https _ target _ => target
  | _ => []

inductive Walk
  | redirect (e : Elem) (cname : RR)
  | delegation (e : Elem)
  | found (e : Elem)
  | missing (wild : Option Elem)
deriving DecidableEq

section

variable (dns : Labels)

def join (labels : List Str) : Str :=
  if labels.getLast? = some ['.'] then
    List.intercalate ['.'] labels.dropLast ++ ['.']
  else
    dns.fqdn (List.intercalate ['.'] labels)

def substituteDNAME (qname owner target : Str) : Str :=
  if dns.isSubDomain owner qname ∧ qname ≠ owner then
    let labels := dns.splitDomainName qname
    join dns (labels.take (labels.length - dns.countLabel owner) ++ dns.splitDomainName target)
  else
    []

def synthesizeCNAME (qname : Str) (d : RR) : Option RR :=
  match d.data with
  | .dname target =>
    match substituteDNAME dns qname d.name target with
    | [] => none
    | target => some { name := qname, ttl := d.ttl, data := .cname target }
  | _ => none

-- Only the first of several DNAME records counts.
def Elem.redirection (e : Elem) (qname : Str) : Option RR :=
  match e.type .dname with
  | [] => none
  | dname :: _ => synthesizeCNAME dns qname dname

-- An element ends the walk if it redirects the name, or if it is a zone cut, unless what is asked for is the
-- DS of that cut.
def Elem.stop (e : Elem) (req : Request) (qname : Str) : Option Walk :=
  match e.redirection dns req.name with
  | some cname => some (.redirect e cname)
  | none =>
    if e.type .ns ≠ [] ∧ ¬(req.qtype = .ds ∧ e.name = qname) then some (.delegation e) else none

namespace Zone

def walkFrom (z : Zone) (req : Request) (qname : Str) : (fuel i : Nat) → (elem wild : Option Elem) → Option Walk
  | 0, _, _, _ => none
  | fuel + 1, i, elem, wild =>
    match z.nameFromRight dns qname i with
    -- Only what was found last counts.
    | (_, true) =>
      match elem with
      | some e => some (.found e)
      | none => some (.missing wild)
    | (parts, false) =>
      match z.search dns parts with
      | none =>
        let wildcard := z.search dns (replaceWithAsteriskLabel dns parts)
        walkFrom z req qname fuel (i + 1) none (wildcard.or wild)
      | some e =>
        match e.stop dns req qname with
        | some w => some w
        | none => walkFrom z req qname fuel (i + 1) (some e) wild

-- The loop overshoots the name after at most as many steps as it has runes.
def walk (z : Zone) (req : Request) (qname : Str) : Option Walk :=
  z.walkFrom dns req qname (qname.length + 2) 0 none none

variable (up : Upstream)

def doLookup (loop : Nat) (target : Str) (qtype : RRType) : List RR × Result :=
  match up loop target qtype with
  | .error _ => ([], .serverFailure)
  | .ok none => ([], .success)
  | .ok (some m) =>
    if m.rcode = rcodeNameError then
      (m.answer, .nameError)
    else if m.rcode = rcodeServerFailure then
      (m.answer, .serverFailure)
    else if m.rcode = rcodeSuccess ∧ m.answer = [] then
      (m.answer, .noData)
    else
      (m.answer, .success)

def resolveTarget (z : Zone) (loop : Nat) (req : Request) (target : Str) (rrs : List RR) : Answer :=
  let (lookupRRs, result) := doLookup up loop target req.qtype
  { answer := rrs ++ lookupRRs, ns := z.apex.nsRRs req.dnssec, result }

-- Follows aliases within the zone, of which at most `left` more are allowed.
def chase (z : Zone) (loop : Nat) (req : Request) : (left : Nat) → (target : Str) → List RR → Option Answer
  | left, target, rrs =>
    match z.search dns target with
    | none => some (z.resolveTarget up loop req target rrs)
    | some e =>
      if req.qtype = .ns ∨ req.qtype = .soa ∧ target = z.origin then
        some (z.resolveTarget up loop req target rrs)
      else
        match left with
        | 0 => some { answer := rrs, ns := z.apex.nsRRs req.dnssec, result := .success }
        | left + 1 =>
          match e.type .cname with
          | cname :: cnames => do
            let target ← cnameTarget cname
            chase z loop req left target (rrs ++ cname :: cnames ++ e.signatures .cname req.dnssec)
          | [] =>
            let targets := e.type req.qtype
            let sigs := if targets ≠ [] then e.signatures req.qtype req.dnssec else []
            some { answer := rrs ++ targets ++ sigs, ns := z.apex.nsRRs req.dnssec, result := .success }

def externalLookup (z : Zone) (loop : Nat) (req : Request) (e : Elem) (rrs : List RR) : Option Answer := do
  let rr ← rrs.head?
  let target ← cnameTarget rr
  z.chase dns up loop req 9 target (rrs ++ e.signatures .cname req.dnssec)

def additionalProcessing (z : Zone) (answer : List RR) (dnssec : Bool) : List RR :=
  answer.flatMap fun rr =>
    let name := additionalName rr
    if name = [] ∨ ¬dns.isSubDomain z.origin name then
      []
    else
      match z.search dns name with
      | none => []
      | some e =>
        [RRType.a, RRType.aaaa].flatMap fun addr =>
          if e.type addr ≠ [] then e.type addr ++ e.signatures addr dnssec else []

-- A synthesized alias is not followed if aliases are what is asked for.
def answerRedirect (z : Zone) (loop : Nat) (req : Request) (e : Elem) (cname : RR) : Option Answer := do
  let a ←
    if req.qtype = .cname then
      some { answer := [cname], ns := z.apex.nsRRs req.dnssec, result := .success }
    else
      z.externalLookup dns up (loop + 1) req e [cname]
  some { a with answer := typeFromElem e .dname req.dnssec ++ a.answer }

def answerDelegation (z : Zone) (req : Request) (e : Elem) : Answer where
  ns := e.type .ns ++ if req.dnssec then typeFromElem e .ds req.dnssec else []
  extra := z.tree.glue dns (e.type .ns) req.dnssec
  result := .delegation

def noData (z : Zone) (req : Request) (e : Elem) : Answer where
  ns := z.apex.soaRRs req.dnssec ++ if req.dnssec then typeFromElem e .nsec req.dnssec else []
  result := .noData

def answerFound (z : Zone) (loop : Nat) (req : Request) (e : Elem) : Option Answer :=
  if e.type .cname ≠ [] ∧ req.qtype ≠ .cname then
    z.externalLookup dns up (loop + 1) req e (e.type .cname)
  else if e.type req.qtype = [] then
    some (z.noData req e)
  else
    some {
      answer := typeFromElem e req.qtype req.dnssec
      ns := z.apex.nsRRs req.dnssec
      extra := z.additionalProcessing dns (e.type req.qtype) req.dnssec
      result := .success
    }

-- The NSEC records that no longer name exists below a wildcard.
def denyLonger (z : Zone) (req : Request) (qname : Str) : List RR :=
  match z.tree.prev (order dns) qname with
  | some deny => if req.dnssec then typeFromElem deny .nsec req.dnssec else []
  | none => []

def answerWild (z : Zone) (loop : Nat) (req : Request) (qname : Str) (wild : Elem) : Option Answer :=
  let cnames := wild.typeForWildcard .cname qname
  let rrs := wild.typeForWildcard req.qtype qname
  if cnames ≠ [] ∧ req.qtype ≠ .cname then
    z.externalLookup dns up (loop + 1) req wild cnames
  else if rrs = [] then
    some (z.noData req wild)
  else
    let sigs := if req.dnssec then subTypeSignature (wild.typeForWildcard .rrsig qname) req.qtype else []
    some {
      answer := rrs ++ sigs
      ns := z.apex.nsRRs req.dnssec ++ z.denyLonger dns req qname
      result := .success
    }

-- A name that is not stored exists nevertheless if there are longer names.
def missingResult (z : Zone) (qname : Str) : Result :=
  match z.tree.next (order dns) qname with
  | some x => if dns.isSubDomain qname x.name then .success else .nameError
  | none => .nameError

-- The NSEC records against a wildcard, unless they are those that were already added.
def denyWildcard (z : Zone) (qname : Str) (deny : Elem) : Option (List RR) := do
  match ← z.closestEncloser dns qname with
  | none => some []
  | some ce =>
    match z.tree.prev (order dns) ('*' :: '.' :: ce.name) with
    | none => some []
    | some ss => some (if ss.name ≠ deny.name then typeFromElem ss .nsec true else [])

def answerMissing (z : Zone) (req : Request) (qname : Str) : Option Answer :=
  let result := z.missingResult dns qname
  let soa := z.apex.soaRRs req.dnssec
  match req.dnssec, z.tree.prev (order dns) qname with
  | false, _ | true, none => some { ns := soa, result }
  | true, some deny => do
    let nsec := typeFromElem deny .nsec true
    let wildcard ← if result = .nameError then z.denyWildcard dns qname deny else some []
    some { ns := soa ++ nsec ++ wildcard, result }

def answerWalk (z : Zone) (loop : Nat) (req : Request) (qname : Str) : Walk → Option Answer
  | .redirect e cname => z.answerRedirect dns up loop req e cname
  | .delegation e => some (z.answerDelegation dns req e)
  | .found e => z.answerFound dns up loop req e
  | .missing (some wild) => z.answerWild dns up loop req qname wild
  | .missing none => z.answerMissing dns req qname

-- The first outcome is none if the source panics.
def lookup (z : Zone) (loop : Nat) (req : Request) (qname : Str) : Option Answer :=
  if z.apex.soa = none then
    some { result := .serverFailure }
  else if qname = z.origin ∧ req.qtype = .soa then
    some { answer := z.apex.soaRRs req.dnssec, ns := z.apex.nsRRs req.dnssec, result := .success }
  else if qname = z.origin ∧ req.qtype = .ns then
    let nsrrs := z.apex.nsRRs req.dnssec
    some { answer := nsrrs, extra := z.tree.glue dns nsrrs req.dnssec, result := .success }
  -- The ninth nested lookup is taken for a loop.
  else if 8 < loop then
    some { result := .serverFailure }
  else do
    let w ← z.walk dns req qname
    z.answerWalk dns up loop req qname w

end Zone
end
end File
