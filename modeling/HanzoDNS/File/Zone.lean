import HanzoDNS.File.Less
import HanzoDNS.File.Tree

open Dns

namespace File

-- The records at the apex of a zone, which are not in its tree: SOA, NS and their signatures.
structure Apex where
  soa : Option RR := none
  ns : List RR := []
  sigsoa : List RR := []
  signs : List RR := []
deriving DecidableEq

namespace Apex

def soaRRs (a : Apex) (dnssec : Bool) : List RR :=
  a.soa.toList ++ if dnssec then a.sigsoa else []

def nsRRs (a : Apex) (dnssec : Bool) : List RR :=
  a.ns ++ if dnssec then a.signs else []

end Apex

structure Zone where
  origin : Str
  origLen : Nat
  tree : Tree
  apex : Apex
deriving DecidableEq

def subTypeSignature (rrs : List RR) (subtype : RRType) : List RR :=
  rrs.filter fun rr =>
    match rr.data with
    | .rrsig typeCovered _ => typeCovered = subtype
    | _ => false

-- The signatures of the records of a type, for queries that want them.
def Elem.signatures (e : Elem) (tp : RRType) (dnssec : Bool) : List RR :=
  if dnssec then subTypeSignature (e.type .rrsig) tp else []

def typeFromElem (e : Elem) (tp : RRType) (dnssec : Bool) : List RR :=
  e.type tp ++ e.signatures tp dnssec

-- Names in the data of a record are lower-cased, except in SRV and DNAME records.
def lowerData : RData → RData
  | .ns ns => .ns (Strings.toLower ns)
  | .soa soa => .soa { soa with ns := Strings.toLower soa.ns, mbox := Strings.toLower soa.mbox }
  | .cname target => .cname (Strings.toLower target)
  | .mx preference mx => .mx preference (Strings.toLower mx)
  | .svcb priority target value => .svcb priority (Strings.toLower target) value
  | .https priority target value => .https priority (Strings.toLower target) value
  | data => data

section

variable (dns : Labels)

-- The order of the names in a tree. A comparison always ends.
def order (a b : Str) : Ordering :=
  (less dns a b).getD .eq

namespace Tree

def searchGlue (t : Tree) (name : Str) (dnssec : Bool) : List RR :=
  match t.search (order dns) name with
  | none => []
  | some e => typeFromElem e .a dnssec ++ typeFromElem e .aaaa dnssec

def glue (t : Tree) (nsrrs : List RR) (dnssec : Bool) : List RR :=
  nsrrs.flatMap fun rr =>
    match rr.data with
    | .ns ns => if dns.isSubDomain rr.name ns then t.searchGlue dns ns dnssec else []
    | _ => []

end Tree

def canonicalEscape (name : Str) : Str :=
  if '\\' ∈ name then (dns.repack name).getD name else name

def normalize (rr : RR) : RR where
  name := if rr.rrtype = .srv then rr.name else Strings.toLower (canonicalEscape dns rr.name)
  ttl := rr.ttl
  data := lowerData rr.data

-- Replaces the leftmost label by an asterisk. Nothing is left of a name with a single label.
def replaceWithAsteriskLabel (qname : Str) : Str :=
  match dns.nextLabel qname 0 with
  | (_, true) => []
  | (i, false) => '*' :: '.' :: qname.drop i

-- The start of the label that is `count` labels to the left of a position, unless that overshoots the name.
def labelsBack (qname : Str) : (count pos : Nat) → Option Nat
  | 0, pos => some pos
  | count + 1, pos =>
    match dns.prevLabel (qname.take pos) 1 with
    | (_, true) => none
    | (pos, false) => labelsBack qname count pos

namespace Zone

def new (name : Str) : Zone where
  origin := dns.fqdn name
  origLen := dns.countLabel (dns.fqdn name)
  tree := .new
  apex := {}

def insertTree (z : Zone) (rr : RR) : Option (Except Str Zone) := do
  let tree ← z.tree.insert (order dns) rr
  some (.ok { z with tree })

-- The SOA and NS records of the apex and their signatures are kept apart, and zones with NSEC3 are refused.
-- The first outcome is none if the tree panics.
def insert (z : Zone) (rr : RR) : Option (Except Str Zone) :=
  let rr := normalize dns rr
  match rr.data with
  | .ns _ =>
    if rr.name = z.origin then
      some (.ok { z with apex := { z.apex with ns := z.apex.ns ++ [rr] } })
    else
      z.insertTree dns rr
  | .soa _ => some (.ok { z with apex := { z.apex with soa := some rr } })
  | .rrsig typeCovered _ =>
    if typeCovered = .soa then
      some (.ok { z with apex := { z.apex with sigsoa := z.apex.sigsoa ++ [rr] } })
    else if typeCovered = .ns ∧ rr.name = z.origin then
      some (.ok { z with apex := { z.apex with signs := z.apex.signs ++ [rr] } })
    else
      z.insertTree dns rr
  | .other rrtype _ _ =>
    if rrtype = .nsec3 ∨ rrtype = .nsec3param then
      some <| .error <| ("NSEC3 zone is not supported, dropping RR: " : Str) ++ rr.name ++
        (" for zone: " : Str) ++ z.origin
    else
      z.insertTree dns rr
  | _ => z.insertTree dns rr

def load : Zone → List RR → Option (Except Str Zone)
  | z, [] => some (.ok z)
  | z, rr :: rrs => do
    match ← z.insert dns rr with
    | .error e => some (.error e)
    | .ok z => load z rrs

def search (z : Zone) (name : Str) : Option Elem :=
  z.tree.search (order dns) name

-- The origin with `i` more labels of the name, and whether the name has too few of them.
def nameFromRight (z : Zone) (qname : Str) (i : Nat) : Str × Bool :=
  if i = 0 then
    (z.origin, false)
  else
    match (labelsBack dns qname z.origLen qname.length).bind (labelsBack dns qname i) with
    | none => (qname, true)
    | some n => (qname.drop n, false)

def closestEncloserFrom (z : Zone) : (fuel : Nat) → (qname : Str) → Option (Option Elem)
  | 0, _ => none
  | fuel + 1, qname =>
    match dns.nextLabel qname 0 with
    | (_, true) => some (z.search dns z.origin)
    | (offset, false) =>
      match z.search dns qname with
      | some e => some (some e)
      | none => closestEncloserFrom z fuel (qname.drop offset)

-- The first outcome is none if the loop does not end within as many steps as the name has runes, which does
-- not happen for domain names.
def closestEncloser (z : Zone) (qname : Str) : Option (Option Elem) :=
  z.closestEncloserFrom dns (qname.length + 1) qname

end Zone
end
end File
