import HanzoDNS.File.Zone

open Dns

namespace File

-- The orders in which the records of elements are collected. An element keeps them in a map by type, so it can
-- be any order of the types.
structure Elem.Range where
  types : Elem → List RRType
  nodup : ∀ e, (types e).Nodup
  mem_iff : ∀ e t, t ∈ types e ↔ e.type t ≠ []

def Elem.all (range : Elem.Range) (e : Elem) : List RR :=
  (range.types e).flatMap e.type

namespace Apex

def records (a : Apex) : Except Str (List RR) :=
  match a.soa with
  | none => .error "no SOA"
  | some soa => .ok (soa :: (a.sigsoa ++ a.ns ++ a.signs))

def getSOA (a : Apex) : Option Soa :=
  match a.soa with
  | some ⟨_, _, .soa soa⟩ => some soa
  | _ => none

end Apex

def Tree.send (range : Elem.Range) (t : Tree) : StateM (List (List RR)) PUnit :=
  t.walk fun e => modify (· ++ [e.all range])

namespace Zone

-- The slices of records that are sent for a zone. A secondary with the current serial only gets the SOA.
def transfer (range : Elem.Range) (z : Zone) (serial : UInt32) : Except Str (List (List RR)) := do
  let apex ← z.apex.records
  if serial ≠ 0 ∧ z.apex.getSOA.map (·.serial) = some serial then
    return [z.apex.soa.toList]
  let elems := ((z.tree.send range).run []).2
  return [apex] ++ elems ++ [z.apex.soa.toList]

def write (range : Elem.Range) (z : Zone) : Option (List RR) := do
  let soa ← z.apex.soa
  let elems := ((z.tree.send range).run []).2
  return [soa] ++ z.apex.sigsoa ++ z.apex.ns ++ z.apex.signs ++ elems.flatten

end Zone
end File
