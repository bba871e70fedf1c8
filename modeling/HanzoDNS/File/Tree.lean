import HanzoDNS.Dns.Basic
import HanzoDNS.Lib.LLRB.Basic

open Dns

-- The tree in which a zone keeps its records, with all records of a name in one element.
namespace File

-- The records of an element are kept in the order of their insertion. The map of the source has an entry
-- for each of their types, with the records of that type in the same order.
structure Elem where
  owner : Str
  rrs : List RR
deriving DecidableEq

namespace Elem

@[simps]
def new (rr : RR) : Elem where
  owner := rr.name
  rrs := [rr]

def type (e : Elem) (qtype : RRType) : List RR :=
  e.rrs.filter (·.rrtype = qtype)

def typeForWildcard (e : Elem) (qtype : RRType) (qname : Str) : List RR :=
  (e.type qtype).map ({ · with name := qname })

-- The name that is cached when the element is created, unless it is empty.
def name (e : Elem) : Str :=
  if e.owner ≠ [] then e.owner else (e.rrs.head?.map (·.name)).getD []

def empty (e : Elem) : Bool :=
  e.rrs.isEmpty

@[simps]
def insert (e : Elem) (rr : RR) : Elem :=
  { e with rrs := e.rrs ++ [rr] }

def delete (e : Elem) (rr : RR) : Elem :=
  { e with rrs := e.rrs.filter (·.rrtype ≠ rr.rrtype) }

end Elem

structure Tree where
  root : LLRB.Node Elem
  count : Int
deriving DecidableEq

def Elem.less (less : Str → Str → Ordering) (e : Elem) (name : Str) : Ordering :=
  less name e.name

section

variable (less : Str → Str → Ordering)

namespace Tree

def new : Tree where
  root := .nil
  count := 0

def search (t : Tree) (qname : Str) : Option Elem :=
  t.root.search (·.less less qname)

def insert (t : Tree) (rr : RR) : Option Tree := do
  let (root, d) ← t.root.insert (·.less less rr.name) (.new rr) (·.insert rr)
  some { root := root.setBlack, count := t.count + d }

def deleteNode (t : Tree) (rr : RR) : Option Tree :=
  match t.root with
  | .nil => some t
  | root => do
    let (root, d) ← root.delete (·.less less rr.name) root.size
    some { root := root.setBlack, count := t.count + d }

-- The element that is found changes in place, and it is taken out of the tree if nothing is left of it.
def delete (t : Tree) (rr : RR) : Option Tree :=
  match t.search less rr.name with
  | none => some t
  | some el =>
    let t := { t with root := t.root.update (·.less less rr.name) (·.delete rr) }
    if (el.delete rr).empty then t.deleteNode less rr else some t

def prev (t : Tree) (qname : Str) : Option Elem :=
  t.root.floor (·.less less qname)

def next (t : Tree) (qname : Str) : Option Elem :=
  t.root.ceil (·.less less qname)

def all (t : Tree) : List Elem :=
  t.root.all []

def walk [Monad m] (fn : Elem → m PUnit) (t : Tree) : m PUnit :=
  t.root.walk fn

end Tree

inductive Tree.Call
  | insert (rr : RR)
  | delete (rr : RR)

def Tree.exec (t : Tree) : Call → Option Tree
  | .insert rr => t.insert less rr
  | .delete rr => t.delete less rr

def Tree.run (calls : List Call) : Option Tree :=
  calls.foldlM (Tree.exec less) .new

end
end File
