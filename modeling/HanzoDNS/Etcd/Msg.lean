import HanzoDNS.Lib.Net
import HanzoDNS.File.Lookup

open Dns Strings

namespace Dns.RData

theorem a_untyped : RRType.a ∉ RRType.typed := by
  decide

theorem aaaa_untyped : RRType.aaaa ∉ RRType.typed := by
  decide

theorem txt_untyped : RRType.txt ∉ RRType.typed := by
  decide

def a (ip : Net.IP) : RData :=
  .other .a ip.string a_untyped

def aaaa (ip : Net.IP) : RData :=
  .other .aaaa ip.string aaaa_untyped

def txt (text : Str) : RData :=
  .other .txt text txt_untyped

end Dns.RData

namespace Etcd

-- The backend of Kubernetes gives neither a priority nor a weight, and none of its services are for mail.
structure Service where
  host : Str := []
  port : Int := 0
  text : Str := []
  ttl : UInt32
  targetStrip : Nat := 0
  key : Str := []
deriving DecidableEq

inductive HostType
  | a (ip : Net.IP)
  | aaaa (ip : Net.IP)
  | cname
  | txt
deriving DecidableEq

namespace Service

def hostType (s : Service) : HostType :=
  match Net.IP.parse s.host with
  | none => if s.text = [] then .cname else .txt
  | some ip =>
    match ip.to4 with
    | some ip => .a ip
    | none => .aaaa (ip.to16.getD [])

def newA (s : Service) (name : Str) (ip : Net.IP) : RR where
  name := name
  ttl := s.ttl
  data := .a ip

def newAAAA (s : Service) (name : Str) (ip : Net.IP) : RR where
  name := name
  ttl := s.ttl
  data := .aaaa ip

def newTXT (s : Service) (name : Str) : RR where
  name := name
  ttl := s.ttl
  data := .txt s.text

end Service

section

variable (dns : Labels)

-- A name without some labels at its start, unless it does not have that many.
def targetStrip (name : Str) (labels : Nat) : Str :=
  let (offset, «end») := (List.range labels).foldl (fun (i, _) _ => dns.nextLabel name i) (0, false)
  if «end» then name else name.drop offset

namespace Service

def target (s : Service) : Str :=
  let host := dns.fqdn s.host
  if s.targetStrip > 0 then Etcd.targetStrip dns host s.targetStrip else host

def newSRV (s : Service) (name : Str) (weight : UInt16) : RR where
  name := name
  ttl := s.ttl
  data := .srv 0 weight (UInt16.ofInt s.port) (s.target dns)

def newNS (s : Service) (name : Str) : RR where
  name := name
  ttl := s.ttl
  data := .ns (s.target dns)

def newCNAME (s : Service) (name target : Str) : RR where
  name := name
  ttl := s.ttl
  data := .cname (dns.fqdn target)

def newPTR (s : Service) (name target : Str) : RR where
  name := name
  ttl := s.ttl
  data := .ptr (dns.fqdn target)

end Service

-- Go's `path.Clean` for an absolute path, on its elements.
def clean (elements : List Str) : List Str :=
  elements.foldl (fun path e =>
    if e = [] ∨ e = ['.'] then path
    else if e = ['.', '.'] then path.dropLast
    else path ++ [e]) []

def path (s root : Str) : Str :=
  let elements := root :: (dns.splitDomainName s).reverse
  '/' :: List.intercalate ['/'] (clean (elements.flatMap (·.splitOn '/')))

def domain (s : Str) : Str :=
  let l := s.splitOn '/'
  let l := if l.getLast? = some [] then l.dropLast else l
  File.join dns l.tail.reverse.dropLast

end

-- The weight of each of some services that all have the same priority and no weight of their own. Go computes
-- it with floats, which makes no difference for these numbers.
def srvWeight (services : Nat) : UInt16 :=
  UInt16.ofNat (max 1 (100 / services))

end Etcd
