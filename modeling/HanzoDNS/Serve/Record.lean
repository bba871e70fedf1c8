import HanzoDNS.Lib.Net
import HanzoDNS.Serve.Basic

open Strings

namespace Hanzodns

-- An address that is missing has no bytes.
inductive Rdata
  | a (a : Net.IP)
  | aaaa (aaaa : Net.IP)
  | cname (target : Str)
  | mx (preference : UInt16) (mx : Str)
  | txt (txt : List Str)
  | srv (priority weight port : UInt16) (target : Str)
  | ns (ns : Str)
  | caa (flag : UInt8) (tag value : Str)
deriving DecidableEq

structure RR where
  name : Str
  rrtype : UInt16
  ttl : UInt32
  data : Rdata
deriving DecidableEq

def stringToType (type : RecordType) : UInt16 :=
  if type = "A" then 1
  else if type = "AAAA" then 28
  else if type = "CNAME" then 5
  else if type = "MX" then 15
  else if type = "TXT" then 16
  else if type = "SRV" then 33
  else if type = "NS" then 2
  else if type = "SOA" then 6
  else if type = "CAA" then 257
  else 0

def withDot (name : Str) : Str :=
  if hasSuffix name ['.'] then name else name ++ ['.']

def srvData (priority : UInt16) (content : Str) : Option Rdata :=
  match fields content with
  | [weight, port, target] =>
    match Strconv.parseUint weight 16, Strconv.parseUint port 16 with
    | some weight, some port => some (.srv priority (UInt16.ofNat weight) (UInt16.ofNat port) (withDot target))
    | _, _ => none
  | _ => none

def caaData (content : Str) : Option Rdata :=
  match splitN ' ' 3 content with
  | [flag, tag, value] => (Strconv.parseUint flag 8).map fun flag => .caa (UInt8.ofNat flag) tag value
  | _ => none

def Record.data (rec : Record) : Option Rdata :=
  if rec.type = "A" then
    (Net.IP.parse rec.content).map fun ip => .a (ip.to4.getD [])
  else if rec.type = "AAAA" then
    (Net.IP.parse rec.content).map fun ip => .aaaa (ip.to16.getD [])
  else if rec.type = "CNAME" then
    some (.cname (withDot rec.content))
  else if rec.type = "MX" then
    some (.mx rec.priority (withDot rec.content))
  else if rec.type = "TXT" then
    some (.txt [rec.content])
  else if rec.type = "SRV" then
    srvData rec.priority rec.content
  else if rec.type = "NS" then
    some (.ns (withDot rec.content))
  else if rec.type = "CAA" then
    caaData rec.content
  else
    none

def toRR (rec : Record) (qname : Str) : Option RR :=
  rec.data.map fun data => { name := qname, rrtype := stringToType rec.type, ttl := rec.ttl, data }

end Hanzodns
