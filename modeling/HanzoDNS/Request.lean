import HanzoDNS.Dns.Msg

open Dns Strings

-- What plugins ask about a request. A request without a question is one for the root.
namespace Dns.Msg

def root : Ascii where
  text := ['.']
  ascii := List.forall_mem_singleton.mpr (by decide)

variable (lib : Library)

def qname (r : Msg) : Ascii :=
  match r.question with
  | [] => root
  | q :: _ => lib.nameString q.name

def name (r : Msg) : Str :=
  toLower (r.qname lib).text

def qtype (r : Msg) : RRType :=
  match r.question with
  | [] => 0
  | q :: _ => q.qtype

def qclass (r : Msg) : UInt16 :=
  match r.question with
  | [] => 0
  | q :: _ => q.qclass

def matchReply (r reply : Msg) : Bool :=
  match reply.question with
  | [q] => reply.response ∧ toLower q.name = r.name lib ∧ q.qtype = r.qtype
  | _ => false

end Dns.Msg
