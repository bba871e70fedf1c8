import HanzoDNS.Lib.Strings

namespace Dns

abbrev RRType := UInt16

namespace RRType

def a : RRType := 1
def ns : RRType := 2
def cname : RRType := 5
def soa : RRType := 6
def ptr : RRType := 12
def hinfo : RRType := 13
def mx : RRType := 15
def txt : RRType := 16
def aaaa : RRType := 28
def loc : RRType := 29
def srv : RRType := 33
def naptr : RRType := 35
def cert : RRType := 37
def dname : RRType := 39
def opt : RRType := 41
def ds : RRType := 43
def sshfp : RRType := 44
def rrsig : RRType := 46
def nsec : RRType := 47
def dnskey : RRType := 48
def nsec3 : RRType := 50
def nsec3param : RRType := 51
def tlsa : RRType := 52
def hip : RRType := 55
def cds : RRType := 59
def cdnskey : RRType := 60
def openpgpkey : RRType := 61
def svcb : RRType := 64
def https : RRType := 65
def spf : RRType := 99
def tsig : RRType := 250
def ixfr : RRType := 251
def axfr : RRType := 252

-- The types whose records have a Go type of their own that some code relies on.
def typed : List RRType :=
  [ns, cname, soa, ptr, mx, srv, naptr, dname, opt, rrsig, nsec, svcb, https, tsig]

end RRType

structure Soa where
  ns : Str
  mbox : Str
  serial : UInt32
  refresh : UInt32
  retry : UInt32
  expire : UInt32
  minttl : UInt32
deriving DecidableEq

structure Tsig where
  algorithm : Str
  timeSigned : UInt64 := 0
  fudge : UInt16 := 0
  macSize : UInt16 := 0
  mac : Str := []
  origId : UInt16 := 0
  error : UInt16 := 0
  otherLen : UInt16 := 0
  otherData : Str := []
deriving DecidableEq

inductive EDNS0
  | «local» (code : UInt16) (data : List UInt8)
  | nsid (code : UInt16) (nsid : Str)
  | subnet (code family : UInt16) (sourceNetmask sourceScope : UInt8) (address : List UInt8)
  | other (code : UInt16) (data : List UInt8)
deriving DecidableEq

namespace EDNS0

def codeNSID : UInt16 := 3
def codeSUBNET : UInt16 := 8

def option : EDNS0 → UInt16
  | «local» code _ => code
  | nsid .. => codeNSID
  | subnet .. => codeSUBNET
  | other code _ => code

-- The code in an option's own field, which nothing sets for the NSID and for subnets when a message is unpacked.
def code : EDNS0 → UInt16
  | «local» code _ => code
  | nsid code _ => code
  | subnet code .. => code
  | other code _ => code

end EDNS0

-- The data of a record determines its type.
inductive RData
  | ns (ns : Str)
  | cname (target : Str)
  | soa (soa : Soa)
  | ptr (ptr : Str)
  | mx (preference : UInt16) (mx : Str)
  | srv (priority weight port : UInt16) (target : Str)
  | naptr (rest : Str) (replacement : Str)
  | dname (target : Str)
  | opt (udpSize : UInt16) (options : List EDNS0)
  | rrsig (typeCovered : RRType) (rest : Str)
  | nsec (nextDomain : Str) (typeBitMap : List RRType)
  | svcb (priority : UInt16) (target value : Str)
  | https (priority : UInt16) (target value : Str)
  | tsig (tsig : Tsig)
  | other (rrtype : RRType) (rdata : Str) (untyped : rrtype ∉ RRType.typed)
deriving DecidableEq

def RData.rrtype : RData → RRType
  | ns .. => .ns
  | cname .. => .cname
  | soa .. => .soa
  | ptr .. => .ptr
  | mx .. => .mx
  | srv .. => .srv
  | naptr .. => .naptr
  | dname .. => .dname
  | opt .. => .opt
  | rrsig .. => .rrsig
  | nsec .. => .nsec
  | svcb .. => .svcb
  | https .. => .https
  | tsig .. => .tsig
  | other rrtype _ _ => rrtype

-- The class of an OPT record is the size of the buffer.
def RData.udpSize : RData → UInt16
  | opt udpSize _ => udpSize
  | _ => 0

def RData.setUDPSize (udpSize : UInt16) : RData → RData
  | opt _ options => opt udpSize options
  | data => data

def RData.setOptions (options : List EDNS0) : RData → RData
  | opt udpSize _ => opt udpSize options
  | data => data

section

variable {data : RData}

@[simp]
theorem RData.rrtype_setUDPSize (udpSize : UInt16) : (data.setUDPSize udpSize).rrtype = data.rrtype := by
  cases data <;> rfl

@[simp]
theorem RData.rrtype_setOptions (options : List EDNS0) : (data.setOptions options).rrtype = data.rrtype := by
  cases data <;> rfl

theorem RData.exists_ns (h : data.rrtype = .ns) : ∃ target, data = ns target := by
  cases data
  case ns => exact ⟨_, rfl⟩
  case other untyped =>
    obtain rfl : _ = RRType.ns := h
    exact absurd (by decide) untyped
  all_goals
    simp only [rrtype] at h
    exact absurd h (by decide)

end

structure RR where
  name : Str
  ttl : UInt32
  data : RData
deriving DecidableEq

def RR.rrtype (rr : RR) : RRType :=
  rr.data.rrtype

end Dns
