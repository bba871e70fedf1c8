import HanzoDNS.Lib.Ascii
import HanzoDNS.Dns.Basic
import HanzoDNS.Dns.Labels

namespace Dns

-- Points in time and durations are in nanoseconds.
abbrev Time := Int

abbrev Duration := Int

def second : Duration := 1000000000

-- The whole seconds of a duration. Go goes through a float here, which is exact for durations of less than
-- 2^23 seconds.
def seconds (d : Duration) : Int :=
  d.tdiv second

structure Question where
  name : Str
  qtype : RRType
  qclass : UInt16
deriving DecidableEq

structure Msg where
  id : UInt16 := 0
  response : Bool := false
  opcode : Nat := 0
  authoritative : Bool := false
  truncated : Bool := false
  recursionAvailable : Bool := false
  authenticatedData : Bool := false
  checkingDisabled : Bool := false
  rcode : Nat := 0
  question : List Question := []
  answer : List RR := []
  ns : List RR := []
  extra : List RR := []
deriving DecidableEq

namespace Msg

def records (m : Msg) : List RR :=
  m.answer ++ m.ns ++ m.extra

def classINET : UInt16 := 1

def opcodeNotify : Nat := 4
def opcodeUpdate : Nat := 5

def rcodeSuccess : Nat := 0
def rcodeFormatError : Nat := 1
def rcodeServerFailure : Nat := 2
def rcodeNameError : Nat := 3
def rcodeNotImplemented : Nat := 4
def rcodeRefused : Nat := 5
def rcodeBadVers : Nat := 16

end Msg

structure Library extends Labels where
  -- A name in presentation format, in which everything but printable characters is escaped.
  nameString : Str → Ascii
  -- Whether a message has an OPT record with the DO bit.
  isDo : Msg → Bool
  -- The version of EDNS in the OPT record of a message.
  version : Msg → Option UInt8
  -- A reply without records to a message.
  setReply : Msg → Msg
  -- Whether a signature is valid at a point in time.
  validityPeriod : RR → Time → Bool

-- Names without escapes. Only the last OPT record counts.
def Library.reference : Library where
  toLabels := .reference
  nameString s :=
    if h : s.all (·.toNat < 128) then
      ⟨s, fun c hc => of_decide_eq_true (List.all_eq_true.mp h c hc)⟩
    else
      ⟨[], List.forall_mem_nil _⟩
  isDo m := (m.extra.filter (·.rrtype = .opt)).getLast?.any (·.ttl &&& 0x8000 ≠ 0)
  version m := (m.extra.filter (·.rrtype = .opt)).getLast?.map fun rr : RR => UInt32.toUInt8 (rr.ttl >>> 16)
  setReply m := { m with response := true, answer := [], ns := [], extra := [] }
  validityPeriod := fun _ _ => true

end Dns
