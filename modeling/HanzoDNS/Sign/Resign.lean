import HanzoDNS.Dns.Msg

open Dns

-- The plugin that signs zone files.
namespace Sign

def hour : Duration := 3600 * second

def durationExpireDays : Duration := 7 * 24 * hour

def durationResignDays : Duration := 6 * 24 * hour

-- Differences of points in time stay in the range of a duration.
def minDuration : Duration := -2 ^ 63

def maxDuration : Duration := 2 ^ 63 - 1

def sub (t u : Time) : Duration :=
  max minDuration (min maxDuration (t - u))

-- A record of a zone file, with what is read of it.
inductive Parsed
  | rrsig (typeCovered : RRType) (inception expiration : UInt32)
  | other
deriving DecidableEq

-- What a zone parser returns: the records one by one, and then whether it has stopped because of an error.
structure ZoneParser where
  records : List Parsed
  err : Option Str

inductive Why
  | tooLongAgo (incep now : Time)
  | inFuture (incep now : Time)
  | expires (expire now : Time)
  | noSOA
  | parser (err : Str)
deriving DecidableEq

section

-- The point in time that a field of a signature stands for: how the DNS library prints it, read back.
variable (time : UInt32 → Time) (now : Time)

def checkSOA (inception expiration : UInt32) : Option Why :=
  let incep := time inception
  if sub now incep ≥ 0 ∧ sub now incep > durationResignDays then
    some (.tooLongAgo incep now)
  else if sub now incep < 0 then
    some (.inFuture incep now)
  else
    let expire := time expiration
    if sub expire now < durationExpireDays then
      some (.expires expire now)
    else
      none

-- Goes on with the records that are left, of which `i` have been counted before.
def resignFrom (err : Option Str) : (i : Nat) → List Parsed → Option Why
  | _, [] => err.map .parser
  | i, .other :: rest => if i + 1 > 100 then some .noSOA else resignFrom err (i + 1) rest
  | i, .rrsig typeCovered inception expiration :: rest =>
    if typeCovered ≠ .soa then
      -- The signatures of other records are not counted.
      resignFrom err i rest
    else
      match checkSOA time now inception expiration with
      | some why => some why
      | none => if i + 1 > 100 then some .noSOA else resignFrom err (i + 1) rest

def resign (zp : ZoneParser) : Option Why :=
  resignFrom time now zp.err 0 zp.records

end
end Sign
