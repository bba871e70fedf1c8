import HanzoDNS.File.Transfer

open Dns

namespace File

structure Envelope where
  rrs : List RR
  error : Option Str := none
deriving DecidableEq

-- What comes of an attempt to transfer a zone from a primary: it cannot be set up, or it is a stream.
inductive Attempt
  | setup (err : Str)
  | stream (envs : List Envelope)
deriving DecidableEq

inductive Reply
  | unreachable (err : Str)
  | response (rcode : Nat) (answer : List RR)
deriving DecidableEq

structure Primary where
  reply : Reply
  attempt : Attempt
deriving DecidableEq

def maxSerialIncrement : UInt32 := 2147483647

-- Serial arithmetic, which wraps around.
def serialLess (a b : UInt32) : Bool :=
  if a < b then b - a ≤ maxSerialIncrement else a - b > maxSerialIncrement

def firstSerial : List RR → Option UInt32
  | [] => none
  | ⟨_, _, .soa soa⟩ :: _ => some soa.serial
  | _ :: rrs => firstSerial rrs

-- Asks one primary after the other until there is a SOA. Each of them starts over with the error.
def askPrimaries : List Reply → (err : Option Str) → Option UInt32 × Option Str
  | [], err => (none, err)
  | .unreachable err :: rs, _ => askPrimaries rs (some err)
  | .response rcode answer :: rs, _ =>
    if rcode ≠ 0 then
      askPrimaries rs none
    else
      match firstSerial answer with
      | some serial => (some serial, none)
      | none => askPrimaries rs none

section

variable (dns : Labels)

namespace Zone

def insertAll : Zone → List RR → Option (Zone × Option Str)
  | z, [] => some (z, none)
  | z, rr :: rrs => do
    match ← z.insert dns rr with
    | .error err => some (z, some err)
    | .ok z => insertAll z rrs

def receive : Zone → List Envelope → Option (Zone × Option Str)
  | z, [] => some (z, none)
  | z, env :: envs =>
    match env.error with
    | some err => some (z, some err)
    | none => do
      match ← z.insertAll dns env.rrs with
      | (z, some err) => some (z, some err)
      | (z, none) => receive z envs

-- All attempts insert into the same zone. The first stream without an error is the last.
def attempts : Zone → List Attempt → (err : Option Str) → Option (Zone × Option Str)
  | z, [], err => some (z, err)
  | z, .setup err :: as, _ => attempts z as (some err)
  | z, .stream envs :: as, _ => do
    match ← z.receive dns envs with
    | (z, some err) => attempts z as (some err)
    | (z, none) => some (z, none)

end Zone

-- A zone with a mark for when its data is too old to be served.
structure Secondary where
  zone : Zone
  expired : Bool
deriving DecidableEq

namespace Secondary

def setData (s : Secondary) (apex : Apex) (tree : Tree) : Secondary where
  zone := { s.zone with apex, tree }
  expired := false

-- The first outcome is none if the tree panics.
def transferIn (s : Secondary) (transferFrom : List Attempt) : Option (Secondary × Option Str) :=
  if transferFrom.isEmpty then
    some (s, none)
  else do
    match ← (Zone.new dns s.zone.origin).attempts dns transferFrom none with
    | (_, some err) => some (s, some err)
    | (z, none) => some (s.setData z.apex z.tree, none)

def outdated (s : Secondary) (serial : UInt32) : Bool :=
  match s.zone.apex.getSOA with
  | none => true
  | some soa => serialLess soa.serial serial

def shouldTransfer (s : Secondary) (transferFrom : List Reply) : Bool × Option Str :=
  match askPrimaries transferFrom none with
  | (none, err) => (false, err)
  | (some serial, err) => (s.outdated serial, err)

-- Asks the primaries and transfers the zone if it is outdated. The flag says that there are no errors.
def check (s : Secondary) (primaries : List Primary) : Option (Secondary × Bool) :=
  match s.shouldTransfer (primaries.map (·.reply)) with
  | (_, some _) => some (s, false)
  | (false, none) => some (s, true)
  | (true, none) => do
    let (s, err) ← s.transferIn dns (primaries.map (·.attempt))
    some (s, err.isNone)

end Secondary

structure Updater where
  secondary : Secondary
  retryActive : Bool
  -- How often the timers were started.
  started : Nat
deriving DecidableEq

inductive Tick
  | expire
  | retry (primaries : List Primary)
  | refresh (primaries : List Primary)

namespace Updater

-- The intervals of the timers are those of the SOA. There is a panic if there is none or if one of them is zero.
def restart (u : Updater) (s : Secondary) : Option Updater := do
  let soa ← s.zone.apex.getSOA
  if soa.refresh = 0 ∨ soa.retry = 0 ∨ soa.expire = 0 then
    none
  else
    some { secondary := s, retryActive := false, started := u.started + 1 }

def step (u : Updater) : Tick → Option Updater
  | .expire =>
    if u.retryActive then
      some { u with secondary := { u.secondary with expired := true } }
    else
      some u
  | .retry primaries =>
    if u.retryActive then do
      match ← u.secondary.check dns primaries with
      | (s, true) => u.restart s
      | (s, false) => some { u with secondary := s }
    else
      some u
  | .refresh primaries => do
    match ← u.secondary.check dns primaries with
    | (s, true) => u.restart s
    | (s, false) => some { u with secondary := s, retryActive := true }

end Updater
end
end File
