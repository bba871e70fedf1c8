import HanzoDNS.Request

open Dns

-- The plugin that sends requests to upstreams.
namespace Forward

structure Options where
  forceTCP : Bool := false
  preferUDP : Bool := false
deriving DecidableEq

inductive ConnectError
  | cachedClosed
  | other (text : Str)
deriving DecidableEq

-- What the random numbers for one choice among proxies come out as.
structure Draw where
  even : Bool
  perm : List Nat

inductive Policy
  | random
  | roundRobin (robin : UInt32)
  | sequential

namespace Policy

def randomList (draw : Draw) (ps : List π) : List π :=
  match ps with
  | [p] => [p]
  | [p, q] => if draw.even then [q, p] else [p, q]
  | ps => draw.perm.filterMap (ps[·]?)

def list (draw : Draw) (ps : List π) : Policy → List π
  | random => randomList draw ps
  | roundRobin robin =>
    let i := ((robin + 1) % UInt32.ofNat ps.length).toNat
    ps[i]?.toList ++ ps.take i ++ ps.drop (i + 1)
  | sequential => ps

end Policy

-- The next plugin, if there is one, and whether it forwards requests, too.
inductive Next
  | none
  | forward
  | other
deriving DecidableEq

structure Config (π : Type) where
  proxies : List π
  policy : Policy := .random
  «from» : Str := ['.']
  ignored : List Str := []
  nextAlternateRcodes : List Nat := []
  nextOnNodata : Bool := false
  maxfails : UInt32 := 2
  maxConcurrent : Int := 0
  failfastUnhealthyUpstreams : Bool := false
  failoverRcodes : List Nat := []
  maxConnectAttempts : Nat := 0
  opts : Options := {}
  next : Next := .none

-- What happens while a request is served, in each turn of the loop.
structure World (π : Type) where
  -- The number of requests that are served at the same time, with this one.
  concurrent : Int
  -- Whether there is time left and the request has not been cancelled.
  inTime : (turn : Nat) → Bool
  fails : (turn : Nat) → π → UInt32
  connect : (turn attempt : Nat) → π → Options → Option Msg × Option ConnectError
  draw : Draw
  redraw : (turn : Nat) → Draw

inductive Outcome
  -- The next plugin serves the request.
  | next
  | limitExceeded
  | failed (err : Option ConnectError)
  | formatError
  | wrote (ret : Msg)
  | panicked
deriving DecidableEq

section

variable (lib : Library) (r : Msg)

def Name.matches (name child : Str) : Bool :=
  name = child ∨ lib.isSubDomain name child

namespace Config

variable (f : Config π)

def isAllowedDomain (name : Str) : Bool :=
  name = f.from ∨ f.ignored.all (¬Name.matches lib · name)

def «match» : Bool :=
  Name.matches lib f.from (r.name lib) ∧ f.isAllowedDomain lib (r.name lib)

def down (fails : UInt32) : Bool :=
  f.maxfails ≠ 0 ∧ fails > f.maxfails

end Config

-- The requests that are sent to a proxy in one turn. A connection that was closed is replaced, and a truncated
-- reply over UDP is asked for again. It is none if this does not end.
def exchange (w : World π) (turn : Nat) (proxy : π) : (fuel attempt : Nat) → Options →
    Option (Option Msg × Option ConnectError)
  | 0, _, _ => none
  | fuel + 1, attempt, opts =>
    let (ret, err) := w.connect turn attempt proxy opts
    if err = some .cachedClosed then
      exchange w turn proxy fuel (attempt + 1) opts
    else if ret.any (·.truncated) ∧ ¬opts.forceTCP ∧ opts.preferUDP then
      exchange w turn proxy fuel (attempt + 1) { opts with forceTCP := true }
    else
      some (ret, err)

structure State (π : Type) where
  i : Nat := 0
  fails : Nat := 0
  connectAttempts : Nat := 0
  upstreamErr : Option ConnectError := none
  -- The proxies that have been asked.
  asked : List π := []

-- The next proxy of the list. At its end, the list starts again, and so does the count of fails.
def State.wrap (s : State π) (list : List π) : State π :=
  if s.i ≥ list.length then { s with i := 0, fails := 0 } else s

def isEmpty (m : Msg) : Bool :=
  m.answer = []

variable (f : Config π) (w : World π) (list : List π)

def reply (s : State π) (ret : Msg) : State π × Option Outcome :=
  if ¬r.matchReply lib ret then
    (s, some .formatError)
  else if ret.rcode ∈ f.failoverRcodes ∧ s.fails < f.proxies.length then
    ({ s with fails := s.fails + 1 }, none)
  else if ret.rcode ∈ f.nextAlternateRcodes ∧ f.next = .forward then
    (s, some .next)
  else if f.nextOnNodata ∧ f.next = .forward ∧ ret.rcode = Msg.rcodeSuccess ∧ isEmpty ret then
    (s, some .next)
  else
    (s, some (.wrote ret))

def fail (s : State π) (err : ConnectError) : State π × Option Outcome :=
  let s :=
    if f.maxConnectAttempts > 0 then { s with connectAttempts := s.connectAttempts + 1 } else s
  if f.maxConnectAttempts > 0 ∧ s.connectAttempts ≥ f.maxConnectAttempts then
    (s, some (.failed (some err)))
  else if s.fails < f.proxies.length then
    (s, none)
  else
    (s, some (.failed (some err)))

def ask (fuel turn : Nat) (s : State π) (proxy : π) : Option (State π × Option Outcome) := do
  let (ret, err) ← exchange w turn proxy fuel 0 f.opts
  let s := { s with asked := s.asked ++ [proxy], upstreamErr := err }
  match err, ret with
  | some err, _ => return fail f s err
  | none, some ret => return reply lib r f s ret
  | none, none => return (s, some .panicked)

def turn (fuel n : Nat) (s : State π) : Option (State π × Option Outcome) :=
  if ¬(w.inTime n ∧ (f.maxConnectAttempts = 0 ∨ s.connectAttempts < f.maxConnectAttempts)) then
    some (s, some (.failed s.upstreamErr))
  else
    let s := s.wrap list
    match list[s.i]? with
    | none => some (s, some .panicked)
    | some proxy =>
      let s := { s with i := s.i + 1 }
      if f.down (w.fails n proxy) then
        let s := { s with fails := s.fails + 1 }
        if s.fails < f.proxies.length then
          some (s, none)
        else if f.failfastUnhealthyUpstreams then
          some (s, some (.failed s.upstreamErr))
        else
          match (Policy.randomList (w.redraw n) f.proxies).head? with
          | none => some (s, some .panicked)
          | some proxy => ask lib r f w fuel n s proxy
      else
        ask lib r f w fuel n s proxy

-- The loop, which asks one proxy after the other. It is none if it does not end.
def loop (limit : Nat) : (fuel n : Nat) → State π → Option (List π × Outcome)
  | 0, _, _ => none
  | fuel + 1, n, s => do
    match ← turn lib r f w list limit n s with
    | (s, some outcome) => return (s.asked, outcome)
    | (s, none) => loop limit fuel (n + 1) s

def serveDNS (fuel : Nat) : Option (List π × Outcome) :=
  if ¬f.match lib r then
    some ([], .next)
  else if f.maxConcurrent > 0 ∧ w.concurrent > f.maxConcurrent then
    some ([], .limitExceeded)
  else
    loop lib r f w (f.policy.list w.draw f.proxies) fuel fuel 0 {}

end
end Forward
