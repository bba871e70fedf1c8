import HanzoDNS.Lib.Search
import HanzoDNS.Dns.Msg

open Dns

-- The connections to an upstream, which are kept for a while after they have been used.
namespace Proxy

inductive TransportType
  | udp
  | tcp
  | tls
deriving DecidableEq

def TransportType.all : List TransportType :=
  [udp, tcp, tls]

inductive Proto
  | udp
  | tcp
deriving DecidableEq

-- A connection, with a number by which it can be told from others.
structure PersistConn where
  id : Nat
  -- Whether the connection is one of UDP.
  udpConn : Bool
  created : Time
  used : Time := 0
deriving DecidableEq

structure Transport where
  expire : Duration
  maxAge : Duration := 0
  maxIdleConns : Int := 0
  tlsConfig : Bool := false

inductive Goroutine
  | idle
  -- In Dial, before and after it has the lock, and after it has given it back.
  | locking (transtype : TransportType)
  | popping (transtype : TransportType) (maxAgeDeadline : Option Time)
  | missed
  -- Between Dial and Yield.
  | using (pc : PersistConn)
  -- In Yield, before and after the time of the last use is set.
  | stamping (pc : PersistConn)
  | stamped (pc : PersistConn)
  -- In cleanup, after the lock has been given back.
  | closing (toClose : List PersistConn)
deriving DecidableEq

structure State where
  now : Time
  conns : TransportType → List PersistConn := fun _ => []
  -- The goroutine in Dial that has the lock.
  mu : Option Nat := none
  stopped : Bool := false
  closed : List Nat := []
  created : Nat := 0
  goroutines : Nat → Goroutine := fun _ => .idle

namespace State

def set (s : State) (g : Nat) (p : Goroutine) : State :=
  { s with goroutines := Function.update s.goroutines g p }

def setConns (s : State) (transtype : TransportType) (stack : List PersistConn) : State :=
  { s with conns := Function.update s.conns transtype stack }

def close (s : State) (pc : PersistConn) : State :=
  { s with closed := pc.id :: s.closed }

end State

namespace Transport

variable (t : Transport)

-- If TLS has been configured, it is used.
def transtype : Proto → TransportType
  | proto => if t.tlsConfig then .tls else match proto with
    | .udp => .udp
    | .tcp => .tcp

def transportTypeFromConn (pc : PersistConn) : TransportType :=
  if pc.udpConn then .udp else if ¬t.tlsConfig then .tcp else .tls

section Cleanup

variable (now : Time) (all : Bool)

def stale (pc : PersistConn) : Bool :=
  pc.used ≤ now - t.expire

def aged (pc : PersistConn) : Bool :=
  pc.created < now - t.maxAge

def cleanStack (stack : List PersistConn) : List PersistConn × List PersistConn :=
  if stack = [] then
    (stack, [])
  else if all then
    ([], stack)
  else if t.maxAge > 0 then
    -- Both the time of the last use and the age count, so all connections are looked at.
    (stack.filter fun pc => ¬(t.stale now pc ∨ t.aged now pc), stack.filter fun pc => t.stale now pc ∨ t.aged now pc)
  else if stack.head?.any (¬t.stale now ·) then
    (stack, [])
  else
    -- Connections are expected to be sorted by the time of their last use.
    let good := Search.search stack.length fun i => stack[i]?.any (¬t.stale now ·)
    (stack.drop good, stack.take good)

def cleanType (s : State × List PersistConn) (transtype : TransportType) : State × List PersistConn :=
  let (stack, toClose) := t.cleanStack now all (s.1.conns transtype)
  (s.1.setConns transtype stack, s.2 ++ toClose)

-- What cleanup does while it has the lock. It reads the clock once.
def cleanup (s : State) : State × List PersistConn :=
  TransportType.all.foldl (t.cleanType s.now all) (s, [])

end Cleanup

-- One turn of the loop in Dial. The connection that was given back first is taken, unless it is too old.
def pop (s : State) (g : Nat) (transtype : TransportType) (maxAgeDeadline : Option Time) : State :=
  match s.conns transtype with
  | [] => { s with mu := none }.set g .missed
  | pc :: stack =>
    let s := s.setConns transtype stack
    if s.now - pc.used > t.expire then
      s.close pc
    else if maxAgeDeadline.any (pc.created < ·) then
      s.close pc
    else
      { s with mu := none }.set g (.using pc)

def append (s : State) (g : Nat) (pc : PersistConn) : State :=
  let transtype := t.transportTypeFromConn pc
  if t.maxIdleConns > 0 ∧ (s.conns transtype).length ≥ t.maxIdleConns then
    (s.close pc).set g .idle
  else
    (s.setConns transtype (s.conns transtype ++ [pc])).set g .idle

end Transport

-- What a goroutine does next. Where it is not determined by the code, it is given.
inductive Action
  | dial (proto : Proto)
  | lock
  | pop
  -- A new connection has been set up, or that has failed.
  | connect (udpConn : Bool)
  | fail
  -- The connection is closed after an error.
  | close
  | yield
  | stamp
  | append
  | cleanup (all : Bool)
  | closeNext
deriving DecidableEq

inductive Label
  | tick (d : Nat)
  | stop
  | act (g : Nat) (a : Action)
deriving DecidableEq

def act (t : Transport) (s : State) (g : Nat) (a : Action) : Option State :=
  match a, s.goroutines g with
  | .dial proto, .idle =>
    if s.stopped then some s else some (s.set g (.locking (t.transtype proto)))
  | .lock, .locking transtype =>
    if s.mu = none then
      let maxAgeDeadline := if t.maxAge > 0 then some (s.now - t.maxAge) else none
      some ({ s with mu := some g }.set g (.popping transtype maxAgeDeadline))
    else
      none
  | .pop, .popping transtype deadline => some (t.pop s g transtype deadline)
  | .connect udpConn, .missed =>
    some ({ s with created := s.created + 1 }.set g (.using { id := s.created, udpConn, created := s.now }))
  | .fail, .missed => some (s.set g .idle)
  | .close, .using pc => some ((s.close pc).set g .idle)
  | .yield, .using pc =>
    if s.stopped then some ((s.close pc).set g .idle) else some (s.set g (.stamping pc))
  | .stamp, .stamping pc => some (s.set g (.stamped { pc with used := s.now }))
  | .append, .stamped pc => if s.mu = none then some (t.append s g pc) else none
  | .cleanup all, .idle =>
    if s.mu = none then
      let (s, toClose) := t.cleanup all s
      some (s.set g (.closing toClose))
    else
      none
  | .closeNext, .closing (pc :: toClose) => some ((s.close pc).set g (.closing toClose))
  | .closeNext, .closing [] => some (s.set g .idle)
  | _, _ => none

def step (t : Transport) (s : State) : Label → Option State
  | .tick d => some { s with now := s.now + d }
  | .stop => some { s with stopped := true }
  | .act g a => act t s g a

end Proxy
