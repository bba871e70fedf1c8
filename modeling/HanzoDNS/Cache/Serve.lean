import HanzoDNS.Cache.Basic

open Dns Strings

namespace Cache

structure Writer where
  request : Msg
  dnssec : Bool
  cd : Bool
  ad : Bool := false
  prefetch : Bool := false
  pexcept : List Str := []
  nexcept : List Str := []
deriving DecidableEq

-- What the plugins behind the cache are asked to refresh. A verification is for a stale item, which was found
-- at some moment, and it knows whether it has been refreshed. It is detached when its timer has fired.
inductive Purpose
  | miss
  | verify (timed : Bool) (item : Item) (moment : Time) (refreshed : Bool)
  | detached
  | prefetch (item : Item) (now : Time)
deriving DecidableEq

structure Task where
  writer : Writer
  purpose : Purpose
deriving DecidableEq

structure State where
  now : Time
  pcache : UInt64 → Option Item := fun _ => none
  ncache : UInt64 → Option Item := fun _ => none
  -- What items point to.
  freq : Nat → Freq := fun _ => {}
  refreshing : Nat → Bool := fun _ => false
  -- The requests that other plugins are working on.
  tasks : List Task := []
  -- The items that were stored, the last one first. The source has no such list.
  log : List Item := []

structure Reply where
  request : Msg
  item : Item
  moment : Time
  msg : Msg

section

variable (lib : Library) (c : Config)

namespace State

def add (s : State) (negative : Bool) (key : UInt64) (i : Item) : State :=
  if negative then
    { s with ncache := Function.update s.ncache key (some i), log := i :: s.log }
  else
    { s with pcache := Function.update s.pcache key (some i), log := i :: s.log }

def remove (s : State) (negative : Bool) (key : UInt64) : State :=
  if negative then
    { s with ncache := Function.update s.ncache key none }
  else
    { s with pcache := Function.update s.pcache key none }

def excepted (zones : List Str) (m : Msg) : Bool :=
  match m.question with
  | [] => false
  | q :: _ => Plugin.Zones.matches lib.isSubDomain zones q.name ≠ []

def set (s : State) (w : Writer) (m : Msg) (key : UInt64) (mt : ResponseType) (duration : Duration) : State :=
  let i := newItem s.log.length w.request m mt s.now duration
  match mt with
  | .noError | .delegation =>
    if excepted lib w.pexcept m then
      s
    else
      -- A prefetched reply replaces a negative one.
      let s := s.add false key i
      if w.prefetch then s.remove true key else s
  | .nameError | .noData | .serverError =>
    if excepted lib w.nexcept m then s else s.add true key i
  | _ => s

def duration (res : Msg) (mt : ResponseType) : Duration :=
  match mt with
  | .nameError | .noData => computeTTL (minimalTTL res mt) c.minnttl c.nttl
  | .serverError => c.failttl
  | _ => computeTTL (minimalTTL res mt) c.minpttl c.pttl

def capped (w : Writer) (res : Msg) (duration : Duration) : Msg :=
  let ttl := UInt32.ofInt (seconds duration)
  { res with
    answer := filterRRSlice res.answer ttl
    ns := filterRRSlice res.ns ttl
    extra := filterRRSlice res.extra ttl
    authenticatedData := if !w.dnssec && !w.ad then false else res.authenticatedData }

-- It is none if there is a panic.
def writeMsg (s : State) (w : Writer) (res : Msg) : Option State := do
  let mt := typify lib res s.now
  let key ← key (w.request.name lib) res mt w.dnssec w.cd
  let duration := duration c res mt
  let res := capped w res duration
  match key with
  | some key =>
    if 0 < duration ∧ w.request.matchReply lib res then
      some (s.set lib w res key mt duration)
    else
      some s
  | none => some s

def keyOf (state : Msg) : UInt64 :=
  hash (state.name lib) state.qtype (lib.isDo state) state.checkingDisabled

def servable (i : Item) (now : Time) : Bool :=
  0 < i.ttl now ∨ 0 < c.staleUpTo ∧ -i.ttl now < seconds c.staleUpTo

def getIfNotStale (s : State) (state : Msg) : Option Item :=
  let usable (i : Item) : Bool := i.matches lib state && servable c i s.now
  let p := (s.pcache (keyOf lib state)).filter usable
  match (s.ncache (keyOf lib state)).filter usable with
  | some i => if i.rcode = Msg.rcodeServerFailure then some (p.getD i) else some i
  | none => p

-- The item for a key, whatever it is for.
def «exists» (s : State) (state : Msg) : Option Item :=
  (s.ncache (keyOf lib state)).or (s.pcache (keyOf lib state))

def push (s : State) (writer : Writer) (purpose : Purpose) : State :=
  { s with tasks := s.tasks ++ [{ writer, purpose }] }

-- There is at most one prefetch for an item at a time.
def tryPrefetch (s : State) (i : Item) (req : Msg) (now : Time) : State :=
  if s.refreshing i.id then
    s
  else
    let s := { s with refreshing := Function.update s.refreshing i.id true }
    let w := { request := req, dnssec := lib.isDo req, cd := req.checkingDisabled, prefetch := true }
    s.push w (.prefetch i now)

-- The threshold is computed with floats.
def threshold (i : Item) : Int :=
  (Float.ceil (Float.ofInt c.percentage / 100 * i.origTTL.toFloat)).toInt64.toInt

def shouldPrefetch (s : State) (i : Item) (now : Time) : State × Bool :=
  if c.prefetch ≤ 0 then
    (s, false)
  else
    let f := (s.freq i.id).update c.duration now
    ({ s with freq := Function.update s.freq i.id f }, f.hits ≥ c.prefetch ∧ i.ttl now ≤ threshold c i)

def reply (r : Msg) (i : Item) (moment now : Time) : Reply where
  request := r
  item := i
  moment := moment
  msg := i.toMsg lib r (if c.keepttl then i.stored else now) (lib.isDo r) r.authenticatedData

-- Serves an item that is past its lifetime, with a time at which its TTL is 0.
def serveStale (s : State) (r : Msg) (i : Item) (moment : Time) : State × Reply :=
  let now := moment + i.ttl moment * second
  let s := if c.verifyStale then s else s.tryPrefetch lib i r now
  (s, reply lib c r i moment now)

def serveDNS (s : State) (r : Msg) : State × Option Reply :=
  let dnssec := lib.isDo r
  let cd := r.checkingDisabled
  let ad := r.authenticatedData
  if Plugin.Zones.matches lib.isSubDomain c.zones (r.name lib) = [] then
    (s, none)
  else
    match s.getIfNotStale lib c r with
    | none =>
      (s.push { request := r, dnssec, cd, ad, pexcept := c.pexcept, nexcept := c.nexcept } .miss, none)
    | some i =>
      if i.ttl s.now < 0 then
        if c.verifyStale then
          let timed : Bool := c.verifyStaleTimeout ≠ 0
          let prefetch : Bool := 0 < c.verifyStaleTimeout
          (s.push { request := r, dnssec, cd, prefetch } (.verify timed i s.now false), none)
        else
          let (s, reply) := s.serveStale lib c r i s.now
          (s, some reply)
      else
        let now := s.now
        let (s, prefetch) := s.shouldPrefetch c i now
        let s := if prefetch then s.tryPrefetch lib i r now else s
        (s, some (reply lib c r i now now))

-- The plugins behind the cache write a reply for a task. A verification only takes a reply that is no failure.
def respond (s : State) (n : Nat) (res : Msg) : Option State := do
  let t ← s.tasks[n]?
  let refresh : Bool := res.rcode = Msg.rcodeSuccess ∨ res.rcode = Msg.rcodeNameError
  match t.purpose with
  | .verify timed i moment _ =>
    let s := { s with tasks := s.tasks.set n { t with purpose := .verify timed i moment refresh } }
    if refresh then s.writeMsg lib c t.writer res else some s
  | .detached => if refresh then s.writeMsg lib c t.writer res else some s
  | _ => s.writeMsg lib c t.writer res

-- The plugins behind the cache return from a task.
def finish (s : State) (n : Nat) : Option (State × Option Reply) := do
  let t ← s.tasks[n]?
  let s := { s with tasks := s.tasks.eraseIdx n }
  let r := t.writer.request
  match t.purpose with
  | .miss | .detached => some (s, none)
  | .verify timed i moment refreshed =>
    if !refreshed then
      let (s, reply) := s.serveStale lib c r i moment
      some (s, some reply)
    else if timed then
      some (s, (s.exists lib r).map fun fresh => reply lib c r fresh s.now s.now)
    else
      some (s, none)
  | .prefetch i now =>
    let s := { s with refreshing := Function.update s.refreshing i.id false }
    match s.exists lib r with
    | none => some (s, none)
    | some i₁ => some ({ s with freq := Function.update s.freq i₁.id ⟨some now, (s.freq i.id).hits⟩ }, none)

-- The timer of a verification fires before the plugins return, which then go on in the background.
def timeout (s : State) (n : Nat) : Option (State × Option Reply) := do
  let t ← s.tasks[n]?
  match t.purpose with
  | .verify true i moment _ =>
    let s := { s with tasks := s.tasks.set n { t with purpose := .detached } }
    let (s, reply) := s.serveStale lib c t.writer.request i moment
    some (s, some reply)
  | _ => none

end State

-- What happens to a cache. Evictions make room for other items, but they may happen at any time here.
inductive Event
  | request (r : Msg)
  | respond (n : Nat) (res : Msg)
  | finish (n : Nat)
  | timeout (n : Nat)
  | evict (negative : Bool) (key : UInt64)
  | advance (d : Nat)

def State.step (s : State) : Event → Option (State × Option Reply)
  | .request r => some (s.serveDNS lib c r)
  | .respond n res => (s.respond lib c n res).map (·, none)
  | .finish n => s.finish lib c n
  | .timeout n => s.timeout lib c n
  | .evict negative key => some (s.remove negative key, none)
  | .advance d => some ({ s with now := s.now + d }, none)

end
end Cache
