import HanzoDNS.Dns.Msg

open Dns

-- The UDP listener that takes the addresses of clients from PROXY protocol headers.
namespace Proxyproto

structure Addr where
  network : Str
  string : Str
deriving DecidableEq

-- The sender of a datagram, and the client that it speaks for, if that is known.
inductive Remote
  | plain (u : Addr)
  | proxied (u r : Addr)
deriving DecidableEq

inductive Policy
  | use
  | ignore
  | reject
  | require
  | skip
deriving DecidableEq

structure Header where
  version : Nat
  -- Whether its addresses are those of UDP.
  udpAddrs : Bool
  sourceAddr : Addr
deriving DecidableEq

inductive ReadError
  | noProxyProtocol
  | other (text : Str)
deriving DecidableEq

-- The libraries for headers and for caches with a limited lifetime of their entries.
structure Library (σ : Type) where
  -- The header at the start of a packet, and the number of bytes that are buffered after it.
  read : List UInt8 → Except ReadError (Header × Nat)
  newLRU : (cap : Int) → Duration → σ
  add : Time → Str → Header → σ → σ
  get : Time → Str → σ → Option Header × σ

-- Policies and validators may depend on anything, so also on the time.
structure PacketConn where
  connPolicy : Option (Time → Addr → Except Str Policy)
  validateHeader : Option (Time → Header → Option Str) := none
  udpSessionTrackingTTL : Duration := 0
  udpSessionTrackingMaxSessions : Int := 0

structure Datagram where
  time : Time
  packet : List UInt8
  addr : Addr

inductive Reason
  | policy (err : Str)
  | malformed (err : Str)
  | version (version : Nat)
  | notUDP
  | headerLength (length : Int)
  | invalid (err : Str)
  | rejected
  | missing
  | headerOnly
deriving DecidableEq

section

variable (lib : Library σ)

def parseProxyProtocol (packet : List UInt8) : Except Reason (Option Header × List UInt8) :=
  match lib.read packet with
  | .error .noProxyProtocol => .ok (none, packet)
  | .error (.other err) => .error (.malformed err)
  | .ok (header, buffered) =>
    if header.version ≠ 2 then
      .error (.version header.version)
    else if ¬header.udpAddrs then
      .error .notUDP
    else
      let headerLen : Int := packet.length - buffered
      if headerLen < 0 ∨ headerLen > packet.length then
        .error (.headerLength headerLen)
      else
        .ok (some header, packet.drop headerLen.toNat)

def udpSessionMaxEntries : Int := 10240

def sessionKey (addr : Addr) : Str :=
  addr.network ++ "://".toList ++ addr.string

namespace PacketConn

variable (c : PacketConn)

-- The cache is created when it is needed for the first time.
def ensureSessionCache : Option σ → σ
  | some sessionCache => sessionCache
  | none =>
    let cap := if c.udpSessionTrackingMaxSessions ≤ 0 then udpSessionMaxEntries else c.udpSessionTrackingMaxSessions
    lib.newLRU cap c.udpSessionTrackingTTL

def storeSession (now : Time) (remoteAddr : Addr) (header : Header) (sessionCache : Option σ) : Option σ :=
  some (lib.add now (sessionKey remoteAddr) header (c.ensureSessionCache lib sessionCache))

-- An entry that is found is added again, which extends its lifetime.
def lookupSession (now : Time) (remoteAddr : Addr) : Option σ → Option Header × Option σ
  | none => (none, none)
  | some sessionCache =>
    let key := sessionKey remoteAddr
    match lib.get now key sessionCache with
    | (none, sessionCache) => (none, some sessionCache)
    | (some header, sessionCache) => (some header, some (lib.add now key header sessionCache))

def policy (d : Datagram) : Except Str Policy :=
  match c.connPolicy with
  | some policy => policy d.time d.addr
  | none => .ok .use

def validate (now : Time) (header : Option Header) : Option Str :=
  match header, c.validateHeader with
  | some header, some validate => validate now header
  | _, _ => none

-- A datagram with a header is for the client that the header names. One without may be for the client that an
-- earlier header of the same sender named.
def use (d : Datagram) (header : Option Header) (payload : List UInt8) (sessionCache : Option σ) :
    Except Reason (List UInt8 × Remote) × Option σ :=
  match header with
  | some header =>
    let addr := .proxied d.addr header.sourceAddr
    if c.udpSessionTrackingTTL > 0 then
      let sessionCache := c.storeSession lib d.time d.addr header sessionCache
      if payload = [] then (.error .headerOnly, sessionCache) else (.ok (payload, addr), sessionCache)
    else
      (.ok (payload, addr), sessionCache)
  | none =>
    if c.udpSessionTrackingTTL > 0 then
      match lookupSession lib d.time d.addr sessionCache with
      | (some header, sessionCache) => (.ok (payload, .proxied d.addr header.sourceAddr), sessionCache)
      | (none, sessionCache) => (.ok (payload, .plain d.addr), sessionCache)
    else
      (.ok (payload, .plain d.addr), sessionCache)

def readFrom (d : Datagram) (sessionCache : Option σ) : Except Reason (List UInt8 × Remote) × Option σ :=
  match c.policy d with
  | .error err => (.error (.policy err), sessionCache)
  | .ok .skip => (.ok (d.packet, .plain d.addr), sessionCache)
  | .ok policy =>
    match parseProxyProtocol lib d.packet with
    | .error reason => (.error reason, sessionCache)
    | .ok (header, payload) =>
      match c.validate d.time header with
      | some err => (.error (.invalid err), sessionCache)
      | none =>
        match policy, header with
        | .reject, some _ => (.error .rejected, sessionCache)
        | .require, none => (.error .missing, sessionCache)
        | .require, header => c.use lib d header payload sessionCache
        | .use, header => c.use lib d header payload sessionCache
        | _, _ => (.ok (payload, .plain d.addr), sessionCache)

inductive Call (σ : Type)
  | returned (out : List UInt8 × Remote) (rest : List Datagram) (sessionCache : Option σ)
  | blocked (sessionCache : Option σ)
  | panicked

-- The loop that reads datagrams until one is passed on. The warning about a datagram that is dropped asks for the
-- address of its sender, which has been overwritten with nil by then.
def ReadFrom : List Datagram → Option σ → Call σ
  | [], sessionCache => .blocked sessionCache
  | d :: ds, sessionCache =>
    match c.readFrom lib d sessionCache with
    | (.error .headerOnly, sessionCache) => ReadFrom ds sessionCache
    | (.error _, _) => .panicked
    | (.ok out, sessionCache) => .returned out ds sessionCache

-- What a number of calls return, until one of them blocks. It is none if one of them panics.
def calls : Nat → List Datagram → Option σ → Option (List (List UInt8 × Remote))
  | 0, _, _ => some []
  | n + 1, ds, sessionCache =>
    match c.ReadFrom lib ds sessionCache with
    | .returned out ds sessionCache => (calls n ds sessionCache).map (out :: ·)
    | .blocked _ => some []
    | .panicked => none

end PacketConn
end
end Proxyproto
