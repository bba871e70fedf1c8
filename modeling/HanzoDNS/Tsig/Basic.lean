import HanzoDNS.Dns.Edns
import HanzoDNS.Dnsserver.Server
import HanzoDNS.Plugin.Normalize

open Dns Strings

-- The plugin that asks for signed requests, and signs the replies to them.
namespace Tsig

inductive Failure
  | secret
  | time
  | other
deriving DecidableEq

-- The functions of the DNS library on TSIG records, and what its documentation says about them.
structure Verifier extends Edns where
  -- The TSIG record in last position of the additional section, with the name of its key.
  isTsig : Msg → Option (Str × Dns.Tsig)
  isTsig_some : isTsig m = some (name, tsig) → ∃ ttl, m.extra.getLast? = some ⟨name, ttl, .tsig tsig⟩
  isTsig_none : isTsig m = none → ∀ rr, m.extra.getLast? = some rr → rr.rrtype ≠ .tsig
  -- Verifies the bytes of a message with a secret.
  tsigVerify : List UInt8 → Str → Option Failure

theorem exists_tsig_data {data : RData} (h : data.rrtype = .tsig) : ∃ tsig, data = .tsig tsig := by
  cases data
  case tsig => exact ⟨_, rfl⟩
  case other untyped =>
    obtain rfl : _ = RRType.tsig := h
    exact absurd (by decide) untyped
  all_goals
    simp only [RData.rrtype] at h
    exact absurd h (by decide)

def signature (rr : RR) : Option (Str × Dns.Tsig) :=
  match rr.data with
  | .tsig tsig => some (rr.name, tsig)
  | _ => none

def Verifier.reference : Verifier where
  toEdns := .reference
  isTsig m := m.extra.getLast?.bind signature
  isTsig_some h := by
    obtain ⟨rr, hl, hs⟩ := Option.bind_eq_some_iff.mp h
    rw [signature] at hs
    split at hs
    case h_1 tsig hd =>
      cases hs
      exact ⟨rr.ttl, hl.trans (by rw [←hd])⟩
    case h_2 => cases hs
  isTsig_none h rr hl ht := by
    obtain ⟨tsig, hd⟩ := exists_tsig_data ht
    simp [hl, signature, hd] at h
  tsigVerify _ _ := none

def rcodeNotAuth : Nat := 9

def rcodeBadSig : UInt16 := 16
def rcodeBadKey : UInt16 := 17
def rcodeBadTime : UInt16 := 18

-- The error in a TSIG record.
def Failure.code : Failure → UInt16
  | secret => rcodeBadKey
  | time => rcodeBadTime
  | other => rcodeBadSig

structure TSIGServer where
  zones : List Str
  types : List RRType := []
  opcodes : List Nat := []
  allTypes : Bool := false
  allOpcodes : Bool := false

def TSIGServer.tsigRequired (t : TSIGServer) (qtype : RRType) (opcode : Nat) : Bool :=
  (t.allTypes || qtype ∈ t.types) || (t.allOpcodes || opcode ∈ t.opcodes)

abbrev Handler := Msg → List Msg × Nat

structure Write where
  given : Msg
  sent : Msg
deriving DecidableEq

structure Outcome where
  -- The request that the next plugin gets, if it runs.
  seen : Option Msg
  written : List Write
  -- The return code unless there was a panic.
  rcode : Option Nat

structure Env where
  dns : Verifier
  registered : UInt16 → Bool
  tsigSecret : Str → Option Str
  now : Nat

section

variable (env : Env)

-- The verdict of the server on a request. There is none on a request without a TSIG record.
def tsigStatus (raw : List UInt8) (r : Msg) : Option Failure :=
  match env.dns.isTsig r with
  | none => none
  | some (name, _) =>
    match env.tsigSecret name with
    | none => some .secret
    | some secret => env.dns.tsigVerify raw secret

def hex48 (n : Nat) : Str :=
  (List.range 12).reverse.map fun i => (n / 16 ^ i % 16).digitChar

def repTSIG (m : Msg) (name : Str) (reqTSIG : Dns.Tsig) : RR where
  name := name
  ttl := 0
  data :=
    let repTSIG := {
      algorithm := reqTSIG.algorithm, origId := m.id, error := reqTSIG.error, mac := reqTSIG.mac
      macSize := reqTSIG.macSize }
    if reqTSIG.error = rcodeBadTime then
      .tsig { repTSIG with timeSigned := reqTSIG.timeSigned, otherData := hex48 env.now, otherLen := 6 }
    else
      .tsig repTSIG

def restore (reqTSIG : Option (Str × Dns.Tsig)) (m : Msg) : Msg :=
  match reqTSIG, env.dns.isTsig m with
  | some (name, tsig), none => { m with extra := m.extra ++ [repTSIG env m name tsig] }
  | _, _ => m

-- The writer for replies to a request. The OPT record of the request is changed if it is used for a reply.
def writeMsg (reqTSIG : Option (Str × Dns.Tsig)) (req m : Msg) : Msg × Msg :=
  let (req, m) := env.dns.sizeAndDo env.registered req m
  (req, restore env reqTSIG m)

def writeAll (reqTSIG : Option (Str × Dns.Tsig)) (req : Msg) : List Msg → Msg × List Write
  | [] => (req, [])
  | m :: ms =>
    let (req, sent) := writeMsg env reqTSIG req m
    let (req, ws) := writeAll reqTSIG req ms
    (req, ⟨m, sent⟩ :: ws)

def setRcode (r : Msg) (rcode : Nat) : Msg :=
  { env.dns.setReply r with rcode }

-- The reply to a request unless one has been written.
def reply (reqTSIG : Option (Str × Dns.Tsig)) (r : Msg) (rcode : Nat) : List Write :=
  if Dnsserver.clientWrite rcode then
    []
  else
    [⟨setRcode env r rcode, (writeMsg env reqTSIG r (setRcode env r rcode)).2⟩]

def strip (r : Msg) : Msg :=
  { r with extra := if r.extra.length > 1 then r.extra.dropLast else [] }

def pass (next : Handler) (r : Msg) : Outcome where
  seen := some r
  written := (next r).1.map fun m => ⟨m, m⟩
  rcode := some (next r).2

def TSIGServer.serveDNS (t : TSIGServer) (next : Handler) (raw : List UInt8) (r : Msg) : Outcome :=
  if Plugin.Zones.matches env.dns.isSubDomain t.zones (r.name env.dns.toLibrary) = [] then
    pass next r
  else
    match env.dns.isTsig r, tsigStatus env raw r with
    | none, some _ => ⟨none, [], none⟩
    | some (name, tsig), some failure =>
      let tsig := { tsig with error := failure.code }
      let resp := setRcode env r rcodeNotAuth
      ⟨none, [⟨resp, (writeMsg env (some (name, tsig)) r resp).2⟩], some Msg.rcodeSuccess⟩
    | some reqTSIG, none =>
      let (ms, rcode) := next (strip r)
      let (req, ws) := writeAll env reqTSIG (strip r) ms
      ⟨some (strip r), ws ++ reply env reqTSIG req rcode, some Msg.rcodeSuccess⟩
    | none, none =>
      if t.tsigRequired r.qtype r.opcode then
        ⟨none, reply env none (strip r) Msg.rcodeRefused, some Msg.rcodeSuccess⟩
      else
        pass next r

end

end Tsig
