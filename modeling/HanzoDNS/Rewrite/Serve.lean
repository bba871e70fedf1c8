import HanzoDNS.Rewrite.Basic
import HanzoDNS.Dnsserver.Server

open Dns Strings

namespace Rewrite

structure RevertPolicy where
  noRevert : Bool := false
  noRestore : Bool := false

-- A response that rules work on. Its sections hold addresses, since rules change records in place and can put
-- other records into the answer while they go through it.
structure Draft where
  msg : Msg
  heap : List RR
  ns : List Nat
  answer : List Nat
  extra : List Nat
  -- The request, whose question a rule can change even now.
  request : Msg

namespace Draft

def read (d : Draft) (addrs : List Nat) : List RR :=
  addrs.filterMap (d.heap[·]?)

def toMsg (d : Draft) : Msg :=
  { d.msg with ns := d.read d.ns, answer := d.read d.answer, extra := d.read d.extra }

def ofMsg (request res : Msg) : Draft where
  msg := res
  heap := res.ns ++ res.answer ++ res.extra
  ns := List.range' 0 res.ns.length
  answer := List.range' res.ns.length res.answer.length
  extra := List.range' (res.ns.length + res.answer.length) res.extra.length
  request := request

def modify (d : Draft) (i : Nat) (f : RR → RR) : Draft :=
  { d with heap := d.heap.modify i f }

def aliases (heap : List RR) (target : Str) : List Nat → List Nat × Option Nat
  | [] => ([], none)
  | i :: answer =>
    match heap[i]? with
    | some { data := .cname t, .. } =>
      if t = target then
        ([i], some i)
      else
        let (path, last) := aliases heap target answer
        (i :: path, last)
    | _ => aliases heap target answer

-- The answer consists of the aliases up to the one with the new target and of what is found for that target.
def follow (d : Draft) (request : Msg) (fromTarget toTarget : Str) (upRes : Msg) : Draft :=
  let (path, last) := aliases d.heap fromTarget d.answer
  { d with
    request
    msg := { d.msg with truncated := upRes.truncated }
    heap := last.elim d.heap (d.heap.modify · ({ · with data := .cname toTarget })) ++ upRes.answer
    answer := path ++ List.range' d.heap.length upRes.answer.length }

end Draft

section

variable (env : Env)

def CnameTargetRule.rewriteResponse (rule : CnameTargetRule) (d : Draft) (i : Nat) : Draft :=
  match d.heap[i]? with
  | some { data := .cname target, .. } =>
    let (fromTarget, toTarget) := rule.getFromAndToTarget target
    if target ≠ fromTarget then
      d
    else
      let request := setName toTarget d.request
      match env.upstream request toTarget request.qtype with
      | none => { d with request }
      | some upRes => d.follow request fromTarget toTarget upRes
  | _ => d

-- A rule for options needs an OPT record in the response. Without one it panics, and the request stays as it is.
def Draft.rewriteOptions (d : Draft) (f : List EDNS0 → List EDNS0) : Except Msg Draft :=
  match env.dns.isEdns0 d.toMsg with
  | none => .error d.request
  | some j =>
    .ok (d.extra[j]?.elim d (d.modify · fun rr => { rr with data := rr.data.setOptions (f (env.dns.options d.toMsg)) }))

def ResponseRule.rewriteResponse (d : Draft) (i : Nat) : ResponseRule → Except Msg Draft
  | name rewriter => .ok (d.modify i fun rr => { rr with name := rewriter.rewriteString rr.name })
  | value rewriter => .ok (d.modify i fun rr => { rr with data := rewriteValue rewriter rr.data })
  | ttl minTTL maxTTL =>
    .ok (d.modify i fun rr =>
      { rr with ttl := if rr.ttl < minTTL then minTTL else if rr.ttl > maxTTL then maxTTL else rr.ttl })
  | rcode old new =>
    .ok (if old = d.msg.rcode then { d with msg := { d.msg with rcode := new } } else d)
  | edns0Set code => d.rewriteOptions env (·.eraseP (·.option = code))
  | edns0Replace code source =>
    d.rewriteOptions env fun options =>
      (options.findIdx? (·.option = code)).elim options (options.set · source)
  | cnameTarget rule => .ok (rule.rewriteResponse env d i)

-- The rules are undone in reverse order.
def rewriteResourceRecord (rules : List ResponseRule) (d : Draft) (i : Nat) : Except Msg Draft :=
  rules.reverse.foldlM (fun d rule => rule.rewriteResponse env d i) d

structure ResponseReverter where
  originalQuestion : Question
  responseRules : List ResponseRule
  policy : RevertPolicy

-- The message that is written for a response, and the request. The records of a section are those that it has
-- when its turn comes.
def ResponseReverter.writeMsg (wr : ResponseReverter) (request res : Msg) : Except Msg (Msg × Msg) := do
  if ¬wr.policy.noRestore ∧ res.question = [] then
    throw request
  let question := if wr.policy.noRestore then res.question else res.question.set 0 wr.originalQuestion
  let d := Draft.ofMsg request { res with question }
  let d ← d.ns.foldlM (rewriteResourceRecord env wr.responseRules) d
  let d ← d.answer.foldlM (rewriteResourceRecord env wr.responseRules) d
  let d ← d.extra.foldlM (rewriteResourceRecord env wr.responseRules) d
  return (d.toMsg, d.request)

abbrev Handler := Msg → List Msg × Nat

-- What has been written for a request, the request as it is then, and the return code unless there was a panic.
structure Outcome where
  written : List Msg
  request : Msg
  rcode : Option Nat

def ResponseReverter.writeAll (wr : ResponseReverter) (rcode : Nat) (request : Msg) : List Msg → Outcome
  | [] => ⟨[], request, some rcode⟩
  | res :: ms =>
    match wr.writeMsg env request res with
    | .error request => ⟨[], request, none⟩
    | .ok (m, request) =>
      let out := wr.writeAll rcode request ms
      { out with written := m :: out.written }

-- What becomes of a request: a name that is not valid, or a request for the next plugin, and whether a rule
-- has ended the search for more.
inductive Requested
  | invalid (request : Msg)
  | done (request : Msg) (rules : List ResponseRule) (mode : Mode)

def rewriteRequest (original : Question) (rules : List Rule) (r : Msg) (respRules : List ResponseRule) : Requested :=
  match rules with
  | [] => .done r respRules .continue
  | rule :: rules =>
    match rule.rewrite env r with
    | (r, none) => rewriteRequest original rules r respRules
    | (r, some add) =>
      if ¬env.dns.isDomainName ((r.question.head?.map (·.name)).getD []) then
        .invalid { r with question := r.question.set 0 original }
      else if rule.mode = .stop then
        .done r (respRules ++ add) .stop
      else
        rewriteRequest original rules r (respRules ++ add)

def serveDNS (policy : RevertPolicy) (rules : List Rule) (next : Handler) (r : Msg) : Outcome :=
  match r.question with
  | [] => ⟨[], r, none⟩
  | original :: _ =>
    match rewriteRequest env original rules r [] with
    | .invalid r => ⟨[], r, some Msg.rcodeServerFailure⟩
    | .done r respRules .continue =>
      if policy.noRevert ∨ respRules = [] then
        ⟨(next r).1, r, some (next r).2⟩
      else
        (ResponseReverter.mk original respRules policy).writeAll env (next r).2 r (next r).1
    | .done r respRules .stop =>
      if policy.noRevert then
        ⟨(next r).1, r, some (next r).2⟩
      else
        let wr := ResponseReverter.mk original respRules policy
        let out := wr.writeAll env (next r).2 r (next r).1
        if out.rcode = none ∨ Dnsserver.clientWrite (next r).2 then
          out
        else
          -- The reply that the server would write does not have the question of the client.
          let res := { env.dns.setReply out.request with rcode := (next r).2 }
          let (request, res) := env.dns.sizeAndDo env.registered out.request res
          match wr.writeMsg env request res with
          | .error request => ⟨out.written, request, none⟩
          | .ok (m, request) => ⟨out.written ++ [m], request, some Msg.rcodeSuccess⟩

-- The reply of the server to a request as the plugins have left it.
def errorFunc (r : Msg) (rcode : Nat) : Msg :=
  (env.dns.sizeAndDo env.registered r { env.dns.setReply r with rcode }).2

-- The messages that reach the client. The server writes one itself if a plugin has panicked, or returns a code
-- that says that it has not written any.
def Outcome.received (out : Outcome) : List Msg :=
  match out.rcode with
  | none => out.written ++ [errorFunc env out.request Msg.rcodeServerFailure]
  | some rcode =>
    if Dnsserver.clientWrite rcode then
      out.written
    else
      out.written ++ [errorFunc env out.request rcode]

end

end Rewrite
