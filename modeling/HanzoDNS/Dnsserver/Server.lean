import HanzoDNS.Request

open Dns Strings

-- The server, which finds the plugins for a request.
namespace Dnsserver

-- A context with the name of a view, if there is one, and everything else that plugins put into it.
structure Context (μ : Type) where
  view : Option Str := none
  values : μ

-- What the plugins of a config do with a request: the messages that they write, and a return code.
abbrev Handler (μ : Type) := Context μ → Msg → List Msg × Nat

structure Config (μ : Type) where
  zone : Str
  listenHosts : List Str := [[]]
  port : Str := []
  transport : Str := []
  filterFuncs : List (Context μ → Msg → Bool) := []
  viewName : Str := []
  metaCollector : Option (Context μ → Msg → μ) := none
  pluginChain : Option (Handler μ) := none

structure Server (μ : Type) where
  -- The configs for a zone, in order.
  zones : Str → List (Config μ)
  classChaos : Bool := false

def newServer (group : List (Config μ)) (classChaos : Bool) : Server μ where
  zones z := group.filter (·.zone = z)
  classChaos := classChaos

inductive Action (μ : Type)
  | serve (h : Config μ) (ctx : Context μ)
  | error (rcode : Nat)

-- Whether the plugins have written a reply that goes with a return code.
def clientWrite (rcode : Nat) : Bool :=
  ¬(rcode = Msg.rcodeServerFailure ∨ rcode = Msg.rcodeRefused ∨ rcode = Msg.rcodeFormatError ∨
    rcode = Msg.rcodeNotImplemented)

section

variable (lib : Library) (r : Msg)

def Config.collect (h : Config μ) (ctx : Context μ) : Context μ :=
  match h.metaCollector with
  | some collect => { ctx with values := collect ctx r }
  | none => ctx

def passAllFilterFuncs (ctx : Context μ) (filterFuncs : List (Context μ → Msg → Bool)) : Bool :=
  filterFuncs.all (· ctx r)

def Config.enter (h : Config μ) (ctx : Context μ) : Context μ :=
  if h.viewName ≠ [] then { ctx with view := some h.viewName } else ctx

-- Hands a request to plugins, and writes an error if they have not replied.
def serve (h : Config μ) (chain : Handler μ) (ctx : Context μ) : List (Action μ) :=
  let rcode := (chain ctx r).2
  if clientWrite rcode then [.serve h ctx] else [.serve h ctx, .error rcode]

-- The search among the configs for one zone. It ends with what has been done, or else with the context and the
-- config that is kept for a request for DS records.
def searchZone : List (Config μ) → Context μ → Option (Config μ) →
    List (Action μ) ⊕ (Context μ × Option (Config μ))
  | [], ctx, dshandler => .inr (ctx, dshandler)
  | h :: hs, ctx, dshandler =>
    match h.pluginChain with
    | none => .inl [.error Msg.rcodeRefused]
    | some chain =>
      let ctx := h.collect r ctx
      if passAllFilterFuncs r ctx h.filterFuncs then
        let ctx := h.enter ctx
        if r.qtype ≠ .ds then
          .inl (serve r h chain ctx)
        else
          searchZone hs ctx (some h)
      else
        searchZone hs ctx dshandler

-- The search for the name in a request and those above it, except for the root. It is none if it does not end.
def searchZones (s : Server μ) (q : Str) : (fuel off : Nat) → Context μ → Option (Config μ) →
    Option (List (Action μ) ⊕ (Context μ × Option (Config μ)))
  | 0, _, _, _ => none
  | fuel + 1, off, ctx, dshandler =>
    match searchZone r (s.zones (q.drop off)) ctx dshandler with
    | .inl as => some (.inl as)
    | .inr (ctx, dshandler) =>
      match lib.nextLabel q off with
      | (_, true) => some (.inr (ctx, dshandler))
      | (off, false) => searchZones s q fuel off ctx dshandler

def searchRoot : List (Config μ) → Context μ → List (Action μ)
  | [], _ => [.error Msg.rcodeRefused]
  | h :: hs, ctx =>
    match h.pluginChain with
    | none => searchRoot hs ctx
    | some chain =>
      let ctx := h.collect r ctx
      if passAllFilterFuncs r ctx h.filterFuncs then
        serve r h chain (h.enter ctx)
      else
        searchRoot hs ctx

def serveDNS (s : Server μ) (ctx : Context μ) : Option (List (Action μ)) :=
  match r.question with
  | [] => some [.error Msg.rcodeServerFailure]
  | q :: _ =>
    if ¬s.classChaos ∧ q.qclass ≠ Msg.classINET then
      some [.error Msg.rcodeRefused]
    else if (lib.version r).any (· ≠ 0) then
      some [.error Msg.rcodeBadVers]
    else do
      let name := toLower q.name
      match ← searchZones lib r s name (name.length + 1) 0 ctx none with
      | .inl as => some as
      | .inr (ctx, dshandler) =>
        match dshandler.filter (fun _ => q.qtype = .ds) with
        | some h =>
          match h.pluginChain with
          | some chain => some (serve r h chain ctx)
          | none => some (searchRoot r (s.zones ['.']) ctx)
        | none => some (searchRoot r (s.zones ['.']) ctx)

end
end Dnsserver
