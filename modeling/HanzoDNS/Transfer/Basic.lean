import HanzoDNS.Lib.Batch
import HanzoDNS.Lib.Net
import HanzoDNS.Plugin.Normalize
import HanzoDNS.Request

open Dns Strings

-- The plugin that answers requests for the transfer of a zone.
namespace Transfer

inductive Error
  | notAuthoritative
  | other (text : Str)
deriving DecidableEq

-- What a client gets for a stream: the envelopes of a transfer, and a message with an answer.
structure Out where
  envelopes : List (List RR) := []
  reply : Option (List RR) := none
deriving DecidableEq

def isSoa (rr : RR) : Bool :=
  rr.rrtype = .soa

section Batching

variable (len : RR → Nat)

def threshold : Nat := 63000

structure Batching where
  toState : Batch.State RR := {}
  soa : Option RR := none

-- Accessing the first record of an empty slice is a panic.
def Batching.receive (b : Batching) (records : List RR) : Option Batching := do
  let first ← records.head?
  return {
    toState := records.foldl (Batch.State.add threshold len) b.toState
    soa := b.soa.or (if isSoa first then some first else none)
  }

-- If a single record is left, it is taken for the SOA that a client with a current zone gets.
def Batching.finish (b : Batching) : Out :=
  if b.toState.batch.length = 1 ∧ b.soa ≠ none then
    { envelopes := b.toState.sent, reply := some b.soa.toList }
  else if b.toState.batch ≠ [] then
    { envelopes := b.toState.sent ++ [b.toState.batch] }
  else
    { envelopes := b.toState.sent }

def respond (slices : List (List RR)) : Option Out := do
  let b ← slices.foldlM (Batching.receive len) {}
  return b.finish

end Batching

end Transfer
