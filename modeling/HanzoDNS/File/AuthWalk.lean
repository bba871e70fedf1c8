import HanzoDNS.File.Zone

open Dns

namespace File

section

variable (dns : Labels)

-- Whether a name is not below a delegated one, as far as it is not clear up to an offset. The offset moves on by
-- one at a time, so that a label is looked at as often as it has runes.
def authFrom (ns : List Str) (name : Str) : (fuel i : Nat) → Option Bool
  | 0, _ => none
  | fuel + 1, i =>
    let (j, last) := dns.nextLabel name i
    if last then
      some true
    else if name.drop j ∈ ns then
      some false
    else
      authFrom ns name fuel (i + 1)

-- The loop ends at the end of the name if not before.
def auth (ns : List Str) (name : Str) : Bool :=
  (authFrom dns ns name (name.length + 1) 0).getD true

def noteNS (ns : List Str) (e : Elem) : List Str :=
  if e.type .ns ≠ [] then e.name :: ns else ns

def authwalk [Monad m] (fn : Elem → Bool → m PUnit) : LLRB.Node Elem → List Str → m (List Str)
  | .nil, ns => pure ns
  | .node e l r _, ns => do
    let ns ← authwalk fn l ns
    let ns := noteNS ns e
    fn e (auth dns ns e.name)
    authwalk fn r ns

namespace Tree

def authWalk [Monad m] (fn : Elem → Bool → m PUnit) (t : Tree) : m PUnit := do
  let _ ← authwalk dns fn t.root []

-- The calls of the function, as one that takes note of them sees them.
def authCalls (t : Tree) : List (Elem × Bool) :=
  (t.authWalk (m := StateM (List (Elem × Bool))) dns fun e auth => modify (· ++ [(e, auth)])).run [] |>.2

end Tree
end
end File
