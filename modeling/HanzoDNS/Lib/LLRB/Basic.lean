import Mathlib

-- Left-leaning red-black trees that split their 4-nodes on the way up (the mode "bu23"). Elements are
-- found by a `cut`, which compares what is searched with an element. An operation that would follow a
-- link of `nil` panics, that is, yields `none`.
namespace LLRB

inductive Color
  | red
  | black
deriving DecidableEq

def Color.not : Color → Color
  | .red => .black
  | .black => .red

inductive Node (α : Type*)
  | nil
  | node (elem : α) (left right : Node α) (color : Color)
deriving DecidableEq

namespace Node

def color : Node α → Color
  | nil => .black
  | node _ _ _ c => c

def elem : Node α → Option α
  | nil => none
  | node e _ _ _ => some e

def left : Node α → Option (Node α)
  | nil => none
  | node _ l _ _ => some l

def right : Node α → Option (Node α)
  | nil => none
  | node _ _ r _ => some r

def setLeft (n l : Node α) : Option (Node α) :=
  match n with
  | nil => none
  | node e _ r c => some (node e l r c)

def setRight (n r : Node α) : Option (Node α) :=
  match n with
  | nil => none
  | node e l _ c => some (node e l r c)

def setElem (n : Node α) (e : α) : Option (Node α) :=
  match n with
  | nil => none
  | node _ l r c => some (node e l r c)

def setBlack : Node α → Node α
  | nil => nil
  | node e l r _ => node e l r .black

def rotateLeft : Node α → Option (Node α)
  | node e l (node e' l' r' _) c => some (node e' (node e l l' .red) r' c)
  | _ => none

def rotateRight : Node α → Option (Node α)
  | node e (node e' l' r' _) r c => some (node e' l' (node e r' r .red) c)
  | _ => none

def flipColors : Node α → Option (Node α)
  | node e (node e₁ l₁ r₁ c₁) (node e₂ l₂ r₂ c₂) c =>
    some (node e (node e₁ l₁ r₁ c₁.not) (node e₂ l₂ r₂ c₂.not) c.not)
  | _ => none

-- Rotates right if there are two red links to the left in a row.
def straighten (n : Node α) : Option (Node α) := do
  let l ← n.left
  if l.color = .red then
    if (← l.left).color = .red then n.rotateRight else some n
  else
    some n

def split (n : Node α) : Option (Node α) := do
  if (← n.left).color = .red ∧ (← n.right).color = .red then n.flipColors else some n

def leanLeft (n : Node α) : Option (Node α) := do
  if (← n.right).color = .red then n.rotateLeft else some n

def fixUp (n : Node α) : Option (Node α) := do
  let n ← n.leanLeft
  let n ← n.straighten
  n.split

-- At the end of an insertion, a red link to the right is left to be split if there is one to the left.
def leanLeftUnlessSplit (n : Node α) : Option (Node α) := do
  if (← n.right).color = .red ∧ (← n.left).color = .black then n.rotateLeft else some n

def lean (n : Node α) : Option (Node α) := do
  let n ← n.leanLeftUnlessSplit
  let n ← n.straighten
  n.split

def moveRedLeft (n : Node α) : Option (Node α) := do
  let n ← n.flipColors
  let r ← n.right
  if (← r.left).color = .red then
    let n ← n.setRight (← r.rotateRight)
    (← n.rotateLeft).flipColors
  else
    some n

def moveRedRight (n : Node α) : Option (Node α) := do
  let n ← n.flipColors
  if (← (← n.left).left).color = .red then
    (← n.rotateRight).flipColors
  else
    some n

def leanRight (n : Node α) : Option (Node α) := do
  if (← n.left).color = .red then n.rotateRight else some n

-- Sees to it that the left child, which is not `nil`, is or has a red node before descending into it.
def borrowLeft (n : Node α) : Option (Node α) := do
  let l ← n.left
  if l.color = .black ∧ (← l.left).color = .black then n.moveRedLeft else some n

def borrowRight (n : Node α) : Option (Node α) := do
  let r ← n.right
  if r.color = .black ∧ (← r.left).color = .black then n.moveRedRight else some n

def search (cut : α → Ordering) : Node α → Option α
  | nil => none
  | node e l r _ =>
    match cut e with
    | .eq => some e
    | .lt => l.search cut
    | .gt => r.search cut

def update (cut : α → Ordering) (f : α → α) : Node α → Node α
  | nil => nil
  | node e l r c =>
    match cut e with
    | .eq => node (f e) l r c
    | .lt => node e (l.update cut f) r c
    | .gt => node e l (r.update cut f) c

-- Either a new element is stored or one that is already there absorbs it, and the number of elements
-- grows accordingly.
def insert (cut : α → Ordering) (new : α) (absorb : α → α) : Node α → Option (Node α × Int)
  | nil => some (node new nil nil .red, 1)
  | node e l r c => do
    let (n, d) ← match cut e with
      | .eq => some (node (absorb e) l r c, 0)
      | .lt => (l.insert cut new absorb).map fun (l, d) => (node e l r c, d)
      | .gt => (r.insert cut new absorb).map fun (r, d) => (node e l r c, d)
    some (← n.lean, d)

def min : Node α → Option α
  | nil => none
  | node e nil _ _ => some e
  | node _ l _ _ => l.min

-- Deletions restructure the tree before they descend, so they are bounded by a depth.
def deleteMin : (depth : Nat) → Node α → Option (Node α × Int)
  | 0, _ => none
  | depth + 1, n => do
    match ← n.left with
    | nil => some (nil, -1)
    | _ =>
      let n ← n.borrowLeft
      let (l, d) ← deleteMin depth (← n.left)
      some (← (← n.setLeft l).fixUp, d)

def delete (cut : α → Ordering) : (depth : Nat) → Node α → Option (Node α × Int)
  | 0, _ => none
  | depth + 1, n => do
    if cut (← n.elem) = .lt then
      match ← n.left with
      | nil => some (← n.fixUp, 0)
      | _ =>
        let n ← n.borrowLeft
        let (l, d) ← delete cut depth (← n.left)
        some (← (← n.setLeft l).fixUp, d)
    else
      let n ← n.leanRight
      match ← n.right with
      | nil => if cut (← n.elem) = .eq then some (nil, -1) else some (← n.fixUp, 0)
      | _ =>
        let n ← n.borrowRight
        if cut (← n.elem) = .eq then
          let n ← n.setElem (← (← n.right).min)
          let (r, d) ← deleteMin depth (← n.right)
          some (← (← n.setRight r).fixUp, d)
        else
          let (r, d) ← delete cut depth (← n.right)
          some (← (← n.setRight r).fixUp, d)

def floor (cut : α → Ordering) : Node α → Option α
  | nil => none
  | node e l r _ =>
    match cut e with
    | .eq => some e
    | .lt => l.floor cut
    | .gt => (r.floor cut).or (some e)

def ceil (cut : α → Ordering) : Node α → Option α
  | nil => none
  | node e l r _ =>
    match cut e with
    | .eq => some e
    | .gt => r.ceil cut
    | .lt => (l.ceil cut).or (some e)

def all : Node α → List α → List α
  | nil, found => found
  | node e l r _, found => r.all (l.all found ++ [e])

-- Visits the elements in order. The visitor may fail, which ends the walk, if `m` is a monad with errors.
def walk [Monad m] (fn : α → m PUnit) : Node α → m PUnit
  | nil => pure ⟨⟩
  | node e l r _ => do l.walk fn; fn e; r.walk fn

def size : Node α → Nat
  | nil => 0
  | node _ l r _ => l.size + r.size + 1

def toList : Node α → List α
  | nil => []
  | node e l r _ => l.toList ++ e :: r.toList

end Node
end LLRB
