import HanzoDNS.Lib.Strings

open List Option

-- The paths of requests and their patterns, as the standard library of Go has them.
namespace Http

abbrev Bytes := List UInt8

def slash : UInt8 := 47

def hex (b : UInt8) : Option UInt8 :=
  if 48 ≤ b ∧ b ≤ 57 then some (b - 48)
  else if 97 ≤ b ∧ b ≤ 102 then some (b - 87)
  else if 65 ≤ b ∧ b ≤ 70 then some (b - 55)
  else none

def unescape : Bytes → Option Bytes
  | [] => some []
  | b :: bs =>
    if b = 37 then
      match bs with
      | c :: d :: bs => (hex c).bind fun c => (hex d).bind fun d => (unescape bs).map ((16 * c + d) :: ·)
      | _ => none
    else
      (unescape bs).map (b :: ·)

def plain (b : UInt8) : Bool :=
  48 ≤ b ∧ b ≤ 57 ∨ 65 ≤ b ∧ b ≤ 90 ∨ 97 ≤ b ∧ b ≤ 122 ∨ b ∈ Strings.bytes ("-_.~$&+,/:;=@" : Str)

def digit (n : UInt8) : UInt8 :=
  if n < 10 then 48 + n else 55 + n

def escape (path : Bytes) : Bytes :=
  path.flatMap fun b => if plain b then [b] else [37, digit (b / 16), digit (b % 16)]

def pathEscape (b : Bytes) : Bytes :=
  b.flatMap fun c => if plain c ∧ c ∉ Strings.bytes ("/;," : Str) then [c] else [37, digit (c / 16), digit (c % 16)]

def validEncoded (raw : Bytes) : Bool :=
  raw.all fun b => plain b ∨ b ∈ Strings.bytes ("!'()*[]%" : Str)

-- The path of a request for a URL with a given path. There is none if an escape is malformed.
def escapedPath (raw : Bytes) : Option Bytes :=
  (unescape raw).map fun path => if validEncoded raw then raw else escape path

def segments (path : Bytes) : List Bytes :=
  path.splitOn slash

-- The segments of a path that are left, the last one first, if a further segment follows.
def push (left : List Bytes) (segment : Bytes) : List Bytes :=
  if segment = [] ∨ segment = Strings.bytes ("." : Str) then left
  else if segment = Strings.bytes (".." : Str) then left.tail
  else segment :: left

def cleanPath (path : Bytes) : Bytes :=
  match (segments path).foldl push [] with
  | [] => [slash]
  | left => left.reverse.flatMap (slash :: ·) ++ if path.getLast? = some slash then [slash] else []

-- A pattern is for a single path or for all paths below one.
structure Pattern where
  method : Option Str
  segments : List Bytes
  subtree : Bool

namespace Pattern

-- Each segment is decoded on its own, if it can be.
def decodeSegment (segment : Bytes) : Bytes :=
  (unescape segment).getD segment

def decode (path : Bytes) : List Bytes :=
  (Http.segments path).tail.map decodeSegment

def matchesPath (p : Pattern) (path : Bytes) : Bool :=
  if p.subtree then
    p.segments.isPrefixOf (decode path) ∧ p.segments.length < (decode path).length
  else
    decode path = p.segments

def allows (p : Pattern) (method : Str) : Bool :=
  match p.method with
  | none => true
  | some m => method = m ∨ m = "GET" ∧ method = "HEAD"

end Pattern

inductive Found (α : Type)
  | handler (h : α)
  | redirect (path : Bytes)
  | methodNotAllowed
  | notFound
deriving DecidableEq

-- The handler for a request, if no two of the patterns match the same path. A path that is not clean is
-- redirected.
def handler (patterns : List (Pattern × α)) (method : Str) (path : Bytes) : Found α :=
  if cleanPath path ≠ path then
    .redirect (cleanPath path)
  else
    match patterns.find? fun p => p.1.matchesPath path ∧ p.1.allows method with
    | some p => .handler p.2
    | none => if patterns.any (·.1.matchesPath path) then .methodNotAllowed else .notFound

section Paths

variable {a b path : Bytes}

theorem unescape_cons {c : UInt8} (h : c ≠ 37) (a : Bytes) : unescape (c :: a) = (unescape a).map (c :: ·) := by
  rw [unescape.eq_def]
  simp only [h, if_false]

theorem unescape_percent (c d : UInt8) (a : Bytes) : unescape (37 :: c :: d :: a) =
    (hex c).bind fun c => (hex d).bind fun d => (unescape a).map ((16 * c + d) :: ·) := by
  rw [unescape.eq_def]
  rfl

theorem unescape_append_slash (h : unescape (a ++ slash :: b) = some path) :
    ∃ x y, unescape a = some x ∧ unescape b = some y ∧ path = x ++ slash :: y := by
  have hx : hex slash = none := by decide
  induction a using unescape.induct generalizing path
  case case1 =>
    rw [nil_append, unescape_cons (by decide), map_eq_some_iff] at h
    obtain ⟨y, hy, rfl⟩ := h
    exact ⟨[], y, rfl, hy, rfl⟩
  case case2 c d a hi =>
    simp only [cons_append, unescape_percent, bind_eq_some_iff, map_eq_some_iff] at h
    obtain ⟨c', hc, d', hd, path, hp, rfl⟩ := h
    obtain ⟨x, y, hx, hy, rfl⟩ := hi hp
    exact ⟨(16 * c' + d') :: x, y, by simp [unescape_percent, hc, hd, hx], hy, rfl⟩
  case case3 a ha =>
    -- The slash takes the place of a digit.
    cases a
    case nil =>
      cases b
      case nil => simp [unescape] at h
      case cons => simp [unescape_percent, hx] at h
    case cons c a =>
      cases a
      case nil => simp [unescape_percent, hx] at h
      case cons d a => exact absurd rfl (ha c d a)
  case case4 c a hc hi =>
    rw [cons_append, unescape_cons hc, map_eq_some_iff] at h
    obtain ⟨path, hp, rfl⟩ := h
    obtain ⟨x, y, hx, hy, rfl⟩ := hi hp
    exact ⟨c :: x, y, by simp [unescape_cons hc, hx], hy, rfl⟩

theorem unescape_plain (h : ∀ c ∈ b, plain c) : unescape b = some b := by
  induction b
  case nil => rfl
  case cons c b hi =>
    have hc : c ≠ 37 := by
      rintro rfl
      exact absurd (h 37 (by simp)) (by decide)
    rw [unescape_cons hc, hi fun c hm => h c (mem_cons_of_mem _ hm), map_some]

theorem escape_plain (h : ∀ c ∈ b, plain c) : escape b = b := by
  induction b
  case nil => rfl
  case cons c b hi =>
    have hb := hi fun c hm => h c (mem_cons_of_mem _ hm)
    rw [escape] at hb ⊢
    rw [flatMap_cons, if_pos (h c (by simp)), hb]
    rfl

theorem escapedPath_append (hb : ∀ c ∈ b, plain c) (h : escapedPath (a ++ slash :: b) = some path) :
    ∃ x, path = x ++ slash :: b := by
  obtain ⟨path', hp, rfl⟩ := map_eq_some_iff.mp h
  obtain ⟨x, y, -, hy, rfl⟩ := unescape_append_slash hp
  obtain rfl : b = y := Option.some.inj ((unescape_plain hb).symm.trans hy)
  split
  case isTrue => exact ⟨a, rfl⟩
  case isFalse =>
    have hs : ∀ c ∈ slash :: b, plain c := forall_mem_cons.mpr ⟨by decide, hb⟩
    refine ⟨escape x, ?_⟩
    rw [escape, flatMap_append, ←escape, ←escape, escape_plain hs]

theorem segments_append (a b : Bytes) : segments (a ++ slash :: b) = segments a ++ segments b :=
  splitOn_append_cons_self a b

theorem Pattern.decode_append (a b : Bytes) :
    decode (a ++ slash :: b) = decode a ++ (Http.segments b).map decodeSegment := by
  have hn : Http.segments a ≠ [] := splitOn_ne_nil _ _
  rw [decode, segments_append, tail_append_of_ne_nil hn, map_append]
  rfl

theorem Pattern.decode_eq {p : Pattern} (hs : p.subtree = false) (h : p.matchesPath path) : decode path = p.segments := by
  simpa [matchesPath, hs] using h

end Paths

theorem matchesPath_of_handler {patterns : List (Pattern × α)} {method : Str} {path : Bytes} {h : α}
    (hh : handler patterns method path = .handler h) : ∃ p, (p, h) ∈ patterns ∧ p.matchesPath path := by
  rw [handler] at hh
  split at hh
  case isTrue => cases hh
  case isFalse =>
    split at hh
    case h_1 p hp =>
      cases hh
      have hm := find?_some hp
      exact ⟨p.1, mem_of_find?_eq_some hp, by simp_all⟩
    case h_2 => split at hh <;> cases hh

end Http
