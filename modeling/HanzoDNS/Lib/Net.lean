import HanzoDNS.Lib.Strconv

open List Option

namespace Net

-- The host and the port of an address. A host with colons is in brackets.
def splitHostPort (s : Str) : Option (Str × Str) :=
  match s with
  | '[' :: rest =>
    match rest.span (· ≠ ']') with
    | (host, _ :: ':' :: port) =>
      if ':' ∈ port ∨ '[' ∈ rest ∨ ']' ∈ port then none else some (host, port)
    | _ => none
  | s =>
    match s.span (· ≠ ':') with
    | (host, _ :: port) =>
      if ':' ∈ port ∨ '[' ∈ s ∨ ']' ∈ s then none else some (host, port)
    | _ => none

abbrev IP := List UInt8

namespace IP

def v4InV6Prefix : List UInt8 :=
  List.replicate 10 0 ++ [0xff, 0xff]

def to4 (ip : IP) : Option IP :=
  if ip.length = 4 then
    some ip
  else if ip.length = 16 ∧ v4InV6Prefix <+: ip then
    some (ip.drop 12)
  else
    none

def to16 (ip : IP) : Option IP :=
  if ip.length = 4 then
    some (v4InV6Prefix ++ ip)
  else if ip.length = 16 then
    some ip
  else
    none

def parseOctet (s : Str) : Option UInt8 :=
  match Strconv.digits s with
  | some n => if n > 255 ∨ (s.length > 1 ∧ s.head? = some '0') then none else some (UInt8.ofNat n)
  | none => none

def parseIPv4 (s : Str) : Option (List UInt8) :=
  let fields := s.splitOn '.'
  if fields.length = 4 then fields.mapM parseOctet else none

def hexDigit (c : Char) : Option Nat :=
  if '0' ≤ c ∧ c ≤ '9' then some (c.toNat - 48)
  else if 'a' ≤ c ∧ c ≤ 'f' then some (c.toNat - 87)
  else if 'A' ≤ c ∧ c ≤ 'F' then some (c.toNat - 55)
  else none

-- The bytes of an address so far, and where the ellipsis is. There are at most as many fields as the first
-- argument says.
def parseIPv6Fields : Nat → Str → List UInt8 → Option Nat → Option (List UInt8 × Option Nat)
  | 0, s, ip, ellipsis => if s = [] then some (ip, ellipsis) else none
  | n + 1, s, ip, ellipsis =>
    let field := s.takeWhile (hexDigit · |>.isSome)
    if field = [] ∨ field.length > 4 then
      none
    else
      let acc := (field.filterMap hexDigit).foldl (fun a d => 16 * a + d) 0
      let next := ip ++ [UInt8.ofNat (acc / 256), UInt8.ofNat acc]
      match s.drop field.length with
      | [] => some (next, ellipsis)
      | '.' :: _ =>
        if ellipsis = none ∧ ip.length ≠ 12 ∨ ip.length + 4 > 16 then
          none
        else
          (parseIPv4 s).map fun fields => (ip ++ fields, ellipsis)
      | [':'] => none
      | ':' :: ':' :: s =>
        if ellipsis.isSome then
          none
        else if s = [] then
          some (next, some next.length)
        else
          parseIPv6Fields n s next (some next.length)
      | ':' :: s => parseIPv6Fields n s next ellipsis
      | _ => none

def parseIPv6 (s : Str) : Option IP :=
  if s = [':', ':'] then
    some (List.replicate 16 0)
  else
    let fields :=
      match s with
      | ':' :: ':' :: s => parseIPv6Fields 8 s [] (some 0)
      | s => parseIPv6Fields 8 s [] none
    match fields with
    | some (ip, some i) =>
      if ip.length < 16 then some (ip.take i ++ List.replicate (16 - ip.length) 0 ++ ip.drop i) else none
    | some (ip, none) => if ip.length = 16 then some ip else none
    | none => none

-- The first of these characters decides about the kind of the address. One with a zone is refused.
def parse (s : Str) : Option IP :=
  match s.find? (· ∈ ['.', ':', '%']) with
  | some '.' => (parseIPv4 s).map (v4InV6Prefix ++ ·)
  | some ':' => if '%' ∈ s then none else parseIPv6 s
  | _ => none

def hexChar (n : Nat) : Char :=
  if n < 10 then Char.ofNat (48 + n) else Char.ofNat (87 + n)

def hex (n : Nat) : Str :=
  (Nat.digits 16 n).reverse.map hexChar

def hexField (n : Nat) : Str :=
  if n = 0 then ['0'] else hex n

def fields : List UInt8 → List Nat
  | hi :: lo :: ip => (256 * hi.toNat + lo.toNat) :: fields ip
  | _ => []

-- The start and the length of the longest run of at least two zeros, the first one if there are several.
def zeros (fs : List Nat) : Nat × Nat :=
  (List.range fs.length).foldl (fun best i =>
    let run := ((fs.drop i).takeWhile (· = 0)).length
    if 2 ≤ run ∧ best.2 < run then (i, run) else best) (0, 0)

def join (sep : Str) (ss : List Str) : Str :=
  (ss.intersperse sep).flatten

def string (ip : IP) : Str :=
  match ip.to4 with
  | some ip => join ['.'] (ip.map fun b => Strconv.itoa b.toNat)
  | none =>
    if ip = [] then
      "<nil>"
    else if ip.length ≠ 16 then
      '?' :: ip.flatMap fun b => [hexChar (b.toNat / 16), hexChar (b.toNat % 16)]
    else
      let fs := fields ip
      match zeros fs with
      | (_, 0) => join [':'] (fs.map hexField)
      | (i, run) => join [':'] ((fs.take i).map hexField) ++ [':', ':'] ++ join [':'] ((fs.drop (i + run)).map hexField)

section

variable {s : Str} {ip fs : IP}

theorem length_parseIPv4 (h : parseIPv4 s = some fs) : fs.length = 4 := by
  have length_mapM {ss : List Str} {fs : IP} (h : ss.mapM parseOctet = some fs) : fs.length = ss.length := by
    induction ss generalizing fs
    case nil =>
      cases h
      rfl
    case cons f ss ih =>
      simp only [List.mapM_cons, Option.bind_eq_bind, Option.bind_eq_some_iff, Option.pure_def, Option.some.injEq] at h
      obtain ⟨b, -, bs, hb, rfl⟩ := h
      exact congrArg (· + 1) (ih hb)
  rw [parseIPv4] at h
  split at h
  case isTrue hl => exact (length_mapM h).trans hl
  case isFalse => cases h

theorem isDigit_of_parseOctet {f : Str} {b : UInt8} (h : parseOctet f = some b) : f.all Char.isDigit := by
  rw [parseOctet, Strconv.digits] at h
  by_cases hd : f ≠ [] ∧ f.all Char.isDigit
  case pos => exact hd.2
  case neg =>
    rw [if_neg hd] at h
    cases h

theorem find?_of_parseIPv4 (h : parseIPv4 s = some fs) : s.find? (· ∈ ['.', ':', '%']) = some '.' := by
  rw [parseIPv4] at h
  split at h
  case isFalse => cases h
  case isTrue hl =>
    obtain ⟨f, f', rest, hf⟩ : ∃ f f' rest, s.splitOn '.' = f :: f' :: rest := by
      rcases hs : s.splitOn '.' with _ | ⟨f, _ | ⟨f', rest⟩⟩
      case nil => simp [hs] at hl
      case cons.nil => simp [hs] at hl
      case cons.cons => exact ⟨f, f', rest, rfl⟩
    have hs : s = f ++ '.' :: List.intercalate ['.'] (f' :: rest) := by
      have hi : List.intercalate ['.'] (s.splitOn '.') = s := intercalate_splitOn '.'
      rw [hf, intercalate_cons_cons] at hi
      simpa using hi.symm
    have hd : f.all Char.isDigit := by
      simp only [hf, mapM_cons, bind_eq_bind, bind_eq_some_iff] at h
      obtain ⟨b, hb, -⟩ := h
      exact isDigit_of_parseOctet hb
    refine find?_eq_some_iff_append.mpr ⟨by decide, f, _, hs, fun c hc => ?_⟩
    have hc := all_eq_true.mp hd c hc
    rw [Bool.not_eq_true', decide_eq_false_iff_not]
    intro hm
    obtain rfl | rfl | rfl : c = '.' ∨ c = ':' ∨ c = '%' := by simpa using hm
    all_goals exact absurd hc (by decide)

theorem parse_of_parseIPv4 (h : parseIPv4 s = some fs) : parse s = some (v4InV6Prefix ++ fs) := by
  rw [parse, find?_of_parseIPv4 h]
  simp [h]

theorem length_parseIPv6 (h : parseIPv6 s = some ip) : ip.length = 16 := by
  simp only [parseIPv6] at h
  split at h
  case isTrue =>
    cases h
    rfl
  case isFalse =>
    split at h
    case h_1 =>
      split at h
      case isTrue =>
        cases h
        simp only [length_append, length_take, length_replicate, length_drop]
        omega
      case isFalse => cases h
    case h_2 =>
      split at h
      case isTrue hl =>
        cases h
        exact hl
      case isFalse => cases h
    case h_3 => cases h

theorem length_parse (h : parse s = some ip) : ip.length = 16 := by
  rw [parse] at h
  split at h
  case h_1 =>
    obtain ⟨fs, hf, rfl⟩ := map_eq_some_iff.mp h
    rw [length_append, length_parseIPv4 hf]
    rfl
  case h_2 =>
    split at h
    case isTrue => cases h
    case isFalse => exact length_parseIPv6 h
  case h_3 => cases h

theorem length_to4 {ip' : IP} (h : ip.to4 = some ip') : ip'.length = 4 := by
  rw [to4] at h
  split at h
  case isTrue hl =>
    cases h
    exact hl
  case isFalse =>
    split at h
    case isTrue hl =>
      cases h
      rw [length_drop, hl.1]
    case isFalse => cases h

theorem to16_of_parse (h : parse s = some ip) : ip.to16 = some ip := by
  rw [to16, if_neg (by simp [length_parse h]), if_pos (length_parse h)]

end

end IP
end Net
