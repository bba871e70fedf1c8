import HanzoDNS.Lib.Strings

open List Option

-- Domain names in presentation format and their canonical order.
namespace Domain

open Strings Unicode

def decimal (c d e : Char) : Nat :=
  (c.toNat - 48) * 100 + (d.toNat - 48) * 10 + (e.toNat - 48)

def octet (c : Char) : UInt8 :=
  c.toNat.toUInt8

-- The octets of a label. A backslash quotes the next character or, before three digits, stands for the
-- octet with that number. All other characters stand for themselves.
def unescape : Str → Option (List UInt8)
  | [] => some []
  | '\\' :: s =>
    match s with
    | [] => none
    | c :: s =>
      if c.isDigit then
        match s with
        | d :: e :: s =>
          if d.isDigit ∧ e.isDigit ∧ decimal c d e < 256 then
            (unescape s).map ((decimal c d e).toUInt8 :: ·)
          else
            none
        | _ => none
      else if c.toNat < 128 then
        (unescape s).map (octet c :: ·)
      else
        none
  | c :: s => if c ≠ '.' ∧ c.toNat < 128 then (unescape s).map (octet c :: ·) else none

structure Label where
  text : Str
  nonempty : text ≠ []
  valid : (unescape text).isSome
deriving DecidableEq

abbrev Name := List Label

def lower (o : UInt8) : UInt8 :=
  if 65 ≤ o ∧ o ≤ 90 then o + 32 else o

namespace Label

theorem text_injective : Function.Injective Label.text := by
  intro l l' h
  cases l
  cases l'
  cases h
  rfl

-- The octets of a label, which do not depend on case.
def octets (l : Label) : List UInt8 :=
  ((unescape l.text).get l.valid).map lower

def fold (l : Label) : Str :=
  toLower l.text

end Label

namespace Name

def cat (n : Name) : Str :=
  n.flatMap (·.text ++ ['.'])

def text : Name → Str
  | [] => ['.']
  | n => n.cat

def fold (n : Name) : List Str :=
  n.map Label.fold

-- The order of names from the root down: a name comes before those below it, and labels are compared as
-- sequences of octets.
def canonical (a b : Name) : Ordering :=
  compare (a.reverse.map Label.octets) (b.reverse.map Label.octets)

end Name

def prepend (p : Str) : List Str → List Str
  | [] => [p]
  | s :: ss => (p ++ s) :: ss

-- A string cut after each dot that is not quoted.
def chunks : Str → List Str
  | [] => []
  | '\\' :: c :: s => prepend ['\\', c] (chunks s)
  | '.' :: s => ['.'] :: chunks s
  | c :: s => prepend [c] (chunks s)

theorem flatten_prepend (p : Str) (ss : List Str) : (prepend p ss).flatten = p ++ ss.flatten := by
  cases ss <;> simp [prepend]

theorem flatten_chunks (s : Str) : (chunks s).flatten = s := by
  fun_induction chunks s
  case case1 => rfl
  case case2 hi => simp [flatten_prepend, hi]
  case case3 hi => simp [hi]
  case case4 _ _ hi => simp [flatten_prepend, hi]

theorem ne_nil_of_mem_prepend {p c : Str} {ss : List Str} (hp : p ≠ []) (hs : ∀ c ∈ ss, c ≠ [])
    (h : c ∈ prepend p ss) : c ≠ [] := by
  cases ss
  case nil => simp_all [prepend]
  case cons =>
    obtain rfl | h := mem_cons.mp h
    case inl => simp [hp]
    case inr => exact hs c (mem_cons_of_mem _ h)

theorem ne_nil_of_mem_chunks {s c : Str} (h : c ∈ chunks s) : c ≠ [] := by
  fun_induction chunks s generalizing c
  case case1 => cases h
  case case2 hi => exact ne_nil_of_mem_prepend (cons_ne_nil _ _) (fun _ => hi) h
  case case3 hi =>
    obtain rfl | h := mem_cons.mp h
    case inl => exact cons_ne_nil _ _
    case inr => exact hi h
  case case4 hi => exact ne_nil_of_mem_prepend (cons_ne_nil _ _) (fun _ => hi) h

theorem chunks_plain {c : Char} (hd : c ≠ '.') (hb : c ≠ '\\') (s : Str) :
    chunks (c :: s) = prepend [c] (chunks s) := by
  rw [chunks]
  · exact fun _ _ h _ => hb h
  · exact hd

theorem ne_of_isDigit {c : Char} (h : c.isDigit) : c ≠ '.' ∧ c ≠ '\\' := by
  constructor <;> rintro rfl <;> contradiction

theorem chunks_append {t : Str} (h : (unescape t).isSome) (s : Str) :
    chunks (t ++ '.' :: s) = (t ++ ['.']) :: chunks s := by
  fun_induction unescape t
  case case1 => rfl
  case case3 c _ d e t hd hi =>
    have hi := hi (by simpa using h)
    have hd' := ne_of_isDigit hd.1
    have he' := ne_of_isDigit hd.2.1
    rw [cons_append, cons_append, chunks, cons_append, chunks_plain hd'.1 hd'.2,
      cons_append, chunks_plain he'.1 he'.2, hi]
    rfl
  case case6 c t _ _ hi =>
    have hi := hi (by simpa using h)
    rw [cons_append, cons_append, chunks, hi]
    rfl
  case case8 c t hb hc hi =>
    have hi := hi (by simpa using h)
    rw [cons_append, chunks_plain hc.1 hb, hi]
    rfl
  all_goals contradiction

theorem unescape_decimal {c d e : Char} (hc : c.isDigit)
    (h : d.isDigit ∧ e.isDigit ∧ decimal c d e < 256) (s : Str) :
    unescape ('\\' :: c :: d :: e :: s) = (unescape s).map ((decimal c d e).toUInt8 :: ·) := by
  simp [unescape, hc, h, and_self]

theorem unescape_quoted {c : Char} (hc : ¬c.isDigit) (h : c.toNat < 128) (s : Str) :
    unescape ('\\' :: c :: s) = (unescape s).map (octet c :: ·) := by
  rcases s with _ | ⟨d, _ | ⟨e, s⟩⟩ <;> simp [unescape, hc, h, Bool.false_eq_true]

theorem unescape_cons {c : Char} (hb : c ≠ '\\') (h : c ≠ '.' ∧ c.toNat < 128) (s : Str) :
    unescape (c :: s) = (unescape s).map (octet c :: ·) := by
  rw [unescape, if_pos h]
  exact hb

theorem toNat_lt_of_isDigit {c : Char} (h : c.isDigit) : c.toNat < 128 := by
  have h : 48 ≤ c.val ∧ c.val ≤ 57 := by simpa [Char.isDigit] using h
  have : c.toNat ≤ 57 := UInt32.le_iff_toNat_le.mp h.2
  omega

-- What lower-casing does to the characters of a label.
structure Lowered (c : Char) : Prop where
  ascii : (toLower c).toNat < 128
  digit : (toLower c).isDigit = c.isDigit
  same : c.isDigit → toLower c = c
  quote : toLower c = '\\' ↔ c = '\\'
  dot : toLower c = '.' ↔ c = '.'

def lowerAscii (c : Char) : Char :=
  Char.ofNat (lower (octet c)).toNat

theorem toLower_ascii {c : Char} (h : c.toNat < 128) : toLower c = lowerAscii c := by
  have hd : ∀ n < 128, toLower (Char.ofNat n) = lowerAscii (Char.ofNat n) := by
    decide +kernel
  simpa only [Char.ofNat_toNat] using hd c.toNat h

theorem Lowered.of_ascii {c : Char} (h : c.toNat < 128) : Lowered c := by
  have hd : ∀ n < 128, let c := Char.ofNat n; (lowerAscii c).toNat < 128 ∧
      (lowerAscii c).isDigit = c.isDigit ∧ (c.isDigit → lowerAscii c = c) ∧
      (lowerAscii c = '\\' ↔ c = '\\') ∧ (lowerAscii c = '.' ↔ c = '.') := by
    decide +kernel
  obtain ⟨h₁, h₂, h₃, h₄, h₅⟩ := by simpa only [Char.ofNat_toNat, ←toLower_ascii h] using hd c.toNat h
  exact ⟨h₁, h₂, h₃, h₄, h₅⟩

theorem lower_octet_toLower {c : Char} (h : c.toNat < 128) : lower (octet (toLower c)) = lower (octet c) := by
  have hd : ∀ n < 128, lower (octet (lowerAscii (Char.ofNat n))) = lower (octet (Char.ofNat n)) := by
    decide +kernel
  simpa only [Char.ofNat_toNat, ←toLower_ascii h] using hd c.toNat h

theorem unescape_toLower_eq {t : Str} {b : List UInt8} (h : unescape t = some b) :
    ∃ b', unescape (Strings.toLower t) = some b' ∧ b'.map lower = b.map lower := by
  have hb : Unicode.toLower '\\' = '\\' := by decide +kernel
  fun_induction unescape t generalizing b
  case case1 =>
    cases h
    exact ⟨[], rfl, rfl⟩
  case case3 c hc d e t hd hi =>
    obtain ⟨x, hx, rfl⟩ := map_eq_some_iff.mp h
    obtain ⟨y, hy, hxy⟩ := hi hx
    have lc := (Lowered.of_ascii (toNat_lt_of_isDigit hc)).same hc
    have ld := (Lowered.of_ascii (toNat_lt_of_isDigit hd.1)).same hd.1
    have le := (Lowered.of_ascii (toNat_lt_of_isDigit hd.2.1)).same hd.2.1
    simp only [Strings.toLower, map_cons, hb, lc, ld, le] at hy ⊢
    exact ⟨_, by rw [unescape_decimal hc hd, hy, map_some], by simp [hxy]⟩
  case case6 c t hc ha hi =>
    obtain ⟨x, hx, rfl⟩ := map_eq_some_iff.mp h
    obtain ⟨y, hy, hxy⟩ := hi hx
    have l := Lowered.of_ascii ha
    simp only [Strings.toLower, map_cons, hb] at hy ⊢
    exact ⟨_, by rw [unescape_quoted (by rwa [l.digit]) l.ascii, hy, map_some], by simp [hxy, lower_octet_toLower ha]⟩
  case case8 c t hq hc hi =>
    obtain ⟨x, hx, rfl⟩ := map_eq_some_iff.mp h
    obtain ⟨y, hy, hxy⟩ := hi hx
    have l := Lowered.of_ascii hc.2
    simp only [Strings.toLower, map_cons] at hy ⊢
    exact ⟨_, by rw [unescape_cons (mt l.quote.mp hq) ⟨mt l.dot.mp hc.1, l.ascii⟩, hy, map_some],
      by simp [hxy, lower_octet_toLower hc.2]⟩
  all_goals cases h

theorem unescape_toLower {t : Str} (h : (unescape t).isSome) : (unescape (toLower t)).isSome := by
  obtain ⟨b, hb⟩ := isSome_iff_exists.mp h
  obtain ⟨b', hb', -⟩ := unescape_toLower_eq hb
  exact isSome_iff_exists.mpr ⟨b', hb'⟩

def special : List Char :=
  ['.', ' ', '\'', '@', ';', '(', ')', '"', '\\']

-- An octet as the DNS library prints it: a special character is quoted, and an octet that cannot be printed
-- is given by its number.
def escapeOctet (o : UInt8) : Str :=
  let c := Char.ofNat o.toNat
  if c ∈ special then
    ['\\', c]
  else if c < ' ' ∨ '~' < c then
    ['\\', (o.toNat / 100).digitChar, (o.toNat / 10 % 10).digitChar, (o.toNat % 10).digitChar]
  else
    [c]

def escape (os : List UInt8) : Str :=
  os.flatMap escapeOctet

theorem unescape_append {s t : Str} {a : List UInt8} (h : unescape s = some a) :
    unescape (s ++ t) = (unescape t).map (a ++ ·) := by
  fun_induction unescape s generalizing a
  case case1 =>
    cases h
    simp
  case case3 c hc d e s hd hi =>
    obtain ⟨x, hx, rfl⟩ := map_eq_some_iff.mp h
    simp [unescape_decimal hc hd, hi hx, Function.comp_def]
  case case6 c s hc ha hi =>
    obtain ⟨x, hx, rfl⟩ := map_eq_some_iff.mp h
    simp [unescape_quoted hc ha, hi hx, Function.comp_def]
  case case8 c s hq hc hi =>
    obtain ⟨x, hx, rfl⟩ := map_eq_some_iff.mp h
    simp [unescape_cons hq hc, hi hx, Function.comp_def]
  all_goals cases h

theorem unescape_escape (os : List UInt8) : unescape (escape os) = some os := by
  have hd : ∀ n < 256, unescape (escapeOctet n.toUInt8) = some [n.toUInt8] := by
    decide +kernel
  induction os
  case nil => rfl
  case cons o os hi =>
    have ho : unescape (escapeOctet o) = some [o] := by simpa using hd o.toNat o.toNat_lt
    change unescape (escapeOctet o ++ escape os) = some (o :: os)
    rw [unescape_append ho, hi]
    rfl

theorem toLower_escape (os : List UInt8) : Strings.toLower (escape os) = escape (os.map lower) := by
  have ha : ∀ n < 256, (escapeOctet n.toUInt8).all (·.toNat < 128) := by
    decide +kernel
  have hl : ∀ n < 256, (escapeOctet n.toUInt8).map lowerAscii = escapeOctet (lower n.toUInt8) := by
    decide +kernel
  induction os
  case nil => rfl
  case cons o os hi =>
    have ha : ∀ c ∈ escapeOctet o, c.toNat < 128 := by simpa using ha o.toNat o.toNat_lt
    have hl : (escapeOctet o).map lowerAscii = escapeOctet (lower o) := by simpa using hl o.toNat o.toNat_lt
    change Strings.toLower (escapeOctet o ++ escape os) = escapeOctet (lower o) ++ escape (os.map lower)
    rw [Strings.toLower_append, hi, ←hl, Strings.toLower, map_congr_left fun c hc => toLower_ascii (ha c hc)]

-- The label is written as the DNS library prints it.
def Label.Printed (l : Label) : Prop :=
  ∃ os, l.text = escape os

-- It is also in lower case.
def Label.Normal (l : Label) : Prop :=
  l.text = escape l.octets

instance : DecidablePred Label.Normal :=
  fun _ => inferInstanceAs (Decidable (_ = _))

def Label.toLower (l : Label) : Label where
  text := Strings.toLower l.text
  nonempty := by simp [l.nonempty]
  valid := unescape_toLower l.valid

theorem Label.octets_toLower (l : Label) : l.toLower.octets = l.octets := by
  obtain ⟨b, hb⟩ := isSome_iff_exists.mp l.valid
  obtain ⟨b', hb', h⟩ := unescape_toLower_eq hb
  have hl : unescape l.toLower.text = some b' := hb'
  simp [octets, hb, hl, get_some, h]

theorem Label.Printed.toLower {l : Label} (h : l.Printed) : l.toLower.Normal := by
  obtain ⟨os, h⟩ := h
  have ho : l.octets = os.map lower := by simp [octets, h, unescape_escape]
  rw [Normal, octets_toLower, ho, ←toLower_escape, ←h]
  rfl

theorem unescape_ne_nil {t : Str} (h : t ≠ []) : unescape t ≠ some [] := by
  fun_cases unescape t
  case case1 => contradiction
  all_goals simp

theorem Label.octets_ne_nil (l : Label) : l.octets ≠ [] := by
  rw [octets, ne_eq, map_eq_nil_iff]
  intro h
  exact unescape_ne_nil l.nonempty ((some_get l.valid).symm.trans (congrArg some h))

theorem map_lower_octets (l : Label) : l.octets.map lower = l.octets := by
  have hl : ∀ n < 256, lower (lower n.toUInt8) = lower n.toUInt8 := by decide +kernel
  rw [Label.octets, List.map_map]
  exact map_congr_left fun o _ => by simpa using hl o.toNat o.toNat_lt

def Label.normal (l : Label) : Label where
  text := escape l.octets
  nonempty h := l.octets_ne_nil (by simpa [h, unescape] using unescape_escape l.octets)
  valid := by simp [unescape_escape]

theorem Label.octets_normal (l : Label) : l.normal.octets = l.octets := by
  rw [←map_lower_octets l]
  simp [normal, octets, unescape_escape]

theorem suffix_map_iff {f : α → β} (hf : Function.Injective f) {as bs : List α} :
    as.map f <:+ bs.map f ↔ as <:+ bs := by
  constructor
  case mpr => exact fun h => h.map f
  case mp =>
    intro ⟨t, ht⟩
    obtain ⟨bs₁, bs₂, rfl, -, h⟩ := map_eq_append_iff.mp ht.symm
    rw [hf.list_map h]
    exact suffix_append bs₁ as

namespace Name

theorem cat_cons (l : Label) (n : Name) : cat (l :: n) = l.text ++ '.' :: cat n := by
  simp [cat]

theorem cat_append (n m : Name) : cat (n ++ m) = cat n ++ cat m := by
  simp [cat]

theorem cat_singleton (l : Label) : cat [l] = l.text ++ ['.'] := by
  simp [cat]

theorem cat_eq_intercalate {n : Name} (h : n ≠ []) : n.cat = List.intercalate ['.'] (n.map Label.text) ++ ['.'] := by
  rw [intercalate_append _ (by simpa using h), flatMap_map, cat]

theorem text_of_ne_nil {n : Name} (h : n ≠ []) : n.text = cat n := by
  cases n
  case nil => contradiction
  case cons => rfl

theorem drop_cat_cons (l : Label) (n : Name) : (cat (l :: n)).drop (l.text.length + 1) = cat n := by
  simp [cat_cons, drop_append]

theorem length_le_cat (n : Name) : List.length n ≤ (cat n).length := by
  induction n
  case nil => simp
  case cons l n hi =>
    simp only [cat_cons, length_cons, length_append]
    omega

theorem dot_suffix_text (n : Name) : ['.'] <:+ n.text := by
  cases n using List.reverseRecOn
  case nil => exact suffix_rfl
  case append_singleton n l =>
    rw [text_of_ne_nil (by simp), cat_append, cat_singleton]
    exact suffix_append_of_suffix (suffix_append _ _)

theorem chunks_cat (n : Name) : chunks (cat n) = n.map (·.text ++ ['.']) := by
  induction n
  case nil => rfl
  case cons l n hi => rw [cat_cons, chunks_append l.valid, hi, map_cons]

theorem toLower_cat (n : Name) : Strings.toLower (cat n) = cat (n.map Label.toLower) := by
  have hd : Unicode.toLower '.' = '.' := by decide +kernel
  induction n
  case nil => rfl
  case cons l n hi =>
    rw [map_cons, cat_cons, cat_cons, Strings.toLower_append, ←hi]
    simp [Strings.toLower, Label.toLower, hd]

theorem toLower_text (n : Name) : toLower n.text = Name.text (n.map Label.toLower) := by
  cases n
  case nil => decide +kernel
  case cons => exact toLower_cat _

theorem toLower_eq_of_fold {n m : Name} (h : n.fold = m.fold) : toLower n.text = toLower m.text := by
  have ht : n.map Label.toLower = m.map Label.toLower := by
    apply map_injective_iff.mpr Label.text_injective
    rw [List.map_map, List.map_map]
    exact h
  rw [toLower_text, toLower_text, ht]

theorem map_text_of_normal {n : Name} (h : ∀ l ∈ n, l.Normal) :
    n.map Label.text = (n.map Label.octets).map escape := by
  rw [List.map_map]
  exact map_congr_left h

theorem eq_of_octets {n m : Name} (hn : ∀ l ∈ n, l.Normal) (hm : ∀ l ∈ m, l.Normal)
    (h : n.map Label.octets = m.map Label.octets) : n = m := by
  apply map_injective_iff.mpr Label.text_injective
  rw [map_text_of_normal hn, map_text_of_normal hm, h]

theorem cat_injective {n m : Name} (h : cat n = cat m) : n = m := by
  have hi : Function.Injective fun l : Label => l.text ++ ['.'] := by
    intro l l' h
    cases l
    cases l'
    simpa using h
  have h := congrArg chunks h
  rw [chunks_cat, chunks_cat] at h
  exact hi.list_map h

theorem cat_ne_root (n : Name) : cat n ≠ ['.'] := by
  cases n
  case nil => simp [cat]
  case cons l n =>
    obtain ⟨c, t, ht⟩ := exists_cons_of_ne_nil l.nonempty
    simp [cat_cons, ht]

theorem text_injective {n m : Name} (h : n.text = m.text) : n = m := by
  by_cases hn : n = [] <;> by_cases hm : m = []
  · rw [hn, hm]
  · rw [hn, text_of_ne_nil hm] at h
    exact absurd h.symm (cat_ne_root m)
  · rw [hm, text_of_ne_nil hn] at h
    exact absurd h (cat_ne_root n)
  · rw [text_of_ne_nil hn, text_of_ne_nil hm] at h
    exact cat_injective h

end Name

section Lexicographic

variable [Ord α] [Std.LawfulEqOrd α]

theorem compare_append (p x : List α) : (compare p (p ++ x)).isLE := by
  induction p
  case nil => cases x <;> simp [List.compare_nil_cons]
  case cons a p hi => simpa [List.compare_cons_cons] using hi

theorem compare_append_append (p x y : List α) : compare (p ++ x) (p ++ y) = compare x y := by
  induction p
  case nil => rfl
  case cons a p hi => simpa [List.compare_cons_cons] using hi

theorem prefix_of_between [Std.OrientedOrd α] {p x y : List α} (h : p <+: y) (hp : (compare p x).isLE)
    (hx : (compare x y).isLE) :
    p <+: x := by
  induction p generalizing x y
  case nil => exact nil_prefix
  case cons a p hi =>
    obtain ⟨t, rfl⟩ := h
    cases x
    case nil => simp at hp
    case cons b x =>
      simp only [List.cons_append, List.compare_cons_cons] at hp hx
      cases hc : compare a b
      case gt => simp [hc] at hp
      case lt => simp [Std.OrientedCmp.gt_of_lt hc] at hx
      case eq =>
        obtain rfl := Std.LawfulEqOrd.eq_of_compare hc
        simp only [Std.ReflOrd.compare_self, Ordering.eq_then] at hp hx
        exact cons_prefix_cons.mpr ⟨rfl, hi ⟨t, rfl⟩ hp hx⟩

end Lexicographic

theorem zero_isLE {o : List UInt8} (h : o ≠ []) : (compare [0] o).isLE := by
  obtain ⟨a, o, rfl⟩ := List.exists_cons_of_ne_nil h
  rw [List.compare_cons_cons]
  cases hc : compare 0 a
  case lt => rfl
  case eq => cases o <;> simp [List.compare_nil_cons]
  case gt => exact absurd (Std.OrientedCmp.lt_of_gt hc) (by simp [compare, compareOfLessAndEq])

def Label.zero : Label where
  text := ['\\', '0', '0', '0']
  nonempty := by simp
  valid := by decide

theorem Name.not_between {n m : Name} (h : n.canonical m = .lt) : m.canonical (Label.zero :: n) ≠ .lt := by
  intro hm
  rw [canonical, reverse_cons, map_append] at hm
  rw [canonical] at h
  have hp : n.reverse.map Label.octets <+: m.reverse.map Label.octets :=
    prefix_of_between (prefix_append _ _) (Ordering.isLE_of_eq_lt h) (Ordering.isLE_of_eq_lt hm)
  obtain ⟨t, ht⟩ := hp
  rw [←ht, compare_append_append] at hm
  cases t
  case nil => simp [←ht] at h
  case cons o t =>
    have ho : o ∈ m.reverse.map Label.octets := by simp [←ht]
    obtain ⟨l, -, rfl⟩ := mem_map.mp ho
    have hz : (compare Label.zero.octets l.octets).isLE := zero_isLE l.octets_ne_nil
    rw [List.map_singleton, List.compare_cons_cons, Ordering.then_eq_lt] at hm
    obtain hm | ⟨-, hm⟩ := hm
    case inl => exact absurd hm (Std.OrientedCmp.not_lt_of_isLE hz)
    case inr => cases t <;> simp at hm

end Domain
