import HanzoDNS.Lib.Unicode

open List

-- Go strings that hold valid UTF-8, as their sequence of runes.
abbrev Str := List Char

instance : Coe String Str where
  coe := String.toList

-- One name for this proof, which every membership test on a list of strings carries.
instance : LawfulBEq Str :=
  List.instLawfulBEq

namespace Strings

open Unicode

-- The number of bytes of a string, which is what Go's `len` counts.
def len (s : Str) : Nat :=
  (s.map Char.utf8Size).sum

def bytes (s : Str) : List UInt8 :=
  s.flatMap String.utf8EncodeChar

def toLower (s : Str) : Str :=
  s.map Unicode.toLower

def trimSpace (s : Str) : Str :=
  (s.dropWhile isSpace).rdropWhile isSpace

def hasSuffix (s suffix : Str) : Bool :=
  suffix.isSuffixOf s

def contains (s sub : Str) : Bool :=
  s.tails.any sub.isPrefixOf

def fields (s : Str) : List Str :=
  (s.splitOnP isSpace).filter (· ≠ [])

-- The parts of a string between separators, with all of the rest in the last one if there are too many.
def splitN (sep : Char) : Nat → Str → List Str
  | 0, _ => []
  | 1, s => [s]
  | n + 1, s => if sep ∈ s then s.takeWhile (· ≠ sep) :: splitN sep n ((s.dropWhile (· ≠ sep)).drop 1) else [s]

theorem len_pos_of_ne_nil {s : Str} (h : s ≠ []) : 0 < len s := by
  cases s
  case nil => contradiction
  case cons c _ => simp [len, c.utf8Size_pos]

@[simp]
theorem hasSuffix_iff {s suffix : Str} : hasSuffix s suffix ↔ suffix <:+ s := by
  simp [hasSuffix]

@[simp]
theorem contains_singleton_iff {s : Str} {c : Char} : contains s [c] ↔ c ∈ s := by
  simp only [contains, any_eq_true, mem_tails, isPrefixOf_iff_prefix]
  constructor
  case mp => intro ⟨t, hs, hp⟩; exact hs.mem <| hp.mem (mem_singleton_self c)
  case mpr =>
    intro h
    have ⟨s₁, s₂, hs⟩ := append_of_mem h
    exact ⟨c :: s₂, ⟨s₁, hs.symm⟩, ⟨s₂, rfl⟩⟩

def trimDot (s : Str) : Str :=
  if hasSuffix s ['.'] then s.dropLast else s

theorem trimDot_of_not_suffix {s : Str} (h : ¬['.'] <:+ s) : trimDot s = s := by
  simp [trimDot, h]

theorem trimDot_append_dot (s : Str) : trimDot (s ++ ['.']) = s := by
  simp [trimDot]

theorem length_trimDot_of_suffix {s : Str} (h : ['.'] <:+ s) : (trimDot s).length = s.length - 1 := by
  simp [trimDot, h]

@[simp]
theorem toLower_append (s t : Str) : toLower (s ++ t) = toLower s ++ toLower t :=
  map_append

@[simp]
theorem toLower_idem (s : Str) : toLower (toLower s) = toLower s := by
  simp [toLower]

@[simp]
theorem length_toLower (s : Str) : (toLower s).length = s.length :=
  length_map _

@[simp]
theorem toLower_eq_nil_iff {s : Str} : toLower s = [] ↔ s = [] :=
  map_eq_nil_iff

@[simp]
theorem dot_mem_toLower_iff {s : Str} : '.' ∈ toLower s ↔ '.' ∈ s := by
  simp [toLower]

@[simp]
theorem backslash_mem_toLower_iff {s : Str} : '\\' ∈ toLower s ↔ '\\' ∈ s := by
  simp [toLower]

@[simp]
theorem dot_suffix_toLower_iff {s : Str} : ['.'] <:+ toLower s ↔ ['.'] <:+ s := by
  simp [singleton_suffix_iff_getLast?_eq_some, toLower, getLast?_map]

-- Lower-casing neither creates nor removes white space, so the order in which a name is trimmed and
-- lower-cased does not matter.
theorem trimSpace_toLower (s : Str) : trimSpace (toLower s) = toLower (trimSpace s) := by
  have h : Unicode.isSpace ∘ Unicode.toLower = Unicode.isSpace := by
    funext c
    simp
  simp [trimSpace, toLower, List.rdropWhile, dropWhile_map, ←map_reverse, h]

theorem trimSpace_sublist (s : Str) : (trimSpace s).Sublist s :=
  ( rdropWhile_prefix _ _).sublist.trans (dropWhile_suffix _).sublist

theorem trimSpace_eq_self {s : Str} (hh : ∀ c ∈ s.head?, ¬isSpace c)
    (hl : ∀ c ∈ s.getLast?, ¬isSpace c) : trimSpace s = s := by
  have h : s.dropWhile isSpace = s := by
    cases s
    case nil => rfl
    case cons => simp_all
  rw [trimSpace, h, rdropWhile_eq_self_iff]
  intro hn
  exact hl _ (getLast_mem_getLast? hn)

theorem head?_trimSpace {s : Str} {c : Char} (h : c ∈ (trimSpace s).head?) : ¬isSpace c := by
  obtain ⟨t, ht⟩ := rdropWhile_prefix isSpace (s.dropWhile isSpace)
  have hd : c ∈ (s.dropWhile isSpace).head? := by
    rw [←ht, head?_append, ←trimSpace, Option.mem_def.mp h]
    rfl
  have := head?_dropWhile_not isSpace s
  simp_all

theorem intercalate_append {ls : List Str} (sep : Str) (h : ls ≠ []) :
    List.intercalate sep ls ++ sep = ls.flatMap (· ++ sep) := by
  induction ls
  case nil => exact absurd rfl h
  case cons l ls hi =>
    cases ls
    case nil => simp
    case cons l' ls =>
      rw [intercalate_cons_cons, append_assoc, hi (cons_ne_nil _ _)]
      rfl

end Strings
