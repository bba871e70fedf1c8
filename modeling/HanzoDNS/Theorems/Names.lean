import HanzoDNS.Operator.Basic
import HanzoDNS.Store.Basic
import HanzoDNS.Watcher.Basic

open Strings Hanzodns List

namespace Names

-- Two strings denote the same domain name, if case does not matter and neither does a trailing dot.
def SameName (a b : Str) : Prop :=
  toLower (trimDot a) = toLower (trimDot b)

instance : Decidable (SameName a b) :=
  inferInstanceAs <| Decidable (_ = _)

namespace SameName

theorem refl (a : Str) : SameName a a :=
  rfl

theorem length_eq (h : SameName a b) : (trimDot a).length = (trimDot b).length := by
  rw [←length_toLower, h, length_toLower]

end SameName

section

variable {z : Str} (hz : z ≠ []) (hd : ¬['.'] <:+ z)

include hz hd

theorem not_dot_suffix_append (p : Str) : ¬['.'] <:+ p ++ z :=
  fun h => hd <| suffix_of_suffix_length_le h (suffix_append _ _) (length_pos_iff.mpr hz)

-- The zone names of the store and of the database denote the same domain exactly if there is no white
-- space to be trimmed.
theorem sameName_normZone_iff (p : Str) : SameName (p ++ normZone z) (p ++ z) ↔ trimSpace z = z := by
  have hpz := trimDot_of_not_suffix <| not_dot_suffix_append hz hd p
  constructor
  case mpr =>
    intro h
    have hn : p ++ normZone z = p ++ toLower z ++ ['.'] := by
      simp [normZone, h, hd]
    rw [SameName, hn, trimDot_append_dot, hpz]
    simp
  case mp =>
    intro h
    have hl := h.length_eq
    have hs : ['.'] <:+ p ++ normZone z := suffix_append_of_suffix (dot_suffix_normZone z)
    have hn : (normZone z).length ≤ (trimSpace z).length + 1 := by
      simp only [normZone]
      split <;> simp
    rw [length_trimDot_of_suffix hs, hpz, length_append, length_append] at hl
    have hp := length_pos_iff.mpr <| normZone_ne_nil z
    exact (trimSpace_sublist z).eq_of_length_le (by omega)

end

-- The three places that qualify a record name agree on the apex and on single labels, and on nothing
-- else. The watcher takes every name with a dot in it for a complete one, the store only those that end
-- in a dot, and the operator only those that end in the zone name without one.
theorem qualifiers_agree_iff {n z : Str} (hz : z ≠ []) (hd : ¬['.'] <:+ z) :
    SameName (Store.fqdn n (normZone z)) (Watcher.fqdn n z) ∧ SameName (Watcher.fqdn n z) (Operator.fqdn n z) ↔
    trimSpace z = z ∧ (n = ['@'] ∨ n = [] ∨ '.' ∉ n ∧ n ≠ z) := by
  by_cases ha : n = ['@'] ∨ n = []
  case pos =>
    have ho : Operator.fqdn n z = z := by
      by_cases h : n = z <;> simp [Operator.fqdn, h, ha, hz]
    have hs := sameName_normZone_iff hz hd []
    simp only [Store.fqdn, Watcher.fqdn, ha, ho, if_true, nil_append] at hs ⊢
    grind [SameName.refl]
  case neg =>
    by_cases hn : '.' ∈ n
    case neg =>
      have hs : ¬['.'] <:+ n := fun h => hn (h.mem (mem_singleton_self _))
      have ho : ¬ ('.' :: z) <:+ n := fun h => hn (h.mem (mem_cons_self ..))
      have hw : Watcher.fqdn n z = n ++ ['.'] ++ z := by simp [Watcher.fqdn, ha, hn]
      by_cases he : n = z
      case neg =>
        have hs : Store.fqdn n (normZone z) = n ++ ['.'] ++ normZone z := by simp [Store.fqdn, ha, hs]
        have ho : Operator.fqdn n z = n ++ ['.'] ++ z := by simp [Operator.fqdn, ha, hz, he, ho]
        rw [hs, hw, ho, sameName_normZone_iff hz hd]
        simp [SameName.refl, hn, he]
      case pos =>
        have ho : Operator.fqdn n z = z := by simp [Operator.fqdn, he]
        refine iff_of_false (fun h => ?_) (by simp_all)
        have hl := h.right.length_eq
        rw [hw, ho, trimDot_of_not_suffix (not_dot_suffix_append hz hd _), trimDot_of_not_suffix hd] at hl
        simp at hl
        omega
    case pos =>
      -- Here the watcher uses the name as it is. Depending on whether the name ends in a dot, either the
      -- operator or the store still appends the zone.
      have hw : Watcher.fqdn n z = n := by simp [Watcher.fqdn, ha, hn]
      refine iff_of_false (fun h => ?_) (by simp_all)
      by_cases hs : ['.'] <:+ n
      case pos =>
        have hne : n ≠ z := fun he => hd (he ▸ hs)
        have hno : ¬ ('.' :: z) <:+ n := fun h => not_dot_suffix_append hz hd ['.'] <|
          suffix_of_suffix_length_le hs h (by simp)
        have ho : Operator.fqdn n z = n ++ ['.'] ++ z := by simp [Operator.fqdn, ha, hz, hne, hno]
        have hl := h.right.length_eq
        rw [hw, ho, length_trimDot_of_suffix hs, trimDot_of_not_suffix (not_dot_suffix_append hz hd _)] at hl
        simp at hl
        omega
      case neg =>
        have ho : Store.fqdn n (normZone z) = n ++ ['.'] ++ normZone z := by simp [Store.fqdn, ha, hs]
        have hsn : ['.'] <:+ n ++ ['.'] ++ normZone z :=
          suffix_append_of_suffix (dot_suffix_normZone z)
        have hl := h.left.length_eq
        rw [hw, ho, length_trimDot_of_suffix hsn, trimDot_of_not_suffix hs] at hl
        simp at hl
        exact normZone_ne_nil z hl

theorem qualifiers_agree_www :
    SameName (Store.fqdn "www" (normZone "Example.COM")) (Watcher.fqdn "www" "Example.COM") ∧
      SameName (Watcher.fqdn "www" "Example.COM") (Operator.fqdn "www" "Example.COM") :=
  qualifiers_agree_iff (by decide) (by decide) |>.mpr (by decide)

-- A relative name of two labels, one that is complete, and one that says so: each time one of the three
-- disagrees with the other two.
theorem qualifiers_disagree :
    ¬SameName (Store.fqdn "a.b" (normZone "example.com")) (Watcher.fqdn "a.b" "example.com") ∧
    ¬SameName (Store.fqdn "www.example.com" (normZone "example.com"))
      (Operator.fqdn "www.example.com" "example.com") ∧
    ¬SameName (Store.fqdn "www.example.com." (normZone "example.com"))
      (Operator.fqdn "www.example.com." "example.com") := by
  decide +kernel

end Names
