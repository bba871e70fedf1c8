import HanzoDNS.Plugin.Normalize

open Strings

namespace Plugin

variable {isSubDomain : Str → Str → Bool} {qname z : Str}

theorem Zones.foldl_longer (isSubDomain) (qname : Str) (zones : List Str) (zone : Str) :
    let m := zones.foldl (Zones.matches.longer isSubDomain qname) zone
    (m = zone ∨ m ∈ zones ∧ isSubDomain m qname) ∧ len zone ≤ len m ∧
      ∀ z ∈ zones, isSubDomain z qname → len z ≤ len m := by
  induction zones generalizing zone
  case nil => simp
  case cons z zs hi =>
    have ⟨hm, hl, hz⟩ := hi (Zones.matches.longer isSubDomain qname zone z)
    simp only [List.foldl_cons]
    -- Whether or not `z` replaces the zone so far, the better one of the two is not longer than the
    -- result for the rest of the list.
    by_cases hs : isSubDomain z qname ∧ len z > len zone
    case pos =>
      simp only [Zones.matches.longer, if_pos hs] at hm hl hz ⊢
      grind
    case neg =>
      simp only [Zones.matches.longer, if_neg hs] at hm hl hz ⊢
      grind

theorem Zones.matches_spec (zones : List Str) (h : Zones.matches isSubDomain zones qname ≠ []) :
    let m := Zones.matches isSubDomain zones qname
    m ∈ zones ∧ isSubDomain m qname ∧ ∀ z ∈ zones, isSubDomain z qname → len z ≤ len m := by
  have ⟨hm, _, hz⟩ := Zones.foldl_longer isSubDomain qname zones []
  obtain ⟨hm, hs⟩ := hm.resolve_left h
  exact ⟨hm, hs, hz⟩

theorem Zones.matches_eq (zones : List Str) (hz : z ∈ zones) (hn : z ≠ []) (hs : isSubDomain z qname)
    (h : ∀ z' ∈ zones, isSubDomain z' qname → z' = z ∨ len z' < len z) :
    Zones.matches isSubDomain zones qname = z := by
  have ⟨hm, _, hl⟩ := Zones.foldl_longer isSubDomain qname zones []
  have hp := len_pos_of_ne_nil hn
  have hle := hl z hz hs
  obtain hm | ⟨hm, hs'⟩ := hm
  case inl =>
    have h₀ : len [] = 0 := rfl
    rw [hm] at hle
    omega
  case inr => exact h _ hm hs' |>.resolve_right (by simpa using hle)

theorem Zones.matches_eq_nil_iff {zones : List Str} :
    Zones.matches isSubDomain zones qname = [] ↔ ∀ z ∈ zones, isSubDomain z qname → z = [] := by
  constructor
  case mp =>
    intro h z hz hs
    obtain ⟨-, -, hl⟩ := Zones.foldl_longer isSubDomain qname zones []
    have hle := hl z hz hs
    by_contra hn
    have hp := len_pos_of_ne_nil hn
    rw [show zones.foldl (Zones.matches.longer isSubDomain qname) [] = [] from h] at hle
    exact absurd hp (Nat.not_lt.mpr hle)
  case mpr =>
    intro h
    by_contra hn
    obtain ⟨hm, hs, -⟩ := Zones.matches_spec zones hn
    exact hn (h _ hm hs)

end Plugin
