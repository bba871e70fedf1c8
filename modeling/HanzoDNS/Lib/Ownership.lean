import Mathlib

open List Function

-- Things that are numbered in the order in which they are created, each of which is in one place.
namespace Ownership

variable {ι : Type}

structure Owned (place : ι → List Nat) (n : Nat) : Prop where
  nodup : ∀ p, (place p).Nodup
  unique : ∀ {p q i}, i ∈ place p → i ∈ place q → p = q
  bound : ∀ {p i}, i ∈ place p → i < n
  total : ∀ {i}, i < n → ∃ p, i ∈ place p

namespace Owned

variable {place place' : ι → List Nat} {n : Nat} {p q : ι}

theorem empty : Owned (fun _ : ι => []) 0 where
  nodup _ := nodup_nil
  unique h := by cases h
  bound h := by cases h
  total h := by cases h

theorem exchange (o : Owned place n) (hpq : p ≠ q) (hp : (place' p ++ place' q).Perm (place p ++ place q))
    (ho : ∀ r, r ≠ p → r ≠ q → place' r = place r) : Owned place' n := by
  have hd : (place p ++ place q).Nodup := by
    refine (o.nodup p).append (o.nodup q) ?_
    intro i hi hj
    exact hpq (o.unique hi hj)
  have hd' : (place' p ++ place' q).Nodup := hp.nodup_iff.mpr hd
  obtain ⟨hdp, hdq, hdd⟩ := nodup_append'.mp hd'
  -- Where a thing that is now in a place was before.
  have mem {r i} (h : i ∈ place' r) : (r = p ∨ r = q) ∧ (i ∈ place p ∨ i ∈ place q) ∨
      r ≠ p ∧ r ≠ q ∧ i ∈ place r := by
    by_cases hr : r = p ∨ r = q
    case neg =>
      obtain ⟨h₁, h₂⟩ := not_or.mp hr
      exact .inr ⟨h₁, h₂, ho r h₁ h₂ ▸ h⟩
    case pos =>
      refine .inl ⟨hr, mem_append.mp (hp.mem_iff.mp (mem_append.mpr ?_))⟩
      obtain rfl | rfl := hr
      · exact .inl h
      · exact .inr h
  constructor
  case nodup =>
    intro r
    by_cases h₁ : r = p
    · exact h₁ ▸ hdp
    · by_cases h₂ : r = q
      · exact h₂ ▸ hdq
      · exact ho r h₁ h₂ ▸ o.nodup r
  case bound =>
    intro r i h
    obtain ⟨-, h | h⟩ | ⟨-, -, h⟩ := mem h
    all_goals exact o.bound h
  case total =>
    intro i h
    obtain ⟨r, hr⟩ := o.total h
    by_cases hi : i ∈ place' p ++ place' q
    · obtain hi | hi := mem_append.mp hi
      · exact ⟨p, hi⟩
      · exact ⟨q, hi⟩
    · have hn : i ∉ place p ++ place q := fun hm => hi (hp.mem_iff.mpr hm)
      have h₁ : r ≠ p := fun h => hn (mem_append_left _ (h ▸ hr))
      have h₂ : r ≠ q := fun h => hn (mem_append_right _ (h ▸ hr))
      exact ⟨r, (ho r h₁ h₂).symm ▸ hr⟩
  case unique =>
    intro r s i hr hs
    obtain ⟨er, hr'⟩ | ⟨h₁, h₂, hr'⟩ := mem hr
    case inl =>
      obtain ⟨es, hs'⟩ | ⟨h₁, h₂, hs'⟩ := mem hs
      case inr =>
        obtain hr' | hr' := hr'
        · exact absurd (o.unique hs' hr') h₁
        · exact absurd (o.unique hs' hr') h₂
      case inl =>
        obtain rfl | rfl := er
        · obtain rfl | rfl := es
          · rfl
          · exact absurd hs (hdd hr)
        · obtain rfl | rfl := es
          · exact absurd hr (hdd hs)
          · rfl
    case inr =>
      obtain ⟨-, hs' | hs'⟩ | ⟨-, -, hs'⟩ := mem hs
      · exact absurd (o.unique hr' hs') h₁
      · exact absurd (o.unique hr' hs') h₂
      · exact o.unique hr' hs'

theorem create (o : Owned place n) (hp : (place' p).Perm (n :: place p)) (ho : ∀ r, r ≠ p → place' r = place r) :
    Owned place' (n + 1) := by
  have mem {r i} : i ∈ place' r ↔ r = p ∧ i = n ∨ i ∈ place r := by
    by_cases hr : r = p
    · rw [hr, hp.mem_iff, mem_cons]
      simp
    · simp [ho r hr, hr]
  have hn {r} : n ∉ place r := fun h => absurd (o.bound h) (Nat.lt_irrefl n)
  constructor
  case nodup =>
    intro r
    by_cases hr : r = p
    · rw [hr, hp.nodup_iff]
      exact nodup_cons.mpr ⟨hn, o.nodup p⟩
    · exact ho r hr ▸ o.nodup r
  case bound =>
    intro r i h
    obtain ⟨-, rfl⟩ | h := mem.mp h
    · exact Nat.lt_succ_self _
    · exact Nat.lt_succ_of_lt (o.bound h)
  case total =>
    intro i h
    obtain h | rfl := Nat.lt_succ_iff_lt_or_eq.mp h
    · obtain ⟨r, hr⟩ := o.total h
      exact ⟨r, mem.mpr (.inr hr)⟩
    · exact ⟨p, mem.mpr (.inl ⟨rfl, rfl⟩)⟩
  case unique =>
    intro r s i hr hs
    obtain ⟨rfl, rfl⟩ | hr := mem.mp hr
    · obtain ⟨rfl, -⟩ | hs := mem.mp hs
      · rfl
      · exact absurd hs hn
    · obtain ⟨rfl, rfl⟩ | hs := mem.mp hs
      · exact absurd hr hn
      · exact o.unique hr hs

section Update

variable [DecidableEq ι] {as bs : List Nat}

theorem move (o : Owned place n) (hpq : p ≠ q) (hp : (as ++ bs).Perm (place p ++ place q)) :
    Owned (Function.update (Function.update place p as) q bs) n := by
  apply o.exchange hpq
  · rwa [update_of_ne hpq, update_self, update_self]
  · intro r h₁ h₂
    rw [update_of_ne h₂, update_of_ne h₁]

theorem add (o : Owned place n) (hp : as.Perm (n :: place p)) : Owned (Function.update place p as) (n + 1) := by
  apply o.create (p := p)
  · rwa [update_self]
  · intro r h
    exact update_of_ne h ..

end Update
end Owned
end Ownership
