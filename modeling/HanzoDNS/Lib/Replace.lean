import HanzoDNS.Lib.Strings

open List

-- Parts of strings that are cut off or replaced.
namespace Strings

def cutPrefix (s p : Str) : Option Str :=
  if p <+: s then some (s.drop p.length) else none

def cutSuffix (s p : Str) : Option Str :=
  if p <:+ s then some (s.take (s.length - p.length)) else none

-- A match covers the next runes, and there are some left of it to skip.
def replaceFrom (old new : Str) : Nat → Str → Str
  | _, [] => []
  | skip + 1, _ :: s => replaceFrom old new skip s
  | 0, c :: s =>
    if old <+: c :: s then
      new ++ replaceFrom old new (old.length - 1) s
    else
      c :: replaceFrom old new 0 s

-- The empty string is found around every rune.
def replaceAll (s old new : Str) : Str :=
  if old = [] then new ++ s.flatMap (· :: new) else replaceFrom old new 0 s

variable {s t u v old new p : Str} {c : Char}

theorem cutPrefix_eq_some_iff : cutPrefix s p = some t ↔ s = p ++ t := by
  rw [cutPrefix]
  split
  case isTrue h =>
    obtain ⟨u, rfl⟩ := h
    rw [drop_left]
    simp [eq_comm]
  case isFalse h => simp_all [IsPrefix, eq_comm]

theorem cutSuffix_eq_some_iff : cutSuffix s p = some t ↔ s = t ++ p := by
  rw [cutSuffix]
  split
  case isTrue h =>
    obtain ⟨u, rfl⟩ := h
    rw [length_append, Nat.add_sub_cancel, take_left]
    simp [eq_comm]
  case isFalse h => simp_all [IsSuffix, eq_comm]

theorem mem_replaceFrom {skip : Nat} (h : c ∈ replaceFrom old new skip s) : c ∈ s ∨ c ∈ new := by
  induction s generalizing skip
  case nil =>
    rw [replaceFrom] at h
    cases h
  case cons d s hi =>
    have tail {skip : Nat} (h : c ∈ replaceFrom old new skip s) : c ∈ d :: s ∨ c ∈ new :=
      (hi h).imp_left (mem_cons_of_mem d)
    cases skip
    case succ skip => exact tail h
    case zero =>
      rw [replaceFrom] at h
      split at h
      case isTrue => exact (mem_append.mp h).elim .inr tail
      case isFalse =>
        obtain rfl | h := mem_cons.mp h
        · exact .inl (mem_cons_self)
        · exact tail h

theorem mem_replaceAll (h : c ∈ replaceAll s old new) : c ∈ s ∨ c ∈ new := by
  rw [replaceAll] at h
  split at h
  case isTrue =>
    simp only [mem_append, mem_flatMap, mem_cons] at h
    obtain h | ⟨d, hd, rfl | h⟩ := h
    · exact .inr h
    · exact .inl hd
    · exact .inr h
  case isFalse => exact mem_replaceFrom h

theorem toLower_eq_self_iff : toLower s = s ↔ ∀ c ∈ s, Unicode.toLower c = c := by
  simpa only [map_id, id, toLower] using map_inj_left (f := Unicode.toLower) (g := id) (l := s)

theorem toLower_replaceAll (hs : toLower s = s) (hn : toLower new = new) :
    toLower (replaceAll s old new) = replaceAll s old new := by
  rw [toLower_eq_self_iff] at hs hn ⊢
  exact fun c h => (mem_replaceAll h).elim (hs c) (hn c)

theorem contains_iff : contains s p ↔ p <:+: s := by
  simp only [contains, any_eq_true, mem_tails, isPrefixOf_iff_prefix]
  constructor
  case mp =>
    rintro ⟨t, ht, hp⟩
    exact hp.isInfix.trans ht.isInfix
  case mpr =>
    rintro ⟨a, b, rfl⟩
    exact ⟨p ++ b, ⟨a, (append_assoc ..).symm⟩, prefix_append ..⟩

theorem replaceFrom_eq_drop {k : Nat} : replaceFrom old new k s = replaceFrom old new 0 (s.drop k) := by
  induction s generalizing k
  case nil =>
    rw [drop_nil]
    rfl
  case cons c s hi =>
    cases k
    case zero => rfl
    case succ k => exact hi

theorem replaceFrom_append : replaceFrom (c :: old) new 0 (c :: old ++ s) = new ++ replaceFrom (c :: old) new 0 s := by
  have hp : c :: old <+: c :: (old ++ s) := prefix_append (c :: old) s
  rw [cons_append, replaceFrom, if_pos hp, replaceFrom_eq_drop, length_cons, Nat.add_sub_cancel, drop_left]

theorem replaceFrom_cons (h : ¬old <+: c :: s) : replaceFrom old new 0 (c :: s) = c :: replaceFrom old new 0 s :=
  if_neg h

section Fence

variable (hc : c ∉ old)

include hc

-- The first rune of what is looked for does not occur in it again, so matches do not overlap.
theorem prefix_of_prefix_append (hu : u ≠ []) (h : c :: old <+: u ++ c :: v) : c :: old <+: u := by
  obtain hp | ⟨x, hx⟩ := prefix_or_prefix_of_prefix h (prefix_append u _)
  case inl => exact hp
  case inr =>
    obtain ⟨d, u, rfl⟩ := exists_cons_of_ne_nil hu
    rw [←hx, prefix_append_right_inj] at h
    cases x
    case nil => rw [←hx, append_nil]
    case cons e x =>
      obtain ⟨-, ho⟩ := cons_eq_cons.mp hx
      obtain ⟨rfl, -⟩ := cons_prefix_cons.mp h
      refine absurd ?_ hc
      rw [←ho]
      exact mem_append_right u mem_cons_self

theorem replaceFrom_around : replaceFrom (c :: old) new 0 (u ++ (c :: old ++ v)) =
    replaceFrom (c :: old) new 0 u ++ new ++ replaceFrom (c :: old) new 0 v := by
  induction hl : u.length using Nat.strong_induction_on generalizing u
  case h n hi =>
    cases u
    case nil => exact replaceFrom_append
    case cons d u =>
      by_cases hp : c :: old <+: d :: u ++ (c :: old ++ v)
      case pos =>
        obtain ⟨u', hu'⟩ := prefix_of_prefix_append hc (cons_ne_nil d u) hp
        have hlt : u'.length < n := by
          rw [←hl, ←hu']
          simp
        rw [←hu', append_assoc, replaceFrom_append, replaceFrom_append, hi u'.length hlt rfl]
        simp [append_assoc]
      case neg =>
        have hn : ¬c :: old <+: d :: u := fun h => hp (h.trans (prefix_append ..))
        rw [cons_append] at hp ⊢
        rw [replaceFrom_cons hp, replaceFrom_cons hn, hi u.length (hl ▸ Nat.lt_succ_self _) rfl]
        rfl

omit hc

theorem replaceFrom_eq_self (h : ¬c :: old <:+: u) : replaceFrom (c :: old) new 0 u = u := by
  induction u
  case nil => rfl
  case cons d u hi =>
    rw [replaceFrom_cons fun hp => h hp.isInfix, hi fun hp => h (hp.trans (suffix_cons d u).isInfix)]

theorem length_replaceFrom (c : Char) (old new u : Str) :
    ∃ n, (replaceFrom (c :: old) new 0 u).length + n * (c :: old).length = u.length + n * new.length ∧
    (n = 0 → ¬c :: old <:+: u) := by
  induction hl : u.length using Nat.strong_induction_on generalizing u
  case h n hi =>
    cases u
    case nil => exact ⟨0, by simp [replaceFrom, ←hl], by simp⟩
    case cons d u =>
      by_cases hp : c :: old <+: d :: u
      case pos =>
        obtain ⟨u', hu'⟩ := hp
        have hlt : u'.length < n := by
          rw [←hl, ←hu']
          simp
        obtain ⟨k, hk, -⟩ := hi u'.length hlt u' rfl
        refine ⟨k + 1, ?_, fun h => absurd h (Nat.succ_ne_zero k)⟩
        rw [←hl, ←hu', replaceFrom_append]
        simp only [length_append, Nat.add_mul]
        omega
      case neg =>
        obtain ⟨k, hk, hn⟩ := hi u.length (hl ▸ Nat.lt_succ_self _) u rfl
        refine ⟨k, ?_, fun h0 h => ?_⟩
        · simp only [replaceFrom_cons hp, ←hl, length_cons] at hk ⊢
          omega
        · obtain h | h := infix_cons_iff.mp h
          · exact hp h
          · exact hn h0 h

theorem eq_of_replaceFrom_eq_self (hl : new.length = (c :: old).length) (h : c :: old <:+: u)
    (hr : replaceFrom (c :: old) new 0 u = u) : new = c :: old := by
  induction u
  case nil => exact absurd h (by simp)
  case cons d u hi =>
    by_cases hp : c :: old <+: d :: u
    case pos =>
      obtain ⟨v, hv⟩ := hp
      rw [←hv, replaceFrom_append] at hr
      exact (append_inj hr hl).1
    case neg =>
      rw [replaceFrom_cons hp] at hr
      exact hi ((infix_cons_iff.mp h).resolve_left hp) (cons_eq_cons.mp hr).2

theorem replaceFrom_refl : replaceFrom (c :: old) (c :: old) 0 s = s := by
  induction hl : s.length using Nat.strong_induction_on generalizing s
  case h n hi =>
    cases s
    case nil => rfl
    case cons d s =>
      by_cases hp : c :: old <+: d :: s
      case pos =>
        obtain ⟨t, ht⟩ := hp
        have hlt : t.length < n := by
          rw [←hl, ←ht]
          simp
        rw [←ht, replaceFrom_append, hi t.length hlt rfl]
      case neg => rw [replaceFrom_cons hp, hi s.length (hl ▸ Nat.lt_succ_self _) rfl]

end Fence

theorem notMem_of_mem_splitOn {α : Type} [DecidableEq α] {x : α} {l piece : List α} (h : piece ∈ l.splitOn x) :
    x ∉ piece := by
  induction l generalizing piece
  case nil =>
    obtain rfl : piece = [] := by simpa using h
    exact not_mem_nil
  case cons y l hi =>
    rw [splitOn_cons_eq_if_modifyHead] at h
    obtain ⟨p, ps, hp⟩ := exists_cons_of_ne_nil (splitOn_ne_nil x l)
    rw [hp] at h hi
    split at h
    case isTrue =>
      obtain rfl | h := mem_cons.mp h
      · exact not_mem_nil
      · exact hi h
    case isFalse hy =>
      obtain rfl | h := mem_cons.mp h
      · rw [beq_iff_eq] at hy
        exact not_mem_cons_of_ne_of_not_mem (Ne.symm hy) (hi mem_cons_self)
      · exact hi (mem_cons_of_mem p h)

theorem subset_intercalate {α : Type} (sep : List α) {l : List α} {ls : List (List α)} (h : l ∈ ls) :
    l ⊆ sep.intercalate ls := by
  induction ls
  case nil => cases h
  case cons l' ls hi =>
    cases ls
    case nil =>
      obtain rfl := mem_singleton.mp h
      rw [intercalate_singleton]
      exact List.Subset.refl l
    case cons l'' ls =>
      rw [intercalate_cons_cons]
      obtain rfl | h := mem_cons.mp h
      · exact fun c hc => mem_append_left _ (mem_append_left _ hc)
      · exact fun c hc => mem_append_right _ (hi h hc)

theorem subset_of_mem_splitOn {l : Str} (h : l ∈ s.splitOn c) : l ⊆ s := by
  have hs := subset_intercalate [c] h
  rwa [intercalate_splitOn] at hs

section Pieces

variable {us : List Str}

theorem length_replaceFrom_pieces (c : Char) (old new : Str) (us : List Str) : ∃ n,
    (new.intercalate (us.map (replaceFrom (c :: old) new 0))).length + n * (c :: old).length =
      (new.intercalate us).length + n * new.length ∧ (n = 0 → ∀ u ∈ us, ¬c :: old <:+: u) := by
  induction us
  case nil => exact ⟨0, by simp, fun _ => forall_mem_nil _⟩
  case cons u us hi =>
    obtain ⟨n, hn, hi⟩ := hi
    obtain ⟨k, hk, hu⟩ := length_replaceFrom c old new u
    refine ⟨k + n, ?_, fun h => ?_⟩
    · rw [Nat.add_mul, Nat.add_mul]
      cases us
      case nil =>
        simp only [map_cons, map_nil, intercalate_nil, intercalate_singleton] at hn ⊢
        omega
      case cons v us =>
        simp only [map_cons, intercalate_cons_cons, length_append] at hn ⊢
        omega
    · rw [Nat.add_eq_zero_iff] at h
      exact forall_mem_cons.mpr ⟨hu h.1, hi h.2⟩

theorem eq_of_intercalate_eq {f : Str → Str} (hl : ∀ u, (f u).length = u.length)
    (h : new.intercalate (us.map f) = new.intercalate us) : ∀ u ∈ us, f u = u := by
  induction us
  case nil => exact forall_mem_nil _
  case cons u us hi =>
    cases us
    case nil => simpa using h
    case cons v us =>
      simp only [map_cons, intercalate_cons_cons, append_assoc] at h
      obtain ⟨hu, h⟩ := append_inj h (hl u)
      exact forall_mem_cons.mpr ⟨hu, hi (append_cancel_left h)⟩

variable (hc : c ∉ old)

include hc

theorem replaceFrom_intercalate : replaceFrom (c :: old) new 0 (List.intercalate (c :: old) us) =
    new.intercalate (us.map (replaceFrom (c :: old) new 0)) := by
  induction us
  case nil => rfl
  case cons u us hi =>
    cases us
    case nil => simp
    case cons v us =>
      rw [intercalate_cons_cons, append_assoc, replaceFrom_around hc, hi]
      simp [map_cons, intercalate_cons_cons]

-- Only what is between the pieces is replaced, unless a piece has a match itself.
theorem replaceFrom_intercalate_eq_iff :
    replaceFrom (c :: old) new 0 (List.intercalate (c :: old) us) = new.intercalate us ↔
      new = c :: old ∨ ∀ u ∈ us, ¬c :: old <:+: u := by
  rw [replaceFrom_intercalate hc]
  constructor
  case mp =>
    intro h
    obtain ⟨n, hn, hu⟩ := length_replaceFrom_pieces c old new us
    rw [h, Nat.add_left_cancel_iff, mul_eq_mul_left_iff] at hn
    obtain hl | h0 := hn
    case inr => exact .inr (hu h0)
    case inl =>
      rw [or_iff_not_imp_right]
      intro hn
      obtain ⟨u, hm, hu⟩ : ∃ u ∈ us, c :: old <:+: u := by simpa using hn
      have hlen (u : Str) : (replaceFrom (c :: old) new 0 u).length = u.length := by
        obtain ⟨k, hk, -⟩ := length_replaceFrom c old new u
        rw [hl] at hk
        exact Nat.add_right_cancel hk
      exact eq_of_replaceFrom_eq_self hl.symm hu (eq_of_intercalate_eq hlen h u hm)
  case mpr =>
    rintro (rfl | hu)
    · rw [map_congr_left fun u _ => replaceFrom_refl, map_id']
    · rw [map_congr_left fun u hm => replaceFrom_eq_self (hu u hm), map_id']

end Pieces

end Strings
