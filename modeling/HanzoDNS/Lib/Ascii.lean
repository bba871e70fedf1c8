import HanzoDNS.Lib.Strings

open List

structure Ascii where
  text : Str
  ascii : ∀ c ∈ text, c.toNat < 128

namespace Strings

open Unicode Char

-- The runes that fold to the same as an ASCII character: those that differ in case, and two others.
def folds (c d : Char) : Bool :=
  c.toLower = d.toLower ∨ c.toLower = 'k' ∧ d = '\u212a' ∨ c.toLower = 's' ∧ d = '\u017f'

def foldsAll : Str → Str → Bool
  | [], [] => true
  | c :: s, d :: t => folds c d && foldsAll s t
  | _, _ => false

-- Go's `strings.EqualFold` for a string that is ASCII and any other.
def equalFold (s : Ascii) (t : Str) : Bool :=
  foldsAll s.text t

section Chars

variable {c d : Char}

theorem toLower_of_ascii (h : c.toNat < 128) : Unicode.toLower c = c.toLower := by
  have hd : ∀ n < 128, Unicode.toLower (Char.ofNat n) = (Char.ofNat n).toLower := by
    decide +kernel
  simpa only [ofNat_toNat] using hd c.toNat h

theorem ascii_toLower (h : c.toNat < 128) : (Unicode.toLower c).toNat < 128 := by
  have hd : ∀ n < 128, (Unicode.toLower (Char.ofNat n)).toNat < 128 := by
    decide +kernel
  simpa only [ofNat_toNat] using hd c.toNat h

theorem ascii_of_toLower (h : d.toLower.toNat < 128) : d.toNat < 128 := by
  rw [Char.toLower] at h
  split at h
  case isTrue hu =>
    have := hu.2
    simp only [Char.toNat, UInt32.le_iff_toNat_le] at this ⊢
    exact lt_of_le_of_lt this (by decide)
  case isFalse => exact h

theorem char_toLower_ascii (h : c.toNat < 128) : c.toLower.toNat < 128 :=
  toLower_of_ascii h ▸ ascii_toLower h

theorem toLower_eq_of_folds (hc : c.toNat < 128) (hd : (Unicode.toLower d).toNat < 128) (h : folds c d) :
    Unicode.toLower d = Unicode.toLower c := by
  obtain h | ⟨hk, rfl⟩ | ⟨hs, rfl⟩ := of_decide_eq_true h
  case inl =>
    have hd : d.toNat < 128 := ascii_of_toLower (h ▸ char_toLower_ascii hc)
    rw [toLower_of_ascii hc, toLower_of_ascii hd, h]
  case inr.inl =>
    rw [toLower_of_ascii hc, hk]
    decide +kernel
  case inr.inr => exact absurd hd (by decide +kernel)

theorem eq_of_toLower_ascii (hd : (Unicode.toLower d).toNat < 128) :
    d.toNat < 128 ∨ d = '\u212a' ∨ d = '\u0130' := by
  have hr : lowerRanges.all fun r =>
      !Nat.blt r.dst 128 || Nat.blt r.hi 128 || Nat.beq r.lo r.hi && (Nat.beq r.lo 0x212a || Nat.beq r.lo 0x130) := by
    decide +kernel
  rw [toNat_toLower] at hd
  obtain ⟨he, -⟩ | ⟨r, hm, ⟨hl, hh, -⟩, he⟩ := lowerCode_cases d.toNat
  case inl => exact .inl (he ▸ hd)
  case inr =>
    rw [he, Unicode.CaseRange.image] at hd
    have := all_eq_true.mp hr r hm
    simp only [Bool.or_eq_true, Bool.and_eq_true, Bool.not_eq_true', Nat.blt_eq, Nat.beq_eq, ←Bool.not_eq_true] at this
    obtain (h | h) | ⟨he, h | h⟩ := this
    · omega
    · exact .inl (lt_of_le_of_lt hh h)
    · exact .inr (.inl (toNat_inj.mp (show d.toNat = 0x212a by omega)))
    · exact .inr (.inr (toNat_inj.mp (show d.toNat = 0x130 by omega)))

theorem folds_of_toLower_eq (hc : c.toNat < 128) (hn : d ≠ '\u0130') (h : Unicode.toLower d = Unicode.toLower c) :
    folds c d := by
  rw [folds, decide_eq_true_eq]
  obtain hd | rfl | hd := eq_of_toLower_ascii (h ▸ ascii_toLower hc)
  case inl =>
    rw [toLower_of_ascii hc, toLower_of_ascii hd] at h
    exact .inl h.symm
  case inr.inl =>
    rw [toLower_of_ascii hc] at h
    have hk : Unicode.toLower '\u212a' = 'k' := by decide +kernel
    exact .inr (.inl ⟨h.symm.trans hk, rfl⟩)
  case inr.inr => exact absurd hd hn

end Chars

variable {s : Ascii} {t : Str}

theorem Ascii.toLower_ascii : ∀ c ∈ toLower s.text, c.toNat < 128 := by
  simp only [toLower, mem_map, forall_exists_index, and_imp, forall_apply_eq_imp_iff₂]
  exact fun c hc => ascii_toLower (s.ascii c hc)

theorem toLower_eq_of_equalFold (ht : ∀ c ∈ toLower t, c.toNat < 128) (h : equalFold s t) :
    toLower t = toLower s.text := by
  obtain ⟨s, hs⟩ := s
  change foldsAll s t at h
  induction s generalizing t
  case nil =>
    cases t
    case nil => rfl
    case cons => cases h
  case cons c s hi =>
    cases t
    case nil => cases h
    case cons d t =>
      obtain ⟨hf, h⟩ := Bool.and_eq_true_iff.mp h
      simp only [toLower, map_cons, forall_mem_cons] at hs ht ⊢
      rw [toLower_eq_of_folds hs.1 ht.1 hf]
      exact congrArg _ (hi ht.2 hs.2 h)

theorem equalFold_of_toLower_eq (hn : '\u0130' ∉ t) (h : toLower t = toLower s.text) : equalFold s t := by
  obtain ⟨s, hs⟩ := s
  change foldsAll s t
  induction s generalizing t
  case nil =>
    obtain rfl := toLower_eq_nil_iff.mp h
    rfl
  case cons c s hi =>
    cases t
    case nil => cases h
    case cons d t =>
      simp only [toLower, map_cons, List.cons.injEq] at h
      obtain ⟨hd, hn⟩ := not_or.mp (mem_cons.not.mp hn)
      obtain ⟨hc, hs⟩ := forall_mem_cons.mp hs
      exact Bool.and_eq_true_iff.mpr ⟨folds_of_toLower_eq hc (Ne.symm hd) h.1, hi hn hs h.2⟩

end Strings
