import HanzoDNS.Lib.Domain

open List

namespace Dns

open Strings

open Domain

-- The functions of the DNS library on names, and what its documentation says about them. An index into a
-- name counts runes.
structure Labels where
  -- The start of the nth label from the right, and whether the start of the string is overshot.
  prevLabel : Str → Nat → Nat × Bool
  prevLabel_nil : prevLabel [] 1 = (0, true)
  prevLabel_lt : s ≠ [] → (prevLabel s 1).1 < s.length ∧ (prevLabel s 1).2 = false
  prevLabel_cat : ∀ n l, prevLabel (Name.cat (n ++ [l])) 1 = ((Name.cat n).length, false)
  -- The start of the label after an offset, and whether the end of the string is reached.
  nextLabel : Str → Nat → Nat × Bool
  nextLabel_root : nextLabel ['.'] 0 = (1, true)
  nextLabel_append : ∀ p l n, nextLabel (Name.cat (p ++ l :: n)) (Name.cat p).length =
    ((Name.cat (p ++ [l])).length, decide (n = []))
  -- The number of labels, of which the root has none.
  countLabel : Str → Nat
  countLabel_text : ∀ n, countLabel (Name.text n) = n.length
  -- Whether a string is a domain name, with or without a dot at its end.
  isDomainName : Str → Bool
  splitDomainName : Str → List Str
  splitDomainName_text : ∀ n, splitDomainName (Name.text n) = n.map Label.text
  -- Whether a name is another or below it, regardless of case.
  isSubDomain : (parent child : Str) → Bool
  isSubDomain_text : ∀ p c, isSubDomain (Name.text p) (Name.text c) ↔ Name.fold p <:+ Name.fold c
  -- A name with a dot at its end.
  fqdn : Str → Str
  fqdn_text : ∀ n, fqdn (Name.text n) = Name.text n
  -- The text of a name that was packed into wire format and unpacked again, unless one of the two fails.
  repack : Str → Option Str
  repack_text : ∀ n s, repack (Name.text n) = some s → ∃ m, s = Name.text m ∧
    m.map Label.octets = n.map Label.octets

namespace Labels

theorem nextLabel_cons (dns : Labels) (l : Label) (n : Name) :
    dns.nextLabel (Name.cat (l :: n)) 0 = (l.text.length + 1, decide (n = [])) := by
  have h := dns.nextLabel_append [] l n
  simpa [Name.cat_singleton, Name.cat] using h

def labels (s : Str) : List Str :=
  if s = ['.'] then [] else chunks s

theorem labels_text (n : Name) : labels (Name.text n) = n.map (·.text ++ ['.']) := by
  cases n
  case nil => rfl
  case cons l n =>
    have h : Name.cat (l :: n) ≠ ['.'] := by
      obtain ⟨c, t, ht⟩ := exists_cons_of_ne_nil l.nonempty
      simp [Name.cat_cons, ht]
    rw [Name.text_of_ne_nil (cons_ne_nil l n), labels, if_neg h, Name.chunks_cat]

theorem chunks_ne_nil {s : Str} (h : s ≠ []) : chunks s ≠ [] := by
  intro hc
  exact h (by simpa [hc] using (flatten_chunks s).symm)

theorem length_getLast_chunks {s : Str} (h : s ≠ []) :
    0 < ((chunks s).rtake 1).flatten.length ∧ ((chunks s).rtake 1).flatten.length ≤ s.length := by
  obtain hn | ⟨cs, c, hc⟩ := eq_nil_or_concat (chunks s)
  case inl => exact absurd hn (chunks_ne_nil h)
  case inr =>
    rw [hc, concat_eq_append, rtake_concat_succ, rtake_zero, nil_append, flatten_singleton]
    have hm : c ∈ chunks s := by simp [hc]
    refine ⟨length_pos_of_ne_nil (ne_nil_of_mem_chunks hm), ?_⟩
    have hs := (sublist_flatten_of_mem hm).length_le
    rwa [flatten_chunks] at hs

-- Functions that do what the documentation says.
def reference : Labels where
  prevLabel s n := (s.length - ((chunks s).rtake n).flatten.length, s = [] ∨ (chunks s).length < n)
  prevLabel_nil := rfl
  prevLabel_lt h := by
    have hl := length_getLast_chunks h
    have hn := length_pos_of_ne_nil (chunks_ne_nil h)
    refine ⟨by omega, ?_⟩
    simp [h, Nat.not_lt.mpr hn]
  prevLabel_cat n l := by
    rw [Name.chunks_cat, map_append, map_singleton, rtake_concat_succ, rtake_zero]
    simp [Name.cat_append, Name.cat_singleton]
  nextLabel s i := (i + ((chunks (s.drop i)).head?.getD []).length, (chunks (s.drop i)).length ≤ 1)
  nextLabel_root := rfl
  nextLabel_append p l n := by
    rw [Name.cat_append, drop_left, Name.chunks_cat]
    simp [Name.cat_append, Name.cat_singleton]
  countLabel s := (labels s).length
  countLabel_text n := by simp [labels_text]
  isDomainName s := s ≠ []
  splitDomainName s := (labels s).map List.dropLast
  splitDomainName_text n := by simp [labels_text, Function.comp_def]
  isSubDomain p c := ((labels p).map toLower).isSuffixOf ((labels c).map toLower)
  isSubDomain_text p c := by
    have hi : Function.Injective (· ++ ['.'] : Str → Str) := append_left_injective _
    have hf (n : Name) : (n.map (·.text ++ ['.'])).map toLower = (Name.fold n).map (· ++ ['.']) := by
      simp [Name.fold, Label.fold, toLower]
    rw [labels_text, labels_text, hf, hf, isSuffixOf_iff_suffix, suffix_map_iff hi]
  fqdn s := if hasSuffix s ['.'] then s else s ++ ['.']
  fqdn_text n := by simp [Name.dot_suffix_text n]
  repack s := some s
  repack_text n s h := ⟨n, (Option.some.inj h).symm, rfl⟩

-- What is unpacked is in a form that the octets determine, and letter case does not decide whether a name can
-- be packed.
structure Canonical (dns : Labels) : Prop where
  repack_lower : ∀ (n : Name) (s : Str), dns.repack n.text = some s →
    dns.repack (toLower s) = some (toLower s)
  repack_fails : ∀ n : Name, dns.repack n.text = none → dns.repack (toLower n.text) = none

theorem Canonical.reference : Labels.reference.Canonical where
  repack_lower _ _ _ := rfl
  repack_fails _ h := by cases h

end Labels
end Dns
