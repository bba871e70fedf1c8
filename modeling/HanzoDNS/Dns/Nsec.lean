import HanzoDNS.Dns.Basic
import HanzoDNS.Lib.Domain

open Domain List Std.TransCmp Std.OrientedCmp Std.ReflCmp

namespace Dns

section

variable (o n : Name)

-- The one name is the other or below it, regardless of how they are written.
def Within : Prop :=
  o.map Label.octets <:+ n.map Label.octets

instance : Decidable (Within o n) :=
  inferInstanceAs (Decidable (_ <:+ _))

end

def RR.At (rr : RR) (n : Name) : Prop :=
  ∃ m : Name, rr.name = m.text ∧ m.canonical n = .eq

def RR.Next (rr : RR) (n : Name) : Prop :=
  ∃ (m : Name) (types : List RRType), rr.data = .nsec m.text types ∧ m.canonical n = .eq

structure IsCut (rrs : List RR) (o m : Name) : Prop where
  within : Within o m
  notTop : m.canonical o ≠ .eq
  owns : ∃ rr ∈ rrs, rr.rrtype = .ns ∧ rr.At m

-- The names that are the zone's own: the origin and the names of records, except for those below a cut.
structure Authoritative (rrs : List RR) (o n : Name) : Prop where
  within : Within o n
  owns : n.canonical o = .eq ∨ ∃ rr ∈ rrs, rr.At n
  uncut : ∀ m, IsCut rrs o m → Within m n → m.canonical n = .eq

-- Each name that is the zone's own has exactly one NSEC record, and its next name is the next one of them in
-- canonical order. The last one leads back to the origin.
structure Chain (rrs : List RR) (o : Name) (chain : List (Name × RR)) : Prop where
  sorted : chain.Pairwise fun c d => c.1.canonical d.1 = .lt
  owners : ∀ n, Authoritative rrs o n ↔ ∃ c ∈ chain, c.1.canonical n = .eq
  records : ∀ c ∈ chain, c.2 ∈ rrs ∧ c.2.name = c.1.text
  unique : ∀ c ∈ chain, ∀ rr ∈ rrs, rr.rrtype = .nsec → rr.At c.1 → rr = c.2
  linked : Forall₂ (fun c n => c.2.Next n) chain ((chain.map Prod.fst).tail ++ [o])

section Canonical

variable {o n m : Name}

instance transCmp_canonical : Std.TransCmp Name.canonical :=
  inferInstanceAs (Std.TransCmp (compareOn fun n : Name => n.reverse.map Label.octets))

theorem canonical_eq_iff : n.canonical m = .eq ↔ n.map Label.octets = m.map Label.octets := by
  rw [Name.canonical, Std.LawfulEqOrd.compare_eq_iff_eq, map_reverse, map_reverse, reverse_inj]

theorem Within.le (h : Within o n) : o.canonical n ≠ .gt := by
  obtain ⟨t, ht⟩ := h
  have hl := compare_append (o.map Label.octets).reverse t.reverse
  rw [←reverse_append, ht, ←map_reverse, ←map_reverse] at hl
  exact Ordering.isLE_iff_ne_gt.mp hl

end Canonical

section Chain

variable {rrs : List RR} {o n m : Name} {chain : List (Name × RR)} {c : Name × RR} {rr : RR}

theorem RR.At.canonical_eq (h : rr.At n) (h' : rr.At m) : n.canonical m = .eq := by
  obtain ⟨x, hx, hn⟩ := h
  obtain ⟨y, hy, hm⟩ := h'
  obtain rfl := Name.text_injective (hx.symm.trans hy)
  exact eq_trans (eq_symm hn) hm

theorem RR.Next.canonical_eq (h : rr.Next n) (h' : rr.Next m) : n.canonical m = .eq := by
  obtain ⟨x, _, hx, hn⟩ := h
  obtain ⟨y, _, hy, hm⟩ := h'
  obtain ⟨hxy, -⟩ := RData.nsec.inj (hx.symm.trans hy)
  obtain rfl := Name.text_injective hxy
  exact eq_trans (eq_symm hn) hm

-- The next name is that of the next record, unless the record is the last one.
theorem next_of_linked (sorted : chain.Pairwise fun c d => c.1.canonical d.1 = .lt)
    (linked : Forall₂ (fun c n => c.2.Next n) chain ((chain.map Prod.fst).tail ++ [o])) (hc : c ∈ chain) :
    (∃ d ∈ chain, c.2.Next d.1 ∧ c.1.canonical d.1 = .lt ∧
      ∀ e ∈ chain, c.1.canonical e.1 = .lt → d.1.canonical e.1 ≠ .gt) ∨
    c.2.Next o ∧ ∀ e ∈ chain, e.1.canonical c.1 ≠ .gt := by
  induction chain
  case nil => simp at hc
  case cons b chain hi =>
    obtain ⟨hb, hs⟩ := pairwise_cons.mp sorted
    clear sorted
    cases chain
    case nil =>
      obtain rfl : c = b := by simpa using hc
      have hn : c.2.Next o := by simpa using linked
      exact .inr ⟨hn, by simp [compare_self]⟩
    case cons d chain =>
      obtain ⟨hn, linked⟩ : b.2.Next d.1 ∧ Forall₂ (fun c n => c.2.Next n) (d :: chain)
          ((List.map Prod.fst (d :: chain)).tail ++ [o]) := by simpa using linked
      obtain rfl | hc := mem_cons.mp hc
      case inl =>
        refine .inl ⟨d, by simp, hn, hb d (by simp), fun e he hlt => ?_⟩
        obtain rfl | rfl | he : e = c ∨ e = d ∨ e ∈ chain := by simpa using he
        case inl => simp [compare_self] at hlt
        case inr.inl => simp [compare_self]
        case inr.inr => simp [(pairwise_cons.mp hs).1 e he]
      case inr =>
        have hbc := hb c hc
        obtain ⟨x, hx, hn, hlt, hf⟩ | ⟨hn, hl⟩ := hi hs linked hc
        case inl =>
          refine .inl ⟨x, mem_cons_of_mem _ hx, hn, hlt, fun e he hlt' => ?_⟩
          obtain rfl | he := mem_cons.mp he
          case inl => simp [gt_of_lt hbc] at hlt'
          case inr => exact hf e he hlt'
        case inr =>
          refine .inr ⟨hn, fun e he => ?_⟩
          obtain rfl | he := mem_cons.mp he
          case inl => simp [hbc]
          case inr => exact hl e he

namespace Chain

variable (h : Chain rrs o chain)

include h

theorem at_of_mem (hc : c ∈ chain) : c.2.At c.1 :=
  ⟨c.1, (h.records c hc).2, compare_self⟩

theorem le_of_mem (hc : c ∈ chain) : o.canonical c.1 ≠ .gt :=
  ((h.owners c.1).mpr ⟨c, hc, compare_self⟩).within.le

end Chain
end Chain
end Dns
