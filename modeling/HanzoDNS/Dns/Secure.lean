import HanzoDNS.Dns.Nsec

open Domain List Std.TransCmp

namespace Dns

section

variable (rrs : List RR) (o n : Name) (t : RRType)

def HasSet : Prop :=
  ∃ rr ∈ rrs, rr.At n ∧ rr.rrtype = t

def HasSignature : Prop :=
  ∃ sig ∈ rrs, sig.At n ∧ ∃ rest, sig.data = .rrsig t rest

-- The sets of records that are the zone's own. At a cut they are those that are not about the delegated zone itself.
structure OwnSet : Prop where
  name : Authoritative rrs o n
  has : HasSet rrs n t
  notSig : t ≠ .rrsig
  cut : IsCut rrs o n → t = .ds ∨ t = .nsec

structure Lists (types : List RRType) : Prop where
  increasing : types.Pairwise (· < ·)
  mem_iff : ∀ t, t ∈ types ↔ HasSet rrs n t
  cut : IsCut rrs o n → ∀ t ∈ types, t ∈ [RRType.ns, .ds, .rrsig, .nsec]

-- The NSEC records are those of one chain, each lists the types of its name, and the records that are signed are the
-- zone's own.
structure Secure : Prop where
  chain : ∃ chain, Chain rrs o chain ∧ (rrs.filter (·.rrtype = .nsec)).Perm (chain.map Prod.snd)
  bitmaps : ∀ rr ∈ rrs, ∀ next types, rr.data = .nsec next types → ∀ n, rr.At n → Lists rrs o n types
  signatures : ∀ n t, HasSignature rrs n t ↔ OwnSet rrs o n t

end

section Names

variable {rrs : List RR} {o n m x : Name}

theorem Within.congr_left (h : n.canonical m = .eq) : Within n x ↔ Within m x := by
  rw [Within, Within, canonical_eq_iff.mp h]

theorem Within.congr_right (h : n.canonical m = .eq) : Within x n ↔ Within x m := by
  rw [Within, Within, canonical_eq_iff.mp h]

theorem Within.of_suffix (h : n <:+ m) : Within n m :=
  h.map Label.octets

theorem Within.trans (h : Within n m) (h' : Within m x) : Within n x :=
  IsSuffix.trans h h'

theorem Within.length_le (h : Within n m) : n.length ≤ m.length := by
  have hl := IsSuffix.length_le h
  rwa [length_map, length_map] at hl

theorem Within.eq_of_length (h : Within n m) (hl : n.length = m.length) : n.canonical m = .eq :=
  canonical_eq_iff.mpr (IsSuffix.eq_of_length h (by simpa using hl))

theorem length_eq_of_canonical (h : n.canonical m = .eq) : n.length = m.length := by
  simpa using congrArg List.length (canonical_eq_iff.mp h)

theorem RR.at_iff {rr : RR} (h : rr.name = m.text) : rr.At n ↔ m.canonical n = .eq := by
  constructor
  case mp =>
    rintro ⟨x, hx, he⟩
    rwa [Name.text_injective (h.symm.trans hx)]
  case mpr => exact fun he => ⟨m, h, he⟩

theorem RR.At.congr {rr : RR} (h : rr.At n) (he : n.canonical m = .eq) : rr.At m := by
  obtain ⟨x, hx, hxn⟩ := h
  exact ⟨x, hx, eq_trans hxn he⟩

theorem Authoritative.congr (h : Authoritative rrs o n) (he : n.canonical m = .eq) : Authoritative rrs o m where
  within := (Within.congr_right he).mp h.within
  owns := h.owns.imp (eq_trans (Std.OrientedCmp.eq_symm he)) fun ⟨rr, hm, hn⟩ => ⟨rr, hm, hn.congr he⟩
  uncut := fun x hx hw => eq_trans (h.uncut x hx ((Within.congr_right he).mpr hw)) he

theorem Authoritative.origin (rrs : List RR) (o : Name) : Authoritative rrs o o where
  within := suffix_rfl
  owns := .inl Std.ReflCmp.compare_self
  uncut := fun _ hc hw => hw.eq_of_length (le_antisymm hw.length_le hc.within.length_le)

end Names

namespace Chain

variable {rrs : List RR} {o : Name} {chain : List (Name × RR)} (h : Chain rrs o chain)

include h

theorem exists_head : ∃ c rest, chain = c :: rest ∧ c.1.canonical o = .eq := by
  obtain ⟨d, hd, he⟩ := (h.owners o).mp (.origin rrs o)
  obtain ⟨c, rest, rfl⟩ := exists_cons_of_ne_nil (ne_nil_of_mem hd)
  refine ⟨c, rest, rfl, ?_⟩
  obtain rfl | hd := mem_cons.mp hd
  case inl => exact he
  case inr =>
    have hlt := (pairwise_cons.mp h.sorted).1 d hd
    exact absurd (Std.OrientedCmp.gt_of_lt (lt_of_lt_of_eq hlt he)) (h.le_of_mem (by simp))

-- What holds of the record of the origin, and of the next record whenever it holds of one, holds of all of them.
theorem forall_of_next {P : RR → Prop} (first : ∀ c ∈ chain, c.1.canonical o = .eq → P c.2)
    (next : ∀ c ∈ chain, ∀ d ∈ chain, P c.2 → c.2.Next d.1 → P d.2) : ∀ c ∈ chain, P c.2 := by
  obtain ⟨c, rest, heq, hc⟩ := h.exists_head
  suffices hs : ∀ rest c, (∀ d ∈ c :: rest, d ∈ chain) → P c.2 →
      Forall₂ (fun c n => c.2.Next n) (c :: rest) (rest.map Prod.fst ++ [o]) → ∀ d ∈ c :: rest, P d.2 by
    have hlinked := h.linked
    rw [heq] at hlinked ⊢
    exact hs rest c (fun d hd => heq ▸ hd) (first c (by simp [heq]) hc) hlinked
  intro rest
  induction rest
  case nil => exact fun c _ hc _ d hd => mem_singleton.mp hd ▸ hc
  case cons e rest hi =>
    intro c hm hc hlinked d hd
    obtain ⟨hnext, hlinked⟩ := forall₂_cons.mp hlinked
    have he := next c (hm c (by simp)) e (hm e (by simp)) hc hnext
    obtain rfl | hd := mem_cons.mp hd
    case inl => exact hc
    case inr => exact hi e (fun d hd => hm d (mem_cons_of_mem _ hd)) he hlinked d hd

theorem pairwise_of_perm {nsecs : List RR} (hp : nsecs.Perm (chain.map Prod.snd)) :
    nsecs.Pairwise fun a b => ∀ n, a.At n → ¬b.At n := by
  have hc : (chain.map Prod.snd).Pairwise fun a b => ∀ n, a.At n → ¬b.At n := by
    refine pairwise_map.mpr (h.sorted.imp_of_mem fun {c d} hc hd hlt n hn hm => ?_)
    have he := eq_trans ((h.at_of_mem hc).canonical_eq hn) (hm.canonical_eq (h.at_of_mem hd))
    simp [he] at hlt
  refine (hp.pairwise_iff ?_).mpr hc
  exact fun hab n hb ha => hab n ha hb

end Chain
end Dns
