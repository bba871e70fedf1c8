import HanzoDNS.Dns.Secure
import HanzoDNS.Sign.Theorems.Walk

open Dns Domain File List Std.TransCmp Std.OrientedCmp Std.ReflCmp

namespace File

section

variable {e : Elem} {n m : Name}

theorem Elem.at_of_name (h : e.name = n.text) : e.At n :=
  ⟨n, h, compare_self⟩

theorem Elem.at_iff (h : e.name = m.text) : e.At n ↔ m.canonical n = .eq := by
  constructor
  case mp =>
    rintro ⟨x, hx, he⟩
    rwa [Name.text_injective (h.symm.trans hx)]
  case mpr => exact fun he => ⟨m, h, he⟩

theorem Elem.At.canonical_eq (h : e.At n) (h' : e.At m) : n.canonical m = .eq := by
  obtain ⟨x, hx, hn⟩ := h
  obtain ⟨y, hy, hm⟩ := h'
  obtain rfl := Name.text_injective (hx.symm.trans hy)
  exact eq_trans (eq_symm hn) hm

theorem Elem.At.congr (h : e.At n) (he : n.canonical m = .eq) : e.At m := by
  obtain ⟨x, hx, hxn⟩ := h
  exact ⟨x, hx, eq_trans hxn he⟩

theorem Elem.type_ne_nil_iff {t : RRType} : e.type t ≠ [] ↔ ∃ rr ∈ e.rrs, rr.rrtype = t := by
  simp [Elem.type, filter_eq_nil_iff]

end

def Own (es : List Elem) (e : Elem) : Prop :=
  ∀ n m : Name, e.name = n.text → Delegates es m → ¬Above m n

-- The tree takes names for the same as far as it has to: what is stored under a name has it, so does the name in the
-- form in which records are inserted, and what is within the origin is not before it.
structure Zone.Regular (dns : Labels) (o : Name) (z : Zone) : Prop where
  elems : ∀ e ∈ z.tree.all, e.Regular dns
  below : ∀ e ∈ z.tree.all, ∀ n, e.At n → Within o n → order dns o.text e.name ≠ .gt

section Plain

variable {dns : Labels} {z : Zone} {o n m : Name} {rrs : List RR}

theorem plain_of_text (h : '\\' ∉ n.text) : ∀ l ∈ n, Plain l := by
  intro l hl hm
  rw [Name.text_of_ne_nil (ne_nil_of_mem hl)] at h
  exact h (mem_flatMap.mpr ⟨l, hl, mem_append_left _ hm⟩)

theorem map_stored_plain (h : '\\' ∉ n.text) : n.map stored = (n.map Label.octets).map (· ++ [46]) := by
  rw [map_map]
  exact map_congr_left fun l hl => stored_plain (plain_of_text h l hl)

theorem order_plain_eq_iff (hn : '\\' ∉ n.text) (hm : '\\' ∉ m.text) :
    order dns n.text m.text = .eq ↔ n.canonical m = .eq := by
  rw [order_text_eq_iff, canonical_eq_iff, map_stored_plain hn, map_stored_plain hm]
  exact (map_injective_iff.mpr (append_left_injective [46])).eq_iff

theorem order_plain_of_within (hn : '\\' ∉ n.text) (hm : '\\' ∉ m.text) (hne : n ≠ []) (h : Within n m) :
    order dns n.text m.text ≠ .gt := by
  have hne' : m ≠ [] := by
    rintro rfl
    exact hne (eq_nil_of_length_eq_zero (Nat.le_zero.mp h.length_le))
  have hs := h.map (· ++ [46])
  rw [←map_stored_plain hn, ←map_stored_plain hm] at hs
  obtain ⟨p, hp⟩ := hs
  rw [order_eq, key_text dns hne, key_text dns hne', map_reverse, map_reverse, ←hp, reverse_append]
  exact Ordering.isLE_iff_ne_gt.mp (compare_append _ _)

theorem normalize_plain {rr : RR} (h : '\\' ∉ rr.name) : '\\' ∉ (normalize dns rr).name := by
  rw [normalize]
  split
  case isTrue => exact h
  case isFalse =>
    rw [canonicalEscape, if_neg h]
    exact fun hm => h (Strings.backslash_mem_toLower_iff.mp hm)

theorem Zone.Holds.regular (h : z.Holds dns o rrs) (ho : o ≠ []) (hp : '\\' ∉ o.text)
    (hrrs : ∀ rr ∈ rrs, '\\' ∉ rr.name) : z.Regular dns o := by
  have hname : ∀ e ∈ z.tree.all, ∃ n : Name, e.name = n.text ∧ '\\' ∉ n.text := by
    intro e he
    rw [z.tree.all_eq_toList] at he
    obtain ⟨rr, hm, hn⟩ := h.owners e he
    obtain ⟨n, hx⟩ := h.named rr hm
    exact ⟨n, hn.trans hx, hx ▸ hrrs rr hm⟩
  constructor
  case elems =>
    intro e he
    obtain ⟨n, hn, hpl⟩ := hname e he
    constructor
    case same =>
      intro rr hm m hat
      rw [z.tree.all_eq_toList] at he
      rw [(h.valid.stores.has e he).rrs_eq] at hm
      obtain ⟨hm, heq⟩ := mem_filter.mp hm
      obtain ⟨x, hx⟩ := h.named rr hm
      rw [hn, hx, decide_eq_true_iff, order_plain_eq_iff hpl (hx ▸ hrrs rr hm)] at heq
      exact ⟨x, hx, eq_trans (eq_symm heq) ((Elem.at_iff hn).mp hat)⟩
    case kept =>
      obtain ⟨x, hx, heq⟩ := exists_normal_name dns n
      have hpx : '\\' ∉ x.text := by
        rw [←hx, canonicalEscape, if_neg hpl]
        exact fun hm => hpl (Strings.backslash_mem_toLower_iff.mp hm)
      rw [hn, hx]
      exact (order_plain_eq_iff hpx hpl).mpr heq
  case below =>
    intro e he n hat hw
    obtain ⟨x, hx, hpx⟩ := hname e he
    rw [hx]
    exact order_plain_of_within hp hpx ho ((Within.congr_right ((Elem.at_iff hx).mp hat)).mpr hw)

end Plain
end File

namespace Sign

section

variable {κ : Type} {dns : Labels} {range : Elem.Range} {s : Signer κ} {z z' : Zone} {o n m : Name} {soa rr : RR}
variable {mttl : UInt32} {sigs : List RR} {e a : Elem} {t : RRType} {next : Str}

structure Signable (dns : Labels) (o : Name) (keys : List (Pair κ)) (z : Zone) : Prop where
  keys : keys ≠ []
  soa : ∃ soa, z.apex.soa = some soa ∧ soa.At o
  ns : z.apex.ns ≠ []
  origin : ∃ e ∈ z.tree.all, e.name = o.text
  apex : ∀ e ∈ z.tree.all, e.At o → e.name = o.text ∧ e.type .ns = []
  within : ∀ e ∈ z.tree.all, ∀ n, e.At n → Within o n
  spelled : Spelled z.tree.all
  ordered : ∀ e ∈ z.tree.all, ∀ e' ∈ z.tree.all, Own z.tree.all e → Own z.tree.all e' →
    order dns e.name e'.name = .lt → ∀ n n', e.At n → e'.At n' → n.canonical n' = .lt
  unsigned : ∀ e ∈ z.tree.all, e.type .nsec = []
  cuts : ∀ e ∈ z.tree.all, Own z.tree.all e → e.type .ns ≠ [] → ∀ rr ∈ e.rrs, rr.rrtype = .ns ∨ rr.rrtype = .ds

section Circle

theorem map_fst_circle (es : List Elem) : (circle es).map Prod.fst = es := by
  rw [circle, map_fst_zip]
  simp

theorem mem_circle {es : List Elem} {p : Elem × Str} (h : p ∈ circle es) : p.1 ∈ es ∧ ∃ e ∈ es, e.name = p.2 := by
  obtain ⟨h₁, h₂⟩ := of_mem_zip h
  rw [mem_rotate, mem_map] at h₂
  exact ⟨h₁, h₂⟩

theorem exists_mem_circle {es : List Elem} (h : e ∈ es) : ∃ next, (e, next) ∈ circle es := by
  rw [←map_fst_circle es] at h
  obtain ⟨⟨_, next⟩, hp, rfl⟩ := mem_map.mp h
  exact ⟨next, hp⟩

theorem mem_circle_getElem {es : List Elem} (i : Nat) (h : i + 1 < es.length) : (es[i], es[i + 1].name) ∈ circle es := by
  have hl : i < (circle es).length := by
    simp [circle]
    omega
  have heq : (circle es)[i] = (es[i], es[i + 1].name) := by
    simp [circle, getElem_rotate, Nat.mod_eq_of_lt h]
  exact heq ▸ getElem_mem hl

theorem mem_nsecs (h : rr ∈ s.nsecs dns range mttl z) : ∃ e ∈ signedElems dns z, ∃ e' ∈ signedElems dns z,
    rr = s.nsec dns range mttl e e'.name := by
  obtain ⟨⟨e, next⟩, hp, rfl⟩ := mem_map.mp h
  obtain ⟨he, e', he', rfl⟩ := mem_circle hp
  exact ⟨e, he, e', he', rfl⟩

theorem exists_mem_nsecs (h : e ∈ signedElems dns z) : ∃ next, s.nsec dns range mttl e next ∈ s.nsecs dns range mttl z := by
  obtain ⟨next, hp⟩ := exists_mem_circle h
  exact ⟨next, mem_map_of_mem hp⟩

end Circle

section Bitmap

theorem nsec_data : (s.nsec dns range mttl e next).data = .nsec next ((s.bitmap range e).insertionSort (· ≤ ·)) :=
  rfl

theorem nsec_next (h : next = m.text) (he : m.canonical n = .eq) : (s.nsec dns range mttl e next).Next n :=
  ⟨m, _, by rw [nsec_data, h], he⟩

theorem mem_bitmap_iff : t ∈ (s.bitmap range e).insertionSort (· ≤ ·) ↔
    e.type t ≠ [] ∨ t = .rrsig ∨ t = .nsec ∨ e.name = s.origin ∧ (t = .ns ∨ t = .soa) := by
  rw [(perm_insertionSort _ _).mem_iff, Signer.bitmap, mem_append, range.mem_iff]
  split
  case isTrue h =>
    simp only [mem_cons, not_mem_nil, or_false, h, true_and]
    tauto
  case isFalse h =>
    simp [mem_cons, not_mem_nil, or_false, h, false_and]

theorem increasing_bitmap_iff (hsig : e.type .rrsig = []) (hsoa : e.type .soa = []) :
    ((s.bitmap range e).insertionSort (· ≤ ·)).Pairwise (· < ·) ↔
      e.type .nsec = [] ∧ (e.name = s.origin → e.type .ns = []) := by
  have hlt (ts : List RRType) : (ts.insertionSort (· ≤ ·)).Pairwise (· < ·) ↔ ts.Nodup := by
    rw [←(perm_insertionSort (· ≤ ·) ts).nodup_iff]
    constructor
    case mp => exact fun h => h.imp UInt16.ne_of_lt
    case mpr =>
      intro h
      exact ((pairwise_insertionSort (· ≤ ·) ts).and h).imp fun hab => UInt16.lt_of_le_of_ne hab.1 hab.2
  have hm : ∀ ts : List RRType, (∀ t ∈ range.types e, ∀ t' ∈ ts, t ≠ t') ↔ ∀ t ∈ ts, e.type t = [] := by
    intro ts
    constructor
    case mp => exact fun h t ht => by_contra fun hn => h t ((range.mem_iff e t).mpr hn) t ht rfl
    case mpr =>
      rintro h t ht _ ht' rfl
      exact (range.mem_iff e t).mp ht (h t ht')
  rw [hlt, Signer.bitmap, nodup_append, hm]
  split
  case isTrue h =>
    have hd : [RRType.ns, .soa, .rrsig, .nsec].Nodup := by decide
    simp [range.nodup e, hd, hsig, hsoa, h, and_comm]
  case isFalse h =>
    have hd : [RRType.rrsig, .nsec].Nodup := by decide
    simp [range.nodup e, hd, hsig, h]

end Bitmap

theorem IsSignature.at_iff {names : Name → Prop} {sig : RR} (hs : IsSignature names t sig)
    (hn : ∀ n, names n ↔ m.canonical n = .eq) : sig.At n ↔ names n := by
  have hm := hs.name m ((hn m).mpr compare_self)
  exact ⟨fun h => (hn n).mpr (hm.canonical_eq h), hs.name n⟩

theorem IsSignature.type_eq {names : Name → Prop} {sig : RR} {t' : RRType} {rest : Str} (hs : IsSignature names t sig)
    (hd : sig.data = .rrsig t' rest) : t' = t := by
  obtain ⟨rest', hd'⟩ := hs.data
  exact (RData.rrsig.inj (hd.symm.trans hd')).1

theorem rrtype_of_mem_nsecs (hm : rr ∈ s.nsecs dns range mttl z) : rr.rrtype = .nsec := by
  obtain ⟨e, -, e', -, rfl⟩ := mem_nsecs hm
  exact nsec_rrtype

theorem sublist_signedElems (dns : Labels) (z : Zone) : (signedElems dns z).Sublist z.tree.all := by
  have h := (filter_sublist (l := calls dns [] z.tree.all) (p := (·.2))).map Prod.fst
  rwa [map_fst_calls] at h

theorem eq_of_pairwise {es : List Elem} (hp : es.Pairwise fun e e' => ∀ n, e.At n → ¬e'.At n) (he : e ∈ es) (ha : a ∈ es)
    (hn : e.At n) (hn' : a.At n) : e = a := by
  have hsymm : Std.Symm fun e e' : Elem => ∀ n, e.At n → ¬e'.At n := ⟨fun _ _ h n h₁ h₂ => h n h₂ h₁⟩
  by_contra hne
  exact hp.forall he ha hne n hn hn'

def SignedSet (dns : Labels) (z : Zone) (soa : RR) (n : Name) (t : RRType) : Prop :=
  ∃ names, SignedSets dns z soa names t ∧ names n

structure Signing (dns : Labels) (range : Elem.Range) (s : Signer κ) (o : Name) (z z' : Zone) (soa : RR) (mttl : UInt32)
    (sigs : List RR) : Prop extends Outcome dns range s z z' soa mttl sigs where
  scans : dns.Scans
  unsigned : Unsigned dns o z
  regular : z.Regular dns o

namespace Signing

variable (h : Signing dns range s o z z' soa mttl sigs)

include h

theorem exists_name (he : e ∈ z.tree.all) : ∃ n : Name, e.name = n.text := by
  obtain ⟨rrs, hh⟩ := h.unsigned.holds
  rw [z.tree.all_eq_toList] at he
  obtain ⟨rr, hm, hn⟩ := hh.owners e he
  exact hn ▸ hh.named rr hm

theorem rrs_ne_nil (he : e ∈ z.tree.all) : e.rrs ≠ [] := by
  obtain ⟨rrs, hh⟩ := h.unsigned.holds
  rw [z.tree.all_eq_toList] at he
  exact (hh.valid.stores.has e he).nonempty

theorem increasing_iff (he : e ∈ z.tree.all) :
    ((s.bitmap range e).insertionSort (· ≤ ·)).Pairwise (· < ·) ↔
      e.type .nsec = [] ∧ (e.name = s.origin → e.type .ns = []) := by
  have hnone {t : RRType} (ht : ∀ rr ∈ e.rrs, rr.rrtype ≠ t) : e.type t = [] := by
    by_contra hn
    obtain ⟨rr, hm, h⟩ := Elem.type_ne_nil_iff.mp hn
    exact ht rr hm h
  apply increasing_bitmap_iff
  · exact hnone fun rr hm => (h.unsigned.types e he rr hm).1
  · exact hnone fun rr hm => (h.unsigned.types e he rr hm).2

theorem mem_signedElems_iff : e ∈ signedElems dns z ↔
    e ∈ z.tree.all ∧ ∀ n : Name, e.name = n.text → ¬∃ d, Delegates z.tree.all d ∧ d ≠ [] ∧ d <:+ n ∧ d ≠ n := by
  obtain ⟨rrs, hh⟩ := h.unsigned.holds
  have hm : e ∈ signedElems dns z ↔ (e, true) ∈ calls dns [] z.tree.all := by
    simp [signedElems, authElems]
  rw [hm]
  constructor
  case mp =>
    intro hc
    refine ⟨?_, fun n hn hd => ?_⟩
    · rw [←map_fst_calls dns [] z.tree.all]
      exact mem_map_of_mem hc
    · exact Bool.noConfusion ((call_iff h.scans hh hc hn).mpr hd)
  case mpr =>
    rintro ⟨he, hd⟩
    obtain ⟨n, hn⟩ := exists_name h he
    rw [←map_fst_calls dns [] z.tree.all] at he
    obtain ⟨⟨e, auth⟩, hc, rfl⟩ := mem_map.mp he
    cases auth
    case false => exact absurd ((call_iff h.scans hh hc hn).mp rfl) (hd n hn)
    case true => exact hc

theorem mem_of_signed (he : e ∈ signedElems dns z) : e ∈ z.tree.all :=
  ((mem_signedElems_iff h).mp he).1

theorem at_iff (he : e ∈ z.tree.all) (hr : rr ∈ e.rrs) : rr.At n ↔ e.At n := by
  obtain ⟨m, hm⟩ := exists_name h he
  have hat := Elem.at_of_name hm
  have hrr := (h.regular.elems e he).same rr hr m hat
  exact ⟨fun h => hat.congr (hrr.canonical_eq h), fun h => hrr.congr (hat.canonical_eq h)⟩

theorem nsec_at_iff (he : e ∈ z.tree.all) : (s.nsec dns range mttl e next).At n ↔ e.At n := by
  obtain ⟨m, hm⟩ := exists_name h he
  have hat := Elem.at_of_name hm
  have hrr : (s.nsec dns range mttl e next).At m := nsec_at hat
  exact ⟨fun h => hat.congr (hrr.canonical_eq h), nsec_at⟩

theorem mem_records_iff : rr ∈ records z' ↔ rr = soa ∨ rr ∈ z.apex.ns ∨
    (∃ e ∈ z.tree.all, rr ∈ e.rrs) ∨ rr ∈ s.nsecs dns range mttl z ∨ rr ∈ sigs := by
  rw [h.perm.mem_iff]
  simp

theorem soa_named : ∃ n : Name, soa.name = n.text := by
  obtain ⟨soa', n, hs, hn⟩ := h.unsigned.soa
  have hname := h.soa_name
  rw [hs] at hname
  exact ⟨n, (Option.some.inj hname).symm.trans hn⟩

theorem data_of_mem_sigs (hm : rr ∈ sigs) : ∃ t rest, rr.data = .rrsig t rest := by
  obtain ⟨-, names, t, -, hs⟩ := h.covers.sound rr hm
  exact ⟨t, hs.data⟩

theorem names_iff {names : Name → Prop} (hs : SignedSets dns z soa names t) :
    ∃ m : Name, ∀ n, names n ↔ m.canonical n = .eq := by
  obtain (⟨rfl, rfl⟩ | ⟨rr, hm, rfl, rfl⟩) | ⟨e, he, rfl, ht⟩ := hs
  · obtain ⟨m, hm⟩ := soa_named h
    exact ⟨m, fun _ => RR.at_iff hm⟩
  · exact ⟨o, fun _ => RR.at_iff (h.unsigned.ns rr hm).2⟩
  · obtain ⟨m, hm⟩ := exists_name h (mem_of_signed h he)
    exact ⟨m, fun _ => Elem.at_iff hm⟩

theorem hasSignature_iff : HasSignature (records z') n t ↔ s.keys ≠ [] ∧ SignedSet dns z soa n t := by
  constructor
  case mp =>
    rintro ⟨sig, hm, hat, rest, hd⟩
    have ht : sig.rrtype = .rrsig := congrArg RData.rrtype hd
    obtain rfl | hm | ⟨e, he, hm⟩ | hm | hm := (mem_records_iff h).mp hm
    · exact absurd (ht.symm.trans h.soa_type) (by decide)
    · exact absurd (ht.symm.trans (h.unsigned.ns sig hm).1) (by decide)
    · exact absurd ht (h.unsigned.types e he sig hm).1
    · exact absurd (ht.symm.trans (rrtype_of_mem_nsecs hm)) (by decide)
    · obtain ⟨hk, names, t', hset, hs⟩ := h.covers.sound sig hm
      obtain rfl := hs.type_eq hd
      obtain ⟨m, hn⟩ := names_iff h hset
      exact ⟨hk, names, hset, (hs.at_iff hn).mp hat⟩
  case mpr =>
    rintro ⟨hk, names, hset, hat⟩
    obtain ⟨sig, hm, hs⟩ := h.covers.complete hk names t hset
    exact ⟨sig, (mem_records_iff h).mpr (by simp [hm]), hs.name n hat, hs.data⟩

theorem hasSet_iff : HasSet (records z') n t ↔ t = .soa ∧ soa.At n ∨ t = .ns ∧ (∃ rr ∈ z.apex.ns, rr.At n) ∨
    (∃ e ∈ z.tree.all, e.At n ∧ e.type t ≠ []) ∨ t = .nsec ∧ (∃ e ∈ signedElems dns z, e.At n) ∨
    t = .rrsig ∧ s.keys ≠ [] ∧ ∃ t', SignedSet dns z soa n t' := by
  constructor
  case mp =>
    rintro ⟨rr, hm, hat, rfl⟩
    obtain rfl | hm | ⟨e, he, hm⟩ | hm | hm := (mem_records_iff h).mp hm
    · exact .inl ⟨h.soa_type, hat⟩
    · exact .inr (.inl ⟨(h.unsigned.ns rr hm).1, rr, hm, hat⟩)
    · exact .inr (.inr (.inl ⟨e, he, (at_iff h he hm).mp hat, Elem.type_ne_nil_iff.mpr ⟨rr, hm, rfl⟩⟩))
    · obtain ⟨e, he, e', -, rfl⟩ := mem_nsecs hm
      exact .inr (.inr (.inr (.inl ⟨nsec_rrtype, e, he, (nsec_at_iff h (mem_of_signed h he)).mp hat⟩)))
    · obtain ⟨t, rest, hd⟩ := data_of_mem_sigs h hm
      have hs : HasSignature (records z') n t := ⟨rr, (mem_records_iff h).mpr (by simp [hm]), hat, rest, hd⟩
      obtain ⟨hk, hs⟩ := (hasSignature_iff h).mp hs
      exact .inr (.inr (.inr (.inr ⟨congrArg RData.rrtype hd, hk, t, hs⟩)))
  case mpr =>
    have hset {rr : RR} (hm : rr ∈ records z') (hat : rr.At n) : HasSet (records z') n rr.rrtype := ⟨rr, hm, hat, rfl⟩
    rintro (⟨rfl, hat⟩ | ⟨rfl, rr, hm, hat⟩ | ⟨e, he, hat, ht⟩ | ⟨rfl, e, he, hat⟩ | ⟨rfl, hk, t', hs⟩)
    · exact h.soa_type ▸ hset ((mem_records_iff h).mpr (.inl rfl)) hat
    · exact (h.unsigned.ns rr hm).1 ▸ hset ((mem_records_iff h).mpr (by simp [hm])) hat
    · obtain ⟨rr, hm, rfl⟩ := Elem.type_ne_nil_iff.mp ht
      exact hset ((mem_records_iff h).mpr (.inr (.inr (.inl ⟨e, he, hm⟩)))) ((at_iff h he hm).mpr hat)
    · obtain ⟨next, hm⟩ := exists_mem_nsecs he
      exact hset ((mem_records_iff h).mpr (.inr (.inr (.inr (.inl hm))))) (nsec_at hat)
    · obtain ⟨sig, hm, hat, rest, hd⟩ := (hasSignature_iff h).mpr ⟨hk, hs⟩
      have ht : sig.rrtype = .rrsig := congrArg RData.rrtype hd
      exact ht ▸ hset hm hat

theorem filter_nsec_perm_append : ((records z').filter (·.rrtype = .nsec)).Perm
    ((z.tree.all.flatMap (·.rrs)).filter (·.rrtype = .nsec) ++ s.nsecs dns range mttl z) := by
  have hsoa : ¬decide (soa.rrtype = .nsec) := by
    rw [h.soa_type]
    decide
  have hns : z.apex.ns.filter (·.rrtype = .nsec) = [] := by
    rw [filter_eq_nil_iff]
    intro rr hm
    simp [(h.unsigned.ns rr hm).1, RRType.ns, RRType.nsec]
  have hnew : (s.nsecs dns range mttl z).filter (·.rrtype = .nsec) = s.nsecs dns range mttl z := by
    rw [filter_eq_self]
    exact fun rr hm => by simpa using rrtype_of_mem_nsecs hm
  have hsig : sigs.filter (·.rrtype = .nsec) = [] := by
    rw [filter_eq_nil_iff]
    intro rr hm
    obtain ⟨t, rest, hd⟩ := data_of_mem_sigs h hm
    have ht : rr.rrtype = .rrsig := congrArg RData.rrtype hd
    simp [ht, RRType.rrsig, RRType.nsec]
  have hp := h.perm.filter (·.rrtype = .nsec)
  rwa [filter_append, filter_append, hnew, hsig, append_nil, cons_append,
    filter_cons_of_neg (by exact hsoa), filter_append, hns, nil_append] at hp

theorem isCut_iff : IsCut (records z') o m ↔
    Within o m ∧ m.canonical o ≠ .eq ∧ ∃ e ∈ z.tree.all, e.At m ∧ e.type .ns ≠ [] := by
  have hset : (∃ rr ∈ records z', rr.rrtype = .ns ∧ rr.At m) ↔ HasSet (records z') m .ns := by
    simp [HasSet, and_comm]
  constructor
  case mp =>
    rintro ⟨hw, ho, howns⟩
    refine ⟨hw, ho, ?_⟩
    obtain ⟨ht, -⟩ | ⟨-, rr, hm, hat⟩ | he | ⟨ht, -⟩ | ⟨ht, -⟩ := (hasSet_iff h).mp (hset.mp howns)
    · exact absurd ht (by decide)
    · exact absurd (eq_symm ((RR.at_iff (h.unsigned.ns rr hm).2).mp hat)) ho
    · exact he
    · exact absurd ht (by decide)
    · exact absurd ht (by decide)
  case mpr =>
    rintro ⟨hw, ho, he⟩
    exact ⟨hw, ho, hset.mpr ((hasSet_iff h).mpr (.inr (.inr (.inl he))))⟩

section Own

theorem mem_signedElems_iff_own (hs : Spelled z.tree.all) :
    e ∈ signedElems dns z ↔ e ∈ z.tree.all ∧ Own z.tree.all e := by
  rw [mem_signedElems_iff h]
  refine and_congr_right fun he => ⟨fun h n m hn hd ha => ?_, fun h n hn ⟨d, hd, _, hdn, hne⟩ => ?_⟩
  · exact h n hn (hs e he n m hn hd ha)
  · exact h n d hn hd ⟨.of_suffix hdn, lt_of_le_of_ne hdn.length_le fun hl => hne (hdn.eq_of_length hl)⟩

theorem sorted_signedElems : (signedElems dns z).Pairwise fun a b => order dns a.name b.name = .lt := by
  obtain ⟨rrs, hh⟩ := h.unsigned.holds
  exact hh.valid.consists.sorted.sublist (sublist_signedElems dns z)

theorem nodup_signedElems : (signedElems dns z).Nodup := by
  refine (sorted_signedElems h).imp fun hlt => ?_
  rintro rfl
  simp [compare_self] at hlt

theorem exists_head (horigin : ∃ e ∈ signedElems dns z, e.name = o.text)
    (hwithin : ∀ e ∈ z.tree.all, ∀ n, e.At n → Within o n) :
    ∃ a rest, signedElems dns z = a :: rest ∧ a.name = o.text := by
  obtain ⟨e, he, hn⟩ := horigin
  obtain ⟨a, rest, heq⟩ := exists_cons_of_ne_nil (ne_nil_of_mem he)
  refine ⟨a, rest, heq, ?_⟩
  have hs := sorted_signedElems h
  have ha := mem_of_signed h (heq ▸ mem_cons_self : a ∈ signedElems dns z)
  rw [heq] at he hs
  obtain rfl | he := mem_cons.mp he
  case inl => exact hn
  case inr =>
    obtain ⟨x, hx⟩ := exists_name h ha
    have hat := Elem.at_of_name hx
    have hlt := (pairwise_cons.mp hs).1 e he
    rw [hn] at hlt
    exact absurd (gt_of_lt hlt) (h.regular.below a ha x hat (hwithin a ha x hat))

end Own

section Sufficient

variable (c : Signable dns o s.keys z)

include c

theorem soa_at_iff : soa.At n ↔ o.canonical n = .eq := by
  obtain ⟨soa', hs, x, hx, he⟩ := c.soa
  have hname := h.soa_name
  rw [hs] at hname
  have hname : soa.name = x.text := (Option.some.inj hname).symm.trans hx
  rw [RR.at_iff hname]
  exact ⟨eq_trans (eq_symm he), eq_trans he⟩

theorem isCut_of_delegates (hd : Delegates z.tree.all m) : IsCut (records z') o m := by
  obtain ⟨d, hd, ht, hn⟩ := hd
  have hat := Elem.at_of_name hn
  refine (isCut_iff h).mpr ⟨c.within d hd m hat, fun ho => ?_, d, hd, hat, ht⟩
  exact ht (c.apex d hd (hat.congr ho)).2

theorem authoritative_iff (he : e ∈ z.tree.all) (hat : e.At n) :
    Authoritative (records z') o n ↔ e ∈ signedElems dns z := by
  obtain ⟨x, hx⟩ := exists_name h he
  have hxn := (Elem.at_iff hx).mp hat
  rw [mem_signedElems_iff_own h c.spelled]
  constructor
  case mp =>
    refine fun ha => ⟨he, fun y m hy hd habove => ?_⟩
    obtain rfl := Name.text_injective (hx.symm.trans hy)
    have hm := ha.uncut m (isCut_of_delegates h c hd) ((Within.congr_right hxn).mp habove.1)
    have hl := (length_eq_of_canonical hm).trans (length_eq_of_canonical hxn).symm
    exact absurd habove.2 (by omega)
  case mpr =>
    rintro ⟨-, hown⟩
    obtain ⟨rr, hr⟩ := exists_mem_of_ne_nil _ (rrs_ne_nil h he)
    refine ⟨c.within e he n hat, .inr ⟨rr, ?_, (at_iff h he hr).mpr hat⟩, fun m hm hw => ?_⟩
    · exact (mem_records_iff h).mpr (.inr (.inr (.inl ⟨e, he, hr⟩)))
    · obtain ⟨-, -, d, hd, hdm, ht⟩ := (isCut_iff h).mp hm
      obtain ⟨y, hy⟩ := exists_name h hd
      have hym := (Elem.at_iff hy).mp hdm
      have hw : Within y x := (Within.congr_right hxn).mpr ((Within.congr_left hym).mpr hw)
      have hl : y.length = x.length := by
        by_contra hne
        exact hown x y hx ⟨d, hd, ht, hy⟩ ⟨hw, lt_of_le_of_ne hw.length_le hne⟩
      exact eq_trans (eq_symm hym) (eq_trans (hw.eq_of_length hl) hxn)

theorem exists_origin : ∃ e ∈ signedElems dns z, e.name = o.text := by
  obtain ⟨e, he, hn⟩ := c.origin
  exact ⟨e, (authoritative_iff h c he (Elem.at_of_name hn)).mp (.origin _ o), hn⟩

theorem authoritative_iff_exists : Authoritative (records z') o n ↔ ∃ e ∈ signedElems dns z, e.At n := by
  constructor
  case mpr =>
    rintro ⟨e, he, hat⟩
    exact (authoritative_iff h c (mem_of_signed h he) hat).mpr he
  case mp =>
    intro ha
    have horigin (ho : o.canonical n = .eq) : ∃ e ∈ signedElems dns z, e.At n := by
      obtain ⟨e, he, hn⟩ := exists_origin h c
      exact ⟨e, he, (Elem.at_iff hn).mpr ho⟩
    have hset {t : RRType} (hs : SignedSet dns z soa n t) : ∃ e ∈ signedElems dns z, e.At n := by
      obtain ⟨_, (⟨rfl, rfl⟩ | ⟨rr, hm, rfl, rfl⟩) | ⟨e, he, rfl, ht⟩, hat⟩ := hs
      · exact horigin ((soa_at_iff h c).mp hat)
      · exact horigin ((RR.at_iff (h.unsigned.ns rr hm).2).mp hat)
      · exact ⟨e, he, hat⟩
    obtain ho | ⟨rr, hm, hat⟩ := ha.owns
    · exact horigin (eq_symm ho)
    · obtain ⟨-, hat⟩ | ⟨-, rr, hm, hat⟩ | ⟨e, he, hat, -⟩ | ⟨-, he⟩ | ⟨-, -, t, hs⟩ :=
        (hasSet_iff h).mp ⟨rr, hm, hat, rfl⟩
      · exact horigin ((soa_at_iff h c).mp hat)
      · exact horigin ((RR.at_iff (h.unsigned.ns rr hm).2).mp hat)
      · exact ⟨e, (authoritative_iff h c he hat).mp ha, hat⟩
      · exact he
      · exact hset hs

theorem pairwise_signedElems :
    (signedElems dns z).Pairwise fun e e' => ∀ n n', e.At n → e'.At n' → n.canonical n' = .lt := by
  have hown {e : Elem} (he : e ∈ signedElems dns z) := (mem_signedElems_iff_own h c.spelled).mp he
  refine (sorted_signedElems h).imp_of_mem fun {e e'} he he' hlt => ?_
  exact c.ordered e (hown he).1 e' (hown he').1 (hown he).2 (hown he').2 hlt

theorem eq_of_at (he : e ∈ signedElems dns z) (ha : a ∈ signedElems dns z) (hn : e.At n) (hn' : a.At n) : e = a := by
  have hp : (signedElems dns z).Pairwise fun e e' => ∀ n, e.At n → ¬e'.At n := by
    refine (pairwise_signedElems h c).imp fun {x y} hlt n hx hy => ?_
    have hr : n.canonical n = .eq := compare_self
    exact absurd (hr.symm.trans (hlt n n hx hy)) (by decide)
  exact eq_of_pairwise hp he ha hn hn'

theorem filter_nsec_perm : ((records z').filter (·.rrtype = .nsec)).Perm (s.nsecs dns range mttl z) := by
  have hold : (z.tree.all.flatMap (·.rrs)).filter (·.rrtype = .nsec) = [] := by
    rw [filter_eq_nil_iff]
    intro rr hm ht
    obtain ⟨e, he, hm⟩ := mem_flatMap.mp hm
    exact Elem.type_ne_nil_iff.mpr ⟨rr, hm, by simpa using ht⟩ (c.unsigned e he)
  have hp := filter_nsec_perm_append h
  rwa [hold, nil_append] at hp

theorem mem_nsecs_of_records (hm : rr ∈ records z') (ht : rr.rrtype = .nsec) : rr ∈ s.nsecs dns range mttl z :=
  (filter_nsec_perm h c).mem_iff.mp (mem_filter.mpr ⟨hm, by simpa using ht⟩)

theorem nsecs_linked {f : Elem → Name} (hf : ∀ e ∈ z.tree.all, e.At (f e)) :
    Forall₂ (fun p n => (s.nsec dns range mttl p.1 p.2).Next n) (circle (signedElems dns z))
      ((signedElems dns z).tail.map f ++ [o]) := by
  obtain ⟨a, rest, heq, hn⟩ := exists_head h (exists_origin h c) c.within
  have hnext : Forall₂ (fun next n => ∃ x : Name, next = x.text ∧ x.canonical n = .eq)
      (rest.map (·.name) ++ [a.name]) (rest.map f ++ [o]) := by
    refine rel_append ?_ (.cons ⟨o, hn, compare_self⟩ .nil)
    rw [forall₂_map_left_iff, forall₂_map_right_iff, forall₂_same]
    exact fun e he => hf e (mem_of_signed h (heq ▸ mem_cons_of_mem a he))
  have hsnd : (circle (a :: rest)).map Prod.snd = rest.map (·.name) ++ [a.name] := by
    rw [circle, map_snd_zip (by simp)]
    simp
  rw [heq, tail_cons]
  rw [←hsnd, forall₂_map_left_iff] at hnext
  refine hnext.imp fun {p n} hp => ?_
  obtain ⟨x, hx, he⟩ := hp
  exact nsec_next hx he

theorem exists_chain : ∃ chain, Chain (records z') o chain ∧
    ((records z').filter (·.rrtype = .nsec)).Perm (chain.map Prod.snd) := by
  obtain ⟨f, hf⟩ : ∃ f : Elem → Name, ∀ e ∈ z.tree.all,
      Strings.toLower (canonicalEscape dns e.name) = (f e).text ∧ e.At (f e) := by
    have hn : ∀ e ∈ z.tree.all, ∃ n : Name, Strings.toLower (canonicalEscape dns e.name) = n.text ∧ e.At n := by
      intro e he
      obtain ⟨x, hx⟩ := exists_name h he
      obtain ⟨n, hn, hnx⟩ := exists_normal_name dns x
      exact ⟨n, hx ▸ hn, (Elem.at_iff hx).mpr (eq_symm hnx)⟩
    choose! f hf using hn
    exact ⟨f, hf⟩
  have hall {e : Elem} (he : e ∈ signedElems dns z) : e ∈ z.tree.all := mem_of_signed h he
  refine ⟨(circle (signedElems dns z)).map fun p => (f p.1, s.nsec dns range mttl p.1 p.2), ⟨?_, ?_, ?_, ?_, ?_⟩, ?_⟩
  · have hp := pairwise_signedElems h c
    rw [←map_fst_circle (signedElems dns z), pairwise_map] at hp
    refine pairwise_map.mpr (hp.imp_of_mem fun {p q} hp hq hlt => ?_)
    exact hlt _ _ (hf p.1 (hall (mem_circle hp).1)).2 (hf q.1 (hall (mem_circle hq).1)).2
  · intro n
    rw [authoritative_iff_exists h c]
    constructor
    case mp =>
      rintro ⟨e, he, hat⟩
      obtain ⟨next, hp⟩ := exists_mem_circle he
      exact ⟨_, mem_map_of_mem hp, (hf e (hall he)).2.canonical_eq hat⟩
    case mpr =>
      rintro ⟨_, hm, he⟩
      obtain ⟨p, hp, rfl⟩ := mem_map.mp hm
      have hp := (mem_circle hp).1
      exact ⟨p.1, hp, (hf p.1 (hall hp)).2.congr he⟩
  · intro x hm
    obtain ⟨p, hp, rfl⟩ := mem_map.mp hm
    refine ⟨(mem_records_iff h).mpr (.inr (.inr (.inr (.inl (mem_map_of_mem hp))))), ?_⟩
    exact nsec_name.trans (hf p.1 (hall (mem_circle hp).1)).1
  · intro x hm rr hrr ht hat
    obtain ⟨p, hp, rfl⟩ := mem_map.mp hm
    obtain ⟨q, hq, rfl⟩ := mem_map.mp (mem_nsecs_of_records h c hrr ht)
    have hp' := (mem_circle hp).1
    have hq' := (mem_circle hq).1
    have heq : q.1 = p.1 :=
      eq_of_at h c hq' hp' ((nsec_at_iff h (hall hq')).mp hat) (hf p.1 (hall hp')).2
    have hnodup := nodup_signedElems h
    rw [←map_fst_circle (signedElems dns z)] at hnodup
    rw [inj_on_of_nodup_map hnodup hq hp heq]
  · have hlinked := nsecs_linked h c fun e he => (hf e he).2
    have hfst : (circle (signedElems dns z)).map (f ∘ Prod.fst) = (signedElems dns z).map f := by
      rw [←map_map, map_fst_circle]
    rw [forall₂_map_left_iff, map_map]
    rwa [map_tail, ←hfst] at hlinked
  · rw [map_map]
    exact filter_nsec_perm h c

theorem hasSet_iff_of_signed (ho : s.origin = o.text) (he : e ∈ signedElems dns z) (hat : e.At n) :
    HasSet (records z') n t ↔ e.type t ≠ [] ∨ t = .rrsig ∨ t = .nsec ∨ e.name = s.origin ∧ (t = .ns ∨ t = .soa) := by
  have hall := mem_of_signed h he
  have horigin (hn : o.canonical n = .eq) : e.name = s.origin := by
    rw [ho]
    exact (c.apex e hall (hat.congr (eq_symm hn))).1
  rw [hasSet_iff h]
  constructor
  case mp =>
    rintro (⟨rfl, hs⟩ | ⟨rfl, rr, hm, hn⟩ | ⟨a, ha, hn, ht⟩ | ⟨rfl, -⟩ | ⟨rfl, -⟩)
    · exact .inr (.inr (.inr ⟨horigin ((soa_at_iff h c).mp hs), .inr rfl⟩))
    · exact .inr (.inr (.inr ⟨horigin ((RR.at_iff (h.unsigned.ns rr hm).2).mp hn), .inl rfl⟩))
    · have hauth := (authoritative_iff h c hall hat).mpr he
      have ha := (authoritative_iff h c ha hn).mp hauth
      exact .inl (eq_of_at h c ha he hn hat ▸ ht)
    · exact .inr (.inr (.inl rfl))
    · exact .inr (.inl rfl)
  case mpr =>
    have hon (hn : e.name = s.origin) : o.canonical n = .eq := (Elem.at_iff (hn.trans ho)).mp hat
    rintro (ht | rfl | rfl | ⟨hn, rfl | rfl⟩)
    · exact .inr (.inr (.inl ⟨e, hall, hat, ht⟩))
    · exact .inr (.inr (.inr (.inr ⟨rfl, c.keys, .nsec, _, .inr ⟨e, he, rfl, by decide, by decide, .inr rfl⟩, hat⟩)))
    · exact .inr (.inr (.inr (.inl ⟨rfl, e, he, hat⟩)))
    · obtain ⟨rr, hm⟩ := exists_mem_of_ne_nil _ c.ns
      exact .inr (.inl ⟨rfl, rr, hm, (RR.at_iff (h.unsigned.ns rr hm).2).mpr (hon hn)⟩)
    · exact .inl ⟨rfl, (soa_at_iff h c).mpr (hon hn)⟩

theorem type_of_isCut (he : e ∈ signedElems dns z) (hat : e.At n) (hcut : IsCut (records z') o n)
    (ht : e.type t ≠ []) : t = .ns ∨ t = .ds := by
  have hall := mem_of_signed h he
  obtain ⟨-, -, a, ha, hn, hns⟩ := (isCut_iff h).mp hcut
  have hauth := (authoritative_iff h c hall hat).mpr he
  obtain rfl := eq_of_at h c ((authoritative_iff h c ha hn).mp hauth) he hn hat
  obtain ⟨rr, hm, rfl⟩ := Elem.type_ne_nil_iff.mp ht
  exact c.cuts a ha ((mem_signedElems_iff_own h c.spelled).mp he).2 hns rr hm

theorem lists_bitmap (ho : s.origin = o.text) (he : e ∈ signedElems dns z) (hat : e.At n) :
    Lists (records z') o n ((s.bitmap range e).insertionSort (· ≤ ·)) := by
  have hall := mem_of_signed h he
  constructor
  case increasing =>
    rw [increasing_iff h hall]
    exact ⟨c.unsigned e hall, fun hn => (c.apex e hall (Elem.at_of_name (hn.trans ho))).2⟩
  case mem_iff =>
    intro t
    rw [mem_bitmap_iff, hasSet_iff_of_signed h c ho he hat]
  case cut =>
    intro hcut t ht
    obtain ht | rfl | rfl | ⟨hn, -⟩ := mem_bitmap_iff.mp ht
    · obtain rfl | rfl := type_of_isCut h c he hat hcut ht
      all_goals decide
    · decide
    · decide
    · exact absurd (eq_symm ((Elem.at_iff (hn.trans ho)).mp hat)) hcut.notTop

theorem signedSet_iff : SignedSet dns z soa n t ↔ OwnSet (records z') o n t := by
  have hset := hasSet_iff h (n := n) (t := t)
  constructor
  case mp =>
    have hapex (hn : o.canonical n = .eq) (hs : HasSet (records z') n t) (ht : t ≠ .rrsig) : OwnSet (records z') o n t :=
      ⟨(Authoritative.origin _ o).congr hn, hs, ht, fun hcut => absurd (eq_symm hn) hcut.notTop⟩
    rintro ⟨_, (⟨rfl, rfl⟩ | ⟨rr, hm, rfl, rfl⟩) | ⟨e, he, rfl, ht⟩, hat⟩
    · exact hapex ((soa_at_iff h c).mp hat) (hset.mpr (.inl ⟨rfl, hat⟩)) (by decide)
    · exact hapex ((RR.at_iff (h.unsigned.ns rr hm).2).mp hat) (hset.mpr (.inr (.inl ⟨rfl, rr, hm, hat⟩))) (by decide)
    · have hall := mem_of_signed h he
      refine ⟨(authoritative_iff h c hall hat).mpr he, hset.mpr ?_, ht.notSig, fun hcut => ?_⟩
      all_goals obtain hty | rfl := ht.has
      · exact .inr (.inr (.inl ⟨e, hall, hat, hty⟩))
      · exact .inr (.inr (.inr (.inl ⟨rfl, e, he, hat⟩)))
      · exact .inl ((type_of_isCut h c he hat hcut hty).resolve_left ht.notNs)
      · exact .inr rfl
  case mpr =>
    intro hown
    obtain ⟨rfl, hat⟩ | ⟨rfl, rr, hm, hat⟩ | ⟨e, he, hat, ht⟩ | ⟨rfl, e, he, hat⟩ | ⟨rfl, -⟩ := hset.mp hown.has
    · exact ⟨_, .inl (.inl ⟨rfl, rfl⟩), hat⟩
    · exact ⟨_, .inl (.inr ⟨rr, hm, rfl, rfl⟩), hat⟩
    · refine ⟨_, .inr ⟨e, (authoritative_iff h c he hat).mp hown.name, rfl, hown.notSig, ?_, .inl ht⟩, hat⟩
      -- NS records in the tree are those of a cut.
      rintro rfl
      have hcut : IsCut (records z') o n := by
        refine (isCut_iff h).mpr ⟨hown.name.within, fun hn => ?_, e, he, hat, ht⟩
        exact ht (c.apex e he (hat.congr hn)).2
      exact absurd (hown.cut hcut) (by decide)
    · exact ⟨_, .inr ⟨e, he, rfl, by decide, by decide, .inr rfl⟩, hat⟩
    · exact absurd rfl hown.notSig

theorem secure_of_signable (ho : s.origin = o.text) : Secure (records z') o where
  chain := exists_chain h c
  bitmaps := by
    intro rr hm next types hd n hat
    obtain ⟨e, he, e', -, rfl⟩ := mem_nsecs (mem_nsecs_of_records h c hm (congrArg RData.rrtype hd))
    obtain ⟨-, rfl⟩ := RData.nsec.inj (nsec_data.symm.trans hd)
    exact lists_bitmap h c ho he ((nsec_at_iff h (mem_of_signed h he)).mp hat)
  signatures := by
    intro n t
    rw [hasSignature_iff h, signedSet_iff h c]
    exact and_iff_right c.keys

end Sufficient

section Necessary

theorem mem_records_of_signed (he : e ∈ signedElems dns z) :
    ∃ next, s.nsec dns range mttl e next ∈ s.nsecs dns range mttl z ∧ s.nsec dns range mttl e next ∈ records z' := by
  obtain ⟨next, hm⟩ := exists_mem_nsecs he
  exact ⟨next, hm, (mem_records_iff h).mpr (.inr (.inr (.inr (.inl hm))))⟩

variable (hs : Secure (records z') o)

include hs

omit h in
theorem exists_mem_chain : ∃ chain, Chain (records z') o chain ∧
    ((records z').filter (·.rrtype = .nsec)).Perm (chain.map Prod.snd) ∧
    (∀ rr ∈ records z', rr.rrtype = .nsec → ∃ x ∈ chain, x.2 = rr) ∧ ∀ x ∈ chain, x.2.rrtype = .nsec := by
  obtain ⟨chain, hc, hp⟩ := hs.chain
  refine ⟨chain, hc, hp, fun rr hm ht => ?_, fun x hx => ?_⟩
  · have hm : rr ∈ (records z').filter (·.rrtype = .nsec) := mem_filter.mpr ⟨hm, by simpa using ht⟩
    obtain ⟨x, hx, he⟩ := mem_map.mp (hp.mem_iff.mp hm)
    exact ⟨x, hx, he⟩
  · have hm := mem_map_of_mem (f := Prod.snd) hx
    simpa using (mem_filter.mp (hp.mem_iff.mpr hm)).2

theorem authoritative_of_signed (he : e ∈ signedElems dns z) (hat : e.At n) : Authoritative (records z') o n := by
  obtain ⟨next, -, hm⟩ := mem_records_of_signed h he
  obtain ⟨chain, hc, -, hmem, -⟩ := exists_mem_chain hs
  obtain ⟨x, hx, heq⟩ := hmem _ hm nsec_rrtype
  have hxat := hc.at_of_mem hx
  rw [heq] at hxat
  exact ((hc.owners x.1).mpr ⟨x, hx, compare_self⟩).congr (hxat.canonical_eq (nsec_at hat))

theorem within_of_secure (he : e ∈ z.tree.all) (hat : e.At n) : Within o n := by
  induction hk : n.length using Nat.strong_induction_on generalizing e n
  case h k hi =>
    by_cases hm : e ∈ signedElems dns z
    case pos => exact (authoritative_of_signed h hs hm hat).within
    case neg =>
      rw [mem_signedElems_iff h] at hm
      push Not at hm
      obtain ⟨x, hx, d, ⟨a, ha, -, hd⟩, -, hdx, hne⟩ := hm he
      have hxn := (Elem.at_iff hx).mp hat
      have hlt : d.length < x.length := lt_of_le_of_ne hdx.length_le fun hl => hne (hdx.eq_of_length hl)
      have heq := length_eq_of_canonical hxn
      have hw := hi d.length (by omega) ha (Elem.at_of_name hd) rfl
      exact hw.trans ((Within.congr_right hxn).mp (.of_suffix hdx))

theorem signed_of_origin (he : e ∈ z.tree.all) (hat : e.At o) : e ∈ signedElems dns z := by
  refine (mem_signedElems_iff h).mpr ⟨he, fun n hn => ?_⟩
  rintro ⟨d, ⟨a, ha, -, hd⟩, -, hdn, hne⟩
  have hlt : d.length < n.length := lt_of_le_of_ne hdn.length_le fun hl => hne (hdn.eq_of_length hl)
  have hle := (within_of_secure h hs ha (Elem.at_of_name hd)).length_le
  have heq := length_eq_of_canonical ((Elem.at_iff hn).mp hat)
  omega

theorem exists_signed_origin : ∃ e ∈ signedElems dns z, e.At o := by
  obtain ⟨chain, hc, -, -, htype⟩ := exists_mem_chain hs
  obtain ⟨x, hx, he⟩ := (hc.owners o).mp (.origin _ o)
  have hset : HasSet (records z') o .nsec := ⟨x.2, (hc.records x hx).1, (hc.at_of_mem hx).congr he, htype x hx⟩
  obtain ⟨ht, -⟩ | ⟨ht, -⟩ | ⟨e, hm, hat, -⟩ | ⟨-, he⟩ | ⟨ht, -⟩ := (hasSet_iff h).mp hset
  · exact absurd ht (by decide)
  · exact absurd ht (by decide)
  · exact ⟨e, signed_of_origin h hs hm hat, hat⟩
  · exact he
  · exact absurd ht (by decide)

theorem pairwise_nsecs : ((z.tree.all.flatMap (·.rrs)).filter (·.rrtype = .nsec) ++ s.nsecs dns range mttl z).Pairwise
    fun r r' => ∀ n, r.At n → ¬r'.At n := by
  obtain ⟨chain, hc, hp⟩ := hs.chain
  exact hc.pairwise_of_perm ((filter_nsec_perm_append h).symm.trans hp)

theorem eq_of_signed (he : e ∈ signedElems dns z) (ha : a ∈ signedElems dns z) (hn : e.At n) (hn' : a.At n) : e = a := by
  have hp := (pairwise_append.mp (pairwise_nsecs h hs)).2.1
  have hp : (circle (signedElems dns z)).Pairwise fun p q => ∀ n, p.1.At n → ¬q.1.At n := by
    refine (pairwise_map.mp hp).imp_of_mem fun {p q} hp hq hne n hpn hqn => ?_
    exact hne n (nsec_at hpn) (nsec_at hqn)
  have hp : (signedElems dns z).Pairwise fun e e' => ∀ n, e.At n → ¬e'.At n := by
    rw [←map_fst_circle (signedElems dns z)]
    exact pairwise_map.mpr hp
  exact eq_of_pairwise hp he ha hn hn'

theorem nsecs_of_secure (hm : rr ∈ records z') (ht : rr.rrtype = .nsec) : rr ∈ s.nsecs dns range mttl z := by
  obtain ⟨chain, hc, -, hmem, -⟩ := exists_mem_chain hs
  obtain ⟨x, hx, rfl⟩ := hmem rr hm ht
  have hnew {e : Elem} {x : Name × RR} (he : e ∈ signedElems dns z) (hx : x ∈ chain) (hat : e.At x.1) :
      x.2 ∈ s.nsecs dns range mttl z := by
    obtain ⟨next, hm, hr⟩ := mem_records_of_signed h he
    rwa [←hc.unique x hx _ hr nsec_rrtype (nsec_at hat)]
  refine hc.forall_of_next ?_ ?_ x hx
  · intro x hx ho
    obtain ⟨e, he, hat⟩ := exists_signed_origin h hs
    exact hnew he hx (hat.congr (eq_symm ho))
  · rintro x hx y hy hm ⟨n, types, hd, hn⟩
    obtain ⟨e, -, e', he', heq⟩ := mem_nsecs hm
    rw [heq, nsec_data] at hd
    exact hnew he' hy ⟨n, (RData.nsec.inj hd).1, hn⟩

theorem unsigned_of_secure (he : e ∈ z.tree.all) : e.type .nsec = [] := by
  by_contra hne
  obtain ⟨rr, hm, ht⟩ := Elem.type_ne_nil_iff.mp hne
  obtain ⟨n, hn⟩ := exists_name h he
  have hat := (at_iff h he hm).mpr (Elem.at_of_name hn)
  have hold : rr ∈ (z.tree.all.flatMap (·.rrs)).filter (·.rrtype = .nsec) :=
    mem_filter.mpr ⟨mem_flatMap.mpr ⟨e, he, hm⟩, by simpa using ht⟩
  have hnew := nsecs_of_secure h hs ((mem_records_iff h).mpr (.inr (.inr (.inl ⟨e, he, hm⟩)))) ht
  exact (pairwise_append.mp (pairwise_nsecs h hs)).2.2 rr hold rr hnew n hat hat

theorem lists_of_secure (he : e ∈ signedElems dns z) (hat : e.At n) :
    Lists (records z') o n ((s.bitmap range e).insertionSort (· ≤ ·)) := by
  obtain ⟨next, -, hm⟩ := mem_records_of_signed h he
  exact hs.bitmaps _ hm next _ nsec_data n (nsec_at hat)

theorem keys_of_secure : s.keys ≠ [] := by
  obtain ⟨e, he, hat⟩ := exists_signed_origin h hs
  have hset := (hasSet_iff h).mpr (.inr (.inr (.inr (.inl ⟨rfl, e, he, hat⟩))))
  have hown : OwnSet (records z') o o .nsec := ⟨.origin _ o, hset, by decide, fun _ => .inr rfl⟩
  exact ((hasSignature_iff h).mp ((hs.signatures o .nsec).mpr hown)).1

theorem exists_signed (ha : Authoritative (records z') o n) : ∃ e ∈ signedElems dns z, e.At n := by
  obtain ⟨chain, hc, -, -, htype⟩ := exists_mem_chain hs
  obtain ⟨x, hx, hn⟩ := (hc.owners n).mp ha
  have hat := hc.at_of_mem hx
  obtain ⟨e, he, e', -, heq⟩ := mem_nsecs (nsecs_of_secure h hs (hc.records x hx).1 (htype x hx))
  rw [heq] at hat
  exact ⟨e, he, ((nsec_at_iff h (mem_of_signed h he)).mp hat).congr hn⟩

-- The next name of a record is after its name, unless it is the origin.
theorem lt_of_circle {p : Elem × Str} (hp : p ∈ circle (signedElems dns z)) (hn : p.1.At n) (hm : p.2 = m.text) :
    n.canonical m = .lt ∨ m.canonical o = .eq := by
  obtain ⟨chain, hc, -, hmem, -⟩ := exists_mem_chain hs
  have hrec : s.nsec dns range mttl p.1 p.2 ∈ records z' :=
    (mem_records_iff h).mpr (.inr (.inr (.inr (.inl (mem_map_of_mem hp)))))
  obtain ⟨x, hx, heq⟩ := hmem _ hrec nsec_rrtype
  have hat := hc.at_of_mem hx
  have hnext : x.2.Next m := heq ▸ nsec_next hm compare_self
  rw [heq] at hat
  have hxn : n.canonical x.1 = .eq := (nsec_at hn).canonical_eq hat
  obtain ⟨y, -, hy, hlt, -⟩ | ⟨hy, -⟩ := next_of_linked hc.sorted hc.linked hx
  · exact .inl (lt_of_eq_of_lt hxn (lt_of_lt_of_eq hlt (hy.canonical_eq hnext)))
  · exact .inr (hnext.canonical_eq hy)

variable (ho : s.origin = o.text)

include ho

theorem soa_of_secure : soa.At o ∧ ∃ e ∈ signedElems dns z, e.name = o.text := by
  obtain ⟨m, hm⟩ := soa_named h
  have hat : soa.At m := (RR.at_iff hm).mpr compare_self
  have hown : OwnSet (records z') o m .soa :=
    (hs.signatures m .soa).mp ((hasSignature_iff h).mpr ⟨keys_of_secure h hs, _, .inl (.inl ⟨rfl, rfl⟩), hat⟩)
  obtain ⟨e, he, hem⟩ := exists_signed h hs hown.name
  have hlist := ((lists_of_secure h hs he hem).mem_iff .soa).mpr hown.has
  have hname : e.name = o.text := by
    obtain ht | ht | ht | ⟨hn, -⟩ := mem_bitmap_iff.mp hlist
    · obtain ⟨rr, hm, ht⟩ := Elem.type_ne_nil_iff.mp ht
      exact absurd ht (h.unsigned.types e (mem_of_signed h he) rr hm).2
    · exact absurd ht (by decide)
    · exact absurd ht (by decide)
    · exact hn.trans ho
  exact ⟨hat.congr (eq_symm ((Elem.at_iff hname).mp hem)), e, he, hname⟩

theorem apex_of_secure (he : e ∈ z.tree.all) (hat : e.At o) : e.name = o.text ∧ e.type .ns = [] := by
  obtain ⟨-, a, ha, hn⟩ := soa_of_secure h hs ho
  have hsigned := signed_of_origin h hs he hat
  obtain rfl := eq_of_signed h hs ha hsigned (Elem.at_of_name hn) hat
  have hinc := (increasing_iff h he).mp (lists_of_secure h hs ha hat).increasing
  exact ⟨hn, hinc.2 (hn.trans ho.symm)⟩

theorem ns_of_secure : z.apex.ns ≠ [] := by
  obtain ⟨-, e, he, hn⟩ := soa_of_secure h hs ho
  have hat := Elem.at_of_name hn
  have hset := ((lists_of_secure h hs he hat).mem_iff .ns).mp
    (mem_bitmap_iff.mpr (.inr (.inr (.inr ⟨hn.trans ho.symm, .inl rfl⟩))))
  obtain ⟨ht, -⟩ | ⟨-, rr, hm, -⟩ | ⟨a, ha, hao, ht⟩ | ⟨ht, -⟩ | ⟨ht, -⟩ := (hasSet_iff h).mp hset
  · exact absurd ht (by decide)
  · exact ne_nil_of_mem hm
  · exact absurd (apex_of_secure h hs ho ha hao).2 ht
  · exact absurd ht (by decide)
  · exact absurd ht (by decide)

theorem isCut_of_secure (he : e ∈ z.tree.all) (hat : e.At n) (ht : e.type .ns ≠ []) : IsCut (records z') o n := by
  refine (isCut_iff h).mpr ⟨within_of_secure h hs he hat, fun hn => ?_, e, he, hat, ht⟩
  exact ht (apex_of_secure h hs ho he (hat.congr hn)).2

theorem spelled_of_secure : Spelled z.tree.all := by
  rintro e he n m hn ⟨d, hd, ht, hm⟩ ⟨hw, hl⟩
  by_contra hno
  have hsigned : e ∈ signedElems dns z := by
    refine (mem_signedElems_iff h).mpr ⟨he, fun x hx => ?_⟩
    rwa [Name.text_injective (hx.symm.trans hn)]
  have hcut := isCut_of_secure h hs ho hd (Elem.at_of_name hm) ht
  have heq := (authoritative_of_signed h hs hsigned (Elem.at_of_name hn)).uncut m hcut hw
  exact absurd (length_eq_of_canonical heq) (by omega)

theorem cuts_of_secure (he : e ∈ signedElems dns z) (ht : e.type .ns ≠ []) (hm : rr ∈ e.rrs) :
    rr.rrtype = .ns ∨ rr.rrtype = .ds := by
  have hall := mem_of_signed h he
  obtain ⟨n, hn⟩ := exists_name h hall
  have hat := Elem.at_of_name hn
  have hcut := isCut_of_secure h hs ho hall hat ht
  have htype := (lists_of_secure h hs he hat).cut hcut rr.rrtype
    (mem_bitmap_iff.mpr (.inl (Elem.type_ne_nil_iff.mpr ⟨rr, hm, rfl⟩)))
  simp only [mem_cons, not_mem_nil, or_false] at htype
  obtain ht | ht | ht | ht := htype
  · exact .inl ht
  · exact .inr ht
  · exact absurd ht (h.unsigned.types e hall rr hm).1
  · exact absurd (unsigned_of_secure h hs hall) (Elem.type_ne_nil_iff.mpr ⟨rr, hm, ht⟩)

theorem pairwise_of_secure :
    (signedElems dns z).Pairwise fun e e' => ∀ n n', e.At n → e'.At n' → n.canonical n' = .lt := by
  obtain ⟨a, rest, heq, ha⟩ := exists_head h (soa_of_secure h hs ho).2
    fun e he n => within_of_secure h hs he
  have hnodup := nodup_signedElems h
  obtain ⟨f, hf⟩ : ∃ f : Elem → Name, ∀ e ∈ z.tree.all, e.name = (f e).text := by
    have hn : ∀ e ∈ z.tree.all, ∃ n : Name, e.name = n.text := fun e he => exists_name h he
    choose! f hf using hn
    exact ⟨f, hf⟩
  have hall {e : Elem} (he : e ∈ signedElems dns z) : e.name = (f e).text := hf e (mem_of_signed h he)
  have hchain : (signedElems dns z).IsChain fun e e' => (f e).canonical (f e') = .lt := by
    rw [isChain_iff_getElem]
    intro i hi
    have hmem := getElem_mem (n := i + 1) hi
    obtain hlt | ho := lt_of_circle h hs (mem_circle_getElem i hi) (Elem.at_of_name (hall (getElem_mem _))) (hall hmem)
    · exact hlt
    · have hzero : 0 < (signedElems dns z).length := by omega
      have hfirst : (signedElems dns z)[0] = a := by simp [heq]
      have hsame := eq_of_signed h hs hmem (hfirst ▸ getElem_mem hzero)
        ((Elem.at_iff (hall hmem)).mpr ho) (Elem.at_of_name ha)
      exact absurd ((hnodup.getElem_inj_iff).mp (hsame.trans hfirst.symm)) (by omega)
  have htrans : Trans (fun e e' : Elem => (f e).canonical (f e') = .lt) (fun e e' => (f e).canonical (f e') = .lt)
      (fun e e' => (f e).canonical (f e') = .lt) := ⟨lt_trans⟩
  refine (isChain_iff_pairwise.mp hchain).imp_of_mem fun {e e'} he he' hlt n n' hn hn' => ?_
  have hen := (Elem.at_iff (hall he)).mp hn
  have hen' := (Elem.at_iff (hall he')).mp hn'
  exact lt_of_eq_of_lt (eq_symm hen) (lt_of_lt_of_eq hlt hen')

theorem ordered_of_secure (he : e ∈ signedElems dns z) (ha : a ∈ signedElems dns z) (hlt : order dns e.name a.name = .lt)
    (hn : e.At n) (hm : a.At m) : n.canonical m = .lt := by
  have hp := (sorted_signedElems h).and (pairwise_of_secure h hs ho)
  have hp : (signedElems dns z).Pairwise fun e a =>
      (order dns e.name a.name = .lt → ∀ n m, e.At n → a.At m → n.canonical m = .lt) ∧
      (order dns a.name e.name = .lt → ∀ n m, a.At n → e.At m → n.canonical m = .lt) := by
    refine hp.imp fun ⟨hlt, hr⟩ => ⟨fun _ => hr, fun hgt => ?_⟩
    exact absurd (hgt.symm.trans (gt_of_lt hlt)) (by decide)
  have hsymm : Std.Symm fun e a : Elem =>
      (order dns e.name a.name = .lt → ∀ n m, e.At n → a.At m → n.canonical m = .lt) ∧
      (order dns a.name e.name = .lt → ∀ n m, a.At n → e.At m → n.canonical m = .lt) := ⟨fun _ _ h => ⟨h.2, h.1⟩⟩
  have hne : e ≠ a := by
    rintro rfl
    simp [compare_self] at hlt
  exact (hp.forall he ha hne).1 hlt n m hn hm

theorem signable_of_secure : Signable dns o s.keys z := by
  have hspelled := spelled_of_secure h hs ho
  have hsigned {e : Elem} (he : e ∈ z.tree.all) (hown : Own z.tree.all e) : e ∈ signedElems dns z :=
    (mem_signedElems_iff_own h hspelled).mpr ⟨he, hown⟩
  obtain ⟨hsoa, e, he, hn⟩ := soa_of_secure h hs ho
  obtain ⟨soa', x, hz, -⟩ := h.unsigned.soa
  refine {
    keys := keys_of_secure h hs
    soa := ⟨soa', hz, ?_⟩
    ns := ns_of_secure h hs ho
    origin := ⟨e, mem_of_signed h he, hn⟩
    apex := fun e he => apex_of_secure h hs ho he
    within := fun e he n => within_of_secure h hs he
    spelled := hspelled
    ordered := fun e he e' he' hown hown' hlt n n' =>
      ordered_of_secure h hs ho (hsigned he hown) (hsigned he' hown') hlt
    unsigned := fun e => unsigned_of_secure h hs
    cuts := fun e he hown ht rr => cuts_of_secure h hs ho (hsigned he hown) ht }
  have hname := h.soa_name
  rw [hz] at hname
  obtain ⟨y, hy, heq⟩ := hsoa
  exact ⟨y, (Option.some.inj hname).trans hy, heq⟩

end Necessary
end Signing

variable {crypto : Crypto κ} {f : ZoneFile} {now : Time}

-- There is nothing irregular about names without escapes, unless the zone is the root.
theorem regular_of_plain (ho : s.origin = o.text) (hf : ∀ rr ∈ f.records, ∃ n : Name, rr.name = n.text)
    (hk : ∀ p ∈ s.keys, ∃ n : Name, p.publicKey.name = n.text) (hne : o ≠ []) (hp : '\\' ∉ o.text)
    (hpf : ∀ rr ∈ f.records, '\\' ∉ rr.name) (hpk : ∀ p ∈ s.keys, '\\' ∉ p.publicKey.name)
    (h : s.zone dns crypto f = .ok z) : z.Regular dns o := by
  obtain ⟨rrs, hl, -, hrrs⟩ := exists_load ho h
  have hn : ∀ rr ∈ rrs, (∃ n : Name, rr.name = n.text) ∧ '\\' ∉ rr.name := by
    intro rr hm
    obtain hm | ⟨p, hp, hn⟩ := (hrrs rr hm).2
    case inl => exact ⟨hf rr hm, hpf rr hm⟩
    case inr => exact hn ▸ ⟨hk p hp, hpk p hp⟩
  refine (Zone.load_holds (fun rr hm => (hn rr hm).1) hl).regular hne hp fun rr hm => ?_
  obtain ⟨r, hr, rfl⟩ := mem_map.mp (mem_of_mem_filter hm)
  exact normalize_plain (hn r hr).2

-- What signing makes of a zone file is signed as it should be exactly if the zone is one of those.
theorem secure_iff (scans : dns.Scans) (c : dns.Canonical) (ho : s.origin = o.text)
    (hf : ∀ rr ∈ f.records, ∃ n : Name, rr.name = n.text) (hk : ∀ p ∈ s.keys, ∃ n : Name, p.publicKey.name = n.text)
    (h : s.sign dns crypto range now (.ok f) = .ok z') : ∃ z, s.zone dns crypto f = .ok z ∧
      (z.Regular dns o → (Secure (records z') o ↔ Signable dns o s.keys z)) := by
  obtain ⟨z, hz, hout⟩ := exists_outcome c ho hf hk h
  refine ⟨z, hz, fun hreg => ?_⟩
  obtain ⟨soa, mttl, sigs, hout⟩ := hout hreg.elems
  have hsigning : Signing dns range s o z z' soa mttl sigs :=
    { hout with scans, unsigned := zone_unsigned c ho hf hk hz, regular := hreg }
  constructor
  case mp => exact fun hs => hsigning.signable_of_secure hs ho
  case mpr => exact fun c => hsigning.secure_of_signable c ho

end

namespace Sample

open File.Sample

def crypto : Crypto Unit where
  toDS _ _ := "digest"
  rest _ := "signature"
  sign _ draft rrs := rrs.head?.map fun rr => { draft with name := rr.name, typeCovered := rr.rrtype }
  sign_copies h := by
    cases h
    exact ⟨rfl, rfl⟩

def signer : Signer Unit where
  keys := [⟨⟨top.text, 13, "key"⟩, 1, ()⟩]
  origin := top.text
  dbfile := "db.example"
  jitterIncep := 0
  jitterExpir := 0

def nameserver (n m : Name) : RR :=
  ⟨n.text, 3600, .ns m.text⟩

-- A zone in which `a.example.` is delegated to a name server that has the given name.
def file (n : Name) : ZoneFile where
  records := [soa, nameserver top (server :: top), nameserver a n, address n "192.0.2.1",
    address (server :: top) "192.0.2.2"]
  err := none

def run (n : Name) : Except Failure Zone :=
  signer.sign .indexed crypto Zone.Carried.range 0 (.ok (file n))

theorem file_named (n : Name) : ∀ rr ∈ (file n).records, ∃ n : Name, rr.name = n.text := by
  simp only [file, forall_mem_cons, not_mem_nil, false_imp_iff, implies_true, and_true]
  exact ⟨⟨top, rfl⟩, ⟨top, rfl⟩, ⟨a, rfl⟩, ⟨n, rfl⟩, ⟨server :: top, rfl⟩⟩

theorem canonical_indexed : Labels.indexed.Canonical where
  repack_lower _ _ _ := rfl
  repack_fails _ h := by cases h

def elems : List Elem := [
  ⟨top.text, signer.keys.flatMap (·.records crypto 3600)⟩,
  .new (nameserver a (server :: a)),
  .new (address (server :: a) "192.0.2.1"),
  .new (address (server :: top) "192.0.2.2")
]

def names : List Name :=
  [top, a, server :: a, server :: top]

theorem signable {z : Zone} (hsoa : z.apex.soa = some soa) (hns : z.apex.ns = [nameserver top (server :: top)])
    (hall : z.tree.all = elems) : Signable .indexed top signer.keys z := by
  have hn : ∀ e ∈ elems, ∃ n ∈ names, e.name = n.text := by decide +kernel
  have hcut : ∀ d ∈ elems, d.type .ns ≠ [] → d.name = a.text := by decide +kernel
  constructor
  all_goals try rw [hall]
  case keys => decide
  case soa => exact ⟨soa, hsoa, top, rfl, by decide +kernel⟩
  case ns => simp [hns]
  case origin => decide +kernel
  case apex =>
    intro e he hat
    obtain ⟨n, hm, hn⟩ := hn e he
    have h : ∀ n ∈ names, n.canonical top = .eq → ∀ e ∈ elems, e.name = n.text → e.name = top.text ∧ e.type .ns = [] := by
      decide +kernel
    exact h n hm ((Elem.at_iff hn).mp hat) e he hn
  case within =>
    intro e he m hat
    obtain ⟨n, hm, hn⟩ := hn e he
    have h : ∀ n ∈ names, Within top n := by decide +kernel
    exact (Within.congr_right ((Elem.at_iff hn).mp hat)).mp (h n hm)
  case spelled =>
    rintro e he n m hx ⟨d, hd, ht, hdm⟩ ⟨hw, hl⟩
    obtain ⟨x, hm, hn⟩ := hn e he
    obtain rfl := Name.text_injective (hx.symm.trans hn)
    obtain rfl := Name.text_injective (hdm.symm.trans (hcut d hd ht))
    have h : ∀ n ∈ names, Within a n → a.length < n.length → a <:+ n ∧ a ≠ n := by decide +kernel
    exact ⟨a, ⟨d, hd, ht, hdm⟩, by decide, h n hm hw hl⟩
  case ordered =>
    intro e he e' he' _ _ hlt n n' hat hat'
    obtain ⟨m', hm', hn'⟩ := hn e' he'
    obtain ⟨m, hm, hn⟩ := hn e he
    have h : ∀ m ∈ names, ∀ m' ∈ names, order .indexed m.text m'.text = .lt → m.canonical m' = .lt := by decide +kernel
    have hlt := h m hm m' hm' (hn ▸ hn' ▸ hlt)
    have heq := (Elem.at_iff hn).mp hat
    have heq' := (Elem.at_iff hn').mp hat'
    exact lt_of_eq_of_lt (eq_symm heq) (lt_of_lt_of_eq hlt heq')
  case unsigned => decide +kernel
  case cuts =>
    have h : ∀ e ∈ elems, e.type .ns ≠ [] → ∀ rr ∈ e.rrs, rr.rrtype = .ns ∨ rr.rrtype = .ds := by decide +kernel
    exact fun e he _ => h e he

end Sample

open File.Sample Sample

theorem secure_sample : ∃ z', run (server :: a) = .ok z' ∧ Secure (records z') top := by
  obtain ⟨z', h, -⟩ := Except.Ends.exists_ok (x := run (server :: a)) (P := fun _ => True) (by decide +kernel)
  have hk : ∀ p ∈ signer.keys, ∃ n : Name, p.publicKey.name = n.text := by simp [signer]
  obtain ⟨z, hz, hiff⟩ := secure_iff (o := top) .indexed canonical_indexed rfl (file_named (server :: a)) hk h
  have hreg : z.Regular .indexed top := by
    refine regular_of_plain rfl (file_named (server :: a)) hk ?_ ?_ ?_ ?_ hz
    all_goals decide +kernel
  obtain ⟨_, hz', hsoa, hns, hall⟩ := Except.Ends.exists_ok (x := signer.zone .indexed crypto (file (server :: a)))
    (P := fun z => z.apex.soa = some soa ∧ z.apex.ns = [nameserver top (server :: top)] ∧ z.tree.all = elems)
    (by decide +kernel)
  obtain rfl := Except.ok.inj (hz.symm.trans hz')
  exact ⟨z', h, (hiff hreg).mpr (signable hsoa hns hall)⟩

-- The name server has the name of the cut, and its address is signed.
theorem not_secure_glue : ∃ z', run a = .ok z' ∧ ¬Secure (records z') top := by
  obtain ⟨z', h, hns, hsig⟩ := Except.Ends.exists_ok (x := run a)
    (P := fun z' => nameserver a a ∈ records z' ∧ ⟨a.text, 3600, .rrsig .a "signature"⟩ ∈ records z')
    (by decide +kernel)
  have hat {rr : RR} (h : rr.name = a.text) : rr.At a := ⟨a, h, by decide +kernel⟩
  have hcut : IsCut (records z') top a := ⟨by decide +kernel, by decide +kernel, _, hns, rfl, hat rfl⟩
  refine ⟨z', h, fun hs => ?_⟩
  have hown := (hs.signatures a .a).mp ⟨_, hsig, hat rfl, _, rfl⟩
  exact absurd (hown.cut hcut) (by decide)

end Sign
