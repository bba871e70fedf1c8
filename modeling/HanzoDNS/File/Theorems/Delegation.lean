import HanzoDNS.File.Theorems.Existence

open Dns Domain List

namespace File

section Records

variable (dns : Labels)

def signedAt (rrs : List RR) (name : Str) (t : RRType) (dnssec : Bool) : List RR :=
  recordsAt dns rrs name t ++ if dnssec then subTypeSignature (recordsAt dns rrs name .rrsig) t else []

def glueOf (rrs : List RR) (cut : Name) (dnssec : Bool) (rr : RR) : List RR :=
  match rr.data with
  | .ns ns =>
    if dns.isSubDomain cut.text ns then
      signedAt dns rrs ns .a dnssec ++ signedAt dns rrs ns .aaaa dnssec
    else
      []
  | _ => []

def referral (rrs : List RR) (cut : Name) (dnssec : Bool) : Answer where
  ns := recordsAt dns rrs cut.text .ns ++ if dnssec then signedAt dns rrs cut.text .ds true else []
  extra := (recordsAt dns rrs cut.text .ns).flatMap (glueOf dns rrs cut dnssec)
  result := .delegation

end Records

namespace Zone

variable {dns : Labels} {z : Zone} {o p x n : Name} {rrs : List RR} {req : Request} {loop : Nat} {e : Elem}

structure Delegated (dns : Labels) (rrs : List RR) (o p x : Name) (req : Request) : Prop extends Asks rrs o p req where
  suffix : x <:+ p
  below : x ≠ []
  ns : OwnsType dns rrs (x ++ o) .ns
  top : ∀ n ∈ ancestors x o, n ≠ x ++ o → n ≠ o → ¬OwnsType dns rrs n .ns
  dname : ∀ n ∈ ancestors x o, n ≠ p ++ o → ¬OwnsType dns rrs n .dname
  notDS : ¬(req.qtype = .ds ∧ x = p)

namespace Holds

variable (h : z.Holds dns o rrs)

include h

theorem typeFromElem_eq {name : Str} (hs : z.search dns name = some e) (t : RRType) (dnssec : Bool) :
    typeFromElem e t dnssec = signedAt dns rrs name t dnssec := by
  rw [typeFromElem, Elem.signatures, h.type_eq hs, h.type_eq hs, signedAt]

theorem searchGlue_eq (name : Str) (dnssec : Bool) :
    z.tree.searchGlue dns name dnssec = signedAt dns rrs name .a dnssec ++ signedAt dns rrs name .aaaa dnssec := by
  rw [Tree.searchGlue]
  split
  case h_1 hs => simp [signedAt, h.recordsAt_eq_nil hs, subTypeSignature]
  case h_2 e hs => rw [h.typeFromElem_eq hs, h.typeFromElem_eq hs]

end Holds

theorem ancestors_append (y x o : Name) : ∃ ns, ancestors (y ++ x) o = ns ++ ancestors x o := by
  induction y
  case nil => exact ⟨[], rfl⟩
  case cons l y hi =>
    obtain ⟨ns, hns⟩ := hi
    exact ⟨(l :: (y ++ x) ++ o) :: ns, by rw [cons_append, ancestors_cons, hns]; rfl⟩

section Delegation

variable (h : z.Holds dns o rrs) (d : Delegated dns rrs o p x req)

include h d

theorem stopAt_cut : ∃ e, z.search dns (x ++ o).text = some e ∧
    z.stopAt dns req (p ++ o).text (x ++ o) = some (.delegation e) := by
  have hx : x ++ o ∈ ancestors p o := mem_ancestors.mpr ⟨x, d.suffix, rfl⟩
  have hx' : x ++ o ∈ ancestors x o := mem_ancestors.mpr ⟨x, suffix_rfl, rfl⟩
  have ho : Owns dns rrs (x ++ o) := d.ns.imp fun rr hr => ⟨hr.1, hr.2.1⟩
  obtain ⟨e, hs⟩ := Option.isSome_iff_exists.mp (h.search_isSome_iff.mpr ho)
  have hd : ¬(req.qtype = .ds ∧ e.name = (p ++ o).text) := by
    rintro ⟨ht, hn⟩
    refine d.notDS ⟨ht, d.suffix.eq_of_length ?_⟩
    have hm := h.search_name hs
    rw [hn, order_text_eq_iff] at hm
    have hl := congrArg List.length hm
    simp at hl
    omega
  refine ⟨e, hs, ?_⟩
  rw [stopAt, hs, Option.bind_some, Elem.stop, redirection_eq_none h d.toAsks hx hs (d.dname _ hx')]
  simp only [if_pos (And.intro ((h.type_ne_nil_iff hs _).mpr d.ns) hd)]

theorem walk_delegation : ∃ e, z.search dns (x ++ o).text = some e ∧
    z.walk dns req (p ++ o).text = some (.delegation e) := by
  obtain ⟨e, hs, hc⟩ := stopAt_cut h d
  refine ⟨e, hs, ?_⟩
  obtain ⟨y, hy⟩ := d.suffix
  obtain ⟨ns, hns⟩ := ancestors_append y x o
  obtain ⟨l, x', rfl⟩ := exists_cons_of_ne_nil d.below
  rw [hy] at hns
  have hm {n : Name} (hn : n ∈ ancestors x' o) : n ∈ ancestors (l :: x') o ∧ n ∈ ancestors p o := by
    have hn : n ∈ ancestors (l :: x') o := by simp [ancestors_cons, hn]
    exact ⟨hn, by simp [hns, hn]⟩
  have above : (ancestors x' o).reverse.findSome? (z.stopAt dns req (p ++ o).text) = none := by
    rw [findSome?_eq_none_iff]
    intro n hn
    have hn := mem_reverse.mp hn
    have hne : n ≠ l :: x' ++ o := by
      rintro rfl
      obtain ⟨x, hx, he⟩ := mem_ancestors.mp hn
      have hl := congrArg List.length he
      have := hx.length_le
      simp at hl
      omega
    exact stopAt_eq_none h d.toAsks (hm hn).2 (d.top n (hm hn).1 hne) (d.dname n (hm hn).1)
  rw [walk_eq h, hns, ancestors_cons, reverse_append, reverse_cons, findSome?_append,
    findSome?_append, above, Option.none_or, findSome?_singleton, hc]
  rfl

theorem answerDelegation_eq (hs : z.search dns (x ++ o).text = some e) :
    z.answerDelegation dns req e = referral dns rrs (x ++ o) req.dnssec := by
  have hx : x ++ o ∈ ancestors p o := mem_ancestors.mpr ⟨x, d.suffix, rfl⟩
  have hg : z.tree.glue dns (e.type .ns) req.dnssec =
      (recordsAt dns rrs (x ++ o).text .ns).flatMap (glueOf dns rrs (x ++ o) req.dnssec) := by
    rw [Tree.glue, ←h.type_eq hs]
    refine flatMap_congr fun rr hr => ?_
    have hn := name_of_mem_type h d.toAsks hx hs hr (by decide)
    simp only [hn, h.searchGlue_eq]
    rfl
  rw [answerDelegation, referral, hg, h.type_eq hs]
  cases hd : req.dnssec
  case false => simp
  case true => rw [h.typeFromElem_eq hs]

end Delegation

theorem lookup_delegation {records : List RR} (up : Upstream)
    (named : ∀ rr ∈ records, ∃ n : Name, rr.name = n.text)
    (loaded : (Zone.new dns o.text).load dns records = some (.ok z)) (soa : z.apex.soa ≠ none) (hl : ¬8 < loop)
    (d : Delegated dns (inner dns o.text records) o p x req) : z.lookup dns up loop req (p ++ o).text =
    some (referral dns (inner dns o.text records) (x ++ o) req.dnssec) := by
  have h := load_holds named loaded
  obtain ⟨e, hs, hw⟩ := walk_delegation h d
  have hp : p ≠ [] := by
    rintro rfl
    exact d.below (suffix_nil.mp d.suffix)
  rw [lookup_of_walk up soa (fun ha => origin_ne_text h hp ha.1) hl hw, ←answerDelegation_eq h d hs]
  rfl

namespace Cut

open File.Sample

def cut : RR where
  name := Name.text (sub :: top)
  ttl := 3600
  data := .ns "ns.a.example."

def glue : RR :=
  address (server :: sub :: top) "192.0.2.1"

def dname : RR where
  name := cut.name
  ttl := 3600
  data := .dname "example.net."

theorem records_named : ∀ rr ∈ [soa, cut, glue], ∃ n : Name, rr.name = n.text := by
  simp only [forall_mem_cons, not_mem_nil, false_imp_iff, implies_true, and_true]
  exact ⟨⟨top, rfl⟩, ⟨sub :: top, rfl⟩, ⟨server :: sub :: top, rfl⟩⟩

theorem loaded : (Zone.new .reference top.text).load .reference [soa, cut, glue] =
    some (.ok (zone [soa, cut, glue])) := by
  rfl

theorem inner_eq : inner .reference top.text [soa, cut, glue] = [cut, glue] := by
  decide +kernel

theorem delegated : Delegated .reference (inner .reference top.text [soa, cut, glue]) top [leaf, sub] [sub]
    (request (leaf :: sub :: top) false) where
  name := rfl
  lower := by decide +kernel
  apart := by
    intro rr hr m hm
    rw [inner_eq] at hr
    obtain rfl | rfl : rr = cut ∨ rr = glue := by simpa using hr
    case inl =>
      obtain rfl : sub :: top = m := Name.text_injective hm
      decide +kernel
    case inr =>
      obtain rfl : server :: sub :: top = m := Name.text_injective hm
      decide +kernel
  suffix := ⟨[leaf], rfl⟩
  below := by decide
  ns := by decide +kernel
  top := by decide +kernel
  dname := by decide +kernel
  notDS := by decide

end Cut

section

open File.Sample Cut

theorem lookup_delegation_glue :
    (zone [soa, cut, glue]).lookup .reference (upstream rcodeNameError) 0 (request (leaf :: sub :: top) false)
        (Name.text ([leaf, sub] ++ top)) =
      some (referral .reference (inner .reference top.text [soa, cut, glue]) ([sub] ++ top) false) ∧
    referral .reference (inner .reference top.text [soa, cut, glue]) ([sub] ++ top) false =
      { ns := [cut], extra := [glue], result := .delegation } :=
  ⟨lookup_delegation (upstream rcodeNameError) records_named loaded (by decide +kernel) (by decide) delegated,
    by decide +kernel⟩

-- A zone that was not transferred yet fails instead, and so does a lookup that is nested too deeply. A DNAME record
-- at the cut is used before the NS records.
theorem no_delegation :
    let ask (rrs : List RR) (loop : Nat) := ((zone rrs).lookup .reference (upstream rcodeNameError) loop
      (request (leaf :: sub :: top) false) (Name.text (leaf :: sub :: top))).map (·.result)
    (∀ rrs ∈ [[cut, glue], [soa, cut, glue], [soa, cut, dname]],
      (Zone.new .reference top.text).load .reference rrs = some (.ok (zone rrs)) ∧
      OwnsType .reference (inner .reference top.text rrs) (sub :: top) .ns) ∧
    ask [cut, glue] 0 = some .serverFailure ∧ ask [soa, cut, glue] 9 = some .serverFailure ∧
    ask [soa, cut, dname] 0 = some .nameError := by
  refine ⟨?_, by decide +kernel, by decide +kernel, by decide +kernel⟩
  simp only [forall_mem_cons, not_mem_nil, false_imp_iff, implies_true, and_true]
  refine ⟨⟨rfl, ?_⟩, ⟨rfl, ?_⟩, rfl, ?_⟩
  all_goals decide +kernel

end
end Zone
end File
