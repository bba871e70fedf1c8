import HanzoDNS.File.Theorems.AuthWalk
import HanzoDNS.File.Theorems.Transfer
import HanzoDNS.Lib.Fallible
import HanzoDNS.Sign.Signer

open Dns Domain LLRB List

namespace File

section Names

def Elem.At (e : Elem) (n : Name) : Prop :=
  ∃ m : Name, e.name = m.text ∧ m.canonical n = .eq

variable (dns : Labels)

theorem normalize_name {rr : RR} (h : rr.rrtype ≠ .srv) :
    (normalize dns rr).name = Strings.toLower (canonicalEscape dns rr.name) := by
  rw [normalize, if_neg h]

theorem exists_normal_name (n : Name) :
    ∃ m : Name, Strings.toLower (canonicalEscape dns n.text) = m.text ∧ m.canonical n = .eq := by
  obtain ⟨m, hm, he⟩ : ∃ m : Name, canonicalEscape dns n.text = m.text ∧ m.map Label.octets = n.map Label.octets := by
    rw [canonicalEscape]
    split
    case isFalse => exact ⟨n, rfl, rfl⟩
    case isTrue =>
      cases hr : dns.repack n.text
      case none => exact ⟨n, rfl, rfl⟩
      case some s =>
        obtain ⟨m, rfl, he⟩ := dns.repack_text n s hr
        exact ⟨m, rfl, he⟩
  refine ⟨m.map Label.toLower, by rw [hm, Name.toLower_text], canonical_eq_iff.mpr ?_⟩
  rw [map_map, ←he]
  exact map_congr_left fun l _ => l.octets_toLower

theorem normalize_at {rr : RR} {n : Name} (h : rr.At n) : (normalize dns rr).At n := by
  obtain ⟨m, hm, he⟩ := h
  by_cases hs : rr.rrtype = .srv
  case pos => exact ⟨m, by rw [normalize, if_pos hs, hm], he⟩
  case neg =>
    obtain ⟨x, hx, hxm⟩ := exists_normal_name dns m
    exact ⟨x, by rw [normalize_name dns hs, hm, hx], Std.TransCmp.eq_trans hxm he⟩

end Names

namespace Elem

variable {e : Elem}

theorem at_append (h : e.rrs ≠ []) {rrs : List RR} : (e.append rrs).At = e.At := by
  funext n
  rw [At, At, name_append h]

-- What is stored under a name has it, and so does the name in the form in which records are inserted.
structure Regular (dns : Labels) (e : Elem) : Prop where
  same : ∀ rr ∈ e.rrs, ∀ n, e.At n → rr.At n
  kept : order dns (Strings.toLower (canonicalEscape dns e.name)) e.name = .eq

end Elem
end File

open File

namespace Sign

variable {κ : Type} {dns : Labels} {crypto : Crypto κ} {range : Elem.Range} {s : Signer κ}
variable {z z' : Zone} {e zrrs : Elem} {as bs : List Elem} {rr sig : RR} {t : RRType} {next : Str}
variable {names : List Str} {mttl incep expir : UInt32} {i i' : Nat}

-- The types of which an element is signed, once it has its NSEC record.
structure SignedType (e : Elem) (t : RRType) : Prop where
  notSig : t ≠ .rrsig
  notNs : t ≠ .ns
  has : e.type t ≠ [] ∨ t = .nsec

structure IsSignature (names : Name → Prop) (t : RRType) (sig : RR) : Prop where
  name : ∀ n, names n → sig.At n
  data : ∃ rest, sig.data = .rrsig t rest

-- Signatures of all the sets of records that there are with given names and types, if there are keys.
structure Covers (keys : List (Pair κ)) (sets : (Name → Prop) → RRType → Prop) (sigs : List RR) : Prop where
  sound : ∀ sig ∈ sigs, keys ≠ [] ∧ ∃ names t, sets names t ∧ IsSignature names t sig
  complete : keys ≠ [] → ∀ names t, sets names t → ∃ sig ∈ sigs, IsSignature names t sig

namespace Covers

variable {keys : List (Pair κ)} {sets sets' sets'' : (Name → Prop) → RRType → Prop} {sigs sigs' : List RR}

theorem nil (h : keys ≠ [] → ∀ names t, ¬sets names t) : Covers keys sets [] where
  sound := by simp
  complete hk names t ht := absurd ht (h hk names t)

theorem append (h : Covers keys sets sigs) (h' : Covers keys sets' sigs')
    (hs : ∀ names t, sets'' names t ↔ sets names t ∨ sets' names t) : Covers keys sets'' (sigs ++ sigs') where
  sound sig hm := by
    obtain hm | hm := mem_append.mp hm
    case inl =>
      obtain ⟨hk, names, t, ht, hsig⟩ := h.sound sig hm
      exact ⟨hk, names, t, (hs names t).mpr (.inl ht), hsig⟩
    case inr =>
      obtain ⟨hk, names, t, ht, hsig⟩ := h'.sound sig hm
      exact ⟨hk, names, t, (hs names t).mpr (.inr ht), hsig⟩
  complete hk names t ht := by
    obtain ht | ht := (hs names t).mp ht
    case inl =>
      obtain ⟨sig, hm, hsig⟩ := h.complete hk names t ht
      exact ⟨sig, mem_append_left _ hm, hsig⟩
    case inr =>
      obtain ⟨sig, hm, hsig⟩ := h'.complete hk names t ht
      exact ⟨sig, mem_append_right _ hm, hsig⟩

-- Each key makes a signature.
theorem snoc (h : Covers keys sets sigs) (key : Pair κ) (sig : RR) (hne : ∃ names t, sets names t)
    (hs : ∀ names t, sets names t → IsSignature names t sig) : Covers (keys ++ [key]) sets (sigs ++ [sig]) where
  sound sig' hm := by
    refine ⟨by simp, ?_⟩
    obtain hm | hm := mem_append.mp hm
    case inl => exact (h.sound sig' hm).2
    case inr =>
      obtain ⟨names, t, ht⟩ := hne
      exact ⟨names, t, ht, mem_singleton.mp hm ▸ hs names t ht⟩
  complete _ names t ht := ⟨sig, by simp, hs names t ht⟩

end Covers

variable (dns range s mttl) in
def Signer.nsec (e : Elem) (next : Str) : RR :=
  normalize dns (NSEC e.name next mttl (s.bitmap range e))

theorem signRRs_eq_ok {p : Pair κ} {rrs : List RR} {ttl : UInt32} {signerName : Str}
    (h : p.signRRs crypto (rr :: rrs) signerName ttl incep expir = .ok sig) :
    sig.name = rr.name ∧ ∃ rest, sig.data = .rrsig rr.rrtype rest := by
  rw [Pair.signRRs] at h
  split at h
  case h_1 => cases h
  case h_2 sig' hs =>
    obtain ⟨hn, ht⟩ := crypto.sign_copies hs
    cases h
    exact ⟨hn, _, congrArg (RData.rrsig · _) ht⟩

theorem insert_eq_ok (h : z.insert dns rr = some (.ok z')) : insert dns z rr = .ok z' := by
  rw [insert, h]

theorem insert_nsec (h : z.tree.Consists (order dns) (as ++ e :: bs))
    (hn : order dns (s.nsec dns range mttl e next).name e.name = .eq) :
    insert dns z (NSEC e.name next mttl (s.bitmap range e)) =
      .ok (insertElem dns z (s.nsec dns range mttl e next).name (s.nsec dns range mttl e next)) := by
  have hi := h.insert hn
  refine insert_eq_ok ?_
  rw [Signer.nsec] at hi
  rw [Zone.insert, Zone.insertTree, hi]
  rfl

theorem signType_eq_ok {sigs : List RR} (hat : ∀ rr ∈ zrrs.rrs, ∀ n, zrrs.At n → rr.At n) (ht : zrrs.type t ≠ [])
    (hn : order dns e.name zrrs.name = .eq) (h : z.tree.Consists (order dns) (as ++ zrrs.append sigs :: bs))
    (hr : s.signType dns crypto e zrrs incep expir z t = .ok z') :
    ∃ new, z'.tree.Consists (order dns) (as ++ zrrs.append (sigs ++ new) :: bs) ∧ z'.apex = z.apex ∧
      Covers s.keys (fun names t' => names = zrrs.At ∧ t' = t ∧ t' ≠ .rrsig ∧ t' ≠ .ns) new := by
  rw [Signer.signType] at hr
  split at hr
  case isTrue hs =>
    cases hr
    refine ⟨[], by rwa [append_nil], rfl, .nil ?_⟩
    rintro - names t ⟨-, rfl, hsig⟩
    exact absurd hs (not_or.mpr hsig)
  case isFalse hs =>
    obtain ⟨rr, rrs, hrr⟩ := exists_cons_of_ne_nil ht
    have hm : rr ∈ zrrs.rrs ∧ rr.rrtype = t := by
      have hm : rr ∈ zrrs.type t := by simp [hrr]
      simpa [Elem.type] using hm
    have hne : zrrs.rrs ≠ [] := ne_nil_of_mem hm.1
    refine Except.foldlM_eq_ok (fun done x => ∃ new,
      x.tree.Consists (order dns) (as ++ zrrs.append (sigs ++ new) :: bs) ∧ x.apex = z.apex ∧
        Covers done (fun names t' => names = zrrs.At ∧ t' = t ∧ t' ≠ .rrsig ∧ t' ≠ .ns) new) ?_ ?_ hr
    · exact ⟨[], by rwa [append_nil], rfl, .nil (absurd rfl)⟩
    · intro done p x x' _ ⟨new, hc, ha, hs'⟩ hx
      obtain ⟨sig, hsig, hx⟩ := Except.bind_eq_ok_iff.mp hx
      cases hx
      rw [hrr] at hsig
      obtain ⟨hname, rest, hd⟩ := signRRs_eq_ok hsig
      have hname' : order dns e.name (zrrs.append (sigs ++ new)).name = .eq := by rwa [Elem.name_append hne]
      have hc := hc.update hname' sig
      rw [Elem.insert_eq_append, Elem.append_append, append_assoc] at hc
      refine ⟨new ++ [sig], hc, ha, hs'.snoc _ _ ⟨_, t, rfl, rfl, not_or.mp hs⟩ ?_⟩
      rintro names t' ⟨rfl, rfl, -⟩
      refine ⟨fun n hz => ?_, rest, hm.2 ▸ hd⟩
      obtain ⟨m, hm, he⟩ := hat rr hm.1 n hz
      exact ⟨m, hname.trans hm, he⟩

theorem signTypes_eq_ok (hat : ∀ rr ∈ zrrs.rrs, ∀ n, zrrs.At n → rr.At n) (hn : order dns e.name zrrs.name = .eq)
    (h : z.tree.Consists (order dns) (as ++ zrrs :: bs))
    (hr : (range.types zrrs).foldlM (s.signType dns crypto e zrrs incep expir) z = .ok z') :
    ∃ sigs, z'.tree.Consists (order dns) (as ++ zrrs.append sigs :: bs) ∧ z'.apex = z.apex ∧
      Covers s.keys (fun names t => names = zrrs.At ∧ t ∈ range.types zrrs ∧ t ≠ .rrsig ∧ t ≠ .ns) sigs := by
  refine Except.foldlM_eq_ok (fun done x => ∃ sigs,
    x.tree.Consists (order dns) (as ++ zrrs.append sigs :: bs) ∧ x.apex = z.apex ∧
      Covers s.keys (fun names t => names = zrrs.At ∧ t ∈ done ∧ t ≠ .rrsig ∧ t ≠ .ns) sigs) ?_ ?_ hr
  · exact ⟨[], by rwa [Elem.append_nil], rfl, .nil (by simp)⟩
  · intro done t x x' ht ⟨sigs, hc, ha, hs⟩ hx
    obtain ⟨new, hc', ha', hs'⟩ := signType_eq_ok hat ((range.mem_iff zrrs t).mp ht) hn hc hx
    refine ⟨sigs ++ new, hc', ha'.trans ha, hs.append hs' fun names t' => ?_⟩
    rw [mem_append, mem_singleton]
    tauto

theorem nsec_name : (s.nsec dns range mttl e next).name = Strings.toLower (canonicalEscape dns e.name) := by
  have ht : RRType.nsec ≠ RRType.srv := by decide
  exact normalize_name dns ht

theorem nsec_rrtype : (s.nsec dns range mttl e next).rrtype = .nsec :=
  rfl

theorem nsec_at {n : Name} (h : e.At n) : (s.nsec dns range mttl e next).At n :=
  normalize_at dns h

theorem signedType_iff (range : Elem.Range) {rr : RR} (hr : rr.rrtype = .nsec) :
    SignedType e t ↔ t ∈ range.types (e.append [rr]) ∧ t ≠ .rrsig ∧ t ≠ .ns := by
  have hf : [rr].filter (·.rrtype = t) ≠ [] ↔ t = .nsec := by
    rw [←hr]
    by_cases h : rr.rrtype = t
    case pos => simp [h]
    case neg => simp [h, Ne.symm h]
  rw [range.mem_iff, Elem.type_append, ne_eq, append_eq_nil_iff, not_and_or, ←ne_eq, ←ne_eq, hf]
  exact ⟨fun h => ⟨h.has, h.notSig, h.notNs⟩, fun h => ⟨h.2.1, h.2.2, h.1⟩⟩

theorem visit_eq_ok (hreg : e.Regular dns) (h : z.tree.Consists (order dns) (as ++ e :: bs))
    (hx : names[(names.length + i) % names.length]? = some next)
    (hr : s.visit dns crypto range names mttl incep expir e true (z, i) = .ok (z', i')) :
    i' = i + 1 ∧ z'.apex = z.apex ∧ ∃ sigs, Covers s.keys (fun names t => names = e.At ∧ SignedType e t) sigs ∧
      z'.tree.Consists (order dns) (as ++ e.append (s.nsec dns range mttl e next :: sigs) :: bs) := by
  have hne := h.nonempty e (by simp)
  have hname : order dns (s.nsec dns range mttl e next).name e.name = .eq := nsec_name ▸ hreg.kept
  have hi := insert_nsec h hname
  have hat {n : Name} (h : e.At n) : (s.nsec dns range mttl e next).At n := nsec_at h
  have ht : (s.nsec dns range mttl e next).rrtype = .nsec := nsec_rrtype
  simp only [Signer.visit, if_true, hx, hi] at hr
  generalize s.nsec dns range mttl e next = nsec at *
  obtain ⟨z₁, hz, hr⟩ := Except.bind_eq_ok_iff.mp hr
  cases hz
  obtain ⟨z₂, hz, hr⟩ := Except.bind_eq_ok_iff.mp hr
  cases hr
  have hc := h.update hname nsec
  rw [Elem.insert_eq_append] at hc
  have hself : order dns e.name (e.append [nsec]).name = .eq := by
    rw [Elem.name_append hne]
    exact Std.ReflCmp.compare_self
  have hs : (insertElem dns z nsec.name nsec).search dns e.name = some (e.append [nsec]) :=
    hc.search_eq_some_iff.mpr ⟨by simp, hself⟩
  rw [hs, Option.getD_some] at hz
  have hat : ∀ rr ∈ (e.append [nsec]).rrs, ∀ n, (e.append [nsec]).At n → rr.At n := by
    intro rr hm n hn
    rw [Elem.at_append hne] at hn
    obtain hm | rfl : rr ∈ e.rrs ∨ rr = nsec := by simpa using hm
    case inl => exact hreg.same rr hm n hn
    case inr => exact hat hn
  obtain ⟨sigs, hc', ha, hs⟩ := signTypes_eq_ok hat hself hc hz
  simp only [Elem.at_append hne, ←signedType_iff range ht] at hs
  exact ⟨rfl, ha, sigs, hs, by rwa [Elem.append_append] at hc'⟩

section Run

variable {cs : List (Elem × Bool)}

def authElems (cs : List (Elem × Bool)) : List Elem :=
  (cs.filter (·.2)).map Prod.fst

-- The walk adds an NSEC record to each authoritative element, whose next name is that of the next one in a circle, and
-- signatures.
theorem visits_eq_ok (hreg : ∀ c ∈ cs, c.1.Regular dns)
    (h : z.tree.Consists (order dns) (as ++ cs.map Prod.fst)) (hi : i + (authElems cs).length ≤ names.length)
    (hr : cs.foldlM (fun st c => s.visit dns crypto range names mttl incep expir c.1 c.2 st) (z, i + 1) =
      .ok (z', i')) : z'.apex = z.apex ∧ ∃ es' sigs, z'.tree.Consists (order dns) (as ++ es') ∧
      (es'.flatMap (·.rrs)).Perm ((cs.map Prod.fst).flatMap (·.rrs) ++
        ((authElems cs).zip ((names.rotate 1).drop i)).map (fun p => s.nsec dns range mttl p.1 p.2) ++ sigs) ∧
      Covers s.keys (fun names t => ∃ e ∈ authElems cs, names = e.At ∧ SignedType e t) sigs := by
  induction cs generalizing as z i
  case nil =>
    cases hr
    exact ⟨rfl, [], [], h, by simp [authElems], .nil (by simp [authElems])⟩
  case cons c cs hcs =>
    obtain ⟨e, auth⟩ := c
    obtain ⟨hreg, hregs⟩ := forall_mem_cons.mp hreg
    obtain ⟨⟨z₁, i₁⟩, hv, hr⟩ := Except.bind_eq_ok_iff.mp hr
    cases auth
    case false =>
      cases hv
      rw [map_cons, append_cons] at h
      obtain ⟨ha, es', sigs, hc, hp, hs⟩ := hcs hregs h hi hr
      refine ⟨ha, e :: es', sigs, by rwa [append_cons], ?_, hs⟩
      simp only [map_cons, flatMap_cons, append_assoc] at hp ⊢
      exact hp.append_left e.rrs
    case true =>
      have hl : (authElems ((e, true) :: cs)) = e :: authElems cs := rfl
      rw [hl, length_cons] at hi
      have hlt : i < (names.rotate 1).length := by
        rw [length_rotate]
        omega
      obtain ⟨next, hnext⟩ : ∃ next, (names.rotate 1)[i]? = some next := ⟨_, getElem?_eq_getElem hlt⟩
      have hx : names[(names.length + (i + 1)) % names.length]? = some next := by
        rw [getElem?_rotate (by omega)] at hnext
        rwa [Nat.add_mod_left]
      obtain ⟨rfl, ha, new, hnew, hc⟩ := visit_eq_ok hreg h hx hv
      rw [append_cons] at hc
      obtain ⟨ha', es', sigs, hc, hp, hs⟩ := hcs hregs hc (by omega) hr
      refine ⟨ha'.trans ha, e.append (s.nsec dns range mttl e next :: new) :: es', new ++ sigs,
        by rwa [append_cons], ?_, hnew.append hs (by simp [hl])⟩
      · have hd : (names.rotate 1).drop i = next :: (names.rotate 1).drop (i + 1) := by
          rw [drop_eq_getElem_cons hlt]
          rw [getElem?_eq_getElem hlt] at hnext
          rw [Option.some.inj hnext]
        rw [hl, hd, zip_cons_cons, map_cons]
        refine perm_iff_count.mpr fun rr => ?_
        have hcount := hp.count_eq rr
        simp only [map_cons, flatMap_cons, Elem.append_rrs, count_append, count_cons] at hcount ⊢
        omega

theorem names_eq (z : Zone) : Sign.names dns z = (authElems (calls dns [] z.tree.all)).map (·.name) := by
  have h (cs : List (Elem × Bool)) (seen : List Str) :
      ((cs.forM fun c => if c.2 then modify (· ++ [c.1.name]) else pure ⟨⟩ : StateM (List Str) PUnit).run seen).2 =
        seen ++ (authElems cs).map (·.name) := by
    induction cs generalizing seen
    case nil => exact (append_nil seen).symm
    case cons c cs hi =>
      obtain ⟨e, auth⟩ := c
      cases auth
      case false => exact hi seen
      case true =>
        refine (hi (seen ++ [e.name])).trans ?_
        simp [authElems]
  rw [Sign.names, authWalk_eq]
  exact h _ []

theorem signTree_eq_ok : s.signTree dns crypto range z names mttl incep expir = .ok z' ↔
    ∃ i', (calls dns [] z.tree.all).foldlM
      (fun st c => s.visit dns crypto range names mttl incep expir c.1 c.2 st) (z, 1) = .ok (z', i') := by
  rw [Signer.signTree, authWalk_eq,
    Except.run_forM (fun st (c : Elem × Bool) => s.visit dns crypto range names mttl incep expir c.1 c.2 st)]
  cases (calls dns [] z.tree.all).foldlM
      (fun st c => s.visit dns crypto range names mttl incep expir c.1 c.2 st) (z, 1)
  all_goals constructor
  case error.mp => exact fun h => by cases h
  case error.mpr => exact fun ⟨_, h⟩ => by cases h
  case ok.mp st =>
    intro h
    cases h
    exact ⟨st.2, rfl⟩
  case ok.mpr st =>
    rintro ⟨i', h⟩
    cases h
    rfl

end Run

section Apex

variable {soa : RR} {ttl : UInt32}

theorem insert_sigsoa {rest : Str} (hd : sig.data = .rrsig .soa rest) : insert dns z sig =
    .ok { z with apex := { z.apex with sigsoa := z.apex.sigsoa ++ [normalize dns sig] } } := by
  have hd' : (normalize dns sig).data = .rrsig .soa rest := congrArg lowerData hd
  refine insert_eq_ok ?_
  simp [Zone.insert, hd']

theorem insert_signs {rest : Str} (hd : sig.data = .rrsig .ns rest) (hn : (normalize dns sig).name = z.origin) :
    insert dns z sig = .ok { z with apex := { z.apex with signs := z.apex.signs ++ [normalize dns sig] } } := by
  have hd' : (normalize dns sig).data = .rrsig .ns rest := congrArg lowerData hd
  refine insert_eq_ok ?_
  simp [Zone.insert, hd', ns_ne_soa, hn, and_self]

theorem signApex_eq_ok (hr : s.signApex dns crypto z ttl incep expir = .ok z')
    (hsoa : z.apex.soa = some soa) (ht : soa.rrtype = .soa)
    (hns : ∀ rr ∈ z.apex.ns, rr.rrtype = .ns ∧ rr.name = z.origin)
    (hkeep : z.apex.ns ≠ [] → Strings.toLower (canonicalEscape dns z.origin) = z.origin)
    (hsig : z.apex.sigsoa = [] ∧ z.apex.signs = []) :
    z'.tree = z.tree ∧ z'.origin = z.origin ∧ z'.apex.soa = z.apex.soa ∧ z'.apex.ns = z.apex.ns ∧
      Covers s.keys (fun names t => names = soa.At ∧ t = .soa) z'.apex.sigsoa ∧
      Covers s.keys (fun names t => ∃ rr ∈ z.apex.ns, names = rr.At ∧ t = .ns) z'.apex.signs := by
  refine Except.foldlM_eq_ok (fun done x => x.tree = z.tree ∧ x.origin = z.origin ∧ x.apex.soa = z.apex.soa ∧
    x.apex.ns = z.apex.ns ∧ Covers done (fun names t => names = soa.At ∧ t = .soa) x.apex.sigsoa ∧
    Covers done (fun names t => ∃ rr ∈ z.apex.ns, names = rr.At ∧ t = .ns) x.apex.signs) ?_ ?_ hr
  · rw [hsig.1, hsig.2]
    exact ⟨rfl, rfl, rfl, rfl, .nil (absurd rfl), .nil (absurd rfl)⟩
  · intro done p x x' _ ⟨htree, ho, hxs, hxn, hsoas, hnss⟩ hr
    obtain ⟨sig, hs, hr⟩ := Except.bind_eq_ok_iff.mp hr
    rw [hxs, hsoa] at hs
    obtain ⟨hname, rest, hd⟩ := signRRs_eq_ok hs
    rw [ht] at hd
    rw [insert_sigsoa hd] at hr
    obtain ⟨x₁, hx₁, hr⟩ := Except.bind_eq_ok_iff.mp hr
    cases hx₁
    have hsoas := hsoas.snoc p (normalize dns sig) ⟨_, _, rfl, rfl⟩ (by
      rintro names t ⟨rfl, rfl⟩
      exact ⟨fun n ⟨m, hm, he⟩ => normalize_at dns ⟨m, hname.trans hm, he⟩, rest, congrArg lowerData hd⟩)
    split at hr
    case isTrue hn =>
      cases hr
      have hn : z.apex.ns = [] := hxn ▸ hn
      refine ⟨htree, ho, hxs, hxn, hsoas, fun sig hm => ?_, by simp [hn]⟩
      simpa [hn] using (hnss.sound sig hm).2
    case isFalse hn =>
      have hn : z.apex.ns ≠ [] := hxn ▸ hn
      obtain ⟨sig', hs', hr⟩ := Except.bind_eq_ok_iff.mp hr
      obtain ⟨rr, rrs, hrr⟩ := exists_cons_of_ne_nil hn
      have hfirst := hns rr (by simp [hrr])
      rw [show x.apex.ns = rr :: rrs from hxn.trans hrr] at hs'
      obtain ⟨hname', rest', hd'⟩ := signRRs_eq_ok hs'
      rw [hfirst.1] at hd'
      have hsrv : sig'.rrtype ≠ .srv := by
        rw [RR.rrtype, hd']
        exact (by decide : RRType.rrsig ≠ RRType.srv)
      have hn' : (normalize dns sig').name = z.origin := by
        rw [normalize_name dns hsrv, hname', hfirst.2, hkeep hn]
      rw [insert_signs hd' (by exact hn'.trans ho.symm)] at hr
      cases hr
      refine ⟨htree, ho, hxs, hxn, hsoas, hnss.snoc _ _ ⟨_, _, rr, by simp [hrr], rfl, rfl⟩ ?_⟩
      rintro names t ⟨r, hr, rfl, rfl⟩
      refine ⟨fun n ⟨m, hm, he⟩ => ⟨m, ?_, he⟩, rest', congrArg lowerData hd'⟩
      rw [hn', ←(hns r hr).2, hm]

end Apex

section Keys

variable {ttl : UInt32} {f : ZoneFile} {o : Name} {rrs : List RR}

theorem foldlM_insert_ok (hr : ∀ rr ∈ rrs, ¬refused rr) (h : rrs.foldlM (insert dns) z = .ok z') :
    z.load dns rrs = some (.ok z') := by
  induction rrs generalizing z
  case nil =>
    cases h
    rfl
  case cons rr rrs hi =>
    obtain ⟨hrr, hr⟩ := forall_mem_cons.mp hr
    obtain ⟨z₁, hz, h⟩ := Except.bind_eq_ok_iff.mp h
    rw [insert] at hz
    split at hz
    case h_1 => cases hz
    case h_2 he => exact absurd (Zone.insert_error he) hrr
    case h_3 he =>
      cases hz
      simpa [Zone.load, he] using hi hr h

theorem insert_other {rdata : Str} {untyped : t ∉ RRType.typed} (hd : rr.data = .other t rdata untyped)
    (hr : ¬refused rr) (a : Apex) :
    insert dns { z with apex := a } rr = ({ · with apex := a }) <$> insert dns z rr := by
  have hd' : (normalize dns rr).data = .other t rdata untyped := congrArg lowerData hd
  have ht : ¬(t = .nsec3 ∨ t = .nsec3param) := by
    have h : rr.rrtype = t := congrArg RData.rrtype hd
    simpa [refused, h] using hr
  simp only [insert, Zone.insert, hd', ht, if_false, Zone.insertTree]
  cases z.tree.insert (order dns) (normalize dns rr) <;> rfl

theorem exists_other (hm : rr ∈ s.keys.flatMap (·.records crypto ttl)) : ¬refused rr ∧ rr.rrtype ≠ .rrsig ∧
    (∃ p ∈ s.keys, rr.name = p.publicKey.name) ∧ ∃ t rdata untyped, rr.data = .other t rdata untyped := by
  obtain ⟨p, hp, hm⟩ := mem_flatMap.mp hm
  obtain ⟨t, rdata, untyped, ht, rfl⟩ : ∃ t rdata untyped, t ∈ [RRType.dnskey, .cds, .cdnskey] ∧
      rr = ⟨p.publicKey.name, ttl, .other t rdata untyped⟩ := by
    simp only [Pair.records, mem_cons, not_mem_nil, or_false] at hm
    obtain rfl | rfl | rfl | rfl := hm
    all_goals exact ⟨_, _, _, by decide, rfl⟩
  have hd : ∀ t ∈ [RRType.dnskey, .cds, .cdnskey], ¬(t = .nsec3 ∨ t = .nsec3param) ∧ t ≠ .rrsig := by
    simp only [forall_mem_cons, not_mem_nil, false_imp_iff, implies_true, and_true]
    decide
  obtain ⟨h₁, h₂⟩ := hd t ht
  refine ⟨fun h => h₁ ?_, h₂, ⟨p, hp, rfl⟩, t, rdata, untyped, rfl⟩
  exact of_decide_eq_true h

theorem insertKeys_apex (z : Zone) (a : Apex) :
    s.insertKeys dns crypto { z with apex := a } ttl = ({ · with apex := a }) <$> s.insertKeys dns crypto z ttl := by
  have hf (rrs : List RR) (h : ∀ rr ∈ rrs, ¬refused rr ∧ ∃ t rdata untyped, rr.data = .other t rdata untyped) (z : Zone) :
      rrs.foldlM (insert dns) { z with apex := a } = ({ · with apex := a }) <$> rrs.foldlM (insert dns) z := by
    induction rrs generalizing z
    case nil => rfl
    case cons rr rrs hi =>
      obtain ⟨⟨hr, t, rdata, untyped, hd⟩, h⟩ := forall_mem_cons.mp h
      rw [foldlM_cons, foldlM_cons, insert_other hd hr]
      cases insert dns z rr
      case error => rfl
      case ok z₁ => exact hi h z₁
  refine hf _ (fun rr hm => ?_) z
  obtain ⟨hr, -, -, hd⟩ := exists_other hm
  exact ⟨hr, hd⟩

variable (dns crypto s f) in
-- The zone that is signed: what there is in the file, and the records of the keys.
def Signer.zone : Except Failure Zone := do
  let z ← parse dns f s.origin s.dbfile
  s.insertKeys dns crypto z ((z.apex.soa.map (·.ttl)).getD 0)

theorem parse_eq_ok {fileName : Str} (h : parse dns f o.text fileName = .ok z) :
    (Zone.new dns o.text).load dns (f.records.filter (!skipped ·)) = some (.ok z) ∧ ∃ rr ∈ f.records, rr.rrtype = .soa := by
  rw [parse] at h
  split at h
  case h_1 => cases h
  case h_2 => cases h
  case h_3 hl =>
    split at h
    case h_1 => cases h
    case h_2 =>
      split at h
      case isFalse => cases h
      case isTrue hs =>
        cases h
        exact ⟨hl, by simpa using hs⟩

theorem exists_soa {data : RData} (h : data.rrtype = .soa) : ∃ soa, data = .soa soa := by
  cases data
  case soa => exact ⟨_, rfl⟩
  case other untyped =>
    obtain rfl : _ = RRType.soa := h
    exact absurd (by decide) untyped
  all_goals
    simp only [RData.rrtype] at h
    exact absurd h (by decide)

variable (dns) in
-- A zone that is not signed. What is not at its apex is in its tree.
structure Unsigned (o : Name) (z : Zone) : Prop where
  holds : ∃ rrs, z.Holds dns o rrs
  soa : ∃ soa n, z.apex.soa = some soa ∧ soa.name = Name.text n
  ns : ∀ rr ∈ z.apex.ns, rr.rrtype = .ns ∧ rr.name = o.text
  ns_name : z.apex.ns ≠ [] → Strings.toLower (canonicalEscape dns o.text) = o.text
  sigsoa : z.apex.sigsoa = []
  signs : z.apex.signs = []
  types : ∀ e ∈ z.tree.all, ∀ rr ∈ e.rrs, rr.rrtype ≠ .rrsig ∧ rr.rrtype ≠ .soa

theorem unsigned_of_load (c : dns.Canonical) (h : (Zone.new dns o.text).load dns rrs = some (.ok z))
    (hn : ∀ rr ∈ rrs, ∃ n : Name, rr.name = n.text) (hsig : ∀ rr ∈ rrs, rr.rrtype ≠ .rrsig)
    (hsoa : ∃ rr ∈ rrs, rr.rrtype = .soa) : Unsigned dns o z := by
  have hh := Zone.load_holds hn h
  obtain ⟨hapex, horigin⟩ := Zone.load_apex h
  have horigin : (Zone.new dns o.text).origin = o.text := horigin.symm.trans hh.origin_eq
  have rrtype (rr : RR) : (normalize dns rr).rrtype = rr.rrtype := rrtype_lowerData rr.data
  have hnone {t : RRType} : ∀ rr ∈ rrs.map (normalize dns), ¬covers t rr := by
    intro rr hm hc
    obtain ⟨r, hr, rfl⟩ := mem_map.mp hm
    exact hsig r hr ((rrtype r).symm.trans (rrtype_of_covers hc))
  have hns : ∀ rr ∈ z.apex.ns, rr ∈ rrs.map (normalize dns) ∧ rr.rrtype = .ns ∧ rr.name = o.text := by
    intro rr hm
    rw [hapex] at hm
    obtain ⟨hm, hp⟩ := mem_filter.mp (mem_append.mp hm |>.resolve_left not_mem_nil)
    obtain ⟨hp, hname⟩ := of_decide_eq_true hp
    exact ⟨hm, rrtype_of_isNs hp, hname.trans horigin⟩
  constructor
  case holds => exact ⟨_, hh⟩
  case soa =>
    obtain ⟨rr, hm, ht⟩ := hsoa
    have ht : (normalize dns rr).data.rrtype = .soa := (rrtype rr).trans ht
    obtain ⟨soa, hd⟩ := exists_soa ht
    have hne : (rrs.map (normalize dns)).filter isSoa ≠ [] := by
      refine ne_nil_of_mem (mem_filter.mpr ⟨mem_map_of_mem hm, ?_⟩)
      rw [isSoa, hd]
    have hlast := getLast?_eq_some_getLast hne
    obtain ⟨r, hr, he⟩ := mem_map.mp (mem_of_mem_filter (getLast_mem hne))
    obtain ⟨n, hn⟩ := normalize_named dns (hn r hr)
    refine ⟨_, n, ?_, he ▸ hn⟩
    rw [hapex, Apex.add, hlast, Option.some_or]
  case ns => exact fun rr hm => (hns rr hm).2
  case ns_name =>
    intro hne
    obtain ⟨rr, hm⟩ := exists_mem_of_ne_nil _ hne
    obtain ⟨hm, ht, hname⟩ := hns rr hm
    obtain ⟨r, hr, rfl⟩ := mem_map.mp hm
    obtain ⟨n, hn⟩ := hn r hr
    have hsrv : r.rrtype ≠ .srv := by
      rw [←rrtype, ht]
      decide
    rw [←hname, normalize_name dns hsrv, hn]
    exact toLower_canonicalEscape_idem c n
  case sigsoa =>
    rw [hapex]
    exact filter_eq_nil_iff.mpr fun rr hm => hnone rr hm
  case signs =>
    rw [hapex]
    exact filter_eq_nil_iff.mpr fun rr hm hc => hnone rr hm (of_decide_eq_true hc).1
  case types =>
    intro e he rr hm
    rw [z.tree.all_eq_toList] at he
    rw [(hh.valid.stores.has e he).rrs_eq] at hm
    obtain ⟨hm, ht⟩ := mem_filter.mp (mem_of_mem_filter hm)
    obtain ⟨r, hr, rfl⟩ := mem_map.mp hm
    refine ⟨fun h => hsig r hr ((rrtype r).symm.trans h), fun h => ?_⟩
    obtain ⟨soa, hd⟩ := exists_soa h
    simp [inTree, hd] at ht

-- The zone that is signed has the records of the file, except for those that are skipped, and the records of the keys.
theorem exists_load (ho : s.origin = o.text) (h : s.zone dns crypto f = .ok z) :
    ∃ rrs, (Zone.new dns o.text).load dns rrs = some (.ok z) ∧ (∃ rr ∈ rrs, rr.rrtype = .soa) ∧
      ∀ rr ∈ rrs, rr.rrtype ≠ .rrsig ∧ (rr ∈ f.records ∨ ∃ p ∈ s.keys, rr.name = p.publicKey.name) := by
  obtain ⟨z₀, hz, h⟩ := Except.bind_eq_ok_iff.mp h
  obtain ⟨hl, soa, hm, hs⟩ := parse_eq_ok (ho ▸ hz)
  have hkeys := foldlM_insert_ok (fun rr hm => (exists_other hm).1) h
  refine ⟨_, (Zone.load_append _ hl).trans hkeys, ⟨soa, ?_, hs⟩, fun rr hm => ?_⟩
  · refine mem_append_left _ (mem_filter.mpr ⟨hm, ?_⟩)
    rw [skipped, hs]
    decide
  · obtain hm | hm := mem_append.mp hm
    case inl =>
      obtain ⟨hm, hkept⟩ := mem_filter.mp hm
      refine ⟨fun ht => ?_, .inl hm⟩
      simp [skipped, ht] at hkept
    case inr =>
      obtain ⟨-, ht, hp, -⟩ := exists_other hm
      exact ⟨ht, .inr hp⟩

theorem zone_unsigned (c : dns.Canonical) (ho : s.origin = o.text) (hf : ∀ rr ∈ f.records, ∃ n : Name, rr.name = n.text)
    (hk : ∀ p ∈ s.keys, ∃ n : Name, p.publicKey.name = n.text) (h : s.zone dns crypto f = .ok z) :
    Unsigned dns o z := by
  obtain ⟨rrs, hl, hsoa, hrrs⟩ := exists_load ho h
  refine unsigned_of_load c hl (fun rr hm => ?_) (fun rr hm => (hrrs rr hm).1) hsoa
  obtain hm | ⟨p, hp, hn⟩ := (hrrs rr hm).2
  case inl => exact hf rr hm
  case inr => exact hn ▸ hk p hp

end Keys

def records (z : Zone) : List RR :=
  z.apex.soa.toList ++ z.apex.sigsoa ++ z.apex.ns ++ z.apex.signs ++ z.tree.all.flatMap (·.rrs)

section Outcome

variable (dns) in
def signedElems (z : Zone) : List Elem :=
  authElems (calls dns [] z.tree.all)

def circle (es : List Elem) : List (Elem × Str) :=
  es.zip ((es.map (·.name)).rotate 1)

variable (dns range s mttl) in
def Signer.nsecs (z : Zone) : List RR :=
  (circle (signedElems dns z)).map fun p => s.nsec dns range mttl p.1 p.2

variable (dns) in
def SignedSets (z : Zone) (soa : RR) (names : Name → Prop) (t : RRType) : Prop :=
  (names = soa.At ∧ t = .soa ∨ ∃ rr ∈ z.apex.ns, names = rr.At ∧ t = .ns) ∨
    ∃ e ∈ signedElems dns z, names = e.At ∧ SignedType e t

variable (dns range s) in
-- What signing makes of a zone, given its SOA record and the signatures that it gets.
structure Outcome (z z' : Zone) (soa : RR) (mttl : UInt32) (sigs : List RR) : Prop where
  soa_name : z.apex.soa.map (·.name) = some soa.name
  soa_type : soa.rrtype = .soa
  perm : (records z').Perm
    (soa :: z.apex.ns ++ z.tree.all.flatMap (·.rrs) ++ s.nsecs dns range mttl z ++ sigs)
  covers : Covers s.keys (SignedSets dns z soa) sigs

variable {f : ZoneFile} {o : Name} {now : Time}

theorem sign_eq_ok (h : s.sign dns crypto range now (.ok f) = .ok z') :
    ∃ z, s.zone dns crypto f = .ok z ∧ ∃ name ttl soa serial, z.apex.soa = some ⟨name, ttl, .soa soa⟩ ∧
      ∃ incep expir z₂, s.signApex dns crypto
          { z with apex := { z.apex with soa := some ⟨name, ttl, .soa { soa with serial } ⟩ } } ttl incep expir = .ok z₂ ∧
        s.signTree dns crypto range z₂ (Sign.names dns z) soa.minttl incep expir = .ok z' := by
  obtain ⟨z₀, hz, h⟩ := Except.bind_eq_ok_iff.mp h
  split at h
  case h_2 => cases h
  case h_1 name ttl soa hsoa =>
    obtain ⟨z₁, hk, h⟩ := Except.bind_eq_ok_iff.mp h
    obtain ⟨z₂, ha, h⟩ := Except.bind_eq_ok_iff.mp h
    rw [insertKeys_apex] at hk
    cases hk' : s.insertKeys dns crypto z₀ ttl
    case error =>
      rw [hk'] at hk
      cases hk
    case ok z =>
      rw [hk'] at hk
      cases hk
      -- The keys do not change the apex.
      have hapex : z.apex = z₀.apex := by
        have hs : s.insertKeys dns crypto z₀ ttl = ({ · with apex := z₀.apex }) <$> s.insertKeys dns crypto z₀ ttl :=
          insertKeys_apex z₀ z₀.apex
        rw [hk'] at hs
        have hs : z = { z with apex := z₀.apex } := Except.ok.inj hs
        have ha := congrArg Zone.apex hs
        exact ha
      have hzone : s.zone dns crypto f = .ok z := by
        rw [Signer.zone, hz]
        change s.insertKeys dns crypto z₀ ((z₀.apex.soa.map (·.ttl)).getD 0) = .ok z
        rw [hsoa]
        exact hk'
      rw [←hapex] at ha hsoa
      refine ⟨z, hzone, name, ttl, soa, _, hsoa, _, _, z₂, ha, ?_⟩
      rwa [names_eq] at h ⊢

theorem exists_outcome (c : dns.Canonical) (ho : s.origin = o.text)
    (hf : ∀ rr ∈ f.records, ∃ n : Name, rr.name = n.text) (hk : ∀ p ∈ s.keys, ∃ n : Name, p.publicKey.name = n.text)
    (h : s.sign dns crypto range now (.ok f) = .ok z') : ∃ z, s.zone dns crypto f = .ok z ∧
      ((∀ e ∈ z.tree.all, e.Regular dns) → ∃ soa mttl sigs, Outcome dns range s z z' soa mttl sigs) := by
  obtain ⟨z, hz, name, ttl, soa, serial, hsoa, incep, expir, z₂, ha, ht⟩ := sign_eq_ok h
  refine ⟨z, hz, fun hreg => ?_⟩
  have hu := zone_unsigned c ho hf hk hz
  obtain ⟨_, hh⟩ := hu.holds
  obtain ⟨htree, -, hs₂, hn₂, hsoas, hnss⟩ := signApex_eq_ok ha rfl rfl
    (hh.origin_eq ▸ hu.ns) (hh.origin_eq ▸ hu.ns_name) ⟨hu.sigsoa, hu.signs⟩
  obtain ⟨i', hr⟩ := signTree_eq_ok.mp ht
  rw [show z₂.tree = z.tree from htree, names_eq] at hr
  have hc := hh.valid.consists
  rw [←map_fst_calls dns [] z.tree.all] at hc
  have hreg : ∀ c ∈ calls dns [] z.tree.all, c.1.Regular dns := by
    intro c hm
    refine hreg c.1 ?_
    rw [←map_fst_calls dns [] z.tree.all]
    exact mem_map_of_mem hm
  have hc : z₂.tree.Consists (order dns) ([] ++ (calls dns [] z.tree.all).map Prod.fst) := by rwa [htree]
  obtain ⟨ha', es', sigs, hc', hp, hs⟩ := visits_eq_ok hreg hc (by simp) hr
  rw [map_fst_calls, drop_zero] at hp
  have hall : z'.tree.all = es' := z'.tree.all_eq_toList.trans hc'.elems
  have hperm : (records z').Perm (⟨name, ttl, .soa { soa with serial }⟩ :: z.apex.ns ++ z.tree.all.flatMap (·.rrs) ++
      s.nsecs dns range soa.minttl z ++ (z₂.apex.sigsoa ++ z₂.apex.signs ++ sigs)) := by
    refine perm_iff_count.mpr fun rr => ?_
    have hcount := hp.count_eq rr
    rw [records, ha', hs₂, hn₂, hall]
    simp only [Signer.nsecs, circle, signedElems, count_append, count_cons, count_nil, Option.toList_some] at hcount ⊢
    omega
  refine ⟨_, soa.minttl, _, ?_, rfl, hperm, (hsoas.append hnss fun _ _ => .rfl).append hs fun _ _ => .rfl⟩
  rw [hsoa]
  rfl

end Outcome
end Sign
