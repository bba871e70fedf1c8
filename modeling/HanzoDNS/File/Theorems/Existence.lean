import HanzoDNS.File.Theorems.Wildcard

open Dns Domain List

namespace File

open Name Strings

section Apart

theorem stored_of_fold {l l' : Label} (h : l.fold = l'.fold) : stored l = stored l' := by
  simp only [Label.fold] at h
  simp [stored, h]

theorem map_stored_of_fold {n m : Name} (h : n.fold = m.fold) : n.map stored = m.map stored := by
  induction n generalizing m
  case nil =>
    obtain rfl : m = [] := by simpa [fold, eq_comm] using h
    rfl
  case cons l n hi =>
    cases m
    case nil => simp [fold] at h
    case cons l' m =>
      obtain ⟨hl, hn⟩ : l.fold = l'.fold ∧ fold n = fold m := by simpa [fold] using h
      rw [map_cons, map_cons, stored_of_fold hl, hi hn]

-- The order tells the labels of a name apart from all different labels in the names of records.
def Apart (rrs : List RR) (n : Name) : Prop :=
  ∀ rr ∈ rrs, ∀ m : Name, rr.name = m.text → ∀ l ∈ n, ∀ l' ∈ m, stored l = stored l' → l.fold = l'.fold

theorem fold_of_map_stored {n m : Name} (ha : ∀ l ∈ n, ∀ l' ∈ m, stored l = stored l' → l.fold = l'.fold)
    (h : n.map stored = m.map stored) : n.fold = m.fold := by
  induction n generalizing m
  case nil =>
    obtain rfl : m = [] := by simpa [eq_comm] using h
    rfl
  case cons l n hi =>
    cases m
    case nil => simp at h
    case cons l' m =>
      obtain ⟨hl, hn⟩ : stored l = stored l' ∧ n.map stored = m.map stored := by simpa using h
      have hi := hi (fun l hl l' hl' => ha l (mem_cons_of_mem _ hl) l' (mem_cons_of_mem _ hl')) hn
      simp only [fold, map_cons, List.cons.injEq] at hi ⊢
      exact ⟨ha l (by simp) l' (by simp) hl, hi⟩

theorem fold_suffix_iff {n m : Name} (ha : ∀ l ∈ n, ∀ l' ∈ m, stored l = stored l' → l.fold = l'.fold) :
    n.fold <:+ m.fold ↔ n.map stored <:+ m.map stored := by
  constructor
  case mp =>
    rintro ⟨t, ht⟩
    obtain ⟨m₁, m₂, rfl, -, h⟩ := map_eq_append_iff.mp ht.symm
    rw [map_stored_of_fold h.symm, map_append]
    exact suffix_append _ _
  case mpr =>
    rintro ⟨t, ht⟩
    obtain ⟨m₁, m₂, rfl, -, h⟩ := map_eq_append_iff.mp ht.symm
    have hf := fold_of_map_stored (fun l hl l' hl' => ha l hl l' (mem_append_right _ hl')) h.symm
    rw [hf, fold, fold, map_append]
    exact suffix_append _ _

variable {dns : Labels} {rrs : List RR} {rr : RR} {n : Name}

theorem Apart.fold_eq (ha : Apart rrs n) (hr : rr ∈ rrs) {m : Name} (hm : rr.name = m.text)
    (ho : order dns n.text rr.name = .eq) : n.fold = m.fold := by
  rw [hm, order_text_eq_iff] at ho
  exact fold_of_map_stored (ha rr hr m hm) ho

theorem Apart.name_eq (ha : Apart rrs n) (hr : rr ∈ rrs) (hn : ∃ m : Name, rr.name = m.text)
    (ho : order dns n.text rr.name = .eq) (hl : toLower n.text = n.text)
    (hl' : toLower rr.name = rr.name) : rr.name = n.text := by
  obtain ⟨m, hm⟩ := hn
  rw [←hl, toLower_eq_of_fold (ha.fold_eq hr hm ho), ←hm, hl']

theorem Apart.mono {m : Name} (ha : Apart rrs n) (h : m ⊆ n) : Apart rrs m :=
  fun rr hr x hx l hl => ha rr hr x hx l (h hl)

theorem toLower_suffix {n m : Name} (h : toLower n.text = n.text) (hm : m <:+ n) : toLower m.text = m.text := by
  rw [toLower_text] at h ⊢
  obtain ⟨t, rfl⟩ := hm
  have h := text_injective h
  rw [map_append] at h
  rw [(append_inj' h (by simp)).2]

end Apart

namespace Zone

variable {dns : Labels} {z : Zone} {o p n : Name} {rrs : List RR} {req : Request} {loop : Nat} {e : Elem} {rr : RR}

structure Asks (rrs : List RR) (o p : Name) (req : Request) : Prop where
  name : req.name = (p ++ o).text
  lower : toLower (p ++ o).text = (p ++ o).text
  apart : Apart rrs (p ++ o)

-- A query for a name that neither an alias nor a cut nor a wildcard concerns.
structure Direct (dns : Labels) (rrs : List RR) (o p : Name) (req : Request) : Prop extends Asks rrs o p req where
  cut : ∀ n ∈ ancestors p o, n ≠ o → ¬OwnsType dns rrs n .ns
  dname : ∀ n ∈ ancestors p o, n ≠ p ++ o → ¬OwnsType dns rrs n .dname
  cname : OwnsType dns rrs (p ++ o) .cname → req.qtype = .cname
  wild : Present dns rrs o (p ++ o) ∨ ¬Owns dns rrs (asterisk :: encloser dns rrs o p)
  stray : ¬StrayWildcard dns rrs o p
  apex : p = [] → req.qtype = .soa ∨ req.qtype = .ns ∨ Owns dns rrs o ∨ o ≠ [] ∧ HasBelow dns rrs o

theorem Holds.mem_type_iff (h : z.Holds dns o rrs) (hs : z.search dns n.text = some e) {t : RRType} :
    rr ∈ e.type t ↔ rr ∈ rrs ∧ order dns n.text rr.name = .eq ∧ rr.rrtype = t := by
  rw [Tree.search_type h.valid hs, mem_filter]
  simp

theorem suffix_of_mem_ancestors (hn : n ∈ ancestors p o) : n <:+ p ++ o := by
  obtain ⟨x, ⟨t, rfl⟩, rfl⟩ := mem_ancestors.mp hn
  exact ⟨t, by simp⟩

theorem synthesizeCNAME_self (qname : Str) (rr : RR) (h : rr.name = qname) : synthesizeCNAME dns qname rr = none := by
  rw [synthesizeCNAME]
  split
  case h_1 => simp [substituteDNAME, h]
  case h_2 => rfl

section Stop

variable (h : z.Holds dns o rrs) (a : Asks rrs o p req) (hn : n ∈ ancestors p o) (hs : z.search dns n.text = some e)

include h a hn hs

theorem name_of_mem_type {t : RRType} (hr : rr ∈ e.type t) (ht : t ≠ .srv) : rr.name = n.text := by
  have hq := suffix_of_mem_ancestors hn
  obtain ⟨hm, ho, rfl⟩ := (h.mem_type_iff hs).mp hr
  exact (a.apart.mono hq.subset).name_eq hm (h.named rr hm) ho (toLower_suffix a.lower hq) (h.lowered rr hm ht)

theorem redirection_eq_none (hd : n ≠ p ++ o → ¬OwnsType dns rrs n .dname) : e.redirection dns req.name = none := by
  rw [Elem.redirection]
  split
  case h_1 => rfl
  case h_2 rr rrs' he =>
    have hq : n = p ++ o := by
      by_contra hq
      exact hd hq <| (h.type_ne_nil_iff hs _).mp (by simp [he])
    have hr := name_of_mem_type h a hn hs (by simp [he] : rr ∈ e.type .dname) (by decide)
    exact synthesizeCNAME_self _ _ (by rw [hr, a.name, hq])

theorem type_ns_eq_nil (hc : n ≠ o → ¬OwnsType dns rrs n .ns) : e.type .ns = [] := by
  by_contra hns
  have ho := (h.type_ne_nil_iff hs _).mp hns
  by_cases hno : n = o
  case neg => exact hc hno ho
  case pos =>
    obtain ⟨rr, hr⟩ := exists_mem_of_ne_nil _ hns
    have hm := (h.mem_type_iff hs).mp hr
    exact h.apexNs rr hm.1 hm.2.2 (hno ▸ name_of_mem_type h a hn hs hr (by decide))

end Stop

theorem stopAt_eq_none (h : z.Holds dns o rrs) (a : Asks rrs o p req) (hn : n ∈ ancestors p o)
    (hc : n ≠ o → ¬OwnsType dns rrs n .ns) (hd : n ≠ p ++ o → ¬OwnsType dns rrs n .dname) :
    z.stopAt dns req (p ++ o).text n = none := by
  rw [stopAt]
  cases hs : z.search dns n.text
  case none => rfl
  case some e => simp [Elem.stop, redirection_eq_none h a hn hs hd, type_ns_eq_nil h a hn hs hc]

section Missing

variable (h : z.Holds dns o rrs) (ha : Apart rrs n)

include h ha

theorem isSubDomain_iff (hr : rr ∈ rrs) (hn : order dns n.text rr.name ≠ .eq) :
    dns.isSubDomain n.text rr.name ↔ Encloses dns n rr.name := by
  obtain ⟨m, hm⟩ := h.named rr hr
  rw [hm, dns.isSubDomain_text, fold_suffix_iff (ha rr hr m hm), encloses_text_iff]
  rw [hm, ne_eq, order_text_eq_iff] at hn
  refine ⟨fun hs => ⟨hs, lt_of_le_of_ne (by simpa using hs.length_le) fun hl => hn ?_⟩, And.left⟩
  exact hs.eq_of_length (by simpa using hl)

omit ha in
theorem next_encloses (hb : HasBelow dns rrs n) (hn : n ≠ []) (ho : ¬Owns dns rrs n) :
    ∃ x, z.tree.next (order dns) n.text = some x ∧ ∃ rr ∈ rrs, x.name = rr.name ∧ Encloses dns n rr.name := by
  obtain ⟨rr, hr, hp, -⟩ := hb
  obtain ⟨e, he, her⟩ := h.valid.stores.total rr hr
  rw [←key_text dns hn] at hp
  have hle : (compare (key dns n.text) (key dns e.name)).isLE := by
    obtain ⟨t, ht⟩ := hp
    rw [(order_eq_iff dns _ _).mp her, ←ht]
    exact compare_append _ _
  cases hx : z.tree.next (order dns) n.text
  case none =>
    have hg := Tree.next_eq_none h.valid hx e he
    rw [order_eq] at hg
    simp [hg] at hle
  case some x =>
    have hnext := Tree.next_isNext h.valid hx
    obtain ⟨rr', hr', hxr⟩ := h.owners x hnext.mem
    have hle' : order dns n.text e.name ≠ .gt := by
      rw [order_eq]
      exact Ordering.isLE_iff_ne_gt.mp hle
    have h₁ := Ordering.isLE_iff_ne_gt.mpr hnext.notAfter
    have h₂ := Ordering.isLE_iff_ne_gt.mpr (hnext.first e he hle')
    rw [order_eq] at h₁ h₂
    rw [(order_eq_iff dns _ _).mp her] at h₂
    have hp := prefix_of_between hp h₁ h₂
    rw [key_text dns hn, hxr] at hp
    exact ⟨x, rfl, rr', hr', hxr, hp, fun he => ho ⟨rr', hr', he⟩⟩

theorem missingResult_eq (hn : n ≠ []) (ho : ¬Owns dns rrs n) :
    z.missingResult dns n.text = if HasBelow dns rrs n then .success else .nameError := by
  rw [missingResult]
  by_cases hb : HasBelow dns rrs n
  case pos =>
    obtain ⟨x, hx, rr, hr, hxr, he⟩ := next_encloses h hb hn ho
    have hs := (isSubDomain_iff h ha hr he.2).mpr he
    simp [hx, hxr, hs, hb]
  case neg =>
    cases hx : z.tree.next (order dns) n.text
    case none => simp [hb]
    case some x =>
      obtain ⟨rr, hr, hxr⟩ := h.owners x (Tree.next_isNext h.valid hx).mem
      have hs : ¬dns.isSubDomain n.text rr.name := by
        rw [isSubDomain_iff h ha hr fun he => ho ⟨rr, hr, he⟩]
        exact fun he => hb ⟨rr, hr, he⟩
      simp [hxr, hs, hb]

end Missing

theorem answerMissing_result (dns : Labels) (z : Zone) (req : Request) (n : Name) :
    ∃ a, z.answerMissing dns req n.text = some a ∧ a.result = z.missingResult dns n.text := by
  rw [answerMissing]
  split
  case h_1 => exact ⟨_, rfl, rfl⟩
  case h_2 => exact ⟨_, rfl, rfl⟩
  case h_3 deny _ _ =>
    obtain ⟨rrs, hd⟩ : ∃ rrs, z.denyWildcard dns n.text deny = some rrs := by
      rw [denyWildcard, closestEncloser_eq]
      cases z.storedEncloser dns n
      case none => exact ⟨_, rfl⟩
      case some ce => cases hp : z.tree.prev (order dns) ('*' :: '.' :: ce.name) <;> simp [hp]
    split <;> simp [hd]

theorem answerFound_result (up : Upstream) (hc : e.type .cname ≠ [] → req.qtype = .cname) :
    ∃ a, z.answerFound dns up loop req e = some a ∧ (a.result = .success ∨ a.result = .noData) := by
  rw [answerFound, if_neg fun hn => hn.2 (hc hn.1)]
  split
  case isTrue => exact ⟨_, rfl, .inr rfl⟩
  case isFalse => exact ⟨_, rfl, .inl rfl⟩

theorem wild_of_direct (h : z.Holds dns o rrs) (d : Direct dns rrs o p req) :
    (ancestors p o).findSome? (z.wildAt dns) = none := by
  by_cases hp : Present dns rrs o (p ++ o)
  case pos => exact (wild_eq_none_iff_of_present h hp).mpr d.stray
  case neg => exact wild_eq_none_of_absent h hp (d.wild.resolve_left hp) d.stray

theorem walk_of_direct (h : z.Holds dns o rrs) (d : Direct dns rrs o p req) :
    z.walk dns req (p ++ o).text = some (z.arrive dns [] (z.search dns (p ++ o).text) none) := by
  have hs : (ancestors p o).reverse.findSome? (z.stopAt dns req (p ++ o).text) = none := by
    rw [findSome?_eq_none_iff]
    intro n hn
    have hn := mem_reverse.mp hn
    exact stopAt_eq_none h d.toAsks hn (d.cut n hn) (d.dname n hn)
  rw [walk_eq h, hs, Option.getD_none]
  simp [arrive, reverse_reverse, wild_of_direct h d, reverse_nil, findSome?_nil]

theorem lookup_of_walk {qname : Str} {w : Walk} (up : Upstream) (soa : z.apex.soa ≠ none)
    (ha : ¬(qname = z.origin ∧ (req.qtype = .soa ∨ req.qtype = .ns))) (hl : ¬8 < loop)
    (hw : z.walk dns req qname = some w) :
    z.lookup dns up loop req qname = z.answerWalk dns up loop req qname w := by
  rw [lookup, if_neg soa, if_neg fun h => ha ⟨h.1, .inl h.2⟩, if_neg fun h => ha ⟨h.1, .inr h.2⟩, if_neg hl, hw]
  rfl

theorem lookup_apex {qname : Str} (up : Upstream) (soa : z.apex.soa ≠ none)
    (ha : qname = z.origin ∧ (req.qtype = .soa ∨ req.qtype = .ns)) :
    ∃ a, z.lookup dns up loop req qname = some a ∧ a.result = .success := by
  rw [lookup, if_neg soa]
  obtain ⟨ho, ht | ht⟩ := ha
  case inl => exact ⟨_, if_pos ⟨ho, ht⟩, rfl⟩
  case inr =>
    rw [if_neg (by simp [ht, RRType.ns, RRType.soa]), if_pos ⟨ho, ht⟩]
    exact ⟨_, rfl, rfl⟩

theorem cnameTarget_isSome {rr : RR} (h : rr ∈ e.type .cname) : (cnameTarget rr).isSome := by
  have h : rr.data.rrtype = .cname := of_decide_eq_true (mem_filter.mp h).2
  rw [cnameTarget]
  cases hd : rr.data <;> rw [hd, RData.rrtype] at h
  case cname => rfl
  case other untyped => exact absurd (h ▸ by decide) untyped
  all_goals exact absurd h (by decide)

theorem chase_isSome (left : Nat) (target : Str) (answer : List RR) :
    (z.chase dns up loop req left target answer).isSome := by
  induction left generalizing target answer <;> rw [chase]
  case zero => grind
  case succ hi =>
    split <;> (try split) <;> try rfl
    case h_2.isFalse e _ _ =>
      cases hc : e.type .cname
      case nil => rfl
      case cons cname cnames =>
        have ht := cnameTarget_isSome (hc ▸ mem_cons_self : cname ∈ e.type .cname)
        simp [Option.isSome_bind, hi, ht]

theorem externalLookup_isSome {answer : List RR} (hr : answer ≠ []) (h : ∀ rr ∈ answer, (cnameTarget rr).isSome) :
    (z.externalLookup dns up loop req e answer).isSome := by
  obtain ⟨rr, rrs, rfl⟩ := exists_cons_of_ne_nil hr
  simp [externalLookup, Option.isSome_bind, chase_isSome, h rr]

theorem stopAt_redirect {qname : Str} {cname : RR} (h : z.stopAt dns req qname n = some (.redirect e cname)) :
    (cnameTarget cname).isSome := by
  obtain ⟨e, -, h⟩ := Option.bind_eq_some_iff.mp h
  rw [Elem.stop] at h
  split at h <;> simp only [Elem.redirection, synthesizeCNAME] at * <;> grind [cnameTarget]

-- No records make the tree or a lookup panic, whatever is asked and whatever aliases there are.
theorem lookup_never_panics {records : List RR} (up : Upstream) (loop : Nat) (req : Request) (o p : Name)
    (named : ∀ rr ∈ records, ∃ n : Name, rr.name = n.text) :
    ∃ r, (Zone.new dns o.text).load dns records = some r ∧
      ∀ z, r = .ok z → (z.lookup dns up loop req (p ++ o).text).isSome := by
  obtain ⟨r, hr, h⟩ := (Holds.new dns o).load named
  refine ⟨r, hr, fun z hz => ?_⟩
  rw [lookup, walk_eq (h z hz)]
  repeat (split; rfl)
  rw [Option.bind_eq_bind, Option.bind_some]
  generalize hw : Option.getD .. = w
  rcases w with ⟨e, cname⟩ | e | e | _ | e <;> rw [answerWalk]
  case delegation => rfl
  case missing.none =>
    obtain ⟨a, ha, _⟩ := answerMissing_result dns z req (p ++ o)
    exact ha ▸ rfl
  case redirect =>
    obtain hf | ⟨-, hf⟩ := Option.getD_eq_iff.mp hw
    case inr => simp only [arrive] at hf; split at hf <;> cases hf
    case inl =>
      obtain ⟨n, _, hn⟩ := exists_of_findSome?_eq_some hf
      rw [answerRedirect]
      split <;> simp [Option.isSome_bind, externalLookup_isSome, stopAt_redirect hn]
  all_goals
    simp only [answerFound, answerWild]
    split
  case found.isTrue hc => exact externalLookup_isSome hc.1 fun _ => cnameTarget_isSome
  case missing.some.isTrue hc => exact externalLookup_isSome hc.1 (forall_mem_map.mpr fun _ => cnameTarget_isSome)
  all_goals split <;> rfl

-- A name is denied exactly if it is not one of the zone.
theorem name_error_iff {records : List RR} (up : Upstream)
    (named : ∀ rr ∈ records, ∃ n : Name, rr.name = n.text)
    (loaded : (Zone.new dns o.text).load dns records = some (.ok z)) (soa : z.apex.soa ≠ none) (hl : ¬8 < loop)
    (d : Direct dns (inner dns o.text records) o p req) : ∃ a, z.lookup dns up loop req (p ++ o).text = some a ∧
      (a.result = .nameError ↔ ¬Present dns (inner dns o.text records) o (p ++ o)) ∧
      (a.result ≠ .nameError → a.result = .success ∨ a.result = .noData) := by
  have h := load_holds named loaded
  generalize inner dns o.text records = rrs at h d
  have exist {a : Answer} (hp : Present dns rrs o (p ++ o)) (ha : a.result = .success ∨ a.result = .noData) :
      (a.result = .nameError ↔ ¬Present dns rrs o (p ++ o)) ∧
      (a.result ≠ .nameError → a.result = .success ∨ a.result = .noData) := by
    obtain ha | ha := ha <;> simp [ha, hp]
  by_cases ha : (p ++ o).text = z.origin ∧ (req.qtype = .soa ∨ req.qtype = .ns)
  case pos =>
    obtain ⟨a, hl, hr⟩ := lookup_apex up soa ha
    have ho : p ++ o = o := text_injective (ha.1.trans h.origin_eq)
    exact ⟨a, hl, exist (.inl ho) (.inl hr)⟩
  case neg =>
    rw [lookup_of_walk up soa ha hl (walk_of_direct h d)]
    cases hs : z.search dns (p ++ o).text
    case some e =>
      have ho := h.search_isSome_iff.mp (by simp [hs] : (z.search dns (p ++ o).text).isSome)
      obtain ⟨a, hf, hr⟩ := answerFound_result up fun hc => d.cname ((h.type_ne_nil_iff hs _).mp hc)
      exact ⟨a, hf, exist (.inr (.inl ho)) hr⟩
    case none =>
      have ho := h.search_eq_none_iff.mp hs
      -- The origin itself is only found by what is below it.
      have hb (hp : p = []) : o ≠ [] ∧ HasBelow dns rrs (p ++ o) := by
        subst hp
        obtain ht | ht | ht | ht := d.apex rfl
        case inl => exact absurd ⟨h.origin_eq.symm, .inl ht⟩ ha
        case inr.inl => exact absurd ⟨h.origin_eq.symm, .inr ht⟩ ha
        case inr.inr.inl => exact absurd ht ho
        case inr.inr.inr => exact ht
      have hn : p ++ o ≠ [] := fun hn => (hb (append_eq_nil_iff.mp hn).1).1 (append_eq_nil_iff.mp hn).2
      have hp : Present dns rrs o (p ++ o) ↔ HasBelow dns rrs (p ++ o) := by
        refine ⟨?_, fun h => .inr (.inr h)⟩
        rintro (hq | hq | hq)
        · exact (hb (by simpa using hq)).2
        · exact absurd hq ho
        · exact hq
      obtain ⟨a, hm, hr⟩ := answerMissing_result dns z req (p ++ o)
      refine ⟨a, hm, ?_⟩
      rw [hr, missingResult_eq h d.apart hn ho, hp]
      split <;> simp_all

namespace Alias

open File.Sample

def www : Name :=
  label "www" (by decide) :: top

def record : RR where
  name := www.text
  ttl := 3600
  data := .cname "www.test."

theorem records_named : ∀ rr ∈ [soa, record], ∃ n : Name, rr.name = n.text := by
  simp only [forall_mem_cons, not_mem_nil, false_imp_iff, implies_true, and_true]
  exact ⟨⟨top, rfl⟩, ⟨www, rfl⟩⟩

theorem loaded : (Zone.new .reference top.text).load .reference [soa, record] = some (.ok (zone [soa, record])) := by
  rfl

theorem direct : Direct .reference (inner .reference top.text [soa, record]) top [leaf] (request (leaf :: top) false) where
  name := rfl
  lower := by decide +kernel
  apart := by
    intro rr hr m hm
    have hi : inner .reference top.text [soa, record] = [record] := by
      decide +kernel
    rw [hi, mem_singleton] at hr
    obtain rfl : www = m := text_injective (by rw [←hm, hr]; rfl)
    decide +kernel
  cut := by decide +kernel
  dname := by decide +kernel
  cname := by decide +kernel
  wild := by decide +kernel
  stray := by decide +kernel
  apex := by decide

end Alias

section

open File.Sample Alias

theorem lookup_never_panics_alias : ∃ r, (Zone.new .reference top.text).load .reference [soa, record] = some r ∧
      ∀ z, r = .ok z → (z.lookup .reference (upstream rcodeNameError) 0 (request www false) www.text).isSome :=
  lookup_never_panics _ _ _ top (www.take 1) records_named

theorem name_error_alias :
    ∃ a, (zone [soa, record]).lookup .reference (upstream rcodeNameError) 0 (request (leaf :: top) false)
        (text ([leaf] ++ top)) = some a ∧
      (a.result = .nameError ↔ ¬Present .reference (inner .reference top.text [soa, record]) top ([leaf] ++ top)) ∧
      (a.result ≠ .nameError → a.result = .success ∨ a.result = .noData) :=
  name_error_iff (upstream rcodeNameError) records_named loaded (by decide +kernel) (by decide) direct

-- A record exists, but the code of its target is returned.
theorem name_error_of_alias :
    (Zone.new .reference top.text).load .reference [soa, record] = some (.ok (zone [soa, record])) ∧
    Owns .reference (inner .reference top.text [soa, record]) www ∧
    ((zone [soa, record]).lookup .reference (upstream rcodeNameError) 0 (request www false) www.text).map (·.result) =
      some .nameError :=
  ⟨loaded, by decide +kernel, by decide +kernel⟩

end
end Zone
end File
