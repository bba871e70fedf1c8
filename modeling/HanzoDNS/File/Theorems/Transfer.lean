import HanzoDNS.File.Transfer
import HanzoDNS.File.Theorems.Zone

open Dns Domain List

namespace File

open Zone

section Lists

variable {α β : Type*} {f : β → List α} {ks : List β} {k : β} {l : List α}

theorem flatMap_filter_perm (p : β → α → Bool)
    (disjoint : ks.Pairwise fun a b => ∀ x ∈ l, p a x → ¬p b x) (total : ∀ x ∈ l, ∃ k ∈ ks, p k x) :
    (ks.flatMap fun k => l.filter (p k)).Perm l := by
  induction ks generalizing l
  case nil =>
    obtain rfl : l = [] := eq_nil_iff_forall_not_mem.mpr fun x hx => by simpa using total x hx
    rfl
  case cons k ks hi =>
    rw [pairwise_cons] at disjoint
    obtain ⟨hd, disjoint⟩ := disjoint
    -- The other parts are those of what is left of the list.
    have rest : (ks.flatMap fun k' => l.filter (p k')) =
        ks.flatMap fun k' => (l.filter (! p k ·)).filter (p k') := by
      refine flatMap_congr fun k' hk => ?_
      rw [filter_filter]
      refine filter_congr fun x hx => ?_
      have := hd k' hk x hx
      cases h : p k x <;> simp_all
    have hp := hi (l := l.filter (! p k ·)) (disjoint.imp fun h x hx => h x (mem_of_mem_filter hx)) <| by
      intro x hx
      obtain ⟨hx, hn⟩ := mem_filter.mp hx
      obtain ⟨k', hk, hx'⟩ := total x hx
      obtain rfl | hk := mem_cons.mp hk
      case inl => simp [hx'] at hn
      case inr => exact ⟨k', hk, hx'⟩
    rw [flatMap_cons, rest]
    exact (hp.append_left _).trans (filter_append_perm (p k) l)

theorem flatMap_eq_of_unique (hk : k ∈ ks) (nodup : ks.Nodup) (h : ∀ k' ∈ ks, k' ≠ k → f k' = []) :
    ks.flatMap f = f k := by
  obtain ⟨as, bs, rfl⟩ := append_of_mem hk
  rw [nodup_append] at nodup
  have ha : as.flatMap f = [] := flatMap_eq_nil_iff.mpr fun a ha =>
    h a (by simp [ha]) (nodup.2.2 a ha k (by simp))
  have hb : bs.flatMap f = [] := flatMap_eq_nil_iff.mpr fun b hb => by
    refine h b (by simp [hb]) ?_
    rintro rfl
    exact (nodup_cons.mp nodup.2.1).1 hb
  simp [ha, hb]

end Lists

section Normalize

variable {dns : Labels} {rr : RR}

theorem refused_normalize (dns : Labels) (rr : RR) : refused (normalize dns rr) = refused rr := by
  have h : (normalize dns rr).rrtype = rr.rrtype := rrtype_lowerData rr.data
  rw [refused, refused, h]

theorem lowerData_idem (data : RData) : lowerData (lowerData data) = lowerData data := by
  cases data <;> simp [lowerData]

theorem toLower_canonicalEscape_idem (c : dns.Canonical) (n : Name) :
    Strings.toLower (canonicalEscape dns (Strings.toLower (canonicalEscape dns n.text))) =
      Strings.toLower (canonicalEscape dns n.text) := by
  by_cases hn : '\\' ∈ n.text
  case neg => simp [canonicalEscape, hn]
  case pos =>
    cases hr : dns.repack n.text
    case none => simp [canonicalEscape, hn, hr, c.repack_fails n hr]
    case some s =>
      simp only [canonicalEscape, hn, hr, if_true, Option.getD_some, c.repack_lower n s hr]
      split <;> exact Strings.toLower_idem s

theorem normalize_idem (c : dns.Canonical) (hn : ∃ n : Name, rr.name = n.text) :
    normalize dns (normalize dns rr) = normalize dns rr := by
  obtain ⟨n, hn⟩ := hn
  have ht : (normalize dns rr).rrtype = rr.rrtype := rrtype_lowerData rr.data
  by_cases hs : rr.rrtype = .srv
  case pos =>
    rw [normalize, if_pos (ht.trans hs)]
    simp [normalize, lowerData_idem]
  case neg =>
    rw [normalize, if_neg (ht ▸ hs)]
    simp [normalize, lowerData_idem, hs, hn, toLower_canonicalEscape_idem c n]

end Normalize

inductive Place
  | soa
  | sigsoa
  | ns
  | signs
  | tree
deriving DecidableEq

def place (origin : Str) (rr : RR) : Place :=
  match rr.data with
  | .soa _ => .soa
  | .ns _ => if rr.name = origin then .ns else .tree
  | .rrsig typeCovered _ =>
    if typeCovered = .soa then
      .sigsoa
    else if typeCovered = .ns ∧ rr.name = origin then
      .signs
    else
      .tree
  | _ => .tree

section Place

variable (origin : Str)

theorem place_rrsig {name : Str} {ttl : UInt32} {typeCovered : RRType} {rest : Str} :
    place origin ⟨name, ttl, .rrsig typeCovered rest⟩ =
      if typeCovered = .soa then .sigsoa else if typeCovered = .ns ∧ name = origin then .signs else .tree :=
  rfl

theorem place_spec (rr : RR) :
    (isSoa rr ↔ place origin rr = .soa) ∧ (covers .soa rr ↔ place origin rr = .sigsoa) ∧
    (isNs rr ∧ rr.name = origin ↔ place origin rr = .ns) ∧
    (covers .ns rr ∧ rr.name = origin ↔ place origin rr = .signs) ∧
    (inTree origin rr ↔ place origin rr = .tree) := by
  obtain ⟨name, ttl, data⟩ := rr
  cases data
  case ns => by_cases h : name = origin <;> simp [place, isSoa, isNs, covers, inTree, h]
  case rrsig typeCovered _ =>
    rw [place_rrsig]
    by_cases hs : typeCovered = .soa
    case pos => simp [isSoa, isNs, covers, inTree, hs, ns_ne_soa.symm]
    case neg =>
      rw [if_neg hs]
      by_cases ho : typeCovered = .ns ∧ name = origin
      case pos =>
        rw [if_pos ho]
        simp [isSoa, isNs, covers, inTree, ho, ns_ne_soa]
      case neg =>
        rw [if_neg ho]
        simpa [isSoa, isNs, covers, inTree, hs] using And.intro (not_and.mp ho) (not_and_or.mp ho)
  all_goals simp [place, isSoa, isNs, covers, inTree]

def part (rrs : List RR) (p : Place) : List RR :=
  rrs.filter (place origin · = p)

theorem filter_eq_part {f : RR → Bool} {p : Place} (h : ∀ rr, f rr ↔ place origin rr = p) (rrs : List RR) :
    rrs.filter f = part origin rrs p :=
  filter_congr fun rr _ => Bool.eq_iff_iff.mpr ((h rr).trans (decide_eq_true_iff).symm)

theorem Apex.add_empty_eq (rrs : List RR) : Apex.add origin {} rrs = {
    soa := (part origin rrs .soa).getLast?
    ns := part origin rrs .ns
    sigsoa := part origin rrs .sigsoa
    signs := part origin rrs .signs } := by
  have h := place_spec origin
  rw [Apex.add, filter_eq_part origin fun rr => (h rr).1, filter_eq_part origin fun rr => (h rr).2.1,
    filter_eq_part origin (p := .ns), filter_eq_part origin (p := .signs)]
  · simp
  · exact fun rr => by simpa using (h rr).2.2.2.1
  · exact fun rr => by simpa using (h rr).2.2.1

theorem filter_inTree_eq (rrs : List RR) : rrs.filter (inTree origin) = part origin rrs .tree :=
  filter_eq_part origin (fun rr => (place_spec origin rr).2.2.2.2) rrs

theorem part_of_forall {rrs : List RR} {p : Place} (h : ∀ rr ∈ rrs, place origin rr = p) (p' : Place) :
    part origin rrs p' = if p = p' then rrs else [] := by
  split
  case isTrue hp => exact filter_eq_self.mpr fun rr hr => by simpa [hp] using h rr hr
  case isFalse hp => exact filter_eq_nil_iff.mpr fun rr hr => by simpa [h rr hr] using hp

theorem part_append (rrs rrs' : List RR) (p : Place) :
    part origin (rrs ++ rrs') p = part origin rrs p ++ part origin rrs' p :=
  filter_append ..

theorem place_of_mem_part {rr : RR} {rrs : List RR} {p : Place} (h : rr ∈ part origin rrs p) : place origin rr = p := by
  simpa using (mem_filter.mp h).2

theorem parts_perm {rrs tree : List RR} (h : tree.Perm (part origin rrs .tree)) :
    (part origin rrs .sigsoa ++ part origin rrs .ns ++ part origin rrs .signs ++ tree).Perm
      (rrs.filter (!isSoa ·)) := by
  have hf (p : Place) (hp : p ≠ .soa) : (rrs.filter (!isSoa ·)).filter (place origin · = p) = part origin rrs p := by
    rw [filter_filter]
    refine filter_congr fun rr _ => ?_
    have h := (place_spec origin rr).1
    cases hs : isSoa rr
    case true => simp [h.mp hs, hp.symm]
    case false => simp
  have parts : ([.sigsoa, .ns, .signs, .tree].flatMap fun p =>
      (rrs.filter (!isSoa ·)).filter (place origin · = p)).Perm (rrs.filter (!isSoa ·)) := by
    refine flatMap_filter_perm (fun p rr => place origin rr = p) (by simp +contextual) fun rr hr => ?_
    have hs := (mem_filter.mp hr).2
    have := (place_spec origin rr).1
    cases hp : place origin rr <;> simp_all
  simp only [flatMap_cons, flatMap_nil, append_nil, hf .sigsoa (by simp), hf .ns (by simp),
    hf .signs (by simp), hf .tree (by simp)] at parts
  simp only [append_assoc]
  exact (((h.append_left _).append_left _).append_left _).trans parts

end Place

section Tree

variable {dns : Labels} {z : Zone} {o : Name} {rrs : List RR} (range : Elem.Range)

theorem Elem.all_perm (e : Elem) : (e.all range).Perm e.rrs := by
  refine flatMap_filter_perm (fun t (rr : RR) => rr.rrtype = t) ?_ ?_
  · refine (range.nodup e).imp fun {t t'} h rr _ ht ht' => h ?_
    rw [←of_decide_eq_true ht, of_decide_eq_true ht']
  · intro rr hr
    refine ⟨rr.rrtype, (range.mem_iff e _).mpr ?_, by simp⟩
    exact ne_nil_of_mem (mem_filter.mpr ⟨hr, by simp⟩)

theorem Elem.all_filter (e : Elem) (t : RRType) : (e.all range).filter (·.rrtype = t) = e.type t := by
  have ht (t' : RRType) : (e.type t').filter (·.rrtype = t) = if t' = t then e.type t else [] := by
    split
    case isTrue h => simp [Elem.type, h]
    case isFalse h =>
      refine filter_eq_nil_iff.mpr fun rr hr => ?_
      have hr := (mem_filter.mp hr).2
      simp_all
  rw [Elem.all, filter_flatMap]
  by_cases hm : t ∈ range.types e
  case pos =>
    rw [flatMap_eq_of_unique hm (range.nodup e) fun t' _ hn => by rw [ht, if_neg hn], ht, if_pos rfl]
  case neg =>
    rw [not_not.mp (mt (range.mem_iff e t).mpr hm), flatMap_eq_nil_iff]
    intro t' hm'
    have hn : t' ≠ t := ne_of_mem_of_not_mem hm' hm
    rw [ht, if_neg hn]

theorem Tree.send_eq (t : Tree) : ((t.send range).run []).2 = t.all.map (Elem.all range) := by
  have hw (es : List Elem) (sent : List (List RR)) :
      ((es.forM fun e => modify (· ++ [e.all range]) : StateM (List (List RR)) PUnit).run sent).2 =
        sent ++ es.map (Elem.all range) := by
    induction es generalizing sent
    case nil => simp [StateT.run, pure, StateT.pure]
    case cons e es hi => simpa [forM_cons] using hi (sent ++ [e.all range])
  rw [Tree.send, Tree.walk, LLRB.Node.walk_eq, Tree.all_eq_toList]
  exact hw _ []

def Tree.sent (t : Tree) : List RR :=
  t.root.toList.flatMap (Elem.all range)

namespace Zone.Holds

variable (h : z.Holds dns o rrs)

include h

theorem sent_perm : (z.tree.sent range).Perm rrs := by
  have stores := h.valid.stores
  refine (Perm.flatMap_left _ fun e _ => Elem.all_perm range e).trans ?_
  rw [flatMap_congr fun e he => (stores.has e he).rrs_eq]
  refine flatMap_filter_perm (fun (e : Elem) (rr : RR) => order dns e.name rr.name = .eq) ?_ ?_
  · refine stores.sorted.imp fun {a b} hlt rr _ ha hb => ?_
    have := Std.TransCmp.eq_trans (of_decide_eq_true ha) (Std.OrientedCmp.eq_symm (of_decide_eq_true hb))
    simp [hlt] at this
  · intro rr hr
    obtain ⟨e, he, hn⟩ := stores.total rr hr
    exact ⟨e, he, decide_eq_true hn⟩

theorem sent_recordsAt (name : Str) (t : RRType) :
    recordsAt dns (z.tree.sent range) name t = recordsAt dns rrs name t := by
  have stores := h.valid.stores
  -- What is sent for an element has its name.
  have he (e : Elem) (hm : e ∈ z.tree.root.toList) :
      recordsAt dns (e.all range) name t = if order dns name e.name = .eq then e.type t else [] := by
    have hn (rr : RR) (hr : rr ∈ e.all range) : order dns name rr.name = order dns name e.name :=
      (Std.TransCmp.congr_right ((stores.has e hm).name_eq_of_mem ((Elem.all_perm range e).mem_iff.mp hr))).symm
    split
    case isTrue ho =>
      rw [←Elem.all_filter range]
      exact filter_congr fun rr hr => by simp [hn rr hr, ho]
    case isFalse ho => exact filter_eq_nil_iff.mpr fun rr hr => by simp [hn rr hr, ho]
  have hf : recordsAt dns (z.tree.sent range) name t =
      z.tree.root.toList.flatMap fun e => recordsAt dns (e.all range) name t :=
    filter_flatMap
  rw [hf]
  cases hs : z.search dns name
  case none =>
    rw [h.recordsAt_eq_nil hs, flatMap_eq_nil_iff]
    intro e hm
    rw [he e hm, if_neg]
    intro ho
    have := (Tree.search_eq_some_iff h.valid).mpr ⟨hm, ho⟩
    rw [search, this] at hs
    cases hs
  case some e =>
    obtain ⟨hm, ho⟩ := (Tree.search_eq_some_iff h.valid).mp hs
    have nodup : z.tree.root.toList.Nodup := stores.sorted.imp fun hlt hab => by
      simp [hab, Std.ReflCmp.compare_self] at hlt
    rw [flatMap_eq_of_unique hm nodup, he e hm, if_pos ho, h.type_eq hs]
    intro e' hm' hn
    rw [he e' hm', if_neg]
    exact fun ho' => hn (stores.eq_of_name_eq hm' hm (Std.TransCmp.eq_trans (Std.OrientedCmp.eq_symm ho') ho))

end Zone.Holds
end Tree

namespace Zone

section

variable (dns : Labels)

def rrset (z : Zone) (name : Str) (t : RRType) : List RR :=
  match z.search dns name with
  | none => []
  | some e => e.type t

structure Same (z z' : Zone) : Prop where
  origin_eq : z'.origin = z.origin
  apex_eq : z'.apex = z.apex
  rrset_eq : ∀ name t, z'.rrset dns name t = z.rrset dns name t

structure Keeps (z : Zone) (o : Name) (rrs : List RR) : Prop where
  apex_eq : z.apex = Apex.add o.text {} rrs
  holds : z.Holds dns o (part o.text rrs .tree)

end

section

variable {dns : Labels} {z z' : Zone} {o : Name} {rrs : List RR} {soa : RR}

theorem Holds.rrset_eq (h : z.Holds dns o rrs) (name : Str) (t : RRType) :
    z.rrset dns name t = recordsAt dns rrs name t := by
  rw [rrset]
  split
  case h_1 hs => exact (h.recordsAt_eq_nil hs t).symm
  case h_2 e hs => exact h.type_eq hs t

theorem keeps_of_load (hn : ∀ rr ∈ rrs, ∃ n : Name, rr.name = n.text)
    (hz : (new dns o.text).load dns rrs = some (.ok z)) : z.Keeps dns o (rrs.map (normalize dns)) where
  apex_eq := by
    have h := (load_apex hz).1
    rwa [new, dns.fqdn_text] at h
  holds := by
    rw [←filter_inTree_eq]
    exact load_holds hn hz

def body (range : Elem.Range) (z : Zone) : List RR :=
  z.apex.sigsoa ++ z.apex.ns ++ z.apex.signs ++ z.tree.sent range

theorem transfer_eq (range : Elem.Range) (hs : z.apex.soa = some soa) {serial : UInt32}
    (h : serial = 0 ∨ z.apex.getSOA.map (·.serial) ≠ some serial) :
    (z.transfer range serial).map List.flatten = .ok (soa :: z.body range ++ [soa]) := by
  have hn : ¬(serial ≠ 0 ∧ z.apex.getSOA.map (·.serial) = some serial) := by
    rw [not_and_or, not_not]
    exact h
  simp only [transfer, Apex.records, hs, bind, Except.bind]
  rw [if_neg hn, Tree.send_eq, Tree.all_eq_toList]
  simp [pure, Except.pure, Except.map, body, Tree.sent, List.flatMap]

theorem write_eq (range : Elem.Range) (hs : z.apex.soa = some soa) :
    z.write range = some (soa :: z.body range) := by
  simp [write, hs, Tree.send_eq, Tree.all_eq_toList, body, Tree.sent, List.flatMap]

namespace Keeps

variable (k : z.Keeps dns o rrs) (hs : z.apex.soa = some soa) (range : Elem.Range)

include k

theorem body_eq : z.body range =
    part o.text rrs .sigsoa ++ part o.text rrs .ns ++ part o.text rrs .signs ++ z.tree.sent range := by
  rw [body, k.apex_eq, Apex.add_empty_eq]

theorem body_perm : (z.body range).Perm (rrs.filter (!isSoa ·)) := by
  rw [k.body_eq]
  exact parts_perm o.text (k.holds.sent_perm range)

include hs

theorem soa_mem : soa ∈ part o.text rrs .soa := by
  rw [k.apex_eq, Apex.add_empty_eq] at hs
  exact mem_of_getLast? hs

theorem part_stream {tail : List RR} (ht : ∀ rr ∈ tail, rr = soa) (p : Place) :
    part o.text (soa :: z.body range ++ tail) p = match p with
      | .soa => soa :: tail
      | .tree => z.tree.sent range
      | p => part o.text rrs p := by
  have hsoa : ∀ rr ∈ [soa], place o.text rr = .soa := by
    simpa using place_of_mem_part o.text (k.soa_mem hs)
  have htail : ∀ rr ∈ tail, place o.text rr = .soa := fun rr hr =>
    hsoa rr (by simp [ht rr hr])
  have htree : ∀ rr ∈ z.tree.sent range, place o.text rr = .tree := fun rr hr =>
    place_of_mem_part o.text ((k.holds.sent_perm range).mem_iff.mp hr)
  have hpart (p' : Place) : ∀ rr ∈ part o.text rrs p', place o.text rr = p' := fun rr =>
    place_of_mem_part o.text
  rw [k.body_eq, ←singleton_append]
  simp only [part_append, part_of_forall o.text hsoa, part_of_forall o.text htail, part_of_forall o.text htree,
    part_of_forall o.text (hpart _)]
  cases p <;> simp

theorem reload (hn : ∀ rr ∈ rrs, ∃ n : Name, rr.name = n.text)
    (hf : ∀ rr ∈ rrs, normalize dns rr = rr) (hr : ∀ rr ∈ rrs, ¬refused rr) {tail : List RR}
    (ht : ∀ rr ∈ tail, rr = soa) :
    ∃ z', (new dns z.origin).load dns (soa :: z.body range ++ tail) = some (.ok z') ∧ z.Same dns z' := by
  have hm (rr : RR) (hrr : rr ∈ soa :: z.body range ++ tail) : rr ∈ rrs := by
    have hsoa : soa ∈ rrs := mem_of_mem_filter (k.soa_mem hs)
    simp only [mem_append, mem_cons] at hrr
    obtain (rfl | hrr) | hrr := hrr
    · exact hsoa
    · exact mem_of_mem_filter ((k.body_perm range).mem_iff.mp hrr)
    · exact ht rr hrr ▸ hsoa
  obtain ⟨z', hl, h'⟩ := (Holds.new dns o).load_ok (fun rr h => hn rr (hm rr h)) fun rr h => hr rr (hm rr h)
  have k' := keeps_of_load (fun rr h => hn rr (hm rr h)) hl
  rw [map_congr_left fun rr h => hf rr (hm rr h), map_id'] at k'
  refine ⟨z', k.holds.origin_eq ▸ hl, ?_⟩
  constructor
  case origin_eq => rw [k.holds.origin_eq, k'.holds.origin_eq]
  case apex_eq =>
    have hl : (soa :: tail).getLast? = some soa := by
      rw [getLast?_eq_some_getLast (cons_ne_nil soa tail), Option.some.injEq]
      obtain h | h := mem_cons.mp (getLast_mem (cons_ne_nil soa tail))
      case inl => exact h
      case inr => exact ht _ h
    have hs' : (part o.text rrs .soa).getLast? = some soa := by rwa [k.apex_eq, Apex.add_empty_eq] at hs
    rw [k'.apex_eq, k.apex_eq, Apex.add_empty_eq, Apex.add_empty_eq]
    simp only [k.part_stream hs range ht, hl, hs']
  case rrset_eq =>
    intro name t
    have := k'.holds
    rw [k.part_stream hs range ht] at this
    rw [this.rrset_eq, k.holds.rrset_eq, k.holds.sent_recordsAt]

end Keeps

-- A transfer carries the whole zone, and so does the file of a signed zone. The two collect the records of an
-- element in orders of their own.
theorem transfer_carries (c : dns.Canonical) (hn : ∀ rr ∈ rrs, ∃ n : Name, rr.name = n.text)
    (hz : (new dns o.text).load dns rrs = some (.ok z)) (hs : z.apex.soa = some soa) (range range' : Elem.Range)
    {serial : UInt32} (h : serial = 0 ∨ z.apex.getSOA.map (·.serial) ≠ some serial) :
    (∃ body, (z.transfer range serial).map List.flatten = .ok (soa :: body ++ [soa]) ∧
      body.Perm ((rrs.map (normalize dns)).filter (!isSoa ·)) ∧
      ∃ z', (new dns z.origin).load dns (soa :: body ++ [soa]) = some (.ok z') ∧ z.Same dns z') ∧
    ∃ body, z.write range' = some (soa :: body) ∧ body.Perm ((rrs.map (normalize dns)).filter (!isSoa ·)) ∧
      ∃ z', (new dns z.origin).load dns (soa :: body) = some (.ok z') ∧ z.Same dns z' := by
  have k := keeps_of_load hn hz
  have named : ∀ rr ∈ rrs.map (normalize dns), ∃ n : Name, rr.name = n.text :=
    forall_mem_map.mpr fun rr hr => normalize_named dns (hn rr hr)
  have fixed : ∀ rr ∈ rrs.map (normalize dns), normalize dns rr = rr :=
    forall_mem_map.mpr fun rr hr => normalize_idem c (hn rr hr)
  have accepted : ∀ rr ∈ rrs.map (normalize dns), ¬refused rr :=
    forall_mem_map.mpr fun rr hr => refused_normalize dns rr ▸ load_ok_refused hz rr hr
  constructor
  · exact ⟨_, transfer_eq range hs h, k.body_perm range, k.reload hs range named fixed accepted (by simp)⟩
  · have hr := k.reload hs range' named fixed accepted (forall_mem_nil (· = soa))
    rw [append_nil] at hr
    exact ⟨_, write_eq range' hs, k.body_perm range', hr⟩

end

namespace Carried

open File.Sample

def records : List RR := [
  soa,
  ⟨top.text, 3600, .ns "ns.example."⟩,
  address (server :: top) "192.0.2.1",
  address (server :: top) "192.0.2.2",
  ⟨Name.text (sub :: top), 3600, .cname "ns.example."⟩
]

theorem records_named : ∀ rr ∈ records, ∃ n : Name, rr.name = n.text := by
  simp only [records, forall_mem_cons, not_mem_nil, false_imp_iff, implies_true, and_true]
  exact ⟨⟨top, rfl⟩, ⟨top, rfl⟩, ⟨server :: top, rfl⟩, ⟨server :: top, rfl⟩, ⟨sub :: top, rfl⟩⟩

theorem loaded : (new .reference top.text).load .reference records = some (.ok (zone records)) := by
  rfl

def range : Elem.Range where
  types e := (e.rrs.map (·.rrtype)).dedup
  nodup e := nodup_dedup _
  mem_iff e t := by simp [Elem.type]

end Carried

open File.Sample Carried in
theorem transfer_carries_sample :
    (∃ body, ((zone records).transfer range 7).map List.flatten = .ok (soa :: body ++ [soa]) ∧
      body.Perm ((records.map (normalize .reference)).filter (!isSoa ·)) ∧
      ∃ z', (new .reference (zone records).origin).load .reference (soa :: body ++ [soa]) = some (.ok z') ∧
        (zone records).Same .reference z') ∧ ∃ body, (zone records).write range = some (soa :: body) ∧
      body.Perm ((records.map (normalize .reference)).filter (!isSoa ·)) ∧
      ∃ z', (new .reference (zone records).origin).load .reference (soa :: body) = some (.ok z') ∧
        (zone records).Same .reference z' :=
  transfer_carries .reference records_named loaded rfl range range (.inr (by decide))

end Zone
end File
