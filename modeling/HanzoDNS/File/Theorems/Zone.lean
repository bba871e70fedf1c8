import HanzoDNS.File.Zone
import HanzoDNS.File.Theorems.Less
import HanzoDNS.File.Theorems.Tree

open Dns Domain List Option

namespace File

open Zone Apex

section Order

variable (dns : Labels)

theorem order_eq (a b : Str) : order dns a b = compare (key dns a) (key dns b) := by
  rw [order, less_eq, getD_some]

instance transCmp_order : Std.TransCmp (order dns) := by
  have h : order dns = compareOn (key dns) := funext fun a => funext fun b => order_eq dns a b
  rw [h]
  infer_instance

theorem order_eq_iff (a b : Str) : order dns a b = .eq ↔ key dns a = key dns b := by
  rw [order_eq, Std.LawfulEqOrd.compare_eq_iff_eq]

theorem key_text_ne_nil (n : Name) : key dns n.text ≠ [] := by
  by_cases h : n = []
  case pos => simp [h, Name.text, key_root]
  case neg => simpa [key_text dns h] using h

theorem key_root_ne {n : Name} (h : n ≠ []) : key dns n.text ≠ [[46]] := by
  obtain rfl | ⟨l, x, hr⟩ := reverse_cases n
  case inl => contradiction
  case inr =>
    rw [key_of_reverse dns hr]
    intro h
    exact stored_ne_root l (List.cons.inj h).1

theorem order_text_eq_iff (n m : Name) : order dns n.text m.text = .eq ↔ n.map stored = m.map stored := by
  rw [order_eq_iff]
  by_cases hn : n = [] <;> by_cases hm : m = []
  · simp [hn, hm]
  · simpa [hn, hm, Name.text, key_root, eq_comm] using key_root_ne dns hm
  · simpa [hn, hm, Name.text, key_root] using key_root_ne dns hn
  · rw [key_text dns hn, key_text dns hm, map_reverse, map_reverse, reverse_inj]

-- A name is above another if the labels of the one are the last labels of the other.
def Encloses (n : Name) (s : Str) : Prop :=
  n.reverse.map stored <+: key dns s ∧ order dns n.text s ≠ .eq

instance (n : Name) (s : Str) : Decidable (Encloses dns n s) :=
  inferInstanceAs (Decidable (_ ∧ _))

theorem encloses_text_iff (n m : Name) :
    Encloses dns n m.text ↔ n.map stored <:+ m.map stored ∧ n.length < m.length := by
  rw [Encloses, ne_eq, order_text_eq_iff]
  by_cases hm : m = []
  case pos =>
    subst hm
    simp only [Name.text, key_root, map_nil, map_eq_nil_iff, length_nil, Nat.not_lt_zero,
      and_false, iff_false, not_and, not_not]
    intro h
    obtain rfl | ⟨l, x, hr⟩ := reverse_cases n
    case inl => rfl
    case inr =>
      rw [hr, map_cons, cons_prefix_cons] at h
      exact absurd h.1 (stored_ne_root l)
  case neg =>
    rw [key_text dns hm, map_reverse, map_reverse, reverse_prefix]
    refine and_congr_right fun h => ?_
    have hl := h.length_le
    simp only [length_map] at hl
    constructor
    case mp =>
      intro hn
      refine lt_of_le_of_ne hl fun he => hn (h.eq_of_length ?_)
      simpa using he
    case mpr =>
      intro hlt he
      have := congrArg List.length he
      simp at this
      omega

end Order

section Names

variable (dns : Labels)

def Owns (rrs : List RR) (n : Name) : Prop :=
  ∃ rr ∈ rrs, order dns n.text rr.name = .eq

def HasBelow (rrs : List RR) (n : Name) : Prop :=
  ∃ rr ∈ rrs, Encloses dns n rr.name

def OwnsType (rrs : List RR) (n : Name) (t : RRType) : Prop :=
  ∃ rr ∈ rrs, order dns n.text rr.name = .eq ∧ rr.rrtype = t

def recordsAt (rrs : List RR) (name : Str) (t : RRType) : List RR :=
  rrs.filter fun rr => order dns name rr.name = .eq ∧ rr.rrtype = t

instance : Decidable (Owns dns rrs n) :=
  inferInstanceAs (Decidable (∃ rr ∈ rrs, _))

instance : Decidable (HasBelow dns rrs n) :=
  inferInstanceAs (Decidable (∃ rr ∈ rrs, _))

instance : Decidable (OwnsType dns rrs n t) :=
  inferInstanceAs (Decidable (∃ rr ∈ rrs, _))

end Names

@[simp]
theorem rrtype_lowerData (data : RData) : (lowerData data).rrtype = data.rrtype := by
  cases data <;> rfl

def inTree (origin : Str) (rr : RR) : Bool :=
  match rr.data with
  | .ns _ => rr.name ≠ origin
  | .soa _ => false
  | .rrsig typeCovered _ => typeCovered ≠ .soa ∧ ¬(typeCovered = .ns ∧ rr.name = origin)
  | _ => true

def refused (rr : RR) : Bool :=
  rr.rrtype = .nsec3 ∨ rr.rrtype = .nsec3param

section Load

variable (dns : Labels)

def inner (origin : Str) (rrs : List RR) : List RR :=
  (rrs.map (normalize dns)).filter (inTree origin)

theorem inner_cons (origin : Str) (rr : RR) (rrs : List RR) :
    inner dns origin (rr :: rrs) = [normalize dns rr].filter (inTree origin) ++ inner dns origin rrs := by
  rw [inner, inner, ←filter_append]
  rfl

structure Zone.Holds (z : Zone) (o : Name) (rrs : List RR) : Prop where
  origin_eq : z.origin = o.text
  origLen_eq : z.origLen = o.length
  valid : z.tree.Valid (order dns) rrs
  owners : ∀ e ∈ z.tree.root.toList, ∃ rr ∈ rrs, e.name = rr.name
  named : ∀ rr ∈ rrs, ∃ n : Name, rr.name = n.text
  lowered : ∀ rr ∈ rrs, rr.rrtype ≠ .srv → Strings.toLower rr.name = rr.name
  apexNs : ∀ rr ∈ rrs, rr.rrtype = .ns → rr.name ≠ o.text

variable {dns} {z z' : Zone} {o : Name} {rrs rrs' : List RR} {rr : RR} {err : Str}

theorem normalize_named (dns : Labels) (h : ∃ n : Name, rr.name = n.text) :
    ∃ n : Name, (normalize dns rr).name = n.text := by
  obtain ⟨n, hn⟩ := h
  obtain ⟨m, hm⟩ : ∃ m : Name, canonicalEscape dns rr.name = m.text := by
    rw [canonicalEscape, hn]
    split
    case isFalse => exact ⟨n, rfl⟩
    case isTrue =>
      cases hr : dns.repack n.text
      case none => exact ⟨n, rfl⟩
      case some s =>
        obtain ⟨m, rfl, -⟩ := dns.repack_text n s hr
        exact ⟨m, rfl⟩
  rw [normalize]
  split
  case isTrue => exact ⟨n, hn⟩
  case isFalse => exact ⟨_, hm ▸ Name.toLower_text m⟩

theorem normalize_lowered (h : (normalize dns rr).rrtype ≠ .srv) :
    Strings.toLower (normalize dns rr).name = (normalize dns rr).name := by
  have h : rr.rrtype ≠ .srv := by simpa [normalize, RR.rrtype] using h
  simp [normalize, h]

theorem inTree_ns (h : inTree z.origin rr) (ht : rr.rrtype = .ns) : rr.name ≠ z.origin := by
  obtain ⟨target, hd⟩ := RData.exists_ns ht
  simpa [inTree, hd] using h

namespace Zone

theorem Holds.new (dns : Labels) (o : Name) : (new dns o.text).Holds dns o [] where
  origin_eq := dns.fqdn_text o
  origLen_eq := by rw [Zone.new, dns.fqdn_text, dns.countLabel_text]
  valid := .new
  owners := by simp [Zone.new, Tree.new]
  named := by simp
  lowered := by simp
  apexNs := by simp

theorem Holds.of_tree_eq (h : z.Holds dns o rrs) (apex : Apex) : { z with apex }.Holds dns o rrs :=
  ⟨h.origin_eq, h.origLen_eq, h.valid, h.owners, h.named, h.lowered, h.apexNs⟩

theorem Holds.insertTree (h : z.Holds dns o rrs) (hn : ∃ n : Name, rr.name = n.text)
    (hl : rr.rrtype ≠ .srv → Strings.toLower rr.name = rr.name) (hi : inTree z.origin rr) :
    ∃ z', z.insertTree dns rr = some (.ok z') ∧ z'.Holds dns o (rrs ++ [rr]) := by
  obtain ⟨t, ht, v⟩ := h.valid.insert rr
  have owners : ∀ e ∈ t.root.toList, ∃ r ∈ rrs ++ [rr], e.name = r.name := by
    intro e he
    obtain ⟨e', he', hn⟩ | hn := Tree.name_of_insert h.valid ht he
    case inr => exact ⟨rr, by simp, hn⟩
    case inl =>
      obtain ⟨r, hr, hn'⟩ := h.owners e' he'
      exact ⟨r, by simp [hr], hn.trans hn'⟩
  refine ⟨{ z with tree := t }, by simp [Zone.insertTree, ht], h.origin_eq, h.origLen_eq, v, owners, ?_, ?_, ?_⟩ <;>
    (intro r hr; obtain hr | rfl : r ∈ rrs ∨ r = rr := by simpa using hr)
  · exact h.named r hr
  · exact hn
  · exact h.lowered r hr
  · exact hl
  · exact h.apexNs r hr
  · exact fun ht => h.origin_eq ▸ inTree_ns hi ht

theorem Holds.insert (h : z.Holds dns o rrs) (hn : ∃ n : Name, rr.name = n.text) :
    ∃ r, z.insert dns rr = some r ∧ ∀ z', r = .ok z' →
      z'.Holds dns o (rrs ++ [normalize dns rr].filter (inTree o.text)) := by
  have hn := normalize_named dns hn
  have hl : (normalize dns rr).rrtype ≠ .srv → _ := normalize_lowered
  rw [Zone.insert]
  generalize normalize dns rr = rr at hn hl
  have tree (hi : inTree z.origin rr) : ∃ r, z.insertTree dns rr = some r ∧ ∀ z', r = .ok z' →
      z'.Holds dns o (rrs ++ [rr].filter (inTree o.text)) := by
    obtain ⟨z', hz, h'⟩ := h.insertTree hn hl hi
    refine ⟨_, hz, ?_⟩
    rintro _ ⟨⟩
    simpa [h.origin_eq ▸ hi] using h'
  have apex (hi : ¬inTree z.origin rr) (a : Apex) : ∃ r, some (Except.ok { z with apex := a }) = some r ∧
      ∀ z', (r : Except Str Zone) = .ok z' → z'.Holds dns o (rrs ++ [rr].filter (inTree o.text)) := by
    refine ⟨_, rfl, ?_⟩
    rintro _ ⟨⟩
    simpa [h.origin_eq ▸ hi] using h.of_tree_eq a
  obtain ⟨name, ttl, data⟩ := rr
  cases data
  case ns =>
    by_cases ho : name = z.origin
    case pos => simpa only [ho, if_true] using apex (by simp [inTree, ho]) _
    case neg => simpa only [ho, if_false] using tree (by simp [inTree, ho])
  case soa => exact apex (by simp [inTree]) _
  case rrsig typeCovered rest =>
    by_cases hs : typeCovered = .soa
    case pos => simpa only [hs, if_true] using apex (by simp [inTree, hs]) _
    case neg =>
      by_cases ho : typeCovered = .ns ∧ name = z.origin
      case pos =>
        dsimp only
        rw [if_neg hs, if_pos ho]
        exact apex (by simp [inTree, ho]) _
      case neg =>
        dsimp only
        rw [if_neg hs, if_neg ho]
        exact tree (decide_eq_true ⟨hs, ho⟩)
  case other rrtype rdata untyped =>
    by_cases h3 : rrtype = .nsec3 ∨ rrtype = .nsec3param
    case pos =>
      simp only [h3, if_true]
      exact ⟨_, rfl, by simp⟩
    case neg => simpa only [h3, if_false] using tree (by simp [inTree])
  all_goals exact tree (by simp [inTree])

theorem Holds.load (h : z.Holds dns o rrs) (hn : ∀ rr ∈ rrs', ∃ n : Name, rr.name = n.text) :
    ∃ r, z.load dns rrs' = some r ∧ ∀ z', r = .ok z' → z'.Holds dns o (rrs ++ inner dns o.text rrs') := by
  induction rrs' generalizing z rrs
  case nil =>
    refine ⟨_, rfl, ?_⟩
    rintro _ ⟨⟩
    simpa [inner] using h
  case cons rr rrs' hi =>
    obtain ⟨r, hr, h'⟩ := h.insert (hn rr (by simp))
    cases r
    case error e => exact ⟨.error e, by simp [load, hr], by simp⟩
    case ok z₁ =>
      obtain ⟨r, hl, h''⟩ := hi (h' z₁ rfl) fun rr hm => hn rr (mem_cons_of_mem _ hm)
      refine ⟨r, by simpa [load, hr] using hl, fun z' hz => ?_⟩
      rw [inner_cons, ←append_assoc]
      exact h'' z' hz

theorem insert_error (h : z.insert dns rr = some (.error err)) : refused rr := by
  have hr : (normalize dns rr).rrtype = rr.rrtype := rrtype_lowerData rr.data
  rw [refused, ←hr]
  rw [insert] at h
  generalize normalize dns rr = rr at h
  have tree {p : Prop} (h : z.insertTree dns rr = some (.error err)) : p := by
    cases ht : z.tree.insert (order dns) rr <;> simp [insertTree, ht] at h
  obtain ⟨name, ttl, data⟩ := rr
  cases data
  case other rrtype rdata untyped =>
    dsimp only at h
    split at h
    case isTrue h3 => exact decide_eq_true h3
    case isFalse => exact tree h
  all_goals
    dsimp only at h
    repeat' split at h
    all_goals first | exact tree h | cases h

theorem insert_refused (z : Zone) (h : refused rr) : ∃ err, z.insert dns rr = some (.error err) := by
  have hr : (normalize dns rr).rrtype = rr.rrtype := rrtype_lowerData rr.data
  have h : (normalize dns rr).rrtype = .nsec3 ∨ (normalize dns rr).rrtype = .nsec3param := by
    simpa [refused, hr] using h
  rw [insert]
  generalize normalize dns rr = rr at h
  obtain ⟨name, ttl, data⟩ := rr
  cases data
  case other rrtype rdata untyped => exact ⟨_, if_pos h⟩
  all_goals
    simp only [RR.rrtype, RData.rrtype] at h
    exact absurd h (by decide)

theorem Holds.insert_ok (h : z.Holds dns o rrs) (hn : ∃ n : Name, rr.name = n.text) (hr : ¬refused rr) :
    ∃ z', z.insert dns rr = some (.ok z') ∧ z'.Holds dns o (rrs ++ [normalize dns rr].filter (inTree o.text)) := by
  obtain ⟨r, hi, h'⟩ := h.insert hn
  cases r
  case error => exact absurd (insert_error hi) hr
  case ok z' => exact ⟨z', hi, h' z' rfl⟩

theorem Holds.load_ok (h : z.Holds dns o rrs) (hn : ∀ rr ∈ rrs', ∃ n : Name, rr.name = n.text)
    (hr : ∀ rr ∈ rrs', ¬refused rr) :
    ∃ z', z.load dns rrs' = some (.ok z') ∧ z'.Holds dns o (rrs ++ inner dns o.text rrs') := by
  induction rrs' generalizing z rrs
  case nil => exact ⟨z, rfl, by simpa [inner] using h⟩
  case cons rr rrs' hi =>
    obtain ⟨z₁, hz, h₁⟩ := h.insert_ok (hn rr (by simp)) (hr rr (by simp))
    obtain ⟨z₂, hl, h₂⟩ := hi h₁ (fun rr hm => hn rr (mem_cons_of_mem _ hm))
      fun rr hm => hr rr (mem_cons_of_mem _ hm)
    refine ⟨z₂, by simpa [Zone.load, hz] using hl, ?_⟩
    rwa [append_assoc, ←inner_cons] at h₂

theorem load_ok_refused (h : z.load dns rrs = some (.ok z')) : ∀ rr ∈ rrs, ¬refused rr := by
  induction rrs generalizing z
  case nil => simp
  case cons rr rrs hi =>
    simp only [load, bind_eq_bind, bind_eq_some_iff] at h
    obtain ⟨r, hr, h⟩ := h
    cases r
    case error => cases h
    case ok z₁ =>
      refine forall_mem_cons.mpr ⟨fun hrr => ?_, hi h⟩
      obtain ⟨err, he⟩ := insert_refused z hrr
      rw [hr] at he
      cases he

theorem load_append (rrs' : List RR) (h : z.load dns rrs = some (.ok z')) :
    z.load dns (rrs ++ rrs') = z'.load dns rrs' := by
  induction rrs generalizing z
  case nil =>
    cases h
    rfl
  case cons rr rrs hi =>
    simp only [load, bind_eq_bind, bind_eq_some_iff] at h
    obtain ⟨r, hr, h⟩ := h
    cases r
    case error => cases h
    case ok z₁ => simpa [load, hr] using hi h

theorem load_holds (hn : ∀ rr ∈ rrs, ∃ n : Name, rr.name = n.text)
    (h : (new dns o.text).load dns rrs = some (.ok z)) : z.Holds dns o (inner dns o.text rrs) := by
  obtain ⟨r, hr, h'⟩ := (Holds.new dns o).load hn
  rw [h] at hr
  exact h' z (Option.some.inj hr).symm

namespace Holds

variable {n : Name} {e : Elem}

section

variable (h : z.Holds dns o rrs)

include h

theorem search_eq_none_iff : z.search dns n.text = none ↔ ¬Owns dns rrs n := by
  rw [search, Tree.search_eq_none_iff h.valid]
  simp [Owns]

theorem search_isSome_iff : (z.search dns n.text).isSome ↔ Owns dns rrs n := by
  rw [isSome_iff_ne_none, ne_eq, h.search_eq_none_iff, not_not]

theorem type_ne_nil_iff (hs : z.search dns n.text = some e) (t : RRType) :
    e.type t ≠ [] ↔ OwnsType dns rrs n t := by
  rw [Tree.search_type h.valid hs, ne_eq, filter_eq_nil_iff]
  simp [OwnsType]

theorem type_eq {name : Str} (hs : z.search dns name = some e) (t : RRType) :
    e.type t = recordsAt dns rrs name t :=
  Tree.search_type h.valid hs t

theorem recordsAt_eq_nil {name : Str} (hs : z.search dns name = none) (t : RRType) :
    recordsAt dns rrs name t = [] := by
  have hn := (Tree.search_eq_none_iff h.valid).mp hs
  simp only [recordsAt, filter_eq_nil_iff, decide_eq_true_eq, not_and]
  exact fun rr hr ho => absurd ho (hn rr hr)

theorem search_nil : z.search dns [] = none := by
  rw [search, Tree.search_eq_none_iff h.valid]
  intro rr hr
  obtain ⟨n, hn⟩ := h.named rr hr
  rw [hn, ne_eq, order_eq_iff, key_nil, eq_comm]
  exact key_text_ne_nil dns n

end

end Holds
end Zone
end Load

namespace Sample

def soa : RR where
  name := top.text
  ttl := 3600
  data := .soa ⟨"ns.example.", "admin.example.", 1, 7200, 3600, 86400, 300⟩

def address (n : Name) (rdata : Str) : RR :=
  Tree.Sample.address n.text rdata

def zone (records : List RR) : Zone :=
  match (new .reference top.text).load .reference records with
  | some (.ok z) => z
  | _ => .new .reference []

end Sample

section Apex

def covers (t : RRType) (rr : RR) : Bool :=
  match rr.data with
  | .rrsig typeCovered _ => typeCovered = t
  | _ => false

def isSoa (rr : RR) : Bool :=
  match rr.data with
  | .soa _ => true
  | _ => false

def isNs (rr : RR) : Bool :=
  match rr.data with
  | .ns _ => true
  | _ => false

section

variable {rr : RR}

theorem rrtype_of_covers {t : RRType} (h : covers t rr) : rr.rrtype = .rrsig := by
  obtain ⟨name, ttl, data⟩ := rr
  cases data
  case rrsig => rfl
  all_goals simp [covers] at h

theorem rrtype_of_isNs (h : isNs rr) : rr.rrtype = .ns := by
  obtain ⟨name, ttl, data⟩ := rr
  cases data
  case ns => rfl
  all_goals simp [isNs] at h

end

def Apex.add (origin : Str) (a : Apex) (rrs : List RR) : Apex where
  soa := (rrs.filter isSoa).getLast?.or a.soa
  ns := a.ns ++ rrs.filter fun rr => isNs rr ∧ rr.name = origin
  sigsoa := a.sigsoa ++ rrs.filter (covers .soa)
  signs := a.signs ++ rrs.filter fun rr => covers .ns rr ∧ rr.name = origin

theorem Apex.add_nil (origin : Str) (a : Apex) : a.add origin [] = a := by
  simp [add]

theorem Apex.add_append (origin : Str) (a : Apex) (rrs rrs' : List RR) :
    a.add origin (rrs ++ rrs') = (a.add origin rrs).add origin rrs' := by
  simp [add, List.getLast?_append, Option.or_assoc]

theorem Apex.add_eq_self {origin : Str} {rr : RR} (a : Apex) (h : inTree origin rr) : a.add origin [rr] = a := by
  obtain ⟨name, ttl, data⟩ := rr
  cases data
  case rrsig typeCovered _ =>
    obtain ⟨hs, hn⟩ : typeCovered ≠ .soa ∧ ¬(typeCovered = .ns ∧ name = origin) := of_decide_eq_true h
    simp [add, covers, isSoa, isNs, hs, hn]
  all_goals simp_all [add, covers, inTree, isSoa, isNs]

variable {dns : Labels} {z z' : Zone} {rr : RR} {rrs : List RR}

theorem ns_ne_soa : RRType.ns ≠ RRType.soa := by
  decide

theorem Zone.insertTree_apex (h : z.insertTree dns rr = some (.ok z')) : z'.apex = z.apex ∧ z'.origin = z.origin := by
  simp only [insertTree, bind_eq_bind, bind_eq_some_iff, Option.some.injEq, Except.ok.injEq] at h
  obtain ⟨t, -, rfl⟩ := h
  exact ⟨rfl, rfl⟩

theorem Zone.insert_apex (h : z.insert dns rr = some (.ok z')) :
    z'.apex = z.apex.add z.origin [normalize dns rr] ∧ z'.origin = z.origin := by
  rw [insert] at h
  generalize normalize dns rr = rr at h
  have tree (hi : inTree z.origin rr) (h : z.insertTree dns rr = some (.ok z')) :
      z'.apex = z.apex.add z.origin [rr] ∧ z'.origin = z.origin := by
    rw [add_eq_self _ hi]
    exact insertTree_apex h
  obtain ⟨name, ttl, data⟩ := rr
  cases data
  case ns ns =>
    dsimp only at h
    split at h
    case isTrue ho =>
      cases h
      simp [add, covers, isSoa, isNs, ho]
    case isFalse ho => exact tree (by simp [inTree, ho]) h
  case soa =>
    cases h
    simp [add, covers, isSoa, isNs]
  case rrsig typeCovered rest =>
    dsimp only at h
    split at h
    case isTrue hs =>
      cases h
      simp [add, covers, isSoa, isNs, hs, ns_ne_soa.symm]
    case isFalse hs =>
      split at h
      case isTrue ho =>
        cases h
        simp [add, covers, isSoa, isNs, ho, ns_ne_soa]
      case isFalse ho => exact tree (decide_eq_true ⟨hs, ho⟩) h
  case other rrtype rdata untyped =>
    dsimp only at h
    split at h
    case isTrue => cases h
    case isFalse => exact tree (by simp [inTree]) h
  all_goals exact tree (by simp [inTree]) h

theorem Zone.load_apex (h : z.load dns rrs = some (.ok z')) :
    z'.apex = z.apex.add z.origin (rrs.map (normalize dns)) ∧ z'.origin = z.origin := by
  induction rrs generalizing z
  case nil =>
    cases h
    exact ⟨(add_nil _ _).symm, rfl⟩
  case cons rr rrs hi =>
    simp only [load, bind_eq_bind, bind_eq_some_iff] at h
    obtain ⟨r, hr, h⟩ := h
    cases r
    case error => cases h
    case ok z₁ =>
      obtain ⟨ha, ho⟩ := insert_apex hr
      obtain ⟨ha', ho'⟩ := hi h
      rw [ha, ho, ←add_append] at ha'
      exact ⟨ha', ho'.trans ho⟩

end Apex
end File
