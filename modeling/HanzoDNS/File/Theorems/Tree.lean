import HanzoDNS.File.Tree
import HanzoDNS.Lib.LLRB.Delete

open Dns LLRB

namespace File

open Elem Node

section

variable (less : Str → Str → Ordering)

def Tree.keeps (rr r : RR) : Bool :=
  ¬(less rr.name r.name = .eq ∧ r.rrtype = rr.rrtype)

-- What a tree is for: it holds records under their names and types, in the order of their insertion.
def Tree.Call.contents (rrs : List RR) : Tree.Call → List RR
  | insert rr => rrs ++ [rr]
  | delete rr => rrs.filter (keeps less rr)

def Tree.contents (calls : List Tree.Call) : List RR :=
  calls.foldl (Call.contents less) []

-- An element has at least one record, and exactly those of given records that have its name.
structure Elem.Has (e : Elem) (rrs : List RR) : Prop where
  rrs_eq : e.rrs = rrs.filter fun rr => less e.name rr.name = .eq
  nonempty : e.rrs ≠ []
  owner_eq : less e.owner e.name = .eq

-- The elements of a tree that holds given records: there is one for each name, in the order of the names.
structure Stores (es : List Elem) (rrs : List RR) : Prop where
  sorted : es.Pairwise fun a b => less a.name b.name = .lt
  has : ∀ e ∈ es, e.Has less rrs
  total : ∀ rr ∈ rrs, ∃ e ∈ es, less e.name rr.name = .eq

end

namespace Elem

variable {less : Str → Str → Ordering} {e : Elem} {rrs : List RR} {rr : RR}

@[simp]
theorem name_new (rr : RR) : (new rr).name = rr.name := by
  by_cases h : rr.name = [] <;> simp [new, name, h]

theorem name_insert (h : e.rrs ≠ []) (rr : RR) : (e.insert rr).name = e.name := by
  simp [name, insert, List.head?_append_of_ne_nil _ h]

theorem name_eq_owner_or_mem (e : Elem) : e.name = e.owner ∨ ∃ rr ∈ e.rrs, e.name = rr.name := by
  by_cases h : e.owner = []
  case neg => simp [name, h]
  case pos => cases hr : e.rrs <;> simp [name, h, hr]

@[simps]
def filter (e : Elem) (p : RR → Bool) : Elem :=
  { e with rrs := e.rrs.filter p }

@[simps]
def append (e : Elem) (rrs : List RR) : Elem :=
  { e with rrs := e.rrs ++ rrs }

@[simp]
theorem append_nil (e : Elem) : e.append [] = e := by
  simp [append]

theorem append_append (e : Elem) (rrs rrs' : List RR) : (e.append rrs).append rrs' = e.append (rrs ++ rrs') := by
  simp [append]

theorem insert_eq_append (e : Elem) (rr : RR) : e.insert rr = e.append [rr] :=
  rfl

theorem type_append (e : Elem) (rrs : List RR) (t : RRType) :
    (e.append rrs).type t = e.type t ++ rrs.filter (·.rrtype = t) :=
  List.filter_append ..

theorem name_append (h : e.rrs ≠ []) (rrs : List RR) : (e.append rrs).name = e.name := by
  simp [name, append, List.head?_append_of_ne_nil _ h]

namespace Has

theorem name_eq_of_mem (h : e.Has less rrs) (hr : rr ∈ e.rrs) : less e.name rr.name = .eq := by
  rw [h.rrs_eq] at hr
  simpa using (List.mem_filter.mp hr).2

theorem exists_mem (h : e.Has less rrs) : ∃ rr ∈ rrs, less e.name rr.name = .eq := by
  have ⟨rr, hr⟩ := List.exists_mem_of_ne_nil _ h.nonempty
  have hn := h.name_eq_of_mem hr
  rw [h.rrs_eq] at hr
  exact ⟨rr, (List.mem_filter.mp hr).1, hn⟩

theorem append (h : e.Has less rrs) (hn : less e.name rr.name ≠ .eq) : e.Has less (rrs ++ [rr]) where
  rrs_eq := by simp [hn, ←h.rrs_eq]
  nonempty := h.nonempty
  owner_eq := h.owner_eq

theorem insert (h : e.Has less rrs) (hn : less e.name rr.name = .eq) :
    (e.insert rr).Has less (rrs ++ [rr]) where
  rrs_eq := by simp [name_insert h.nonempty, hn, ←h.rrs_eq]
  nonempty := by simp
  owner_eq := by simpa [name_insert h.nonempty] using h.owner_eq

variable [Std.TransCmp less]

theorem new (h : ∀ r ∈ rrs, less rr.name r.name ≠ .eq) : (new rr).Has less (rrs ++ [rr]) where
  rrs_eq := by
    have : rrs.filter (fun r => less rr.name r.name = .eq) = [] := by simpa using h
    simp [this, Std.ReflCmp.compare_self]
  nonempty := by simp
  owner_eq := by simp [Std.ReflCmp.compare_self]

theorem name_filter (h : e.Has less rrs) (p : RR → Bool) : less (e.filter p).name e.name = .eq := by
  obtain hn | ⟨rr, hr, hn⟩ := (e.filter p).name_eq_owner_or_mem
  case inl => exact hn ▸ h.owner_eq
  case inr => exact hn ▸ Std.OrientedCmp.eq_symm (h.name_eq_of_mem (List.mem_filter.mp hr).1)

theorem filter (h : e.Has less rrs) {p : RR → Bool} (hn : (e.filter p).rrs ≠ []) :
    (e.filter p).Has less (rrs.filter p) where
  rrs_eq := by
    simp [Std.TransCmp.congr_left (h.name_filter p), h.rrs_eq, Bool.and_comm]
  nonempty := hn
  owner_eq := Std.TransCmp.eq_trans h.owner_eq (Std.OrientedCmp.eq_symm (h.name_filter p))

end Has
end Elem

namespace Stores

variable {less : Str → Str → Ordering} [Std.TransCmp less] {es as bs : List Elem} {rrs : List RR}
variable {e e' : Elem} {rr : RR}

theorem cuts (s : es.Pairwise fun a b => less a.name b.name = .lt) (name : Str) :
    Cuts (·.less less name) es := by
  refine s.imp fun {a b} h ha => ?_
  have ha : (less name a.name).isLE := by cases ho : less name a.name <;> simp_all [Elem.less]
  exact Std.TransCmp.lt_of_isLE_of_lt ha h

section Insert

variable (ha : ∀ a ∈ as, less rr.name a.name = .gt) (hb : ∀ b ∈ bs, less rr.name b.name = .lt)

include ha hb

theorem not_eq_of_mem (he : e ∈ as ∨ e ∈ bs) : less e.name rr.name ≠ .eq := by
  intro h
  have h := Std.OrientedCmp.eq_symm h
  obtain he | he := he
  case inl => simp [ha e he] at h
  case inr => simp [hb e he] at h

theorem absorb (s : Stores less (as ++ e :: bs) rrs) (h : less rr.name e.name = .eq) :
    Stores less (as ++ e.insert rr :: bs) (rrs ++ [rr]) := by
  have hn := name_insert (s.has e (by simp)).nonempty rr
  have h := Std.OrientedCmp.eq_symm h
  constructor
  case sorted => simpa [List.pairwise_append, hn] using s.sorted
  case has =>
    intro e' he
    obtain he | rfl : (e' ∈ as ∨ e' ∈ bs) ∨ e' = e.insert rr := by simpa [or_assoc, or_comm] using he
    case inl => exact (s.has e' (by grind)).append (not_eq_of_mem ha hb he)
    case inr => exact (s.has e (by simp)).insert h
  case total =>
    intro r hr
    obtain hr | rfl : r ∈ rrs ∨ r = rr := by simpa using hr
    case inr => exact ⟨e.insert r, by simp, by rwa [hn]⟩
    case inl =>
      obtain ⟨e', he, hr⟩ := s.total r hr
      obtain he | rfl : (e' ∈ as ∨ e' ∈ bs) ∨ e' = e := by grind
      case inl => exact ⟨e', by grind, hr⟩
      case inr => exact ⟨e'.insert rr, by simp, by rwa [hn]⟩

theorem add (s : Stores less (as ++ bs) rrs) : Stores less (as ++ .new rr :: bs) (rrs ++ [rr]) := by
  constructor
  case sorted =>
    obtain ⟨has, hbs, hab⟩ := List.pairwise_append.mp s.sorted
    simp only [List.pairwise_append, List.pairwise_cons, List.mem_cons, forall_eq_or_imp, name_new]
    exact ⟨has, ⟨hb, hbs⟩, fun a h => ⟨Std.OrientedCmp.lt_of_gt (ha a h), hab a h⟩⟩
  case has =>
    have hn : ∀ r ∈ rrs, less rr.name r.name ≠ .eq := by
      intro r hr h
      obtain ⟨e', he, hr⟩ := s.total r hr
      refine not_eq_of_mem ha hb (e := e') (by simpa using he) ?_
      exact Std.TransCmp.eq_trans hr (Std.OrientedCmp.eq_symm h)
    intro e' he
    obtain he | rfl : (e' ∈ as ∨ e' ∈ bs) ∨ e' = .new rr := by simpa [or_assoc, or_comm] using he
    case inl => exact (s.has e' (by simpa using he)).append (not_eq_of_mem ha hb he)
    case inr => exact .new hn
  case total =>
    intro r hr
    obtain hr | rfl : r ∈ rrs ∨ r = rr := by simpa using hr
    case inr => exact ⟨.new r, by simp, by simp [Std.ReflCmp.compare_self]⟩
    case inl =>
      obtain ⟨e', he, hr⟩ := s.total r hr
      exact ⟨e', by grind, hr⟩

end Insert

theorem sorted_filter (s : Stores less es rrs) (p : RR → Bool) :
    (es.map (·.filter p)).Pairwise fun a b => less a.name b.name = .lt := by
  refine List.pairwise_map.mpr <| s.sorted.imp_of_mem fun {a b} ha hb h => ?_
  rwa [Std.TransCmp.congr_left ((s.has a ha).name_filter p),
    Std.TransCmp.congr_right ((s.has b hb).name_filter p)]

theorem filter (s : Stores less es rrs) (p : RR → Bool) :
    Stores less ((es.map (·.filter p)).filter (!·.empty)) (rrs.filter p) := by
  constructor
  case sorted => exact (s.sorted_filter p).filter _
  case has =>
    intro e' he
    obtain ⟨he, hn⟩ := List.mem_filter.mp he
    obtain ⟨e, hm, rfl⟩ := List.mem_map.mp he
    exact (s.has e hm).filter (by simpa [empty] using hn)
  case total =>
    intro r hr
    obtain ⟨hr, hp⟩ := List.mem_filter.mp hr
    obtain ⟨e, he, hn⟩ := s.total r hr
    have hm : r ∈ e.rrs := by
      rw [(s.has e he).rrs_eq]
      simpa using ⟨hr, hn⟩
    refine ⟨e.filter p, ?_, (Std.TransCmp.congr_left ((s.has e he).name_filter p)).trans hn⟩
    have hne : (e.filter p).rrs ≠ [] := List.ne_nil_of_mem (List.mem_filter.mpr ⟨hm, hp⟩)
    exact List.mem_filter.mpr ⟨List.mem_map_of_mem he, by simpa [empty] using hne⟩

theorem eq_of_name_eq (s : Stores less es rrs) (he : e ∈ es) (he' : e' ∈ es)
    (h : less e.name e'.name = .eq) : e = e' := by
  have hs : es.Pairwise fun a b => less a.name b.name ≠ .eq :=
    s.sorted.imp fun h => by simp [h]
  have : Std.Symm fun a b : Elem => less a.name b.name ≠ .eq := ⟨fun _ _ => mt Std.OrientedCmp.eq_symm⟩
  by_contra hn
  exact hs.forall he he' hn h

end Stores

namespace Tree

variable (less : Str → Str → Ordering)

structure Valid (t : Tree) (rrs : List RR) : Prop where
  balanced : ∃ h, Balanced t.root .black h
  stores : Stores less t.root.toList rrs
  count_eq : t.count = t.root.toList.length

variable {less}

theorem Valid.new : Valid less .new [] where
  balanced := ⟨_, .nil⟩
  stores := ⟨by simp [Tree.new], by simp [Tree.new], by simp⟩
  count_eq := rfl

variable [Std.TransCmp less] {t : Tree} {rrs : List RR} {rr : RR} {e el : Elem}

theorem Valid.insert (v : Valid less t rrs) (rr : RR) :
    ∃ t', t.insert less rr = some t' ∧ Valid less t' (rrs ++ [rr]) := by
  obtain ⟨h, b⟩ := v.balanced
  obtain ⟨n, d, h', hi, b⟩ := insert_root b (·.less less rr.name) (.new rr) (·.insert rr)
  obtain ⟨as, bs, ha, hb, ho⟩ := insert_toList (Stores.cuts v.stores.sorted rr.name) hi
  refine ⟨{ root := n.setBlack, count := t.count + d }, by simp [Tree.insert, hi], ⟨h', b⟩, ?_, ?_⟩
  all_goals
    rw [setBlack_toList]
    obtain ⟨e, he, h₁, h₂, rfl⟩ | ⟨h₁, h₂, rfl⟩ := ho
  · exact h₂ ▸ .absorb ha hb (h₁ ▸ v.stores) he
  · exact h₂ ▸ .add ha hb (h₁ ▸ v.stores)
  · simp [v.count_eq, h₁, h₂]
  · simp [v.count_eq, h₁, h₂]
    omega

section Delete

theorem delete_eq_filter (h : e.Has less rrs) (hn : less rr.name e.name = .eq) :
    e.delete rr = e.filter (keeps less rr) := by
  have : ∀ r ∈ e.rrs, less rr.name r.name = .eq := fun r hr => Std.TransCmp.eq_trans hn (h.name_eq_of_mem hr)
  simp only [Elem.delete, Elem.filter, Elem.mk.injEq, true_and]
  refine List.filter_congr fun r hr => ?_
  simp [keeps, this r hr]

theorem filter_eq_self (h : e.Has less rrs) (hn : less rr.name e.name ≠ .eq) :
    e.filter (keeps less rr) = e := by
  have : ∀ r ∈ e.rrs, less rr.name r.name ≠ .eq :=
    fun r hr h' => hn <| Std.TransCmp.eq_trans h' (Std.OrientedCmp.eq_symm (h.name_eq_of_mem hr))
  obtain ⟨owner, rs⟩ := e
  simp only [Elem.filter, Elem.mk.injEq, true_and, List.filter_eq_self]
  exact fun r hr => by simp [keeps, this r hr]

theorem filter_empty_iff (s : Stores less es rrs) (hel : el ∈ es) (hn : less rr.name el.name = .eq) :
    ∀ e ∈ es, (e.filter (keeps less rr)).empty ↔ less rr.name e.name = .eq ∧ (el.delete rr).empty := by
  intro e he
  by_cases h : less rr.name e.name = .eq
  case pos =>
    obtain rfl := s.eq_of_name_eq hel he <| Std.TransCmp.eq_trans (Std.OrientedCmp.eq_symm hn) h
    simp [h, delete_eq_filter (s.has el hel) h]
  case neg => simpa [h, filter_eq_self (s.has e he) h, empty] using (s.has e he).nonempty

theorem filter_eq_self_of_forall (s : Stores less es rrs) (h : ∀ e ∈ es, less rr.name e.name ≠ .eq) :
    rrs.filter (keeps less rr) = rrs := by
  rw [List.filter_eq_self]
  intro r hr
  obtain ⟨e, he, hn⟩ := s.total r hr
  have : less rr.name r.name ≠ .eq :=
    fun hr => h e he <| Std.TransCmp.eq_trans hr (Std.OrientedCmp.eq_symm hn)
  simp [keeps, this]

theorem update_toList {n : Node Elem} (s : Stores less n.toList rrs) (rr : RR) :
    (n.update (·.less less rr.name) (·.delete rr)).toList = n.toList.map (·.filter (keeps less rr)) := by
  rw [Node.update_toList (Stores.cuts s.sorted rr.name)]
  refine List.map_congr_left fun e he => ?_
  split
  case isTrue h => exact delete_eq_filter (s.has e he) h
  case isFalse h => exact (filter_eq_self (s.has e he) h).symm

theorem erase_eq_filter (s : Stores less es rrs) (hel : el ∈ es) (hn : less rr.name el.name = .eq)
    (hd : (el.delete rr).empty) : erase (·.less less rr.name) (es.map (·.filter (keeps less rr))) =
    (es.map (·.filter (keeps less rr))).filter (!·.empty) := by
  rw [erase]
  refine List.filter_congr fun e' he' => ?_
  obtain ⟨e, hm, rfl⟩ := List.mem_map.mp he'
  have hn' := Std.TransCmp.congr_right (a := rr.name) ((s.has e hm).name_filter (keeps less rr))
  have he := filter_empty_iff s hel hn e hm
  simp only [hd, and_true] at he
  simp [Elem.less, hn', ←he]

theorem Valid.delete (v : Valid less t rrs) (rr : RR) :
    ∃ t', t.delete less rr = some t' ∧ Valid less t' (rrs.filter (keeps less rr)) := by
  have hc := Stores.cuts v.stores.sorted rr.name
  cases hs : t.search less rr.name
  case none =>
    have h := filter_eq_self_of_forall v.stores <| (search_eq_none_iff hc).mp hs
    exact ⟨t, by simp [Tree.delete, hs], h.symm ▸ v⟩
  case some el =>
    obtain ⟨hel, hn⟩ := (search_eq_some_iff hc).mp hs
    have hu := update_toList v.stores rr
    have hf := v.stores.filter (keeps less rr)
    obtain ⟨h, b⟩ := v.balanced
    have b := update_balanced b (·.less less rr.name) (·.delete rr)
    by_cases hd : (el.delete rr).empty
    case neg =>
      have he := filter_empty_iff v.stores hel hn
      rw [List.filter_eq_self.mpr (by simpa [hd] using he), ←hu] at hf
      exact ⟨_, by simp only [Tree.delete, hs, hd]; rfl, ⟨h, b⟩, hf, by simp [hu, v.count_eq]⟩
    case pos =>
      have hr : t.root.update (·.less less rr.name) (·.delete rr) ≠ .nil := by
        intro h
        rw [h, eq_comm, toList, List.map_eq_nil_iff] at hu
        simp [hu] at hel
      have hc := Stores.cuts (v.stores.sorted_filter (keeps less rr)) rr.name
      obtain ⟨n, d, h', hdel, b, ht, hlen⟩ := delete_root b hr (hu ▸ hc)
      rw [hu] at ht hlen
      refine ⟨{ root := n.setBlack, count := t.count + d }, ?_, ⟨h', b⟩, ?_, ?_⟩
      · simp only [Tree.delete, hs, hd, ↓reduceIte, deleteNode]
        simp [hdel]
      · rwa [setBlack_toList, ht, erase_eq_filter v.stores hel hn hd]
      · rw [setBlack_toList, v.count_eq, ←hlen, List.length_map]

end Delete

theorem run_valid (v : Valid less t rrs) (calls : List Call) :
    ∃ t', calls.foldlM (exec less) t = some t' ∧ Valid less t' (calls.foldl (Call.contents less) rrs) := by
  induction calls generalizing t rrs
  case nil => exact ⟨t, rfl, v⟩
  case cons c calls hi =>
    obtain ⟨t', he, v'⟩ : ∃ t', t.exec less c = some t' ∧ Valid less t' (c.contents less rrs) := by
      cases c
      case insert rr => exact v.insert rr
      case delete rr => exact v.delete rr
    obtain ⟨t'', hr, v''⟩ := hi v'
    exact ⟨t'', by simp [he, hr], v''⟩

theorem search_eq_some_iff (v : Valid less t rrs) {name : Str} :
    t.search less name = some e ↔ e ∈ t.root.toList ∧ less name e.name = .eq :=
  Node.search_eq_some_iff (Stores.cuts v.stores.sorted name)

theorem search_eq_none_iff (v : Valid less t rrs) {name : Str} :
    t.search less name = none ↔ ∀ rr ∈ rrs, less name rr.name ≠ .eq := by
  rw [search, Node.search_eq_none_iff (Stores.cuts v.stores.sorted name)]
  constructor
  case mp =>
    intro h rr hr hn
    obtain ⟨e, he, hn'⟩ := v.stores.total rr hr
    exact h e he <| Std.TransCmp.eq_trans hn (Std.OrientedCmp.eq_symm hn')
  case mpr =>
    intro h e he hn
    obtain ⟨rr, hr, hn'⟩ := (v.stores.has e he).exists_mem
    exact h rr hr <| Std.TransCmp.eq_trans hn hn'

theorem search_rrs (v : Valid less t rrs) {name : Str} (h : t.search less name = some e) :
    e.rrs = rrs.filter fun rr => less name rr.name = .eq := by
  obtain ⟨he, hn⟩ := (search_eq_some_iff v).mp h
  simp [(v.stores.has e he).rrs_eq, Std.TransCmp.congr_left hn]

theorem search_type (v : Valid less t rrs) {name : Str} (h : t.search less name = some e) (qtype : RRType) :
    e.type qtype = rrs.filter fun rr => less name rr.name = .eq ∧ rr.rrtype = qtype := by
  simp [type, search_rrs v h, Bool.and_comm]

section Neighbours

variable {t' : Tree} {x : Elem} {name : Str}

structure IsNext (less : Str → Str → Ordering) (t : Tree) (name : Str) (x : Elem) : Prop where
  mem : x ∈ t.root.toList
  notAfter : less name x.name ≠ .gt
  first : ∀ e ∈ t.root.toList, less name e.name ≠ .gt → less x.name e.name ≠ .gt

theorem first_of_find {p : Elem → Bool} {r : Elem → Elem → Prop} {es : List Elem} (hs : es.Pairwise r)
    (h : es.find? p = some x) : x ∈ es ∧ p x ∧ ∀ e ∈ es, p e → e = x ∨ r x e := by
  obtain ⟨hp, as, bs, rfl, ha⟩ := List.find?_eq_some_iff_append.mp h
  refine ⟨by simp, hp, fun e he hpe => ?_⟩
  obtain he | rfl | he : e ∈ as ∨ e = x ∨ e ∈ bs := by simpa using he
  case inl => exact absurd hpe (by simpa using ha e he)
  case inr.inl => exact .inl rfl
  case inr.inr => exact .inr <| (List.pairwise_cons.mp (List.pairwise_append.mp hs).2.1).1 e he

theorem next_isNext (v : Valid less t rrs) (h : t.next less name = some x) : IsNext less t name x := by
  rw [next, ceil_eq (Stores.cuts v.stores.sorted name)] at h
  obtain ⟨hm, hp, hf⟩ := first_of_find v.stores.sorted h
  have hp : x.less less name ≠ .gt := by simpa using hp
  refine ⟨hm, hp, fun e he (hn : e.less less name ≠ .gt) => ?_⟩
  obtain rfl | hl := hf e he (by simpa using hn)
  case inl => simp [Std.ReflCmp.compare_self]
  case inr => simp [hl]

theorem next_eq_none (v : Valid less t rrs) (h : t.next less name = none) :
    ∀ e ∈ t.root.toList, less name e.name = .gt := by
  rw [next, ceil_eq (Stores.cuts v.stores.sorted name), List.find?_eq_none] at h
  have h : ∀ e ∈ t.root.toList, e.less less name = .gt := by simpa using h
  exact h

theorem name_of_insert (v : Valid less t rrs) (h : t.insert less rr = some t') (hx : x ∈ t'.root.toList) :
    (∃ e ∈ t.root.toList, x.name = e.name) ∨ x.name = rr.name := by
  simp only [Tree.insert, Option.bind_eq_bind, Option.bind_eq_some_iff, Prod.exists, Option.some.injEq] at h
  obtain ⟨n, d, hi, rfl⟩ := h
  obtain ⟨as, bs, -, -, ho⟩ := insert_toList (Stores.cuts v.stores.sorted rr.name) hi
  rw [setBlack_toList] at hx
  obtain ⟨e, -, h₁, h₂, -⟩ | ⟨h₁, h₂, -⟩ := ho
  case inl =>
    have he := name_insert (v.stores.has e (by simp [h₁])).nonempty rr
    rw [h₂] at hx
    rw [h₁]
    obtain hx | rfl | hx : x ∈ as ∨ x = e.insert rr ∨ x ∈ bs := by simpa using hx
    case inl => exact .inl ⟨x, by simp [hx], rfl⟩
    case inr.inl => exact .inl ⟨e, by simp, he⟩
    case inr.inr => exact .inl ⟨x, by simp [hx], rfl⟩
  case inr =>
    rw [h₂] at hx
    rw [h₁]
    obtain hx | rfl | hx : x ∈ as ∨ x = .new rr ∨ x ∈ bs := by simpa using hx
    case inl => exact .inl ⟨x, by simp [hx], rfl⟩
    case inr.inl => exact .inr (name_new rr)
    case inr.inr => exact .inl ⟨x, by simp [hx], rfl⟩

end Neighbours

theorem all_eq_toList (t : Tree) : t.all = t.root.toList := by
  simp [all, all_eq]

structure Multimap (less : Str → Str → Ordering) (t : Tree) (rrs : List RR) : Prop where
  ordered : t.root.Ordered fun a b => less a.name b.name = .lt
  balanced : ∃ h, Balanced t.root .black h
  count : t.count = t.all.length
  found : ∀ name, (t.search less name).isSome ↔ ∃ rr ∈ rrs, less name rr.name = .eq
  type : ∀ name e, t.search less name = some e → ∀ qtype,
    e.type qtype = rrs.filter fun rr => less name rr.name = .eq ∧ rr.rrtype = qtype
  sorted : (t.all.map (·.name)).Pairwise (less · · = .lt)
  names : ∀ name, (∃ e ∈ t.all, less name e.name = .eq) ↔ ∃ rr ∈ rrs, less name rr.name = .eq
  walk : ∀ {m : Type → Type} [Monad m] [LawfulMonad m] (fn : Elem → m PUnit), t.walk fn = t.all.forM fn

theorem Valid.multimap (v : Valid less t rrs) : Multimap less t rrs := by
  have found name : (t.search less name).isSome ↔ ∃ rr ∈ rrs, less name rr.name = .eq := by
    rw [Option.isSome_iff_ne_none, ne_eq, search_eq_none_iff v]
    push Not
    rfl
  constructor
  case ordered => exact ordered_of_pairwise v.stores.sorted
  case balanced => exact v.balanced
  case count => rw [all_eq_toList, v.count_eq]
  case found => exact found
  case type => exact fun name e h => search_type v h
  case sorted => simpa [all_eq_toList, List.pairwise_map] using v.stores.sorted
  case names =>
    intro name
    rw [←found, Option.isSome_iff_exists, all_eq_toList]
    simp [search_eq_some_iff v]
  case walk =>
    intro m _ _ fn
    rw [all_eq_toList, walk, walk_eq]

-- No history of calls makes the tree panic, and after each it is the multimap that it stands for.
theorem run_multimap (calls : List Call) :
    ∃ t, run less calls = some t ∧ Multimap less t (contents less calls) := by
  have v : Valid less .new [] := .new
  obtain ⟨t, hr, v⟩ := run_valid v calls
  exact ⟨t, hr, v.multimap⟩

-- No history of calls makes the ways down that searches, insertions and deletions take longer than this.
theorem run_depth (calls : List Call) :
    ∃ t, run less calls = some t ∧ t.root.depth ≤ 2 * Nat.log 2 (t.all.length + 1) := by
  have v : Valid less .new [] := .new
  obtain ⟨t, hr, v⟩ := run_valid v calls
  obtain ⟨h, b⟩ := v.balanced
  have ⟨hs, hd⟩ : _ ∧ t.root.depth ≤ 2 * h := b.depth_le
  have hl : h ≤ Nat.log 2 (t.all.length + 1) := by
    rw [all_eq_toList, ←size_eq_length]
    exact Nat.le_log_of_pow_le Nat.one_lt_two hs
  exact ⟨t, hr, hd.trans (Nat.mul_le_mul_left 2 hl)⟩

section Consists

structure Consists (less : Str → Str → Ordering) (t : Tree) (es : List Elem) : Prop where
  balanced : ∃ h, Balanced t.root .black h
  elems : t.root.toList = es
  sorted : es.Pairwise fun a b => less a.name b.name = .lt
  nonempty : ∀ e ∈ es, e.rrs ≠ []

omit [Std.TransCmp less] in
theorem Valid.consists (v : t.Valid less rrs) : t.Consists less t.all where
  balanced := v.balanced
  elems := t.all_eq_toList.symm
  sorted := t.all_eq_toList ▸ v.stores.sorted
  nonempty := t.all_eq_toList ▸ fun e he => (v.stores.has e he).nonempty

namespace Consists

variable {es as bs : List Elem} {x : Elem} {name : Str}

theorem cuts (h : t.Consists less es) (name : Str) : Cuts (·.less less name) t.root.toList :=
  h.elems ▸ Stores.cuts h.sorted name

theorem search_eq_some_iff (h : t.Consists less es) : t.search less name = some x ↔ x ∈ es ∧ less name x.name = .eq := by
  rw [search, Node.search_eq_some_iff (h.cuts name), h.elems]
  rfl

theorem update (h : t.Consists less (as ++ e :: bs)) (hn : less name e.name = .eq) (rr : RR) :
    { t with root := t.root.update (·.less less name) (·.insert rr) }.Consists less (as ++ e.insert rr :: bs) := by
  have he := name_insert (h.nonempty e (by simp)) rr
  obtain ⟨hd, hb⟩ := h.balanced
  obtain ⟨-, hbs, hab⟩ := List.pairwise_append.mp h.sorted
  have keep {l : List Elem} (hl : ∀ x ∈ l, less name x.name ≠ .eq) :
      l.map (fun x => if x.less less name = .eq then x.insert rr else x) = l := by
    conv_rhs => rw [←l.map_id]
    exact List.map_congr_left fun x hx => if_neg (hl x hx)
  have ha : ∀ x ∈ as, less name x.name ≠ .eq := by
    intro x hx
    rw [Std.TransCmp.congr_left hn, Std.OrientedCmp.gt_of_lt (hab x hx e (by simp))]
    exact Ordering.noConfusion
  have hb' : ∀ x ∈ bs, less name x.name ≠ .eq := by
    intro x hx
    rw [Std.TransCmp.congr_left hn, (List.pairwise_cons.mp hbs).1 x hx]
    exact Ordering.noConfusion
  constructor
  case balanced => exact ⟨hd, update_balanced hb _ _⟩
  case elems =>
    rw [Node.update_toList (h.cuts name), h.elems, List.map_append, List.map_cons, keep ha, keep hb']
    exact congrArg (as ++ · :: bs) (if_pos hn)
  case sorted => simpa [List.pairwise_append, he] using h.sorted
  case nonempty =>
    intro x hx
    obtain rfl | hx : x = e.insert rr ∨ x ∈ as ++ e :: bs := by
      simp only [List.mem_append, List.mem_cons] at hx ⊢
      tauto
    case inl => simp
    case inr => exact h.nonempty x hx

theorem insert (h : t.Consists less (as ++ e :: bs)) (hn : less rr.name e.name = .eq) :
    t.insert less rr = some { t with root := t.root.update (·.less less rr.name) (·.insert rr) } := by
  obtain ⟨hd, hb⟩ := h.balanced
  have hs : (t.search less rr.name).isSome :=
    Option.isSome_iff_exists.mpr ⟨e, h.search_eq_some_iff.mpr ⟨by simp, hn⟩⟩
  have hu := update_balanced hb (·.less less rr.name) (·.insert rr)
  rw [Tree.insert, insert_of_search hb hs]
  simp [hu.setBlack_eq]

end Consists

end Consists

namespace Sample

def address (name rdata : Str) : RR where
  name := name
  ttl := 3600
  data := .other .a rdata (by decide)

-- The root of the tree is deleted, and one of two records with the same name is left.
def calls : List Call := [
  .insert (address "b." "192.0.2.1"),
  .insert (address "a." "192.0.2.2"),
  .insert (address "c." "192.0.2.3"),
  .delete (address "b." ""),
  .insert (address "a." "192.0.2.4")
]

end Sample

theorem run_multimap_sample : contents compare Sample.calls =
      [Sample.address "a." "192.0.2.2", Sample.address "c." "192.0.2.3", Sample.address "a." "192.0.2.4"] ∧
    ∃ t, run compare Sample.calls = some t ∧ Multimap compare t (contents compare Sample.calls) :=
  ⟨by decide, run_multimap Sample.calls⟩

theorem run_depth_sample :
    ∃ t, run compare Sample.calls = some t ∧ t.root.depth ≤ 2 * Nat.log 2 (t.all.length + 1) :=
  run_depth Sample.calls

end Tree
end File
