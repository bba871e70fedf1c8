import HanzoDNS.File.Theorems.Walk

open Dns Domain List Option

namespace File

section Encloser

variable (dns : Labels) (rrs : List RR) (o : Name)

def Present (n : Name) : Prop :=
  n = o ∨ Owns dns rrs n ∨ HasBelow dns rrs n

instance : Decidable (Present dns rrs o n) :=
  inferInstanceAs (Decidable (_ ∨ _))

-- The longest name above the name with the labels `p` before the origin that is one of the zone.
def encloser : (p : Name) → Name
  | [] => o
  | _ :: p => if Present dns rrs o (p ++ o) then p ++ o else encloser p

-- On the way to a name is one that is not stored, although it is one of the zone, and next to it is a
-- wildcard.
def StrayWildcard (p : Name) : Prop :=
  ∃ n ∈ ancestors p o, Present dns rrs o n ∧ ¬Owns dns rrs n ∧
    n.tail ≠ [] ∧ Owns dns rrs (asterisk :: n.tail)

instance : Decidable (StrayWildcard dns rrs o p) :=
  inferInstanceAs (Decidable (∃ n ∈ _, _))

end Encloser

namespace Zone

structure Synthesizes (dns : Labels) (z : Zone) (loop : Nat) (req : Request) (qname : Str) (w : Elem) : Prop where
  soa : z.apex.soa ≠ none
  notApex : ¬(qname = z.origin ∧ (req.qtype = .soa ∨ req.qtype = .ns))
  loop : ¬8 < loop
  walk : z.walk dns req qname = some (.missing (some w))

-- The wildcard below a name. The root has one only if the name below it has two labels.
def childWildcard (dns : Labels) (z : Zone) (n : Name) : Option Elem :=
  if n = [] then none else z.search dns (Name.text (asterisk :: n))

variable {dns : Labels} {z : Zone} {o p n : Name} {rrs : List RR} {req : Request} {loop : Nat} {w : Elem}

namespace Holds

variable (h : z.Holds dns o rrs)

include h

theorem hasBelow_of_owns {l : Label} (ho : Owns dns rrs (l :: n)) : HasBelow dns rrs n := by
  obtain ⟨rr, hr, ho⟩ := ho
  obtain ⟨m, hm⟩ := h.named rr hr
  rw [hm, order_text_eq_iff] at ho
  refine ⟨rr, hr, hm ▸ (encloses_text_iff dns n m).mpr ⟨?_, ?_⟩⟩
  · rw [←ho]
    exact suffix_cons _ _
  · have := congrArg List.length ho
    simp at this
    omega

theorem hasBelow_of_suffix {x : Name} (hb : HasBelow dns rrs n) (hx : x <:+ n) : HasBelow dns rrs x := by
  obtain ⟨rr, hr, hb⟩ := hb
  obtain ⟨m, hm⟩ := h.named rr hr
  rw [hm, encloses_text_iff] at hb
  refine ⟨rr, hr, hm ▸ (encloses_text_iff dns x m).mpr ⟨(hx.map stored).trans hb.1, ?_⟩⟩
  exact lt_of_le_of_lt hx.length_le hb.2

theorem search_name {e : Elem} (hs : z.search dns n.text = some e) : order dns e.name n.text = .eq :=
  Std.OrientedCmp.eq_symm ((Tree.search_eq_some_iff h.valid).mp hs).2

theorem wildAt_eq (n : Name) :
    z.wildAt dns n = if Owns dns rrs n then none else z.childWildcard dns n.tail := by
  simp only [wildAt, h.search_eq_none_iff]
  cases n
  case nil => simp [Name.text, replaceWithAsteriskLabel_root, h.search_nil, childWildcard]
  case cons l n =>
    cases n
    case nil => simp [replaceWithAsteriskLabel_singleton, h.search_nil, childWildcard]
    case cons => simp [replaceWithAsteriskLabel_cons, childWildcard]

theorem childWildcard_isSome_iff : (z.childWildcard dns n).isSome ↔ n ≠ [] ∧ Owns dns rrs (asterisk :: n) := by
  rw [childWildcard]
  split
  case isTrue hn => simp [hn]
  case isFalse hn => simp [hn, h.search_isSome_iff]

theorem childWildcard_name (hw : z.childWildcard dns n = some w) :
    order dns w.name (Name.text (asterisk :: n)) = .eq := by
  rw [childWildcard] at hw
  split at hw
  case isTrue => contradiction
  case isFalse => exact h.search_name hw

theorem present_of_suffix {x : Name} (hn : Present dns rrs o (p ++ o)) (hx : x <:+ p) :
    Present dns rrs o (x ++ o) := by
  by_cases he : x = p
  case pos => rwa [he]
  case neg =>
    obtain ⟨y, rfl⟩ := hx
    have hy : y ≠ [] := by
      rintro rfl
      simp at he
    obtain ho | ho | hb := hn
    case inl =>
      have hl := congrArg List.length ho
      have := length_pos_of_ne_nil hy
      simp at hl
      omega
    case inr.inl =>
      obtain ⟨l, y, rfl⟩ := exists_cons_of_ne_nil hy
      exact .inr <| .inr <| h.hasBelow_of_suffix (h.hasBelow_of_owns ho) ⟨y, by simp⟩
    case inr.inr => exact .inr <| .inr <| h.hasBelow_of_suffix hb ⟨y, by simp⟩

end Holds

-- What is known about the way to a name that is not one of the zone: it goes through the closest encloser,
-- and the only wildcard next to a name below that is its own.
structure Way (dns : Labels) (rrs : List RR) (z : Zone) (o p c : Name) : Prop where
  suffix : c <:+ p
  encloser : encloser dns rrs o p = c ++ o
  present : Present dns rrs o (c ++ o)
  above : ∀ n ∈ ancestors p o, Present dns rrs o n → n ∈ ancestors c o
  wild : (ancestors p o).findSome? (z.wildAt dns) =
    (z.childWildcard dns (c ++ o)).or ((ancestors c o).findSome? (z.wildAt dns))

theorem Holds.exists_way (h : z.Holds dns o rrs) (ha : ¬Present dns rrs o (p ++ o)) : ∃ c, Way dns rrs z o p c := by
  induction p
  case nil => exact absurd (.inl rfl) ha
  case cons l p hi =>
    have hn : ¬Owns dns rrs (l :: p ++ o) := fun ho => ha (.inr (.inl ho))
    have hw : z.wildAt dns (l :: p ++ o) = z.childWildcard dns (p ++ o) := by
      rw [h.wildAt_eq, if_neg hn]
      rfl
    have hl := ancestors_cons l p o
    have hf : (ancestors (l :: p) o).findSome? (z.wildAt dns) =
        (z.childWildcard dns (p ++ o)).or ((ancestors p o).findSome? (z.wildAt dns)) := by
      rw [hl, findSome?_cons, hw]
      cases z.childWildcard dns (p ++ o) <;> rfl
    have hm {n : Name} (hm : n ∈ ancestors (l :: p) o) (hn : Present dns rrs o n) : n ∈ ancestors p o := by
      obtain rfl | hm := mem_cons.mp (hl ▸ hm)
      case inl => contradiction
      case inr => exact hm
    by_cases hp : Present dns rrs o (p ++ o)
    case pos => exact ⟨p, suffix_cons _ _, by rw [encloser, if_pos hp], hp, fun _ => hm, hf⟩
    case neg =>
      obtain ⟨c, way⟩ := hi hp
      have hc : z.childWildcard dns (p ++ o) = none := by
        rw [←not_isSome_iff_eq_none, h.childWildcard_isSome_iff]
        exact fun ho => hp (.inr (.inr (h.hasBelow_of_owns ho.2)))
      refine ⟨c, way.suffix.trans (suffix_cons _ _), ?_, way.present, ?_, ?_⟩
      · rw [encloser, if_neg hp, way.encloser]
      · exact fun n hn hp => way.above n (hm hn hp) hp
      · rw [hf, hc, none_or, way.wild]

theorem stopAt_ne_missing {qname : Str} {wild : Option Elem} :
    z.stopAt dns req qname n ≠ some (.missing wild) := by
  rw [stopAt]
  cases z.search dns n.text
  case none => simp
  case some e =>
    simp only [bind_some, Elem.stop]
    split
    case h_1 => simp
    case h_2 => split <;> simp

theorem walk_eq_missing_iff (h : z.Holds dns o rrs) (hq : ¬Owns dns rrs (p ++ o)) {wild : Option Elem} :
    z.walk dns req (p ++ o).text = some (.missing wild) ↔
    (∀ n ∈ ancestors p o, z.stopAt dns req (p ++ o).text n = none) ∧
      (ancestors p o).findSome? (z.wildAt dns) = wild := by
  rw [walk_eq h, h.search_eq_none_iff.mpr hq, arrive, reverse_reverse, or_none, Option.some.injEq]
  cases hs : (ancestors p o).reverse.findSome? (z.stopAt dns req (p ++ o).text)
  case none =>
    have hn : ∀ n ∈ ancestors p o, z.stopAt dns req (p ++ o).text n = none := by
      simpa [findSome?_eq_none_iff] using hs
    simp only [getD_none, Walk.missing.injEq]
    exact ⟨fun hw => ⟨hn, hw⟩, fun hw => hw.2⟩
  case some s =>
    obtain ⟨n, hm, hn⟩ := exists_of_findSome?_eq_some hs
    refine iff_of_false (fun he => stopAt_ne_missing (hn.trans (congrArg some he))) fun hw => ?_
    simp [hw.1 n (mem_reverse.mp hm)] at hn

theorem origin_ne_text (h : z.Holds dns o rrs) (hp : p ≠ []) : (p ++ o).text ≠ z.origin := by
  rw [h.origin_eq]
  exact fun he => hp (by simpa using Name.text_injective he)

theorem synthesizes_iff (h : z.Holds dns o rrs) (hp : p ≠ []) (hq : ¬Owns dns rrs (p ++ o)) :
    z.Synthesizes dns loop req (p ++ o).text w ↔
    z.apex.soa ≠ none ∧ ¬8 < loop ∧ (∀ n ∈ ancestors p o, z.stopAt dns req (p ++ o).text n = none) ∧
      (ancestors p o).findSome? (z.wildAt dns) = some w := by
  rw [←walk_eq_missing_iff h hq]
  constructor
  case mp => exact fun s => ⟨s.soa, s.loop, s.walk⟩
  case mpr => exact fun s => ⟨s.1, fun ha => origin_ne_text h hp ha.1, s.2.1, s.2.2⟩

theorem stray_iff (h : z.Holds dns o rrs) :
    StrayWildcard dns rrs o p ↔ ∃ n ∈ ancestors p o, Present dns rrs o n ∧ (z.wildAt dns n).isSome := by
  refine exists_congr fun n => and_congr_right fun _ => and_congr_right fun _ => ?_
  rw [h.wildAt_eq]
  split
  case isTrue ho => simp [ho]
  case isFalse ho => rw [h.childWildcard_isSome_iff, iff_true_intro ho, true_and]

theorem order_ne_of_length {a b : Name} (ho : a.length ≠ b.length) {s : Str} (hs : order dns s a.text = .eq) :
    order dns s b.text ≠ .eq := by
  intro hb
  have he := Std.TransCmp.eq_trans (Std.OrientedCmp.eq_symm hs) hb
  rw [order_text_eq_iff] at he
  exact ho (by simpa using congrArg List.length he)

section Correct

variable (h : z.Holds dns o rrs)

include h

theorem findSome_eq_none_of_not_stray {ns : List Name} (hs : ¬StrayWildcard dns rrs o p)
    (hn : ∀ n ∈ ns, n ∈ ancestors p o ∧ Present dns rrs o n) : ns.findSome? (z.wildAt dns) = none := by
  rw [stray_iff h] at hs
  rw [findSome?_eq_none_iff]
  intro n hm
  obtain ⟨ha, hp⟩ := hn n hm
  by_contra hw
  exact hs ⟨n, ha, hp, isSome_iff_ne_none.mpr hw⟩

theorem present_of_mem {c : Name} (hc : Present dns rrs o (c ++ o)) (hn : n ∈ ancestors c o) :
    Present dns rrs o n := by
  obtain ⟨x, hx, rfl⟩ := mem_ancestors.mp hn
  exact h.present_of_suffix hc hx

theorem wild_eq_none_iff_of_present (hp : Present dns rrs o (p ++ o)) :
    (ancestors p o).findSome? (z.wildAt dns) = none ↔ ¬StrayWildcard dns rrs o p := by
  constructor
  case mpr => exact fun hs => findSome_eq_none_of_not_stray h hs fun n hn => ⟨hn, present_of_mem h hp hn⟩
  case mp =>
    rw [stray_iff h, findSome?_eq_none_iff]
    rintro hw ⟨n, hn, -, hs⟩
    simp [hw n hn] at hs

theorem name_ne_of_mem {c : Name} (hn : n ∈ ancestors c o) (hw : z.wildAt dns n = some w) :
    order dns w.name (Name.text (asterisk :: (c ++ o))) ≠ .eq := by
  rw [h.wildAt_eq] at hw
  split at hw
  case isTrue => contradiction
  case isFalse =>
    obtain ⟨x, hx, rfl⟩ := mem_ancestors.mp hn
    refine order_ne_of_length (a := asterisk :: (x ++ o).tail) ?_ (h.childWildcard_name hw)
    have ht := (h.childWildcard_isSome_iff (n := (x ++ o).tail)).mp (by simp [hw])
    have hl := length_pos_of_ne_nil ht.1
    have := hx.length_le
    rw [length_tail, length_append] at hl
    rw [length_cons, length_cons, length_tail, length_append, length_append]
    omega

omit h in
theorem mem_ancestors_of_suffix {c : Name} (hc : c <:+ p) (hn : n ∈ ancestors c o) : n ∈ ancestors p o := by
  obtain ⟨x, hx, rfl⟩ := mem_ancestors.mp hn
  exact mem_ancestors.mpr ⟨x, hx.trans hc, rfl⟩

theorem wild_eq_none_of_absent (ha : ¬Present dns rrs o (p ++ o))
    (hw : ¬Owns dns rrs (asterisk :: encloser dns rrs o p)) (hs : ¬StrayWildcard dns rrs o p) :
    (ancestors p o).findSome? (z.wildAt dns) = none := by
  obtain ⟨c, way⟩ := h.exists_way ha
  rw [way.encloser] at hw
  have hc : z.childWildcard dns (c ++ o) = none := by
    rw [←not_isSome_iff_eq_none, h.childWildcard_isSome_iff]
    exact fun ho => hw ho.2
  have hr := findSome_eq_none_of_not_stray h hs fun n hn =>
    ⟨mem_ancestors_of_suffix way.suffix hn, present_of_mem h way.present hn⟩
  rw [way.wild, hc, hr, none_or]

theorem wild_iff_of_absent (ha : ¬Present dns rrs o (p ++ o)) :
    (∀ w, (ancestors p o).findSome? (z.wildAt dns) = some w →
      order dns w.name (Name.text (asterisk :: encloser dns rrs o p)) = .eq) ↔
    Owns dns rrs (asterisk :: encloser dns rrs o p) ∨ ¬StrayWildcard dns rrs o p := by
  obtain ⟨c, way⟩ := h.exists_way ha
  rw [way.encloser, way.wild]
  cases hc : z.childWildcard dns (c ++ o)
  case some e =>
    have ho := (h.childWildcard_isSome_iff (n := c ++ o)).mp (by simp [hc])
    refine iff_of_true ?_ (.inl ho.2)
    rintro w ⟨⟩
    exact h.childWildcard_name hc
  case none =>
    have hn : ¬(c ++ o ≠ [] ∧ Owns dns rrs (asterisk :: (c ++ o))) := by
      rw [←h.childWildcard_isSome_iff, hc]
      simp
    rw [none_or]
    trans (ancestors c o).findSome? (z.wildAt dns) = none
    · constructor
      case mpr =>
        intro hn w hs
        cases hn.symm.trans hs
      case mp =>
        intro hw
        by_contra hn
        obtain ⟨w, hs⟩ := ne_none_iff_exists'.mp hn
        obtain ⟨n, hn, hs'⟩ := exists_of_findSome?_eq_some hs
        exact name_ne_of_mem h hn hs' (hw w hs)
    · constructor
      case mp =>
        intro hw
        rw [stray_iff h]
        right
        rintro ⟨n, hn, hp, hs⟩
        simp [findSome?_eq_none_iff.mp hw n (way.above n hn hp)] at hs
      case mpr =>
        rintro (ho | hs)
        case inl =>
          -- Only the root has a wildcard that is never looked for, and nothing is above it.
          obtain ⟨rfl, rfl⟩ : c = [] ∧ o = [] := by
            simpa [ho] using hn
          simp [ancestors, wildAt_root h]
        case inr =>
          exact findSome_eq_none_of_not_stray h hs fun n hn =>
            ⟨mem_ancestors_of_suffix way.suffix hn, present_of_mem h way.present hn⟩

end Correct

-- A wildcard answers only for names whose closest encloser it is a child of, unless the walk passes a name
-- that exists without being stored.
theorem wildcard_closest_encloser_iff {records : List RR} (named : ∀ rr ∈ records, ∃ n : Name, rr.name = n.text)
    (loaded : (Zone.new dns o.text).load dns records = some (.ok z))
    (unowned : ¬Owns dns (inner dns o.text records) (p ++ o) ∧ (p = [] → z.apex.soa = none)) :
    (∀ w, z.Synthesizes dns loop req (p ++ o).text w → ¬HasBelow dns (inner dns o.text records) (p ++ o) ∧
      order dns w.name (Name.text (asterisk :: encloser dns (inner dns o.text records) o p)) = .eq) ↔
    z.apex.soa = none ∨ 8 < loop ∨ (∃ n ∈ ancestors p o, z.stopAt dns req (p ++ o).text n ≠ none) ∨
    ¬HasBelow dns (inner dns o.text records) (p ++ o) ∧
      Owns dns (inner dns o.text records) (asterisk :: encloser dns (inner dns o.text records) o p) ∨
    ¬StrayWildcard dns (inner dns o.text records) o p := by
  have h := load_holds named loaded
  generalize inner dns o.text records = rrs at h unowned
  by_cases hs : z.apex.soa = none
  case pos => exact iff_of_true (fun w s => absurd hs s.soa) (.inl hs)
  case neg =>
    have hp : p ≠ [] := fun hp => hs (unowned.2 hp)
    simp only [synthesizes_iff h hp unowned.1]
    by_cases hl : 8 < loop
    case pos => exact iff_of_true (fun w s => absurd hl s.2.1) (.inr (.inl hl))
    case neg =>
      by_cases ht : ∃ n ∈ ancestors p o, z.stopAt dns req (p ++ o).text n ≠ none
      case pos =>
        refine iff_of_true (fun w s => ?_) (.inr (.inr (.inl ht)))
        obtain ⟨n, hn, ht⟩ := ht
        exact absurd (s.2.2.1 n hn) ht
      case neg =>
        have hn : ∀ n ∈ ancestors p o, z.stopAt dns req (p ++ o).text n = none := by simpa using ht
        simp only [hs, hl, ht, false_or, ne_eq, not_false_eq_true, true_and, iff_true_intro hn]
        by_cases hb : HasBelow dns rrs (p ++ o)
        case pos =>
          have hw := wild_eq_none_iff_of_present h (.inr (.inr hb))
          simp only [hb, not_true_eq_false, false_and, false_or, imp_false, ←hw]
          exact eq_none_iff_forall_ne_some.symm
        case neg =>
          have ho : p ++ o ≠ o := fun ho => hp (by simpa using ho)
          have ha : ¬Present dns rrs o (p ++ o) := by simp [Present, ho, unowned.1, hb]
          simp only [hb, not_false_eq_true, true_and]
          exact wild_iff_of_absent h ha

namespace Stray

open File.Sample

def b : Name :=
  child :: top

def records : List RR := [
  soa,
  address (asterisk :: top) "192.0.2.1",
  address (label "c" (by decide) :: b) "192.0.2.2"
]

theorem records_named : ∀ rr ∈ records, ∃ n : Name, rr.name = n.text := by
  simp only [records, forall_mem_cons, not_mem_nil, false_imp_iff, implies_true, and_true]
  exact ⟨⟨top, rfl⟩, ⟨asterisk :: top, rfl⟩, ⟨label "c" (by decide) :: b, rfl⟩⟩

theorem loaded : (Zone.new .reference top.text).load .reference records = some (.ok (zone records)) := by
  rfl

end Stray

section

open File.Sample Stray

theorem wildcard_closest_encloser_child :
    (Zone.new .reference top.text).load .reference records = some (.ok (zone records)) ∧
    ∀ w, (zone records).Synthesizes .reference 0 (request (leaf :: top) false) (Name.text (leaf :: top)) w →
      ¬HasBelow .reference (inner .reference top.text records) (leaf :: top) ∧
      order .reference w.name (Name.text (asterisk ::
        encloser .reference (inner .reference top.text records) top [leaf])) = .eq :=
  ⟨loaded, (wildcard_closest_encloser_iff (p := [leaf]) records_named loaded (by decide +kernel)).mpr
    (.inr (.inr (.inr (.inl (by decide +kernel)))))⟩

-- The closest encloser of `x.b.example.` is `b.example.`, which has no wildcard below it.
theorem wildcard_past_encloser :
    (Zone.new .reference top.text).load .reference records = some (.ok (zone records)) ∧
    ¬Owns .reference (inner .reference top.text records) (leaf :: Stray.b) ∧
    encloser .reference (inner .reference top.text records) top [leaf, child] = Stray.b ∧
    ∃ w, w.name = Name.text (asterisk :: top) ∧
      (zone records).Synthesizes .reference 0 (request (leaf :: Stray.b) false) (Name.text (leaf :: Stray.b)) w := by
  refine ⟨loaded, by decide +kernel, by decide +kernel, ?_⟩
  obtain ⟨w, hw, hn⟩ : ∃ w, (zone records).walk .reference (request (leaf :: Stray.b) false)
      (Name.text (leaf :: Stray.b)) = some (.missing (some w)) ∧ w.name = Name.text (asterisk :: top) :=
    ⟨_, rfl, rfl⟩
  exact ⟨w, hn, by decide +kernel, by decide +kernel, by decide, hw⟩

end
end Zone
end File
