import HanzoDNS.Lib.Fallible
import HanzoDNS.Loadbalance.Weighted

open Dns Strings Strconv Net List Option

namespace Loadbalance

open Nat WeightedRR

section Selection

variable {l : List (Nat × UInt8)} {psum v i : Nat}

theorem countP_selectTop (l : List (Nat × UInt8)) (psum i : Nat) :
    (List.range (l.map (·.2.toNat)).sum).countP (fun v => selectTop (psum + v) psum l = some i) =
      ((l.filter (·.1 = i)).map (·.2.toNat)).sum := by
  induction l generalizing psum
  case nil => rfl
  case cons jw l hi =>
    obtain ⟨j, w⟩ := jw
    have first : (List.range w.toNat).countP (fun v => selectTop (psum + v) psum ((j, w) :: l) = some i) =
        if j = i then w.toNat else 0 := by
      have h : ∀ v ∈ List.range w.toNat, selectTop (psum + v) psum ((j, w) :: l) = some j := by
        intro v hv
        rw [selectTop, if_pos (Nat.add_lt_add_left (mem_range.mp hv) psum)]
      rw [countP_congr fun v hv => by rw [h v hv]]
      split
      case isTrue hj => simp [hj]
      case isFalse hj => simp [hj]
    have next (v : Nat) : selectTop (psum + (w.toNat + v)) psum ((j, w) :: l) =
        selectTop (psum + w.toNat + v) (psum + w.toNat) l := by
      rw [selectTop, if_neg (by omega), ←Nat.add_assoc]
    rw [map_cons, sum_cons, range_add, countP_append, countP_map, first]
    simp only [Function.comp_def, next, hi, filter_cons]
    split
    case isTrue hj => simp [hj]
    case isFalse hj => simp [hj]

theorem exists_selectTop (h : v < (l.map (·.2.toNat)).sum) : ∃ i ∈ l.map (·.1), selectTop (psum + v) psum l = some i := by
  induction l generalizing psum v
  case nil => cases h
  case cons jw l hi =>
    obtain ⟨j, w⟩ := jw
    rw [selectTop]
    split
    case isTrue => exact ⟨j, by simp, rfl⟩
    case isFalse hn =>
      have h : v < w.toNat + (l.map (·.2.toNat)).sum := h
      obtain ⟨i, hm, hs⟩ := @hi (psum + w.toNat) (v - w.toNat) (by omega)
      rw [Nat.add_assoc, Nat.add_sub_cancel' (by omega)] at hs
      exact ⟨i, mem_cons_of_mem _ hm, hs⟩

theorem sum_filter_zipIdx (f : α → Nat) (l : List α) (k i : Nat) :
    (((l.zipIdx k).filter (·.2 = i)).map (f ·.1)).sum = if k ≤ i then (l[i - k]?).elim 0 f else 0 := by
  induction l generalizing k
  case nil => simp
  case cons a l hi =>
    rw [zipIdx_cons, filter_cons]
    obtain hk | rfl | hk := Nat.lt_trichotomy k i
    · obtain ⟨d, rfl⟩ := Nat.exists_eq_add_of_lt hk
      rw [if_neg (by simp; omega), hi, if_pos (by omega), if_pos (by omega)]
      congr 1
      rw [show k + d + 1 - k = d + 1 by omega, show k + d + 1 - (k + 1) = d by omega]
      rfl
    · simp [hi]
    · rw [if_neg (by simp; omega), hi, if_neg (by omega), if_neg (by omega)]

end Selection

section

variable {domains : Domains} {sort : List (Nat × UInt8) → List (Nat × UInt8)} {addresses rrs : List RR} {v : Nat}

theorem wsum_sort (hs : Sorts sort) : ((sort (addresses.zipIdx.map fun ar => (ar.2, weight domains ar.1))).map
    (·.2.toNat)).sum = wsum domains addresses := by
  rw [((hs.perm _).map _).sum_eq, List.map_map, wsum]
  congr 1
  have h : addresses.zipIdx.map (fun ar => (weight domains ar.1).toNat) =
      (addresses.zipIdx.map Prod.fst).map fun ar => (weight domains ar).toNat := by rw [List.map_map]; rfl
  rw [List.zipIdx_map_fst] at h
  exact h

theorem exists_topAddressIndex (hs : Sorts sort) (h : v < wsum domains addresses) :
    ∃ i < addresses.length, topAddressIndex domains sort addresses v = some i := by
  rw [←wsum_sort hs] at h
  obtain ⟨i, hm, hi⟩ := @exists_selectTop _ 0 v h
  rw [zero_add] at hi
  refine ⟨i, ?_, hi⟩
  rw [((hs.perm _).map _).mem_iff, List.map_map] at hm
  obtain ⟨ar, har, rfl⟩ := mem_map.mp hm
  exact snd_lt_of_mem_zipIdx har

theorem countP_topAddressIndex (hs : Sorts sort) {i : Nat} (hi : i < addresses.length) :
    (List.range (wsum domains addresses)).countP (fun v => topAddressIndex domains sort addresses v = some i) =
      (weight domains addresses[i]).toNat := by
  have h := countP_selectTop (sort (addresses.zipIdx.map fun ar => (ar.2, weight domains ar.1))) 0 i
  rw [wsum_sort hs, (((hs.perm _).filter _).map _).sum_eq, List.filter_map, List.map_map] at h
  have hz := sum_filter_zipIdx (fun ar => (weight domains ar).toNat) addresses 0 i
  simp only [Nat.zero_add] at h
  simp only [Nat.zero_le, if_true, Nat.sub_zero, getElem?_eq_getElem hi, elim_some] at hz
  exact h.trans hz

theorem setTopRecord_perm (hs : Sorts sort) (h : v < wsum domains addresses) :
    (setTopRecord domains sort addresses v).Perm addresses := by
  obtain ⟨i, hi, ht⟩ := exists_topAddressIndex hs h
  have h0 : 0 < addresses.length := zero_lt_of_lt hi
  simp only [setTopRecord, ht, getElem?_eq_getElem h0, getElem?_eq_getElem hi]
  exact set_set_perm h0 hi

theorem rrtype_ne_of_isAddress {rr : RR} (h : isAddress rr) : rr.rrtype ≠ .cname ∧ rr.rrtype ≠ .mx := by
  obtain h | h := of_decide_eq_true h
  all_goals exact ⟨by rw [h]; decide, by rw [h]; decide⟩

theorem perm_buckets (rrs : List RR) :
    (rrs.filter (·.rrtype = .cname) ++ rrs.filter (fun rr => ¬(rr.rrtype = .cname ∨ isAddress rr ∨ rr.rrtype = .mx)) ++
      rrs.filter isAddress ++ rrs.filter (·.rrtype = .mx)).Perm rrs := by
  refine perm_iff_count.mpr fun rr => ?_
  have hc (p : RR → Bool) : (rrs.filter p).count rr = if p rr then rrs.count rr else 0 := by
    split
    case isTrue h => exact count_filter h
    case isFalse h => exact count_eq_zero_of_not_mem fun hm => h (mem_filter.mp hm).2
  have ha : isAddress rr → rr.rrtype ≠ .cname ∧ rr.rrtype ≠ .mx := rrtype_ne_of_isAddress
  have hm : rr.rrtype = .mx → rr.rrtype ≠ .cname := by
    intro h
    rw [h]
    decide
  simp only [count_append, hc]
  by_cases h₁ : rr.rrtype = .cname <;> by_cases h₂ : isAddress rr <;> by_cases h₃ : rr.rrtype = .mx <;> simp_all

theorem find?_weightedRoundRobin {i : Nat} (hi : i < (rrs.filter isAddress).length)
    (ht : topAddressIndex domains sort (rrs.filter isAddress) v = some i) :
    (weightedRoundRobin domains sort rrs v).find? isAddress = some (rrs.filter isAddress)[i] := by
  have h0 : 0 < (rrs.filter isAddress).length := zero_lt_of_lt hi
  have hm : isAddress (rrs.filter isAddress)[i] := (mem_filter.mp (getElem_mem hi)).2
  have hc (q : RR → Bool) (hq : ∀ rr, isAddress rr → ¬q rr) : (rrs.filter q).find? isAddress = none :=
    find?_eq_none.mpr fun rr hr ha => hq rr ha (mem_filter.mp hr).2
  have hf : (setTopRecord domains sort (rrs.filter isAddress) v).head? = some (rrs.filter isAddress)[i] := by
    simp only [setTopRecord, ht, getElem?_eq_getElem h0, getElem?_eq_getElem hi, head?_eq_getElem?]
    cases i <;> simp [h0]
  have hs := eq_cons_of_mem_head? hf
  rw [weightedRoundRobin, if_neg (length_pos_iff.mp h0), hs, append_assoc, find?_append, find?_append,
    hc _ fun rr ha => by simp [(rrtype_ne_of_isAddress ha).1], hc _ fun rr ha => by simp [ha]]
  simp [hm]

theorem weightedRoundRobin_perm (hs : Sorts sort)
    (h : rrs.filter isAddress ≠ [] → v < wsum domains (rrs.filter isAddress)) :
    (weightedRoundRobin domains sort rrs v).Perm rrs ∧
    ∃ xs ys, weightedRoundRobin domains sort rrs v = xs ++ ys ∧
      (∀ rr ∈ xs, ¬isAddress rr) ∧ ∀ rr ∈ ys, rr.rrtype ≠ .cname := by
  simp only [weightedRoundRobin]
  split
  case isTrue hn =>
    exact ⟨.refl _, rrs, [], (append_nil _).symm, fun rr => by simpa using filter_eq_nil_iff.mp hn rr,
      forall_mem_nil _⟩
  case isFalse hn =>
    have hp := setTopRecord_perm hs (h hn)
    refine ⟨(((hp.append_left _).append_right _).trans (perm_buckets rrs)), _, _, append_assoc .., ?_, ?_⟩
    · intro rr hm ha
      obtain hm | hm := mem_append.mp hm
      · exact (rrtype_ne_of_isAddress ha).1 (of_decide_eq_true (mem_filter.mp hm).2)
      · exact of_decide_eq_true (mem_filter.mp hm).2 (.inr (.inl ha))
    · intro rr hm hc
      rw [mem_append, hp.mem_iff] at hm
      obtain hm | hm := hm
      · exact (rrtype_ne_of_isAddress (mem_filter.mp hm).2).1 hc
      · have hx := of_decide_eq_true (mem_filter.mp hm).2
        rw [hc] at hx
        exact absurd hx (by decide)

end

structure Parsing.Positive (p : Parsing) : Prop where
  ws : ∀ w ∈ p.ws, 0 < w.value.toNat
  domains : ∀ name, ∀ w ∈ p.domains name, 0 < w.value.toNat

theorem Parsing.Positive.parseWeight {p : Parsing} (hp : p.Positive) (addr value : Str) :
    (parseWeight p addr value).Ends Positive fun _ => True := by
  rw [Loadbalance.parseWeight]
  split
  case h_1 => trivial
  case h_2 ip _ =>
    simp only
    split
    case isTrue => trivial
    case isFalse hz =>
      split
      case isTrue => trivial
      case isFalse =>
        obtain ⟨n, hn⟩ : ∃ n, parseUint value 8 = some n := by
          refine ne_none_iff_exists'.mp fun h => hz ?_
          rw [h]
          rfl
        rw [hn, getD_some] at hz ⊢
        have hl : n < 2 ^ 8 := of_decide_eq_true (filter_eq_some_iff.mp hn).2
        have ws : ∀ w ∈ p.ws ++ [{ address := ip, value := UInt8.ofNat n }], 0 < w.value.toNat := by
          rw [forall_mem_append, forall_mem_singleton, UInt8.toNat_ofNat_of_lt' hl]
          exact ⟨hp.ws, pos_of_ne_zero hz⟩
        refine ⟨ws, fun name => ?_⟩
        dsimp only
        by_cases he : name = p.dname
        case pos =>
          rw [he, Function.update_self]
          exact ws
        case neg =>
          rw [Function.update_of_ne he]
          exact hp.domains name

theorem Parsing.Positive.parseLine {p : Parsing} (hp : p.Positive) (line : Str) :
    (parseLine p line).Ends Positive fun _ => True := by
  simp only [Loadbalance.parseLine]
  split
  case isTrue => exact hp
  case isFalse =>
    split
    case h_1 =>
      split
      case isTrue => trivial
      case isFalse => exact ⟨hp.domains _, hp.domains⟩
    case h_2 => exact hp.parseWeight _ _
    case h_3 => trivial

theorem parseWeights_positive {content : Str} {domains : Domains} (h : parseWeights content = .ok domains) :
    ∀ name, ∀ w ∈ domains name, 0 < w.value.toNat := by
  have hp : (parseWeights content).Ends (fun d => ∀ name, ∀ w ∈ d name, 0 < w.value.toNat) fun _ => True := by
    refine Except.Ends.bind (P := Parsing.Positive) (Except.Ends.foldlM ⟨by simp, by simp⟩ fun p line _ hp => ?_)
      fun p hp => hp.domains
    split
    case isTrue => trivial
    case isFalse => exact hp.parseLine line
  rwa [h] at hp

theorem weight_pos {domains : Domains} (h : ∀ name, ∀ w ∈ domains name, 0 < w.value.toNat) (ar : RR) :
    0 < (weight domains ar).toNat := by
  rw [weight]
  cases hf : (domains ar.name).find? fun w => address ar = some w.address
  case none => decide
  case some w => exact h ar.name w (mem_of_find?_eq_some hf)

-- The weight of the first entry for an owner and its address, or one if there is none.
def IsWeight (domains : Domains) (ar : RR) (w : Nat) : Prop :=
  (∃ before item after, domains ar.name = before ++ item :: after ∧ address ar = some item.address ∧
    (∀ x ∈ before, address ar ≠ some x.address) ∧ w = item.value.toNat) ∨
  (∀ x ∈ domains ar.name, address ar ≠ some x.address) ∧ w = 1

theorem isWeight_weight (domains : Domains) (ar : RR) : IsWeight domains ar (weight domains ar).toNat := by
  rw [weight]
  cases hf : (domains ar.name).find? fun w => address ar = some w.address
  case none => exact .inr ⟨by simpa using hf, rfl⟩
  case some item =>
    obtain ⟨ha, before, after, he, hb⟩ := find?_eq_some_iff_append.mp hf
    exact .inl ⟨before, item, after, he, by simpa using ha, by simpa using hb, rfl⟩

theorem weightedRoundRobin_fair {content : Str} {domains : Domains} {sort : List (Nat × UInt8) → List (Nat × UInt8)}
    (hp : parseWeights content = .ok domains) (hs : Sorts sort) (rrs : List RR) :
    (rrs.filter isAddress ≠ [] → 0 < wsum domains (rrs.filter isAddress)) ∧
    (∀ v, (rrs.filter isAddress ≠ [] → v < wsum domains (rrs.filter isAddress)) →
      (weightedRoundRobin domains sort rrs v).Perm rrs ∧
      ∃ xs ys, weightedRoundRobin domains sort rrs v = xs ++ ys ∧
        (∀ rr ∈ xs, ¬isAddress rr) ∧ ∀ rr ∈ ys, rr.rrtype ≠ .cname) ∧
    (∀ v < wsum domains (rrs.filter isAddress),
      ∃ i, ∃ hi : i < (rrs.filter isAddress).length, topAddressIndex domains sort (rrs.filter isAddress) v = some i ∧
        (weightedRoundRobin domains sort rrs v).find? isAddress = some (rrs.filter isAddress)[i]) ∧
    ∀ i (hi : i < (rrs.filter isAddress).length), IsWeight domains (rrs.filter isAddress)[i] <|
      (List.range (wsum domains (rrs.filter isAddress))).countP fun v =>
        topAddressIndex domains sort (rrs.filter isAddress) v = some i := by
  refine ⟨fun hn => ?_, fun v => weightedRoundRobin_perm hs, fun v hv => ?_,
    fun i hi => countP_topAddressIndex hs hi ▸ isWeight_weight _ _⟩
  case refine_2 =>
    obtain ⟨i, hi, ht⟩ := exists_topAddressIndex hs hv
    exact ⟨i, hi, ht, find?_weightedRoundRobin hi ht⟩
  obtain ⟨ar, ars, he⟩ := exists_cons_of_ne_nil hn
  rw [he, wsum, map_cons, sum_cons]
  exact Nat.add_pos_left (weight_pos (parseWeights_positive hp) ar) _

namespace Sample

def content : Str :=
  "# weights\nwww.example.org\n192.0.2.1 3".toList

def sort (l : List (Nat × UInt8)) : List (Nat × UInt8) :=
  l.mergeSort fun a b => b.2 ≤ a.2

theorem sorts : Sorts sort where
  perm l := mergeSort_perm l _
  sorted l := by
    have h : (sort l).Pairwise fun a b => decide (b.2 ≤ a.2) :=
      pairwise_mergeSort (by simp; grind) (by simp; grind) l
    simpa using h

end Sample

theorem weightedRoundRobin_fair_sample : ∃ domains, parseWeights Sample.content = .ok domains ∧
    (domains "www.example.org.").map (·.value) = [3] ∧
    ∀ rrs v, (rrs.filter isAddress ≠ [] → v < wsum domains (rrs.filter isAddress)) →
      (weightedRoundRobin domains Sample.sort rrs v).Perm rrs := by
  obtain ⟨domains, hp, hd⟩ : ∃ domains, parseWeights Sample.content = .ok domains ∧
      (domains "www.example.org.").map (·.value) = [3] := ⟨_, rfl, by decide⟩
  exact ⟨domains, hp, hd, fun rrs v hv => ((weightedRoundRobin_fair hp Sample.sorts rrs).2.1 v hv).1⟩

section Reload

variable [DecidableEq δ] {md5 : Str → δ} {zero : δ} {fs : List File} {content : Str}

-- Different contents have different checksums, and none has the one that is there before anything was read.
structure Distinct (md5 : Str → δ) (zero : δ) : Prop where
  injective : Function.Injective md5
  ne_zero : ∀ content, md5 content ≠ zero

def WeightedRR.run (md5 : Str → δ) (zero : δ) (fs : List File) : WeightedRR δ :=
  fs.foldl (fun w f => (w.updateWeights md5 f).2) { md5sum := zero }

def File.read? : File → Option Str
  | .content content => some content
  | _ => none

def last (fs : List File) : Option Str :=
  fs.reverse.findSome? File.read?

-- A call says whether it has accepted the content, which is in use then.
structure Reports (md5 : Str → δ) (w : WeightedRR δ) (content : Str) : Prop where
  accepts : (w.updateWeights md5 (.content content)).1 = none ↔ ∃ domains, parseWeights content = .ok domains
  applies : (w.updateWeights md5 (.content content)).1 = none →
            parseWeights content = .ok (w.updateWeights md5 (.content content)).2.domains
  keeps : (w.updateWeights md5 (.content content)).1 ≠ none →
            (w.updateWeights md5 (.content content)).2.domains = w.domains

omit [DecidableEq δ] in
theorem Distinct.last_eq (hd : Distinct md5 zero) (h : md5 content = (last fs).elim zero md5) :
    last fs = some content := by
  cases hl : last fs <;> rw [hl] at h
  case none => exact absurd h (hd.ne_zero content)
  case some => rw [hd.injective h]

theorem run_last (hd : Distinct md5 zero) (fs : List File) :
    (run md5 zero fs).md5sum = (last fs).elim zero md5 ∧
    ∀ content domains, last fs = some content → parseWeights content = .ok domains →
      (run md5 zero fs).domains = domains := by
  induction fs using List.reverseRecOn
  case nil => exact ⟨rfl, fun _ _ h => by cases h⟩
  case append_singleton fs f hi =>
    rw [run, foldl_append, ←run]
    simp only [foldl_cons, foldl_nil, last, reverse_append, reverse_singleton, singleton_append,
      findSome?_cons]
    cases f
    case unopened => exact hi
    case unread => exact hi
    case content c =>
      simp only [updateWeights, File.read?, elim_some, Option.some.injEq]
      split
      case isTrue h =>
        have hl : last fs = some c := hd.last_eq (hi.1 ▸ h)
        refine ⟨h.symm, ?_⟩
        rintro _ domains rfl
        exact hi.2 c domains hl
      case isFalse =>
        split
        case h_1 err hp =>
          refine ⟨rfl, ?_⟩
          rintro _ domains rfl h
          cases hp.symm.trans h
        case h_2 domains hp =>
          refine ⟨rfl, ?_⟩
          rintro _ domains' rfl h
          exact Except.ok.inj (hp.symm.trans h)

-- A call reports what it should, unless it reads a content again that was not accepted the last time.
theorem reports_iff (hd : Distinct md5 zero) (fs : List File) (content : Str) :
    Reports md5 (run md5 zero fs) content ↔
    (last fs = some content → ∃ domains, parseWeights content = .ok domains) := by
  obtain ⟨hm, ha⟩ := run_last hd fs
  by_cases h : md5 content = (run md5 zero fs).md5sum
  case pos =>
    have hl : last fs = some content := hd.last_eq (hm ▸ h)
    have hu : (run md5 zero fs).updateWeights md5 (.content content) = (none, run md5 zero fs) :=
      if_pos h
    constructor
    case mp =>
      intro r _
      exact r.accepts.mp (by rw [hu])
    case mpr =>
      intro hc
      obtain ⟨domains, hp⟩ := hc hl
      refine ⟨iff_of_true (by rw [hu]) ⟨domains, hp⟩, fun _ => ?_, fun hn => absurd (by rw [hu]) hn⟩
      rw [hu, ha content domains hl hp, hp]
  case neg =>
    have hl : last fs ≠ some content := by
      intro hl
      rw [hl] at hm
      exact h hm.symm
    refine iff_of_true ?_ fun hl' => absurd hl' hl
    cases hp : parseWeights content
    case error err =>
      have hu : (run md5 zero fs).updateWeights md5 (.content content) =
          (some (.parse err), { run md5 zero fs with md5sum := md5 content }) := by
        simp [updateWeights, if_neg h, hp]
      refine ⟨?_, ?_, ?_⟩
      all_goals simp [hu, hp]
    case ok domains =>
      have hu : (run md5 zero fs).updateWeights md5 (.content content) =
          (none, { md5sum := md5 content, domains }) := by
        simp [updateWeights, if_neg h, hp]
      refine ⟨?_, ?_, ?_⟩
      all_goals simp [hu, hp]

end Reload

theorem Sample.distinct : Distinct some (none : Option Str) where
  injective := some_injective _
  ne_zero _ := some_ne_none _

-- The file is corrected after a content that was not accepted.
theorem reports_corrected :
    let fs := [.content Sample.content, .content "192.0.2.1".toList, .unopened]
    Reports some (run some none fs) Sample.content := by
  intro fs
  exact (reports_iff Sample.distinct fs Sample.content).mpr fun h => absurd h (by decide)

-- The second call reports success for a file in which a weight is missing.
theorem not_reports_again : ¬Reports some (run some none [.content "192.0.2.1".toList]) "192.0.2.1".toList := by
  intro r
  obtain ⟨domains, h⟩ := r.accepts.mp (by decide)
  have he : parseWeights "192.0.2.1".toList = .error (.wrongDomain "192.0.2.1".toList) := rfl
  cases he.symm.trans h

end Loadbalance
