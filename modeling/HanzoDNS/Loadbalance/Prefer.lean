import HanzoDNS.Lib.IPNet
import HanzoDNS.Lib.StableSort
import HanzoDNS.Loadbalance.Weighted

open Dns Net List

-- The policy that puts the addresses of preferred networks first.
namespace Loadbalance

def extractIP (rr : RR) : Option IP :=
  if isAddress rr then address rr else none

def isIn (subnet : IPNet) (rr : RR) : Bool :=
  (extractIP rr).any subnet.contains

structure Matching where
  matched : List RR := []
  seen : List Nat := []

def Matching.visit (subnet : IPNet) (m : Matching) (r : RR × Nat) : Matching :=
  if r.2 ∈ m.seen then
    m
  else if isIn subnet r.1 then
    { matched := m.matched ++ [r.1], seen := r.2 :: m.seen }
  else
    m

def Matching.pass (records : List (RR × Nat)) (m : Matching) (subnet : IPNet) : Matching :=
  records.foldl (visit subnet) m

def sortBySubnetPriority (records : List RR) (subnets : List IPNet) : List RR :=
  let m := subnets.foldl (Matching.pass records.zipIdx) {}
  m.matched ++ (records.zipIdx.filter (·.2 ∉ m.seen)).map Prod.fst

structure Groups where
  cname : List RR := []
  address : List RR := []
  mx : List RR := []
  rest : List RR := []

def Groups.add (g : Groups) (r : RR) : Groups :=
  if r.rrtype = .cname then
    { g with cname := g.cname ++ [r] }
  else if isAddress r then
    { g with address := g.address ++ [r] }
  else if r.rrtype = .mx then
    { g with mx := g.mx ++ [r] }
  else
    { g with rest := g.rest ++ [r] }

def reorderRecords (records : List RR) (subnets : List IPNet) : List RR :=
  let g := records.foldl Groups.add {}
  g.cname ++ sortBySubnetPriority g.address subnets ++ g.mx ++ g.rest

-- The first network with the address. An address that is in none of them comes after those that are in one.
def priority (subnets : List IPNet) (rr : RR) : Nat :=
  subnets.findIdx fun subnet => (address rr).any subnet.contains

def isOther (rr : RR) : Bool :=
  ¬(rr.rrtype = .cname ∨ isAddress rr ∨ rr.rrtype = .mx)

section

variable {records : List (RR × Nat)} {subnet : IPNet} {subnets before : List IPNet} {m : Matching}

theorem priority_eq_iff {rr : RR} (ha : isAddress rr) : priority (before ++ subnet :: subnets) rr = before.length ↔
    ¬priority (before ++ subnet :: subnets) rr < before.length ∧ isIn subnet rr := by
  rw [isIn, extractIP, if_pos ha, priority, findIdx_append, findIdx_cons]
  split
  case isTrue => omega
  case isFalse =>
    cases (address rr).any subnet.contains
    case false => simp
    case true => simp

namespace Matching

theorem pass_cons {r : RR × Nat} : m.pass (r :: records) subnet = (m.visit subnet r).pass records subnet :=
  rfl

theorem seen_pass (h : (records.map Prod.snd).Nodup) (i : Nat) :
    i ∈ (m.pass records subnet).seen ↔ i ∈ m.seen ∨ ∃ r ∈ records, r.2 = i ∧ isIn subnet r.1 := by
  induction records generalizing m
  case nil => simp [pass]
  case cons r records hi =>
    rw [pass_cons, hi (nodup_cons.mp h).2, visit, exists_mem_cons_iff]
    split_ifs with hs hn
    · grind
    · grind
    · grind

theorem matched_pass (h : (records.map Prod.snd).Nodup) : (m.pass records subnet).matched =
    m.matched ++ (records.filter fun r => r.2 ∉ m.seen ∧ isIn subnet r.1).map Prod.fst := by
  induction records generalizing m
  case nil => simp [pass]
  case cons r records hi =>
    obtain ⟨hr, h⟩ := nodup_cons.mp h
    rw [pass_cons, hi h, visit]
    split_ifs with hs hn
    · simp [hs]
    · have hm : ∀ x ∈ records, x.2 ≠ r.2 := fun x hx he => hr (he ▸ mem_map_of_mem hx)
      have hf : (records.filter fun x => x.2 ∉ r.2 :: m.seen ∧ isIn subnet x.1) =
          records.filter fun x => x.2 ∉ m.seen ∧ isIn subnet x.1 :=
        filter_congr fun x hx => by simp [hm x hx]
      simp only [hf]
      simp [hs, hn]
    · simp [hn]

structure Sorted (records : List (RR × Nat)) (subnets : List IPNet) (n : Nat) (m : Matching) : Prop where
  below : StableSort.Below (priority subnets) (records.map Prod.fst) n m.matched
  seen : ∀ r ∈ records, r.2 ∈ m.seen ↔ priority subnets r.1 < n

theorem Sorted.pass (h : (records.map Prod.snd).Nodup) (ha : ∀ r ∈ records, isAddress r.1)
    (hs : Sorted records (before ++ subnet :: subnets) before.length m) :
    Sorted records (before ++ subnet :: subnets) (before.length + 1) (m.pass records subnet) := by
  have hf : (records.filter fun r => r.2 ∉ m.seen ∧ isIn subnet r.1).map Prod.fst =
      (records.map Prod.fst).filter (priority (before ++ subnet :: subnets) · = before.length) := by
    rw [filter_map]
    refine congrArg _ (filter_congr fun r hr => ?_)
    simp [hs.seen r hr, priority_eq_iff (ha r hr)]
  constructor
  case below =>
    rw [matched_pass h, hf]
    exact hs.below.succ
  case seen =>
    intro r hr
    have hu : (∃ x ∈ records, x.2 = r.2 ∧ isIn subnet x.1) ↔ isIn subnet r.1 := by
      constructor
      case mp =>
        rintro ⟨x, hx, he, hn⟩
        rwa [inj_on_of_nodup_map h hx hr he] at hn
      case mpr => exact fun hn => ⟨r, hr, rfl, hn⟩
    rw [seen_pass h, hu, hs.seen r hr, Nat.lt_succ_iff_lt_or_eq, priority_eq_iff (ha r hr)]
    tauto

theorem Sorted.foldl (h : (records.map Prod.snd).Nodup) (ha : ∀ r ∈ records, isAddress r.1)
    (hs : Sorted records (before ++ subnets) before.length m) :
    Sorted records (before ++ subnets) (before ++ subnets).length (subnets.foldl (Matching.pass records) m) := by
  induction subnets generalizing before m
  case nil => simpa using hs
  case cons subnet subnets hi =>
    have hp := hs.pass h ha
    rw [append_cons] at hp ⊢
    exact hi (by simpa using hp)

end Matching

theorem priority_le (subnets : List IPNet) (rr : RR) : priority subnets rr ≤ subnets.length :=
  findIdx_le_length

theorem sortBySubnetPriority_sorts {records : List RR} (ha : ∀ rr ∈ records, isAddress rr) (subnets : List IPNet) :
    StableSort (priority subnets) records (sortBySubnetPriority records subnets) := by
  have hn : (records.zipIdx.map Prod.snd).Nodup := by
    rw [zipIdx_map_snd]
    exact nodup_range'
  have h₀ : Matching.Sorted records.zipIdx ([] ++ subnets) 0 {} := ⟨.nil, by simp⟩
  have hs := h₀.foldl hn fun r hr => ha _ (fst_mem_of_mem_zipIdx hr)
  have hu : (records.zipIdx.filter (·.2 ∉ (subnets.foldl (Matching.pass records.zipIdx) {}).seen)).map Prod.fst =
      (records.zipIdx.map Prod.fst).filter (priority subnets · = subnets.length) := by
    rw [filter_map]
    refine congrArg _ (filter_congr fun r hr => ?_)
    simp [hs.seen r hr, (priority_le subnets r.1).ge_iff_eq]
  have hb := hs.below.succ
  rw [nil_append, ←hu, zipIdx_map_fst] at hb
  exact hb.stableSort fun rr _ => Nat.lt_succ_of_le (priority_le subnets rr)

theorem foldl_add (records : List RR) (g : Groups) : records.foldl Groups.add g = {
    cname := g.cname ++ records.filter (·.rrtype = .cname)
    address := g.address ++ records.filter isAddress
    mx := g.mx ++ records.filter (·.rrtype = .mx)
    rest := g.rest ++ records.filter isOther } := by
  induction records generalizing g
  case nil => simp
  case cons r records hi =>
    rw [foldl_cons, hi, Groups.add]
    split_ifs with hc ha hm
    · simp [hc, isAddress, isOther, RRType.cname, RRType.mx, RRType.a, RRType.aaaa]
    · have hm : r.rrtype ≠ .mx := by
        intro hm
        rw [isAddress, hm] at ha
        exact absurd ha (by decide)
      simp [hc, ha, hm, isOther]
    · simp [ha, hm, isOther, RRType.cname, RRType.mx]
    · simp [hc, ha, hm, isOther]

def Groups.all (g : Groups) : List RR :=
  g.cname ++ g.address ++ g.mx ++ g.rest

theorem Groups.all_add (g : Groups) (r : RR) : (g.add r).all.Perm (r :: g.all) := by
  classical
  refine perm_iff_count.mpr fun a => ?_
  rw [add]
  split_ifs
  all_goals
    simp only [all, count_append, count_cons, count_nil]
    omega

theorem Groups.all_foldl (records : List RR) (g : Groups) : (records.foldl add g).all.Perm (g.all ++ records) := by
  induction records generalizing g
  case nil => simp
  case cons r records hi => exact (hi (g.add r)).trans (((all_add g r).append_right records).trans perm_middle.symm)

-- Records that are not addresses keep their order.
theorem reorderRecords_sorts (records : List RR) (subnets : List IPNet) :
    (reorderRecords records subnets).Perm records ∧
    ∃ addresses, StableSort (priority subnets) (records.filter isAddress) addresses ∧
      reorderRecords records subnets = records.filter (·.rrtype = .cname) ++ addresses ++
        records.filter (·.rrtype = .mx) ++ records.filter isOther := by
  have hg : (records.foldl Groups.add {}).address = records.filter isAddress := by simp [foldl_add]
  have ha : ∀ rr ∈ (records.foldl Groups.add {}).address, isAddress rr := fun rr hr => (mem_filter.mp (hg ▸ hr)).2
  have hs := sortBySubnetPriority_sorts ha subnets
  constructor
  · refine Perm.trans ?_ (Groups.all_foldl records {})
    exact ((hs.perm.append_left _).append_right _).append_right _
  · refine ⟨_, hg ▸ hs, ?_⟩
    simp [reorderRecords, foldl_add]

end
end Loadbalance
