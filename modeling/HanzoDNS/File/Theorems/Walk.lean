import HanzoDNS.File.Lookup
import HanzoDNS.File.Theorems.Zone

open Dns Domain List

namespace File

open Name

section Labels

variable (dns : Labels)

theorem labelsBack_succ (x y : Name) (l : Label) (k : Nat) :
    labelsBack dns (cat ((x ++ [l]) ++ y)) (k + 1) (cat (x ++ [l])).length =
    labelsBack dns (cat (x ++ l :: y)) k (cat x).length := by
  have ht : (cat ((x ++ [l]) ++ y)).take (cat (x ++ [l])).length = cat (x ++ [l]) := by
    rw [cat_append (x ++ [l]) y, take_left]
  rw [labelsBack, ht, dns.prevLabel_cat, append_assoc]
  rfl

theorem labelsBack_cat (x y : Name) {k : Nat} (h : k ≤ x.length) :
    labelsBack dns (cat (x ++ y)) k (cat x).length = some (cat (x.take (x.length - k))).length := by
  induction k generalizing x y
  case zero => simp [labelsBack]
  case succ k hi =>
    cases x using List.reverseRecOn
    case nil => simp at h
    case append_singleton x l _ =>
      have hk : k ≤ x.length := by simpa using h
      have hx : (x ++ [l]).take ((x ++ [l]).length - (k + 1)) = x.take (x.length - k) := by
        simp [take_append_of_le_length]
      rw [labelsBack_succ, hx, hi x (l :: y) hk]

theorem labelsBack_cat_of_lt (x y : Name) {k : Nat} (h : x.length < k) :
    labelsBack dns (cat (x ++ y)) k (cat x).length = none := by
  induction k generalizing x y
  case zero => omega
  case succ k hi =>
    cases x using List.reverseRecOn
    case nil => simp [labelsBack, cat, dns.prevLabel_nil]
    case append_singleton x l _ =>
      rw [labelsBack_succ]
      exact hi x (l :: y) (by simpa using h)

theorem replaceWithAsteriskLabel_root : replaceWithAsteriskLabel dns ['.'] = [] := by
  simp [replaceWithAsteriskLabel, dns.nextLabel_root]

theorem replaceWithAsteriskLabel_singleton (l : Label) : replaceWithAsteriskLabel dns (text [l]) = [] := by
  simp [replaceWithAsteriskLabel, text, dns.nextLabel_cons]

end Labels

def asterisk : Label where
  text := ['*']
  nonempty := by decide
  valid := by decide

theorem replaceWithAsteriskLabel_cons (dns : Labels) (l : Label) {n : Name} (h : n ≠ []) :
    replaceWithAsteriskLabel dns (text (l :: n)) = text (asterisk :: n) := by
  rw [text_of_ne_nil (cons_ne_nil _ _), text_of_ne_nil (cons_ne_nil _ _),
    replaceWithAsteriskLabel, dns.nextLabel_cons]
  simp only [h, decide_false, drop_cat_cons]
  rfl

def ancestors (p o : Name) : List Name :=
  p.tails.map (· ++ o)

theorem mem_ancestors {p o n : Name} : n ∈ ancestors p o ↔ ∃ x, x <:+ p ∧ n = x ++ o := by
  simp [ancestors, eq_comm]

theorem ancestors_cons (l : Label) (p o : Name) : ancestors (l :: p) o = (l :: p ++ o) :: ancestors p o := by
  simp [ancestors]

namespace Zone

variable {dns : Labels} {z : Zone} {o p : Name} {rrs : List RR} {req : Request}

theorem nameFromRight_zero (h : z.Holds dns o rrs) (s : Str) : z.nameFromRight dns s 0 = (o.text, false) := by
  simp [nameFromRight, h.origin_eq]

theorem nameFromRight_of_le (h : z.Holds dns o rrs) {i : Nat} (hi : i ≤ p.length) :
    z.nameFromRight dns (p ++ o).text i = (text (p.drop (p.length - i) ++ o), false) := by
  by_cases h0 : i = 0
  case pos => simp [h0, nameFromRight_zero h]
  case neg =>
    have hp : p ≠ [] := by
      rintro rfl
      simp at hi
      contradiction
    have hd : p.drop (p.length - i) ++ o ≠ [] := by
      simp [drop_eq_nil_iff]
      omega
    have ho := labelsBack_cat dns (p ++ o) [] (k := o.length) (by simp)
    have hp' := labelsBack_cat dns p o hi
    have hc : cat (p ++ o) = cat (p.take (p.length - i)) ++ cat (p.drop (p.length - i) ++ o) := by
      rw [←cat_append, ←append_assoc, take_append_drop]
    simp only [append_nil, length_append, Nat.add_sub_cancel, take_left] at ho
    rw [nameFromRight, if_neg h0, h.origLen_eq, text_of_ne_nil (by simp [hp]), ho, Option.bind_some, hp']
    simp only [text_of_ne_nil hd, Prod.mk.injEq, and_true]
    rw [hc, drop_left]

theorem nameFromRight_of_lt (h : z.Holds dns o rrs) (hq : p ++ o ≠ []) {i : Nat} (hi : p.length < i) :
    (z.nameFromRight dns (p ++ o).text i).2 = true := by
  have ho := labelsBack_cat dns (p ++ o) [] (k := o.length) (by simp)
  simp only [append_nil, length_append, Nat.add_sub_cancel, take_left] at ho
  rw [nameFromRight, if_neg (by omega), h.origLen_eq, text_of_ne_nil hq, ho, Option.bind_some,
    labelsBack_cat_of_lt dns p o hi]

section Scan

variable (dns) (z) (req)

def stopAt (qname : Str) (n : Name) : Option Walk :=
  (z.search dns n.text).bind (·.stop dns req qname)

def wildAt (n : Name) : Option Elem :=
  if z.search dns n.text = none then z.search dns (replaceWithAsteriskLabel dns n.text) else none

def arrive (ns : List Name) (elem wild : Option Elem) : Walk :=
  match elem with
  | some e => .found e
  | none => .missing ((ns.reverse.findSome? (z.wildAt dns)).or wild)

end Scan

theorem walkFrom_overshot (h : z.Holds dns o rrs) (hq : p ++ o ≠ []) {fuel i : Nat} (hi : p.length < i)
    (elem wild : Option Elem) :
    z.walkFrom dns req (p ++ o).text (fuel + 1) i elem wild = some (z.arrive dns [] elem wild) := by
  have hs := nameFromRight_of_lt h hq hi
  rw [walkFrom.eq_def]
  dsimp only
  split
  case h_1 => cases elem <;> rfl
  case h_2 hn => simp [hn] at hs

theorem walkFrom_step {qname : Str} {n : Name} {i : Nat} (hn : z.nameFromRight dns qname i = (n.text, false))
    (fuel : Nat) (elem wild : Option Elem) : z.walkFrom dns req qname (fuel + 1) i elem wild =
    match z.stopAt dns req qname n with
    | some w => some w
    | none =>
      z.walkFrom dns req qname fuel (i + 1) (z.search dns n.text) ((z.wildAt dns n).or wild) := by
  rw [walkFrom.eq_def]
  simp only [hn, stopAt, wildAt]
  cases hs : z.search dns n.text
  case none => simp
  case some e => cases ht : e.stop dns req qname <;> simp [ht]

theorem arrive_cons (n : Name) (ns : List Name) (elem wild : Option Elem) :
    z.arrive dns (n :: ns) elem wild = z.arrive dns ns elem ((z.wildAt dns n).or wild) := by
  cases elem <;> simp [arrive, findSome?_append, Option.or_assoc]

theorem walkFrom_eq (h : z.Holds dns o rrs) (hq : p ++ o ≠ []) {fuel i k : Nat} (hk : i + k = p.length)
    (hf : k + 1 < fuel) (elem wild : Option Elem) :
    let ns := (List.range' i (k + 1)).map fun i => p.drop (p.length - i) ++ o
    z.walkFrom dns req (p ++ o).text fuel i elem wild =
    some ((ns.findSome? (z.stopAt dns req (p ++ o).text)).getD
      (z.arrive dns ns (z.search dns (p ++ o).text) wild)) := by
  intro ns
  induction k generalizing fuel i elem wild
  all_goals
    obtain ⟨fuel, rfl⟩ : ∃ f, fuel = f + 1 := ⟨fuel - 1, by omega⟩
    rw [walkFrom_step (nameFromRight_of_le h (by omega))]
    simp only [ns]
    rw [range'_succ, map_cons, findSome?_cons, arrive_cons]
  case zero =>
    obtain ⟨fuel, rfl⟩ : ∃ f, fuel = f + 1 := ⟨fuel - 1, by omega⟩
    obtain rfl : i = p.length := by omega
    rw [walkFrom_overshot h hq (by omega)]
    simp only [Nat.sub_self, drop_zero]
    cases z.stopAt dns req (p ++ o).text (p ++ o) <;> simp
  case succ k hi =>
    rw [hi (by omega) (by omega)]
    cases z.stopAt dns req (p ++ o).text (p.drop (p.length - i) ++ o) <;> simp

theorem ancestors_reverse (p o : Name) :
    (ancestors p o).reverse = (List.range' 0 (p.length + 1)).map fun i => p.drop (p.length - i) ++ o := by
  refine ext_getElem (by simp [ancestors]) fun i h₁ h₂ => ?_
  simp [ancestors, getElem_reverse]

theorem wildAt_root (h : z.Holds dns o rrs) : z.wildAt dns [] = none := by
  rw [wildAt, text, replaceWithAsteriskLabel_root, h.search_nil, ite_self]

-- The root has no labels, but the loop finds one, and so it visits the root twice.
theorem nameFromRight_root (h : z.Holds dns [] rrs) :
    z.nameFromRight dns ['.'] 1 = (text [], false) ∧ (z.nameFromRight dns ['.'] 2).2 = true := by
  obtain ⟨i, hi, hp⟩ : ∃ i < 1, dns.prevLabel ['.'] 1 = (i, false) := by
    simpa using prevLabel_cases dns ['.']
  obtain rfl : i = 0 := by omega
  constructor <;> simp [nameFromRight, h.origLen_eq, labelsBack, hp, dns.prevLabel_nil, text]

theorem walk_root (req : Request) (h : z.Holds dns [] rrs) :
    z.walk dns req ['.'] = some ((z.stopAt dns req ['.'] []).getD
      (z.arrive dns [] (z.search dns ['.']) none)) := by
  have hw := wildAt_root h
  obtain ⟨h₁, h₂⟩ := nameFromRight_root h
  rw [walk, walkFrom_step (nameFromRight_zero h _)]
  cases hs : z.stopAt dns req ['.'] []
  case some w => rfl
  case none =>
    dsimp only
    rw [length_singleton, walkFrom_step h₁, hs, hw]
    dsimp only
    rw [walkFrom.eq_def]
    dsimp only
    split
    case h_1 =>
      simp only [text]
      cases hn : z.search dns ['.'] <;> simp [arrive]
    case h_2 hn => simp [hn] at h₂

-- The walk ends at the highest name that ends it. If there is none, then what counts is the name itself or
-- else the wildcard of the lowest name that has one.
theorem walk_eq (h : z.Holds dns o rrs) : z.walk dns req (p ++ o).text =
    some (((ancestors p o).reverse.findSome? (z.stopAt dns req (p ++ o).text)).getD
      (z.arrive dns (ancestors p o).reverse (z.search dns (p ++ o).text) none)) := by
  by_cases hq : p ++ o = []
  case pos =>
    obtain ⟨rfl, rfl⟩ := append_eq_nil_iff.mp hq
    have hw := wildAt_root h
    have hr := walk_root req h
    simp only [append_nil, text, ancestors, List.tails, map_cons, map_nil, reverse_singleton,
      findSome?_cons, findSome?_nil, arrive_cons, hw] at hr ⊢
    rw [hr]
    cases z.stopAt dns req ['.'] [] <;> simp
  case neg =>
    have hl : p.length ≤ (p ++ o).text.length := by
      have := length_le_cat (p ++ o)
      simp only [length_append] at this
      rw [text_of_ne_nil hq]
      omega
    rw [walk, ancestors_reverse]
    exact walkFrom_eq h hq (by omega) (by omega) none none

-- The longest stored name that is a name or above it. Other than the origin, names with a single label do
-- not count.
def storedEncloser (dns : Labels) (z : Zone) (n : Name) : Option Elem :=
  ((n.tails.filter (1 < ·.length)).findSome? (z.search dns <| text ·)).or (z.search dns z.origin)

theorem closestEncloserFrom_eq (n : Name) {fuel : Nat} (hf : n.length < fuel) :
    z.closestEncloserFrom dns fuel n.text = some (z.storedEncloser dns n) := by
  simp only [storedEncloser]
  induction n generalizing fuel
  all_goals
    obtain ⟨fuel, rfl⟩ : ∃ f, fuel = f + 1 := ⟨fuel - 1, by omega⟩
    rw [closestEncloserFrom.eq_def]
  case nil => simp [text, dns.nextLabel_root]
  case cons l n hi =>
    simp only [text, dns.nextLabel_cons]
    by_cases hn : n = []
    case pos => simp [hn]
    case neg =>
      have hd : (cat (l :: n)).drop (l.text.length + 1) = text n := by
        rw [drop_cat_cons, text_of_ne_nil hn]
      have hl : 1 < (l :: n).length := by simpa using length_pos_of_ne_nil hn
      have hi := hi (by simpa using hf : n.length < fuel)
      simp only [hn, decide_false, hd, hi, tails_cons]
      rw [filter_cons_of_pos (by simpa using hl), findSome?_cons]
      simp only [text]
      cases z.search dns (cat (l :: n)) <;> rfl

theorem closestEncloser_eq (n : Name) : z.closestEncloser dns n.text = some (z.storedEncloser dns n) := by
  refine closestEncloserFrom_eq n ?_
  have := length_le_cat n
  cases n
  case nil => simp
  case cons => exact Nat.lt_succ_of_le this

end Zone

namespace Sample

def request (n : Name) (dnssec : Bool) : Request where
  name := n.text
  qtype := .a
  dnssec := dnssec

def upstream (rcode : Nat) : Upstream :=
  fun _ _ _ => .ok (some { rcode, answer := [] })

end Sample
end File
