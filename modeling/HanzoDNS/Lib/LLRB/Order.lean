import HanzoDNS.Lib.LLRB.Balance

open List Option

namespace LLRB

-- A cut divides an ordered list into the elements before what is searched, at most one that is what is
-- searched, and those after it.
def Cuts (cut : α → Ordering) (as : List α) : Prop :=
  as.Pairwise fun a b => cut a ≠ .gt → cut b = .lt

def erase (cut : α → Ordering) (as : List α) : List α :=
  as.filter fun a => !decide (cut a = .eq)

namespace Cuts

variable {cut : α → Ordering} {as bs : List α} {a : α}

theorem append_cons_iff :
    Cuts cut (as ++ a :: bs) ↔ Cuts cut as ∧ Cuts cut bs ∧ (∀ b ∈ bs, cut a ≠ .gt → cut b = .lt) ∧
      (∀ b ∈ as, cut b ≠ .gt → cut a = .lt) ∧ ∀ b ∈ as, ∀ b' ∈ bs, cut b ≠ .gt → cut b' = .lt := by
  simp only [Cuts, pairwise_append, pairwise_cons, mem_cons, forall_eq_or_imp, forall_and]
  tauto

section

variable (h : Cuts cut (as ++ a :: bs))

include h

theorem left : Cuts cut as :=
  append_cons_iff.mp h |>.1

theorem right : Cuts cut bs :=
  append_cons_iff.mp h |>.2.1

theorem lt_of_mem_right (ha : cut a ≠ .gt) : ∀ b ∈ bs, cut b = .lt :=
  fun b hb => (append_cons_iff.mp h).2.2.1 b hb ha

theorem gt_of_mem_left (ha : cut a ≠ .lt) : ∀ b ∈ as, cut b = .gt := by
  intro b hb
  by_contra hn
  exact ha <| (append_cons_iff.mp h).2.2.2.1 b hb hn

omit h in
theorem erase_eq_self {o : Ordering} (h : ∀ a ∈ as, cut a = o) (ho : o ≠ .eq) : erase cut as = as := by
  simpa [erase] using fun a ha => h a ha ▸ ho

theorem erase_of_lt (ha : cut a = .lt) : erase cut (as ++ a :: bs) = erase cut as ++ a :: bs := by
  have hr := erase_eq_self (h.lt_of_mem_right (by simp [ha])) nofun
  rw [erase] at hr
  rw [erase, filter_append, filter_cons_of_pos (by simp [ha]), hr, erase]

theorem erase_of_eq (ha : cut a = .eq) : erase cut (as ++ a :: bs) = as ++ bs := by
  have hl := erase_eq_self (h.gt_of_mem_left (by simp [ha])) nofun
  have hr := erase_eq_self (h.lt_of_mem_right (by simp [ha])) nofun
  rw [erase] at hl hr
  rw [erase, filter_append, filter_cons_of_neg (by simp [ha]), hl, hr]

theorem erase_of_gt (ha : cut a = .gt) : erase cut (as ++ a :: bs) = as ++ a :: erase cut bs := by
  have hl := erase_eq_self (h.gt_of_mem_left (by simp [ha])) nofun
  rw [erase] at hl
  rw [erase, filter_append, filter_cons_of_pos (by simp [ha]), hl, erase]

end

end Cuts

namespace Node

variable {n n' l r : Node α} {c : Color} {h : Nat} {e : α} {cut : α → Ordering}

theorem size_eq_length : n.size = n.toList.length := by
  induction n
  case nil => rfl
  case node hl hr => simp [hl, hr]; omega

section ToList

theorem rotateLeft_toList (h : n.rotateLeft = some n') : n'.toList = n.toList := by
  unfold rotateLeft at h
  split at h
  case h_1 => cases h; simp
  case h_2 => cases h

theorem rotateRight_toList (h : n.rotateRight = some n') : n'.toList = n.toList := by
  unfold rotateRight at h
  split at h
  case h_1 => cases h; simp
  case h_2 => cases h

theorem flipColors_toList (h : n.flipColors = some n') : n'.toList = n.toList := by
  unfold flipColors at h
  split at h
  case h_1 => cases h; simp
  case h_2 => cases h

theorem toList_of_ite {p : Prop} [Decidable p] {m : Option (Node α)} (hm : m = some n' → n'.toList = n.toList)
    (h : (if p then m else some n) = some n') : n'.toList = n.toList := by
  split at h
  case isTrue => exact hm h
  case isFalse => cases h; rfl

theorem straighten_toList (h : n.straighten = some n') : n'.toList = n.toList := by
  simp only [straighten, bind_eq_bind, bind_eq_some_iff] at h
  obtain ⟨l, -, h⟩ := h
  refine toList_of_ite (fun h => ?_) h
  obtain ⟨l', -, h⟩ := bind_eq_some_iff.mp h
  exact toList_of_ite rotateRight_toList h

theorem split_toList (h : n.split = some n') : n'.toList = n.toList := by
  simp only [split, bind_eq_bind, bind_eq_some_iff] at h
  obtain ⟨l, -, r, -, h⟩ := h
  exact toList_of_ite flipColors_toList h

theorem lean_toList (h : n.lean = some n') : n'.toList = n.toList := by
  simp only [lean, leanLeftUnlessSplit, bind_eq_bind, bind_eq_some_iff] at h
  obtain ⟨n₁, ⟨r, -, l, -, h₁⟩, n₂, h₂, h₃⟩ := h
  rw [split_toList h₃, straighten_toList h₂]
  exact toList_of_ite rotateLeft_toList h₁

theorem fixUp_toList (h : n.fixUp = some n') : n'.toList = n.toList := by
  simp only [fixUp, leanLeft, bind_eq_bind, bind_eq_some_iff] at h
  obtain ⟨n₁, ⟨r, -, h₁⟩, n₂, h₂, h₃⟩ := h
  rw [split_toList h₃, straighten_toList h₂]
  exact toList_of_ite rotateLeft_toList h₁

theorem moveRedLeft_toList (h : n.moveRedLeft = some n') : n'.toList = n.toList := by
  simp only [moveRedLeft, bind_eq_bind, bind_eq_some_iff] at h
  obtain ⟨n₁, h₁, r, hr, l, -, h⟩ := h
  rw [←flipColors_toList h₁]
  refine toList_of_ite (fun h => ?_) h
  simp only [bind_eq_some_iff] at h
  obtain ⟨r', hr', n₂, h₂, n₃, h₃, h₄⟩ := h
  rw [flipColors_toList h₄, rotateLeft_toList h₃]
  cases n₁
  case nil => cases hr
  case node => cases hr; cases h₂; simp [rotateRight_toList hr']

theorem moveRedRight_toList (h : n.moveRedRight = some n') : n'.toList = n.toList := by
  simp only [moveRedRight, bind_eq_bind, bind_eq_some_iff] at h
  obtain ⟨n₁, h₁, l, -, l', -, h⟩ := h
  rw [←flipColors_toList h₁]
  refine toList_of_ite (fun h => ?_) h
  obtain ⟨n₂, h₂, h₃⟩ := bind_eq_some_iff.mp h
  rw [flipColors_toList h₃, rotateRight_toList h₂]

theorem leanRight_toList (h : n.leanRight = some n') : n'.toList = n.toList := by
  simp only [leanRight, bind_eq_bind, bind_eq_some_iff] at h
  obtain ⟨l, -, h⟩ := h
  exact toList_of_ite rotateRight_toList h

theorem borrowLeft_toList (h : n.borrowLeft = some n') : n'.toList = n.toList := by
  simp only [borrowLeft, bind_eq_bind, bind_eq_some_iff] at h
  obtain ⟨l, -, l', -, h⟩ := h
  exact toList_of_ite moveRedLeft_toList h

theorem borrowRight_toList (h : n.borrowRight = some n') : n'.toList = n.toList := by
  simp only [borrowRight, bind_eq_bind, bind_eq_some_iff] at h
  obtain ⟨r, -, l, -, h⟩ := h
  exact toList_of_ite moveRedRight_toList h

theorem setBlack_toList : n.setBlack.toList = n.toList := by
  cases n <;> rfl

end ToList

def Ordered (lt : α → α → Prop) : Node α → Prop
  | nil => True
  | node e l r _ => (∀ a ∈ l.toList, lt a e) ∧ (∀ b ∈ r.toList, lt e b) ∧ l.Ordered lt ∧ r.Ordered lt

theorem ordered_of_pairwise {lt : α → α → Prop} (h : n.toList.Pairwise lt) : n.Ordered lt := by
  induction n
  case nil => trivial
  case node hl hr =>
    simp only [toList, pairwise_append, pairwise_cons, mem_cons, forall_eq_or_imp] at h
    exact ⟨fun a ha => (h.2.2 a ha).1, h.2.1.1, hl h.1, hr h.2.1.2⟩

theorem all_eq (as : List α) : n.all as = as ++ n.toList := by
  induction n generalizing as
  case nil => simp [all]
  case node hl hr => simp [all, hl, hr]

theorem walk_eq [Monad m] [LawfulMonad m] (fn : α → m PUnit) : n.walk fn = n.toList.forM fn := by
  induction n
  case nil => rfl
  case node hl hr => simp [walk, hl, hr]

theorem min_eq_head? : n.min = n.toList.head? := by
  induction n
  case nil => rfl
  case node e l r c hl _ =>
    cases l
    case nil => rfl
    case node e' l' r' c' => simp [min, hl]

section Read

theorem search_eq_some_iff (hc : Cuts cut n.toList) : n.search cut = some e ↔ e ∈ n.toList ∧ cut e = .eq := by
  induction n
  case nil => simp [search]
  case node e' l r c hl hr =>
    have hl := hl hc.left
    have hr := hr hc.right
    have lt := hc.lt_of_mem_right
    have gt := hc.gt_of_mem_left
    cases h : cut e' <;> simp only [search, h, toList, mem_append, mem_cons] <;> grind

theorem search_eq_none_iff (hc : Cuts cut n.toList) : n.search cut = none ↔ ∀ e ∈ n.toList, cut e ≠ .eq := by
  simp [eq_none_iff_forall_ne_some, search_eq_some_iff hc]

theorem ceil_eq (hc : Cuts cut n.toList) : n.ceil cut = n.toList.find? (fun e => !decide (cut e = .gt)) := by
  induction n
  case nil => rfl
  case node e l r c hl hr =>
    have none (hn : cut e ≠ .lt) : l.toList.find? (fun e => !decide (cut e = .gt)) = none := by
      simpa using hc.gt_of_mem_left hn
    cases h : cut e
    case lt => simp [ceil, h, hl hc.left]
    case eq => simp [ceil, h, none (by simp [h])]
    case gt => simp [ceil, h, hr hc.right, none (by simp [h])]

theorem update_toList (hc : Cuts cut n.toList) (f : α → α) :
    (n.update cut f).toList = n.toList.map fun e => if cut e = .eq then f e else e := by
  induction n
  case nil => rfl
  case node e l r c hl hr =>
    have keep {o} {as : List α} (h : ∀ e ∈ as, cut e = o) (ho : o ≠ .eq) :
        as.map (fun e => if cut e = .eq then f e else e) = as := by
      conv_rhs => rw [←as.map_id]
      exact map_congr_left fun e he => by simp [h e he, ho]
    cases h : cut e
    case lt => simp [update, h, hl hc.left, keep (hc.lt_of_mem_right (by simp [h])) (by simp)]
    case eq =>
      simp [update, h, keep (hc.gt_of_mem_left (by simp [h])) (by simp), keep (hc.lt_of_mem_right (by simp [h])) (by simp)]
    case gt => simp [update, h, hr hc.right, keep (hc.gt_of_mem_left (by simp [h])) (by simp)]

end Read

-- An insertion either lets the element that the cut finds absorb what is inserted or puts a new element
-- between those before and those after it.
theorem insert_toList {new : α} {absorb : α → α} {d : Int} (hc : Cuts cut n.toList)
    (h : n.insert cut new absorb = some (n', d)) : ∃ as bs, (∀ a ∈ as, cut a = .gt) ∧ (∀ b ∈ bs, cut b = .lt) ∧
      ((∃ e, cut e = .eq ∧ n.toList = as ++ e :: bs ∧ n'.toList = as ++ absorb e :: bs ∧ d = 0) ∨
        (n.toList = as ++ bs ∧ n'.toList = as ++ new :: bs ∧ d = 1)) := by
  induction n generalizing n' d
  case nil =>
    cases h
    exact ⟨[], [], by simp, by simp, .inr (by simp)⟩
  case node e l r c hl hr =>
    cases he : cut e <;>
      simp only [insert, he, bind_eq_bind, bind_eq_some_iff, map_eq_some_iff,
        Prod.exists, Prod.mk.injEq, Option.some.injEq] at h
    case lt =>
      obtain ⟨_, _, ⟨l', d', hi, rfl, rfl⟩, n₁, hn, rfl, rfl⟩ := h
      have lt := hc.lt_of_mem_right (by simp [he])
      obtain ⟨as, bs, ha, hb, h⟩ := hl hc.left hi
      refine ⟨as, bs ++ e :: r.toList, ha, by simp; grind, ?_⟩
      rw [lean_toList hn]
      obtain ⟨e', he', h₁, h₂, rfl⟩ | ⟨h₁, h₂, rfl⟩ := h
      case inl => exact .inl ⟨e', he', by simp [h₁], by simp [h₂], rfl⟩
      case inr => exact .inr ⟨by simp [h₁], by simp [h₂], rfl⟩
    case eq =>
      obtain ⟨_, _, ⟨rfl, rfl⟩, n₁, hn, rfl, rfl⟩ := h
      refine ⟨l.toList, r.toList, hc.gt_of_mem_left (by simp [he]), hc.lt_of_mem_right (by simp [he]), ?_⟩
      exact .inl ⟨e, he, rfl, lean_toList hn, rfl⟩
    case gt =>
      obtain ⟨_, _, ⟨r', d', hi, rfl, rfl⟩, n₁, hn, rfl, rfl⟩ := h
      have gt := hc.gt_of_mem_left (by simp [he])
      obtain ⟨as, bs, ha, hb, h⟩ := hr hc.right hi
      refine ⟨l.toList ++ e :: as, bs, by simp; grind, hb, ?_⟩
      rw [lean_toList hn]
      obtain ⟨e', he', h₁, h₂, rfl⟩ | ⟨h₁, h₂, rfl⟩ := h
      case inl => exact .inl ⟨e', he', by simp [h₁], by simp [h₂], rfl⟩
      case inr => exact .inr ⟨by simp [h₁], by simp [h₂], rfl⟩

theorem insert_root (b : Balanced n .black h) (cut : α → Ordering) (new : α) (absorb : α → α) :
    ∃ n' d h', n.insert cut new absorb = some (n', d) ∧ Balanced n'.setBlack .black h' := by
  obtain ⟨n', d, hi, -, hb⟩ := insert_balanced b cut new absorb
  obtain ⟨_, hb⟩ := hb rfl
  obtain ⟨h', hb⟩ := hb.setBlack
  exact ⟨n', d, h', hi, hb⟩

end Node
end LLRB
