import Mathlib.Data.List.Basic
import Mathlib.Logic.Function.Iterate

open List

-- Changes to the first value with a key in a list.
inductive Edit (κ ν : Type)
  | remove (k : κ)
  | restore (k : κ) (v : ν)

namespace Edit

variable {κ ν : Type} [DecidableEq κ] (key : ν → κ)

def apply : Edit κ ν → List ν → List ν
  | remove k, l => l.eraseP (key · = k)
  | restore k v, l => (l.findIdx? (key · = k)).elim l (l.set · v)

def applyAll (es : List (Edit κ ν)) (l : List ν) : List ν :=
  es.foldr (apply key) l

def IsKeyed : Edit κ ν → Prop
  | remove _ => True
  | restore k v => key v = k

def isRemoval (k : κ) : Edit κ ν → Bool
  | remove k' => k' = k
  | restore _ _ => false

def removals (es : List (Edit κ ν)) (k : κ) : Nat :=
  es.countP (isRemoval k)

def onKey (k : κ) : Edit κ ν → List ν → List ν
  | remove k', l => if k' = k then l.tail else l
  | restore k' v, l => if k' = k then l.set 0 v else l

def onKeyAll (k : κ) (es : List (Edit κ ν)) (l : List ν) : List ν :=
  es.foldr (onKey k) l

section Step

variable {key} {k k' : κ} {v x : ν} {e : Edit κ ν} {l l' : List ν}

theorem apply_remove_cons :
    apply key (remove k) (x :: l) = if key x = k then l else x :: apply key (remove k) l := by
  rw [apply, apply, eraseP_cons]
  by_cases h : key x = k
  case pos => simp [h]
  case neg => simp [h]

theorem apply_restore_cons :
    apply key (restore k v) (x :: l) = if key x = k then v :: l else x :: apply key (restore k v) l := by
  simp only [apply, findIdx?_cons, decide_eq_true_eq]
  split
  case isTrue => rfl
  case isFalse => cases l.findIdx? (key · = k) <;> rfl

theorem keys_remove : (apply key (remove k) l).map key = (l.map key).erase k := by
  induction l
  case nil => rfl
  case cons x l hi =>
    rw [apply_remove_cons, map_cons, erase_cons]
    split <;> simp_all

theorem keys_restore (h : key v = k) : (apply key (restore k v) l).map key = l.map key := by
  induction l
  case nil => rfl
  case cons x l hi =>
    rw [apply_restore_cons]
    split <;> simp_all

theorem filter_apply (h : e.IsKeyed key) :
    (apply key e l).filter (key · = k) = onKey k e (l.filter (key · = k)) := by
  induction l
  case nil => cases e <;> simp [apply, onKey]
  case cons x l hi =>
    cases e
    case remove k' =>
      rw [apply_remove_cons]
      by_cases hx : key x = k'
      all_goals by_cases hk : k' = k
      all_goals grind [onKey]
    case restore k' v =>
      rw [apply_restore_cons]
      by_cases hx : key x = k'
      all_goals by_cases hk : k' = k
      all_goals grind [onKey, IsKeyed]

theorem ext_of_keys (hk : l.map key = l'.map key)
    (hf : ∀ k, l.filter (key · = k) = l'.filter (key · = k)) : l = l' := by
  induction l generalizing l'
  case nil => exact (map_eq_nil_iff.mp hk.symm).symm
  case cons x l hi =>
    obtain ⟨y, l', rfl, hy, hl⟩ := map_eq_cons_iff.mp hk.symm
    have hx := hf (key x)
    rw [filter_cons_of_pos (by simp), filter_cons_of_pos (by simp [hy])] at hx
    obtain ⟨rfl, -⟩ := cons_eq_cons.mp hx
    refine congrArg (x :: ·) (hi hl.symm fun k => ?_)
    have hf := hf k
    rw [filter_cons, filter_cons] at hf
    split at hf
    case isTrue => exact (cons_eq_cons.mp hf).2
    case isFalse => exact hf

end Step

section Runs

variable {key} {k : κ} {es : List (Edit κ ν)} {l : List ν}

@[simp]
theorem onKeyAll_nil : onKeyAll k es [] = [] := by
  induction es
  case nil => rfl
  case cons e es hi =>
    rw [onKeyAll, foldr_cons, ←onKeyAll, hi]
    cases e <;> simp [onKey]

theorem length_onKeyAll : (onKeyAll k es l).length = l.length - removals es k := by
  induction es
  case nil => rfl
  case cons e es hi =>
    rw [onKeyAll, foldr_cons, ←onKeyAll, removals, countP_cons, ←removals]
    cases e
    all_goals
      simp only [onKey, isRemoval, decide_eq_true_eq]
      split
      all_goals simp [hi]
      try omega

theorem onKeyAll_eq_set (h : removals es k = 0) : ∃ v : Option ν, ∀ l, onKeyAll k es l = v.elim l (l.set 0) := by
  induction es
  case nil => exact ⟨none, fun _ => rfl⟩
  case cons e es hi =>
    rw [removals, countP_cons, Nat.add_eq_zero_iff] at h
    obtain ⟨v, hv⟩ := hi h.1
    cases e
    case remove k' =>
      have hk : k' ≠ k := by simpa [isRemoval] using h.2
      exact ⟨v, fun l => (if_neg hk).trans (hv l)⟩
    case restore k' v' =>
      by_cases hk : k' = k
      case neg => exact ⟨v, fun l => (if_neg hk).trans (hv l)⟩
      case pos =>
        refine ⟨some v', fun l => (if_pos hk).trans ?_⟩
        change (onKeyAll k es l).set 0 v' = l.set 0 v'
        rw [hv l]
        cases v
        case none => rfl
        case some => exact set_set ..

-- The values with a key stay as they are from the second time on, unless there are more than are removed.
theorem onKeyAll_onKeyAll (h : removals es k = 0 ∨ l.length ≤ removals es k) :
    onKeyAll k es (onKeyAll k es l) = onKeyAll k es l := by
  obtain h | h := h
  case inl =>
    obtain ⟨v, hv⟩ := onKeyAll_eq_set h
    rw [hv, hv]
    cases v
    case none => rfl
    case some => exact set_set ..
  case inr =>
    have hn : onKeyAll k es l = [] := by
      rw [←length_eq_zero_iff, length_onKeyAll]
      exact Nat.sub_eq_zero_of_le h
    rw [hn, onKeyAll_nil]

variable (h : ∀ e ∈ es, e.IsKeyed key)

include h

theorem filter_applyAll : (applyAll key es l).filter (key · = k) = onKeyAll k es (l.filter (key · = k)) := by
  induction es
  case nil => rfl
  case cons e es hi =>
    rw [forall_mem_cons] at h
    exact (filter_apply h.1).trans (congrArg (onKey k e) (hi h.2))

theorem keys_applyAll (hk : ∀ k ∈ l.map key, removals es k = 0) : (applyAll key es l).map key = l.map key := by
  induction es
  case nil => rfl
  case cons e es hi =>
    rw [forall_mem_cons] at h
    have hr (k : κ) (hm : k ∈ l.map key) : removals es k = 0 ∧ ¬isRemoval k e := by
      have := hk k hm
      rw [removals, countP_cons, Nat.add_eq_zero_iff] at this
      exact ⟨this.1, by simpa using this.2⟩
    have ha := hi h.2 fun k hm => (hr k hm).1
    change (apply key e (applyAll key es l)).map key = l.map key
    cases e
    case remove k =>
      rw [keys_remove, ha]
      exact erase_of_not_mem fun hm => (hr k hm).2 (by simp [isRemoval])
    case restore k v => rw [keys_restore h.1, ha]

theorem count_keys_applyAll : (applyAll key es l).countP (key · = k) = l.countP (key · = k) - removals es k := by
  rw [countP_eq_length_filter, countP_eq_length_filter, filter_applyAll h, length_onKeyAll]

theorem count_keys_iterate (n : Nat) :
    ((applyAll key es)^[n] l).countP (key · = k) = l.countP (key · = k) - n * removals es k := by
  induction n
  case zero => simp
  case succ n hi =>
    rw [Function.iterate_succ_apply', count_keys_applyAll h, hi, Nat.sub_sub, Nat.succ_mul]

theorem applyAll_applyAll (hc : ∀ k, removals es k = 0 ∨ l.countP (key · = k) ≤ removals es k) :
    applyAll key es (applyAll key es l) = applyAll key es l := by
  refine ext_of_keys (keys_applyAll h fun k hm => ?_) fun k => ?_
  case refine_1 =>
    obtain ⟨v, hv, rfl⟩ := mem_map.mp hm
    have hp : 0 < (applyAll key es l).countP (key · = key v) := countP_pos_iff.mpr ⟨v, hv, by simp⟩
    rw [count_keys_applyAll h] at hp
    obtain hc | hc := hc (key v)
    · exact hc
    · omega
  case refine_2 =>
    rw [filter_applyAll h, filter_applyAll h]
    refine onKeyAll_onKeyAll ?_
    rw [←countP_eq_length_filter]
    exact hc k

-- It makes no difference how often the changes are made, unless there are more values with a key than are removed
-- each time.
theorem iterate_applyAll_eq_iff {n : Nat} (hn : n ≠ 0) : (applyAll key es)^[n] l = applyAll key es l ↔
    n = 1 ∨ ∀ k, removals es k = 0 ∨ l.countP (key · = k) ≤ removals es k := by
  constructor
  case mp =>
    intro hi
    rw [or_iff_not_imp_left]
    intro hn1 k
    have hk := congrArg (List.countP (key · = k)) hi
    rw [count_keys_iterate h, count_keys_applyAll h] at hk
    have h2 : 2 * removals es k ≤ n * removals es k := Nat.mul_le_mul_right _ (by omega)
    omega
  case mpr =>
    rintro (rfl | hc)
    · rfl
    · obtain ⟨n, rfl⟩ := Nat.exists_eq_succ_of_ne_zero hn
      rw [Function.iterate_succ_apply]
      exact Function.iterate_fixed (applyAll_applyAll h hc) n

end Runs

end Edit
