import HanzoDNS.Lib.LLRB.Order

open List Option

namespace LLRB

-- Balanced trees from which an element can be taken without a change of the black height: the root or
-- its left child is red.
inductive Ready : Node α → Color → Nat → Prop
  | red : (Balanced l .black h) → (Balanced r .black h) → Ready (.node e l r .red) .red h
  | left : (Balanced l .red h) → (Balanced r .black h) → Ready (.node e l r .black) .black (h + 1)

-- Trees that only lack balance at the root, where the right child is red. This is enough if what is
-- deleted is not to the left.
inductive RightReady : Node α → Color → Nat → Prop
  | right : (Balanced l .black h) → (Balanced r .red h) → RightReady (.node e l r .black) .black (h + 1)

-- What a deletion leaves of a tree with a given root color and black height.
def Kept (c : Color) (h : Nat) (n : Node α) : Prop :=
  ∃ c', Balanced n c' h ∧ (c = .black → c' = .black)

theorem Ready.eq_of_left_nil {r : Node α} {c : Color} {h : Nat} {e : α} (b : Ready (.node e .nil r c) c h) :
    r = .nil ∧ c = .red ∧ h = 0 := by
  cases b
  case left hl _ => cases hl
  case red hl hr =>
    cases hl
    cases hr
    simp

namespace Node

variable {n n' l r : Node α} {c c' : Color} {h : Nat} {e : α} {cut : α → Ordering}

theorem fixUp_right_black (hl : Balanced l c h) (hr : Balanced r .black h) :
    (node e l r c').fixUp = some (node e l r c') := by
  simp [fixUp, leanLeft, split, hr.color_eq, straighten_balanced hl]

theorem fixUp_right_red (hl : Balanced l c h) (hr : Balanced r .red h) :
    ∃ n, (node e l r .black).fixUp = some n ∧ Kept c (h + 1) n := by
  cases hr
  case red l₁ r₁ e₁ hl₁ hr₁ =>
    cases c
    case black =>
      have b := Balanced.red (e := e) hl hl₁
      refine ⟨_, ?_, _, .black (e := e₁) b hr₁, fun _ => rfl⟩
      simp [fixUp, leanLeft, split, hr₁.color_eq, straighten_balanced b]
    case red =>
      have b := hl
      cases hl
      refine ⟨_, ?_, _, .red (e := e) b.blacken (.black (e := e₁) hl₁ hr₁), by simp⟩
      simp [fixUp, leanLeft, split, straighten]

theorem fixUp_black (hl : Balanced l .black h) (hr : Kept c h r) :
    ∃ n, (node e l r .black).fixUp = some n ∧ Kept .black (h + 1) n := by
  obtain ⟨cr, hr, -⟩ := hr
  cases cr
  case red => exact fixUp_right_red hl hr
  case black => exact ⟨_, fixUp_right_black hl hr, _, .black hl hr, fun _ => rfl⟩

theorem fixUp_red (hl : Balanced l .black h) (hr : Balanced r .black h) :
    ∃ n, (node e l r .red).fixUp = some n ∧ Kept .red h n :=
  ⟨_, fixUp_right_black hl hr, _, .red hl hr, by simp⟩

-- Before a deletion descends to the left, the left child is made ready for it. Whatever the deletion
-- leaves there, the tree can be repaired above it.
theorem borrowLeft_spec (b : Ready (node e l r c) c h) (hn : l ≠ nil) :
    ∃ e' l' r' c' cl hl, (node e l r c).borrowLeft = some (node e' l' r' c') ∧ Ready l' cl hl ∧
      (e' = e ∨ e ∈ l'.toList) ∧
      ∀ l'', Kept cl hl l'' → ∃ n, (node e' l'' r' c').fixUp = some n ∧ Kept c h n := by
  cases b
  case left k bl br =>
    cases bl
    case red l₁ r₁ e₁ hl₁ hr₁ =>
      refine ⟨e, node e₁ l₁ r₁ .red, r, .black, .red, k, by simp [borrowLeft], .red hl₁ hr₁,
        .inl rfl, ?_⟩
      rintro l'' ⟨c'', bl, -⟩
      exact ⟨_, fixUp_right_black bl br, _, .black bl br, fun _ => rfl⟩
  case red bl br =>
    cases bl
    case nil => contradiction
    case black l₁ c₁ k r₁ e₁ hl₁ hr₁ =>
      cases br
      case black l₂ c₂ r₂ e₂ hl₂ hr₂ =>
        cases c₁
        case red =>
          refine ⟨e, node e₁ l₁ r₁ .black, node e₂ l₂ r₂ .black, .red, .black, k + 1, ?_, .left hl₁ hr₁,
            .inl rfl, ?_⟩
          · simp [borrowLeft, hl₁.color_eq]
          · rintro l'' ⟨c'', bl, hc⟩
            obtain rfl := hc rfl
            exact fixUp_red bl (.black hl₂ hr₂)
        case black =>
          cases c₂
          case black =>
            refine ⟨e, node e₁ l₁ r₁ .red, node e₂ l₂ r₂ .red, .black, .red, k, ?_, .red hl₁ hr₁,
              .inl rfl, ?_⟩
            · simp [borrowLeft, moveRedLeft, hl₁.color_eq, hl₂.color_eq]
            · rintro l'' ⟨c'', bl, -⟩
              obtain ⟨n, hn, c, hb, -⟩ := fixUp_right_red (e := e) bl (.red hl₂ hr₂)
              exact ⟨n, hn, c, hb, by simp⟩
          case red =>
            cases hl₂
            case red l₃ r₃ e₃ hl₃ hr₃ =>
              refine ⟨e₃, node e (node e₁ l₁ r₁ .red) l₃ .black, node e₂ r₃ r₂ .black, .red, .black, k + 1,
                ?_, .left (.red hl₁ hr₁) hl₃, .inr (by simp), ?_⟩
              · simp [borrowLeft, moveRedLeft, hl₁.color_eq]
              · rintro l'' ⟨c'', bl, hc⟩
                obtain rfl := hc rfl
                exact fixUp_red bl (.black hr₃ hr₂)

-- The same on the way to the right. If the root moves to the right with it, then its right child is
-- red, and the new root comes from the left.
theorem borrowRight_spec (b : Ready (node e l r c) c h ∨ RightReady (node e l r c) c h)
    (hn : l ≠ nil ∨ r ≠ nil) : ∃ n e' l' r' c' cr hr, (node e l r c).leanRight = some n ∧ n.right ≠ some nil ∧
      n.borrowRight = some (node e' l' r' c') ∧
      (Ready r' cr hr ∨ (RightReady r' cr hr ∧ r'.elem = some e)) ∧ (e' = e ∨ e ∈ r'.toList) ∧
      ∀ e'' r'', Kept cr hr r'' → ∃ n, (node e'' l' r'' c').fixUp = some n ∧ Kept c h n := by
  obtain b | b := b
  case inr =>
    cases b
    case right k bl br =>
      cases br
      case red l₂ r₂ e₂ hl₂ hr₂ =>
        refine ⟨node e l (node e₂ l₂ r₂ .red) .black, e, l, node e₂ l₂ r₂ .red, .black, .red, k, ?_, ?_, ?_,
          .inl (.red hl₂ hr₂), .inl rfl, fun _ _ => fixUp_black bl⟩
        · simp [leanRight, bl.color_eq]
        · simp
        · simp [borrowRight]
  case inl =>
    cases b
    case left k bl br =>
      cases bl
      case red l₁ r₁ e₁ hl₁ hr₁ =>
        refine ⟨node e₁ l₁ (node e r₁ r .red) .black, e₁, l₁, node e r₁ r .red, .black, .red, k, ?_, ?_, ?_,
          .inl (.red hr₁ br), .inr (by simp), fun _ _ => fixUp_black hl₁⟩
        · simp [leanRight]
        · simp
        · simp [borrowRight]
    case red bl br =>
      cases bl
      case nil =>
        cases br
        simp at hn
      case black l₁ c₁ k r₁ e₁ hl₁ hr₁ =>
        cases br
        case black l₂ c₂ r₂ e₂ hl₂ hr₂ =>
          replace hn : (node e (node e₁ l₁ r₁ .black) (node e₂ l₂ r₂ .black) .red).leanRight =
              some (node e (node e₁ l₁ r₁ .black) (node e₂ l₂ r₂ .black) .red) := by
            simp [leanRight]
          cases c₂
          case red =>
            refine ⟨_, e, node e₁ l₁ r₁ .black, node e₂ l₂ r₂ .black, .red, .black, k + 1, hn, by simp, ?_,
              .inl (.left hl₂ hr₂), .inl rfl, ?_⟩
            · simp [borrowRight, hl₂.color_eq]
            · rintro e'' r'' ⟨c'', br, hc⟩
              obtain rfl := hc rfl
              exact fixUp_red (.black hl₁ hr₁) br
          case black =>
            cases c₁
            case red =>
              have b := hl₁
              cases hl₁
              case red l₃ r₃ e₃ _ _ =>
                refine ⟨_, e₁, node e₃ l₃ r₃ .black, node e r₁ (node e₂ l₂ r₂ .red) .black, .red, .black, k + 1,
                  hn, by simp, ?_, .inr ⟨.right hr₁ (.red hl₂ hr₂), by simp⟩, .inr (by simp), ?_⟩
                · simp [borrowRight, moveRedRight, hl₂.color_eq]
                · rintro e'' r'' ⟨c'', br, hc⟩
                  obtain rfl := hc rfl
                  exact fixUp_red b.blacken br
            case black =>
              refine ⟨_, e, node e₁ l₁ r₁ .red, node e₂ l₂ r₂ .red, .black, .red, k, hn, by simp, ?_,
                .inl (.red hl₂ hr₂), .inl rfl, ?_⟩
              · simp [borrowRight, moveRedRight, hl₁.color_eq, hl₂.color_eq]
              · rintro e'' r'' ⟨c'', br, -⟩
                cases c''
                case red =>
                  obtain ⟨n, hn, c, hb, -⟩ := fixUp_right_red (e := e'') (.red (e := e₁) hl₁ hr₁) br
                  exact ⟨n, hn, c, hb, by simp⟩
                case black =>
                  have bl := Balanced.red (e := e₁) hl₁ hr₁
                  exact ⟨_, fixUp_right_black bl br, _, .black bl br, by simp⟩

section Delete

variable {depth : Nat}

theorem size_children_le {e' : α} {l' r' : Node α} {c' : Color} (hd : n.size ≤ depth + 1)
    (ht : (node e' l' r' c').toList = n.toList) : l'.size ≤ depth ∧ r'.size ≤ depth := by
  rw [size_eq_length, ←ht, ←size_eq_length] at hd
  simp at hd
  omega

theorem deleteMin_spec (hd : n.size ≤ depth) (b : Ready n c h) :
    ∃ e n', n.deleteMin depth = some (n', -1) ∧ Kept c h n' ∧ n.toList = e :: n'.toList := by
  induction depth generalizing n c h
  case zero => cases b <;> simp at hd
  case succ depth hi =>
    obtain ⟨e, l, r, rfl⟩ : ∃ e l r, n = node e l r c := by cases b <;> exact ⟨_, _, _, rfl⟩
    by_cases hl : l = nil
    case pos =>
      subst hl
      obtain ⟨rfl, rfl, rfl⟩ := b.eq_of_left_nil
      exact ⟨e, nil, by simp [deleteMin], ⟨_, .nil, fun _ => rfl⟩, by simp⟩
    case neg =>
      obtain ⟨e', l', r', c', cl, h', hb, br, -, hf⟩ := borrowLeft_spec b hl
      have ht := borrowLeft_toList hb
      obtain ⟨m, l'', hm, hk, hl''⟩ := hi (size_children_le hd ht).1 br
      obtain ⟨n', hn', hk'⟩ := hf l'' hk
      refine ⟨m, n', ?_, hk', ?_⟩
      · simp [deleteMin, hb, hm, hn']
      · rw [fixUp_toList hn', ←ht]
        simp [hl'']

theorem mem_toList_of_mem_elem (h : e ∈ n.elem) : e ∈ n.toList := by
  cases n
  case nil => cases h
  case node => simp_all

-- A deletion takes the element that the cut finds, if there is one.
structure Deletes (cut : α → Ordering) (n : Node α) (c : Color) (h : Nat) (n' : Node α) (d : Int) : Prop where
  kept : Kept c h n'
  toList : n'.toList = erase cut n.toList
  count : n.toList.length + d = n'.toList.length

section

-- The depth suffices for deletions from smaller trees.
variable (hi : ∀ {n : Node α} {c h}, n.size ≤ depth →
  (Ready n c h ∨ RightReady n c h ∧ ∃ e ∈ n.elem, cut e ≠ .lt) → Cuts cut n.toList →
  ∃ n' d, n.delete cut depth = some (n', d) ∧ Deletes cut n c h n' d)

include hi

theorem delete_of_lt (hd : (node e l r c).size ≤ depth + 1) (b : Ready (node e l r c) c h)
    (hc : Cuts cut (node e l r c).toList) (he : cut e = .lt) (hl : l ≠ nil) :
    ∃ n' d, (node e l r c).delete cut (depth + 1) = some (n', d) ∧ Deletes cut (node e l r c) c h n' d := by
  obtain ⟨e', l', r', c', cl, h', hb, br, hm, hf⟩ := borrowLeft_spec b hl
  have ht := borrowLeft_toList hb
  rw [←ht] at hc
  have he' : cut e' = .lt := by
    obtain rfl | hm := hm
    case inl => exact he
    case inr =>
      by_contra hn
      have := hc.gt_of_mem_left hn e hm
      simp [he] at this
  obtain ⟨l'', d, hd', hk, hl'', hlen⟩ := hi (size_children_le hd ht).1 (.inl br) hc.left
  obtain ⟨n', hn', hk'⟩ := hf l'' hk
  refine ⟨n', d, by simp [delete, he, hb, hd', hn'], hk', ?_, ?_⟩ <;> rw [fixUp_toList hn', ←ht]
  · rw [toList, toList, hc.erase_of_lt he', hl'']
  · simp only [toList, length_append, length_cons]
    omega

theorem delete_of_not_lt (hd : (node e l r c).size ≤ depth + 1)
    (b : Ready (node e l r c) c h ∨ RightReady (node e l r c) c h)
    (hc : Cuts cut (node e l r c).toList) (he : cut e ≠ .lt) (hn : l ≠ nil ∨ r ≠ nil) :
    ∃ n' d, (node e l r c).delete cut (depth + 1) = some (n', d) ∧ Deletes cut (node e l r c) c h n' d := by
  obtain ⟨n, e', l', r', c', cr, h', hl, hr, hb, br, hm, hf⟩ := borrowRight_spec b hn
  have ht := (borrowRight_toList hb).trans (leanRight_toList hl)
  rw [←ht] at hc
  obtain ⟨_, _, _, _, rfl⟩ : ∃ e l r c, n = node e l r c := by
    cases n
    case nil => cases hb
    case node => exact ⟨_, _, _, _, rfl⟩
  simp only [right_node, ne_eq, Option.some.injEq] at hr
  cases he' : cut e'
  case lt =>
    exfalso
    obtain rfl | hm := hm
    case inl => contradiction
    case inr => exact he <| hc.lt_of_mem_right (by simp [he']) e hm
  case eq =>
    have br : Ready r' cr h' := by
      obtain br | ⟨-, hr'⟩ := br
      case inl => exact br
      case inr => exact absurd (hc.lt_of_mem_right (by simp [he']) e (mem_toList_of_mem_elem hr')) he
    obtain ⟨m, r'', hd', hk, hr''⟩ := deleteMin_spec (size_children_le hd ht).2 br
    obtain ⟨n', hn', hk'⟩ := hf m r'' hk
    have hmin : r'.min = some m := by simp [min_eq_head?, hr'']
    refine ⟨n', -1, by simp [delete, he, hl, hb, he', hmin, hd', hn'], hk', ?_, ?_⟩ <;>
      rw [fixUp_toList hn', ←ht]
    · rw [toList, toList, hc.erase_of_eq he', hr'']
    · simp only [toList, hr'', length_append, length_cons]
      omega
  case gt =>
    have br : Ready r' cr h' ∨ RightReady r' cr h' ∧ ∃ e ∈ r'.elem, cut e ≠ .lt :=
      br.imp id fun br => ⟨br.1, e, br.2, he⟩
    obtain ⟨r'', d, hd', hk, hr'', hlen⟩ := hi (size_children_le hd ht).2 br hc.right
    obtain ⟨n', hn', hk'⟩ := hf e' r'' hk
    refine ⟨n', d, by simp [delete, he, hl, hb, he', hd', hn'], hk', ?_, ?_⟩ <;> rw [fixUp_toList hn', ←ht]
    · rw [toList, toList, hc.erase_of_gt he', hr'']
    · simp only [toList, length_append, length_cons]
      omega

end

theorem delete_leaf (cut : α → Ordering) (e : α) :
    ∃ n' d, (node e nil nil .red).delete cut (depth + 1) = some (n', d) ∧
      Deletes cut (node e nil nil .red) .red 0 n' d := by
  have hf : (node e nil nil .red).fixUp = some (node e nil nil .red) := fixUp_right_black .nil .nil
  have hk : Kept .red 0 (node e nil nil .red) := ⟨_, .red .nil .nil, by simp⟩
  cases he : cut e
  case lt => exact ⟨_, 0, by simp [delete, he, hf], hk, by simp [erase, he], by simp⟩
  case eq => exact ⟨nil, -1, by simp [delete, leanRight, he], ⟨_, .nil, by simp⟩, by simp [erase, he], by simp⟩
  case gt => exact ⟨_, 0, by simp [delete, leanRight, he, hf], hk, by simp [erase, he], by simp⟩

theorem delete_spec (hd : n.size ≤ depth)
    (b : Ready n c h ∨ RightReady n c h ∧ ∃ e ∈ n.elem, cut e ≠ .lt) (hc : Cuts cut n.toList) :
    ∃ n' d, n.delete cut depth = some (n', d) ∧ Deletes cut n c h n' d := by
  induction depth generalizing n c h
  case zero => obtain b | ⟨b, -⟩ := b <;> cases b <;> simp at hd
  case succ depth hi =>
    obtain ⟨e, l, r, rfl⟩ : ∃ e l r, n = node e l r c := by
      obtain b | ⟨b, -⟩ := b <;> cases b <;> exact ⟨_, _, _, rfl⟩
    by_cases hn : l ≠ nil ∨ r ≠ nil
    case neg =>
      obtain ⟨rfl, rfl⟩ : l = nil ∧ r = nil := by simpa using hn
      obtain b | ⟨b, -⟩ := b
      case inl =>
        obtain ⟨-, rfl, rfl⟩ := b.eq_of_left_nil
        exact delete_leaf cut e
      case inr =>
        cases b
        case right hr => cases hr
    case pos =>
      by_cases he : cut e = .lt
      case neg => exact delete_of_not_lt hi hd (b.imp id And.left) hc he hn
      case pos =>
        have b : Ready (node e l r c) c h := by simpa [he] using b
        refine delete_of_lt hi hd b hc he ?_
        rintro rfl
        obtain ⟨rfl, -⟩ := b.eq_of_left_nil
        simp at hn

end Delete

-- No operation looks at the color of the root, which only moves along.
def toggle : Node α → Node α
  | nil => nil
  | node e l r c => node e l r c.not

section Toggle

@[simp]
theorem toggle_nil : (nil : Node α).toggle = nil :=
  rfl

@[simp]
theorem left_toggle : n.toggle.left = n.left := by
  cases n <;> rfl

@[simp]
theorem right_toggle : n.toggle.right = n.right := by
  cases n <;> rfl

@[simp]
theorem elem_toggle : n.toggle.elem = n.elem := by
  cases n <;> rfl

@[simp]
theorem toList_toggle : n.toggle.toList = n.toList := by
  cases n <;> rfl

@[simp]
theorem setBlack_toggle : n.toggle.setBlack = n.setBlack := by
  cases n <;> rfl

@[simp]
theorem setLeft_toggle : n.toggle.setLeft l = (n.setLeft l).map toggle := by
  cases n <;> rfl

@[simp]
theorem setRight_toggle : n.toggle.setRight r = (n.setRight r).map toggle := by
  cases n <;> rfl

@[simp]
theorem setElem_toggle : n.toggle.setElem e = (n.setElem e).map toggle := by
  cases n <;> rfl

@[simp]
theorem rotateLeft_toggle : n.toggle.rotateLeft = n.rotateLeft.map toggle := by
  obtain _ | ⟨_, _, _ | _, _⟩ := n <;> rfl

@[simp]
theorem rotateRight_toggle : n.toggle.rotateRight = n.rotateRight.map toggle := by
  obtain _ | ⟨_, _ | _, _, _⟩ := n <;> rfl

@[simp]
theorem flipColors_toggle : n.toggle.flipColors = n.flipColors.map toggle := by
  obtain _ | ⟨_, _ | _, _ | _, _⟩ := n <;> rfl

@[simp]
theorem straighten_toggle : n.toggle.straighten = n.straighten.map toggle := by
  simp [straighten, map_bind, apply_ite (Option.map toggle)]

@[simp]
theorem split_toggle : n.toggle.split = n.split.map toggle := by
  simp [split, map_bind, apply_ite (Option.map toggle)]

@[simp]
theorem leanLeft_toggle : n.toggle.leanLeft = n.leanLeft.map toggle := by
  simp [leanLeft, map_bind, apply_ite (Option.map toggle)]

@[simp]
theorem leanRight_toggle : n.toggle.leanRight = n.leanRight.map toggle := by
  simp [leanRight, map_bind, apply_ite (Option.map toggle)]

@[simp]
theorem fixUp_toggle : n.toggle.fixUp = n.fixUp.map toggle := by
  simp [fixUp, map_bind, bind_map]

@[simp]
theorem moveRedLeft_toggle : n.toggle.moveRedLeft = n.moveRedLeft.map toggle := by
  simp [moveRedLeft, map_bind, bind_map, apply_ite (Option.map toggle)]

@[simp]
theorem moveRedRight_toggle : n.toggle.moveRedRight = n.moveRedRight.map toggle := by
  simp [moveRedRight, map_bind, bind_map, apply_ite (Option.map toggle)]

@[simp]
theorem borrowLeft_toggle : n.toggle.borrowLeft = n.borrowLeft.map toggle := by
  simp [borrowLeft, map_bind, apply_ite (Option.map toggle)]

@[simp]
theorem borrowRight_toggle : n.toggle.borrowRight = n.borrowRight.map toggle := by
  simp [borrowRight, map_bind, apply_ite (Option.map toggle)]

theorem delete_toggle (n : Node α) (cut : α → Ordering) (depth : Nat) :
    n.toggle.delete cut depth = (n.delete cut depth).map fun p => (p.1.toggle, p.2) := by
  cases depth
  case zero => rfl
  case succ depth =>
    rw [delete, delete, elem_toggle]
    cases n
    case nil => rfl
    case node e l r c =>
      by_cases he : cut e = .lt
      case pos =>
        simp only [elem_node, bind_eq_bind, bind_some, he, ↓reduceIte, left_toggle, left_node]
        cases l
        case nil => simp [bind_map]
        case node => simp [map_bind, bind_map]
      case neg =>
        simp only [elem_node, bind_eq_bind, bind_some, he, ↓reduceIte, leanRight_toggle,
          bind_map, map_bind]
        refine congrArg _ (funext fun n => ?_)
        simp only [Function.comp_apply, right_toggle, map_bind]
        refine congrArg _ (funext fun r => ?_)
        cases r
        case nil => simp [map_bind, bind_map, apply_ite (Option.map _)]
        case node => simp [map_bind, bind_map, apply_ite (Option.map _)]

end Toggle

-- The root of a tree is black and its left child may be black, too. Then the deletion goes on as if the
-- root were red.
theorem delete_root (b : Balanced n .black h) (hn : n ≠ nil) (hc : Cuts cut n.toList) :
    ∃ n' d h', n.delete cut n.size = some (n', d) ∧ Balanced n'.setBlack .black h' ∧
      n'.toList = erase cut n.toList ∧ n.toList.length + d = n'.toList.length := by
  cases b
  case nil => contradiction
  case black l c k r e hl hr =>
    cases c
    case red =>
      obtain ⟨n', d, hd, ⟨_, hb, -⟩, ht, hlen⟩ := delete_spec le_rfl (.inl (.left (e := e) hl hr)) hc
      obtain ⟨h', hb⟩ := hb.setBlack
      exact ⟨n', d, h', hd, hb, ht, hlen⟩
    case black =>
      obtain ⟨n', d, hd, ⟨_, hb, -⟩, ht, hlen⟩ := delete_spec le_rfl (.inl (.red (e := e) hl hr)) hc
      obtain ⟨h', hb⟩ := hb.setBlack
      have hd' := delete_toggle (node e l r .red) cut (node e l r .red).size
      rw [hd] at hd'
      exact ⟨n'.toggle, d, h', hd', by simpa using hb, by simpa using ht, by simpa using hlen⟩

end Node
end LLRB
