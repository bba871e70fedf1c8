import HanzoDNS.Lib.LLRB.Basic

namespace LLRB

@[simp]
theorem Color.not_not (c : Color) : c.not.not = c := by
  cases c <;> rfl

namespace Node

attribute [simp] Color.not size toList

@[simp]
theorem color_nil : (nil : Node α).color = .black :=
  rfl

section

variable (e e₁ e₂ : α) (l l₁ l₂ r r₁ r₂ n : Node α) (c c₁ c₂ : Color)

@[simp]
theorem color_node : (node e l r c).color = c :=
  rfl

@[simp]
theorem elem_node : (node e l r c).elem = some e :=
  rfl

@[simp]
theorem left_node : (node e l r c).left = some l :=
  rfl

@[simp]
theorem right_node : (node e l r c).right = some r :=
  rfl

@[simp]
theorem setLeft_node : (node e l r c).setLeft n = some (node e n r c) :=
  rfl

@[simp]
theorem setRight_node : (node e l r c).setRight n = some (node e l n c) :=
  rfl

@[simp]
theorem setElem_node : (node e l r c).setElem e₁ = some (node e₁ l r c) :=
  rfl

@[simp]
theorem rotateLeft_node : (node e l (node e₁ l₁ r₁ c₁) c).rotateLeft = some (node e₁ (node e l l₁ .red) r₁ c) :=
  rfl

@[simp]
theorem rotateRight_node :
    (node e (node e₁ l₁ r₁ c₁) r c).rotateRight = some (node e₁ l₁ (node e r₁ r .red) c) :=
  rfl

@[simp]
theorem flipColors_node : (node e (node e₁ l₁ r₁ c₁) (node e₂ l₂ r₂ c₂) c).flipColors =
    some (node e (node e₁ l₁ r₁ c₁.not) (node e₂ l₂ r₂ c₂.not) c.not) :=
  rfl

end
end Node

-- The number of nodes on the longest way down.
def Node.depth : Node α → Nat
  | nil => 0
  | node _ l r _ => max l.depth r.depth + 1

-- Balanced trees with the color of their root and the number of black nodes on each way down: red links
-- lean to the left and do not follow each other.
inductive Balanced : Node α → Color → Nat → Prop
  | nil : Balanced .nil .black 0
  | red : (Balanced l .black h) → (Balanced r .black h) → Balanced (.node e l r .red) .red h
  | black : (Balanced l c h) → (Balanced r .black h) → Balanced (.node e l r .black) .black (h + 1)

-- A red node whose left child may be red, too.
inductive Loose : Node α → Nat → Prop
  | mk : (Balanced l c h) → (Balanced r .black h) → Loose (.node e l r .red) h

namespace Balanced

variable {n l r : Node α} {c c' : Color} {h : Nat} {e : α}

theorem color_eq (b : Balanced n c h) : n.color = c := by
  cases b <;> rfl

theorem blacken (b : Balanced (.node e l r c) .red h) : Balanced (.node e l r .black) .black (h + 1) := by
  cases b
  case red hl hr => exact .black hl hr

theorem setBlack_eq (b : Balanced n .black h) : n.setBlack = n := by
  cases b <;> rfl

theorem setBlack (b : Balanced n c h) : ∃ h', Balanced n.setBlack .black h' := by
  cases b
  case nil => exact ⟨_, .nil⟩
  case red hl hr => exact ⟨_, .black hl hr⟩
  case black hl hr => exact ⟨_, .black hl hr⟩

theorem depth_le (b : Balanced n c h) : 2 ^ h ≤ n.size + 1 ∧ n.depth ≤ 2 * h + if c = .red then 1 else 0 := by
  induction b <;> grind [Node.size, Node.depth]

end Balanced

namespace Node

variable {n l r : Node α} {c c' : Color} {h : Nat} {e : α}

theorem straighten_balanced (b : Balanced l c h) : (node e l r c').straighten = some (node e l r c') := by
  cases b
  case nil => rfl
  case black => rfl
  case red hl _ => simp [straighten, hl.color_eq]

theorem update_balanced (b : Balanced n c h) (cut : α → Ordering) (f : α → α) :
    Balanced (n.update cut f) c h := by
  induction b
  case nil => exact .nil
  case red e hl hr hil hir =>
    cases hc : cut e <;> simp only [update, hc]
    case lt => exact .red hil hr
    case eq => exact .red hl hr
    case gt => exact .red hl hir
  case black e hl hr hil hir =>
    cases hc : cut e <;> simp only [update, hc]
    case lt => exact .black hil hr
    case eq => exact .black hl hr
    case gt => exact .black hl hir

theorem lean_balanced (hl : Balanced l c h) (hr : Balanced r .black h) :
    (node e l r c').lean = some (node e l r c') := by
  simp [lean, leanLeftUnlessSplit, split, hr.color_eq, straighten_balanced hl]

theorem lean_red_right (hl : Balanced l .black h) (hr : Balanced r .red h) :
    ∃ n, (node e l r .red).lean = some n ∧ Loose n h := by
  cases hr
  case red hrl hrr =>
    have b := Balanced.red (e := e) hl hrl
    simp [lean, leanLeftUnlessSplit, split, hl.color_eq, straighten_balanced b, hrr.color_eq]
    exact .mk b hrr

theorem lean_black_left (hl : Loose l h) (hr : Balanced r .black h) :
    ∃ n c, (node e l r .black).lean = some n ∧ Balanced n c (h + 1) := by
  cases hl
  case mk l₁ c₁ r₁ e₁ hl₁ hr₁ =>
    cases c₁
    case black =>
      have b := Balanced.red (e := e₁) hl₁ hr₁
      refine ⟨_, _, ?_, .black (e := e) b hr⟩
      simp [lean, leanLeftUnlessSplit, split, hr.color_eq, straighten_balanced b]
    case red =>
      have b := hl₁
      cases hl₁
      refine ⟨_, _, ?_, .red (e := e₁) b.blacken (.black (e := e) hr₁ hr)⟩
      simp [lean, leanLeftUnlessSplit, split, straighten]

theorem lean_black (hl : Balanced l c h) (hr : Balanced r c' h) :
    ∃ n c, (node e l r .black).lean = some n ∧ Balanced n c (h + 1) := by
  cases c'
  case black => exact ⟨_, _, lean_balanced hl hr, .black hl hr⟩
  case red =>
    cases hr
    case red l₁ r₁ e₁ hl₁ hr₁ =>
      cases c
      case black =>
        have b := Balanced.red (e := e) hl hl₁
        refine ⟨_, _, ?_, .black (e := e₁) b hr₁⟩
        simp [lean, leanLeftUnlessSplit, split, hl.color_eq, hr₁.color_eq, straighten_balanced b]
      case red =>
        have b := hl
        cases hl
        case red hl₂ _ =>
          refine ⟨_, _, ?_, .red (e := e) b.blacken (.black (e := e₁) hl₁ hr₁)⟩
          simp [lean, leanLeftUnlessSplit, split, straighten, hl₂.color_eq]

section Insert

variable {cut : α → Ordering} {new : α} {absorb : α → α} {n' l' r' : Node α} {d : Int}

theorem insert_lt (hc : cut e = .lt) (hi : l.insert cut new absorb = some (l', d))
    (hn : (node e l' r c).lean = some n') : (node e l r c).insert cut new absorb = some (n', d) := by
  simp [insert, hc, hi, hn]

theorem insert_gt (hc : cut e = .gt) (hi : r.insert cut new absorb = some (r', d))
    (hn : (node e l r' c).lean = some n') : (node e l r c).insert cut new absorb = some (n', d) := by
  simp [insert, hc, hi, hn]

theorem insert_eq (hc : cut e = .eq) (hn : (node (absorb e) l r c).lean = some n') :
    (node e l r c).insert cut new absorb = some (n', 0) := by
  simp [insert, hc, hn]

theorem insert_balanced (b : Balanced n c h) (cut : α → Ordering) (new : α) (absorb : α → α) :
    ∃ n' d, n.insert cut new absorb = some (n', d) ∧ (c = .red → Loose n' h) ∧
      (c = .black → ∃ c', Balanced n' c' h) := by
  induction b
  case nil => exact ⟨_, _, rfl, nofun, fun _ => ⟨_, .red .nil .nil⟩⟩
  case red l h r e hl hr hil hir =>
    obtain ⟨l', d, il, -, bl⟩ := hil
    obtain ⟨r', d', ir, -, br⟩ := hir
    obtain ⟨cl, bl⟩ := bl rfl
    obtain ⟨cr, br⟩ := br rfl
    cases hc : cut e
    case lt => exact ⟨_, d, insert_lt hc il (lean_balanced bl hr), fun _ => .mk bl hr, nofun⟩
    case eq => exact ⟨_, 0, insert_eq hc (lean_balanced hl hr), fun _ => .mk hl hr, nofun⟩
    case gt =>
      cases cr
      case black => exact ⟨_, d', insert_gt hc ir (lean_balanced hl br), fun _ => .mk hl br, nofun⟩
      case red =>
        obtain ⟨n', hn, hb⟩ := lean_red_right (e := e) hl br
        exact ⟨n', d', insert_gt hc ir hn, fun _ => hb, nofun⟩
  case black l c h r e hl hr hil hir =>
    obtain ⟨l', d, il, ll, bl⟩ := hil
    obtain ⟨r', d', ir, -, br⟩ := hir
    obtain ⟨cr, br⟩ := br rfl
    cases hc : cut e
    case lt =>
      have ⟨n', c', hn, hb⟩ : ∃ n c, (node e l' r .black).lean = some n ∧ Balanced n c (h + 1) := by
        cases c
        case red => exact lean_black_left (ll rfl) hr
        case black =>
          obtain ⟨_, bl⟩ := bl rfl
          exact lean_black bl hr
      exact ⟨n', d, insert_lt hc il hn, nofun, fun _ => ⟨c', hb⟩⟩
    case eq =>
      have ⟨n', c', hn, hb⟩ := lean_black (e := absorb e) hl hr
      exact ⟨n', 0, insert_eq hc hn, nofun, fun _ => ⟨c', hb⟩⟩
    case gt =>
      have ⟨n', c', hn, hb⟩ := lean_black (e := e) hl br
      exact ⟨n', d', insert_gt hc ir hn, nofun, fun _ => ⟨c', hb⟩⟩

theorem insert_of_search (b : Balanced n c h) (hs : (n.search cut).isSome) :
    n.insert cut new absorb = some (n.update cut absorb, 0) := by
  induction b
  case nil => cases hs
  case red e hl hr hil hir | black e hl hr hil hir =>
    cases hc : cut e <;> simp only [search, update, hc] at hs ⊢
    case lt => exact insert_lt hc (hil hs) (lean_balanced (update_balanced hl cut absorb) hr)
    case eq => exact insert_eq hc (lean_balanced hl hr)
    case gt => exact insert_gt hc (hir hs) (lean_balanced hl (update_balanced hr cut absorb))

end Insert
end Node

end LLRB
