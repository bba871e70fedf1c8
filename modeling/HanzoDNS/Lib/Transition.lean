import Mathlib

open List

-- Runs of a labelled transition relation, with the labels of the steps in order.
inductive Steps (step : σ → α → σ → Prop) : σ → List α → σ → Prop
  | refl : Steps step s [] s
  | trans : (step s₁ a s₂) → (Steps step s₂ as s₃) → Steps step s₁ (a :: as) s₃

namespace Steps

variable {step step' : σ → α → σ → Prop} {s s₁ s₂ s₃ : σ} {as bs : List α}

theorem single (h : step s₁ a s₂) : Steps step s₁ [a] s₂ :=
  .trans h .refl

theorem append (r₁ : Steps step s₁ as s₂) (r₂ : Steps step s₂ bs s₃) : Steps step s₁ (as ++ bs) s₃ := by
  induction r₁
  case refl => exact r₂
  case trans h _ hi => exact .trans h (hi r₂)

theorem split (r : Steps step s₁ (as ++ bs) s₃) : ∃ s₂, Steps step s₁ as s₂ ∧ Steps step s₂ bs s₃ := by
  induction as generalizing s₁
  case nil => exact ⟨s₁, .refl, r⟩
  case cons a as hi =>
    cases r
    case trans h r =>
      have ⟨s₂, r₁, r₂⟩ := hi r
      exact ⟨s₂, .trans h r₁, r₂⟩

theorem map {step' : τ → α → τ → Prop} (f : σ → τ)
    (h : ∀ {s₁ a s₂}, step s₁ a s₂ → step' (f s₁) a (f s₂)) (r : Steps step s₁ as s₂) :
    Steps step' (f s₁) as (f s₂) := by
  induction r
  case refl => exact .refl
  case trans h' _ hi => exact .trans (h h') hi

theorem mono (h : ∀ {s₁ a s₂}, step s₁ a s₂ → step' s₁ a s₂) (r : Steps step s₁ as s₂) : Steps step' s₁ as s₂ :=
  r.map (fun s => s) h

theorem restrict {Q : α → Prop} (r : Steps step s₁ as s₂) (h : ∀ a ∈ as, Q a) :
    Steps (fun s a s' => step s a s' ∧ Q a) s₁ as s₂ := by
  induction r
  case refl => exact .refl
  case trans h' _ hi =>
    obtain ⟨hq, h⟩ := forall_mem_cons.mp h
    exact .trans ⟨h', hq⟩ (hi h)

theorem invariant {P : σ → Prop} (h : ∀ {s₁ a s₂}, P s₁ → step s₁ a s₂ → P s₂)
    (r : Steps step s₁ as s₂) (h₁ : P s₁) : P s₂ := by
  induction r
  case refl => exact h₁
  case trans h' _ hi => exact hi (h h₁ h')

theorem labels {P : σ → Prop} {Q : α → Prop} (h : ∀ {s₁ a s₂}, P s₁ → step s₁ a s₂ → P s₂ ∧ Q a)
    (r : Steps step s₁ as s₂) (h₁ : P s₁) : ∀ a ∈ as, Q a := by
  induction r
  case refl => exact forall_mem_nil _
  case trans h' _ hi =>
    obtain ⟨h₂, hq⟩ := h h₁ h'
    exact forall_mem_cons.mpr ⟨hq, hi h₂⟩

theorem related {R : σ → σ → Prop} (hr : ∀ s, R s s) (ht : ∀ {s₁ s₂ s₃}, R s₁ s₂ → R s₂ s₃ → R s₁ s₃)
    (h : ∀ {s₁ a s₂}, a ∈ as → step s₁ a s₂ → R s₁ s₂) (r : Steps step s₁ as s₂) : R s₁ s₂ := by
  induction r
  case refl => exact hr _
  case trans h' _ hi =>
    exact ht (h (mem_cons_self ..) h') (hi fun hm => h (mem_cons_of_mem _ hm))

-- The unwinding rule: if every step from one of two related states can be taken with the same label
-- from the other, then so can every run. If labels carry the replies that a party gets, then that
-- party cannot tell related states apart.
theorem simulate {R : σ → σ → Prop} {t₁ : σ}
    (h : ∀ {s₁ a s₂ t₁}, a ∈ as → R s₁ t₁ → step s₁ a s₂ → ∃ t₂, step t₁ a t₂ ∧ R s₂ t₂)
    (r : Steps step s₁ as s₂) (h₁ : R s₁ t₁) : ∃ t₂, Steps step t₁ as t₂ ∧ R s₂ t₂ := by
  induction r generalizing t₁
  case refl => exact ⟨t₁, .refl, h₁⟩
  case trans h' _ hi =>
    have ⟨t₂, hs, h₂⟩ := h (mem_cons_self ..) h₁ h'
    have ⟨t₃, hs', h₃⟩ := hi (fun hm => h (mem_cons_of_mem _ hm)) h₂
    exact ⟨t₃, .trans hs hs', h₃⟩

-- Where a property of the last state comes from: if every step that leads to a state with the property
-- either starts from such a state or is of a certain kind, then the property is there from the start,
-- or it was brought about by a step of that kind and has been there ever since.
theorem origin {P : σ → Prop} {K : σ → α → σ → Prop}
    (h : ∀ {s₁ a s₂}, step s₁ a s₂ → P s₂ → P s₁ ∨ K s₁ a s₂) (r : Steps step s₁ as s₂) (h₂ : P s₂) :
    (P s₁ ∧ Steps (fun s a s' => step s a s' ∧ P s') s₁ as s₂) ∨
    ∃ as₁ a as₂ t₁ t₂, as = as₁ ++ a :: as₂ ∧ Steps step s₁ as₁ t₁ ∧ step t₁ a t₂ ∧
      K t₁ a t₂ ∧ P t₂ ∧ Steps (fun s a s' => step s a s' ∧ P s') t₂ as₂ s₂ := by
  induction r
  case refl => exact .inl ⟨h₂, .refl⟩
  case trans s₁ a s₂ as _ h' _ hi =>
    obtain ⟨hp, r⟩ | ⟨as₁, b, as₂, t₁, t₂, rfl, r, ho⟩ := hi h₂
    case inl =>
      obtain hp₁ | hk := h h' hp
      · exact .inl ⟨hp₁, .trans ⟨h', hp⟩ r⟩
      · exact .inr ⟨[], a, as, _, _, rfl, .refl, h', hk, hp, r⟩
    case inr => exact .inr ⟨a :: as₁, b, as₂, t₁, t₂, rfl, .trans h' r, ho⟩

end Steps

def Reachable (step : σ → α → σ → Prop) (init s : σ) : Prop :=
  ∃ as, Steps step init as s

namespace Reachable

variable {step : σ → α → σ → Prop} {init s s₁ s₂ : σ}

theorem refl : Reachable step s s :=
  ⟨[], .refl⟩

theorem invariant {P : σ → Prop} (r : Reachable step init s) (h₀ : P init)
    (h : ∀ {s₁ a s₂}, P s₁ → step s₁ a s₂ → P s₂) : P s :=
  have ⟨_, hs⟩ := r
  hs.invariant h h₀

end Reachable
