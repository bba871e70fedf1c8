import HanzoDNS.Proxy.Theorems.Pool

open Dns Ownership

namespace Proxy

open Sample

variable {t : Transport} {s s' : State}

def Pooled (s : State) : Prop :=
  ∃ transtype, s.conns transtype ≠ []

theorem Did.not_pooled {g : Nat} {a : Action} (h : Did t s g a s') (ha : a ≠ .append) (he : ¬Pooled s) : ¬Pooled s' := by
  simp only [Pooled, not_exists, not_not] at he ⊢
  intro transtype
  cases h
  case drop hc => cases (he _).symm.trans hc
  case hit hc _ => cases (he _).symm.trans hc
  case append => contradiction
  case cleanup =>
    rw [cleanup_eq]
    exact List.sublist_nil.mp (he transtype ▸ cleanStack_sublist)
  all_goals exact he transtype

theorem cleanup_not_pooled : ¬Pooled (t.cleanup true s).1 := by
  simp only [Pooled, not_exists, not_not, cleanup_eq, Transport.cleanStack]
  intro transtype
  split <;> simp_all

theorem owned_step {a : Label} (o : Owned s.place s.created) (h : step t s a = some s') : Owned s'.place s'.created := by
  cases a
  case tick =>
    cases h
    exact o
  case stop =>
    cases h
    exact o
  case act => exact (did_of_act h).owned o

def Prompt (t : Transport) (s : State) (a : Label) (s' : State) : Prop :=
  step t s a = some s' ∧ ∀ g, a ≠ .act g .append

theorem Prompt.not_pooled {a : Label} (h : Prompt t s a s') (he : ¬Pooled s) : ¬Pooled s' := by
  obtain ⟨h, ha⟩ := h
  cases a
  case tick =>
    cases h
    exact he
  case stop =>
    cases h
    exact he
  case act g a => exact (did_of_act h).not_pooled (fun e => ha g (by rw [e])) he

-- If no connection is given back after the last cleanup, then none is open when all goroutines are done.
theorem closed_of_prompt {now : Time} {as bs : List Label} {s₀ s₁ : State} {m : Nat} (hr : Runs t { now } as s₀)
    (hc : step t s₀ (.act m (.cleanup true)) = some s₁) (hb : Steps (Prompt t) s₁ bs s)
    (hd : ∀ g, s.goroutines g = .idle) : ¬Pooled s ∧ ∀ id < s.created, id ∈ s.closed := by
  have o₀ := hr.invariant (P := fun s => Owned s.place s.created) owned_step (Inv.init (t := t) now).owned
  have o := hb.invariant (P := fun s => Owned s.place s.created) (fun o h => owned_step o h.1) (owned_step o₀ hc)
  have he₁ : ¬Pooled s₁ := by
    cases did_of_act hc
    case close ha => simp at ha
    case cleanup => exact cleanup_not_pooled
  have he := hb.invariant (P := fun s => ¬Pooled s) (fun he h => h.not_pooled he) he₁
  refine ⟨he, fun id h => ?_⟩
  obtain ⟨p, hp⟩ := o.total h
  cases p
  case closed => exact hp
  case pooled transtype => exact absurd ⟨transtype, fun hn => by simp [State.place, hn, ids] at hp⟩ he
  case held g => simp [State.place, hd g, Goroutine.conns, ids] at hp

namespace Sample

def stopped : List Label :=
  (use 0).dropLast ++ [.stop]

def late : List Label :=
  use 0 ++ [.stop, .act 1 (.cleanup true), .act 1 .closeNext, .act 0 .stamp, .act 0 .append]

end Sample

theorem closed_of_yield : ∃ s₀ s₁ s, Runs transport start stopped s₀ ∧
    step transport s₀ (.act 1 (.cleanup true)) = some s₁ ∧
    Steps (Prompt transport) s₁ [.act 1 .closeNext, .act 0 .yield] s ∧ ¬Pooled s ∧ ∀ id < s.created, id ∈ s.closed := by
  have hb : ∃ s₀ s₁ s, Runs transport start stopped s₀ ∧
      step transport s₀ (.act 1 (.cleanup true)) = some s₁ ∧
      Steps (Prompt transport) s₁ [.act 1 .closeNext, .act 0 .yield] s ∧ ∀ g, s.goroutines g = .idle := by
    refine ⟨_, _, _, runs_of_foldlM rfl, rfl, .trans ⟨rfl, ?_⟩ (.trans ⟨rfl, ?_⟩ .refl), ?_⟩
    case refine_3 => rintro (_ | _ | g) <;> rfl
    all_goals
      intro g h
      cases h
  obtain ⟨s₀, s₁, s, hr, hc, hb, hd⟩ := hb
  exact ⟨s₀, s₁, s, hr, hc, hb, closed_of_prompt hr hc hb hd⟩

-- Yield has looked whether the transport is stopped, but it gets the lock only after the last cleanup.
theorem pooled_late : ∃ s, Runs transport start late s ∧ (∀ g, s.goroutines g = .idle) ∧ Pooled s := by
  refine ⟨last late, runs_of_foldlM rfl, ?_, .udp, by decide⟩
  rintro (_ | _ | g) <;> rfl

end Proxy
