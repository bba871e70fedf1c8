import Mathlib.Control.Basic

open List

namespace Except

variable {ε α β : Type} {P : α → Prop} {Q : β → Prop} {E : ε → Prop} {x : Except ε α}

def Ends (P : α → Prop) (E : ε → Prop) : Except ε α → Prop
  | ok a => P a
  | error e => E e

instance [∀ a, Decidable (P a)] [∀ e, Decidable (E e)] : Decidable (x.Ends P E) :=
  match x with
  | ok a => inferInstanceAs (Decidable (P a))
  | error e => inferInstanceAs (Decidable (E e))

theorem Ends.bind {f : α → Except ε β} (h : x.Ends P E) (hf : ∀ a, P a → (f a).Ends Q E) : (x >>= f).Ends Q E := by
  cases x
  case ok a => exact hf a h
  case error e => exact h

theorem Ends.foldlM {f : α → β → Except ε α} {bs : List β} {a : α} (h : P a)
    (hf : ∀ a b, b ∈ bs → P a → (f a b).Ends P E) : (bs.foldlM f a).Ends P E := by
  induction bs generalizing a
  case nil => exact h
  case cons b bs hi =>
    rw [foldlM_cons]
    refine (hf a b (mem_cons_self) h).bind fun a' h' => ?_
    exact hi h' fun a b hm => hf a b (mem_cons_of_mem _ hm)

theorem Ends.exists_ok (h : x.Ends P fun _ => False) : ∃ a, x = ok a ∧ P a := by
  cases x
  case ok a => exact ⟨a, rfl, h⟩
  case error e => exact h.elim

theorem bind_eq_ok_iff {f : α → Except ε β} {b : β} : (x >>= f) = ok b ↔ ∃ a, x = ok a ∧ f a = ok b := by
  cases x
  case ok a =>
    constructor
    case mp => exact fun h => ⟨a, rfl, h⟩
    case mpr =>
      rintro ⟨_, ha, h⟩
      cases ha
      exact h
  case error e =>
    refine iff_of_false (fun h => ?_) ?_
    · cases h
    · rintro ⟨_, h, -⟩
      cases h

theorem foldlM_eq_ok {f : α → β → Except ε α} {bs : List β} {a a' : α} (P : List β → α → Prop) (h : P [] a)
    (hf : ∀ done b a a', b ∈ bs → P done a → f a b = ok a' → P (done ++ [b]) a') (hr : bs.foldlM f a = ok a') :
    P bs a' := by
  suffices hs : ∀ done rest a, done ++ rest = bs → P done a → rest.foldlM f a = ok a' → P bs a' from hs [] bs a rfl h hr
  intro done rest
  induction rest generalizing done
  case nil =>
    intro a hd h hr
    rw [append_nil] at hd
    cases hr
    exact hd ▸ h
  case cons b rest hi =>
    intro a hd h hr
    rw [foldlM_cons, bind_eq_ok_iff] at hr
    obtain ⟨a₁, ha, hr⟩ := hr
    rw [append_cons] at hd
    exact hi (done ++ [b]) a₁ hd (hf done b a a₁ (by simp [←hd]) h ha) hr

theorem run_forM {σ : Type} (f : σ → α → Except ε σ) (as : List α) (st : σ) :
    (as.forM fun a st => (⟨⟩, ·) <$> f st a : StateT σ (Except ε) PUnit).run st = (⟨⟩, ·) <$> as.foldlM f st := by
  induction as generalizing st
  case nil => rfl
  case cons a as hi =>
    have hs : ((a :: as).forM fun a st => (⟨⟩, ·) <$> f st a : StateT σ (Except ε) PUnit).run st =
        (f st a >>= (as.forM fun a st => (⟨⟩, ·) <$> f st a : StateT σ (Except ε) PUnit).run) := by
      cases hf : f st a
      all_goals
        simp only [forM_eq_forM, forM_cons, StateT.run_bind]
        rw [StateT.run, hf]
        rfl
    rw [hs, foldlM_cons]
    cases f st a
    case error => rfl
    case ok => exact hi _

def require (o : Option α) (e : ε) : Except ε α :=
  o.elim (error e) ok

theorem require_eq_ok_iff {o : Option α} {e : ε} {a : α} : require o e = ok a ↔ o = some a := by
  cases o
  case none => exact iff_of_false (fun h => by cases h) (fun h => by cases h)
  case some b => exact ⟨fun h => congrArg some (ok.inj h), fun h => congrArg ok (Option.some.inj h)⟩

def ensure (p : Prop) [Decidable p] (e : ε) : Except ε Unit :=
  if p then ok () else error e

theorem ensure_eq_ok_iff {p : Prop} [Decidable p] {e : ε} {u : Unit} : ensure p e = ok u ↔ p := by
  rw [ensure]
  split
  case isTrue h => exact ⟨fun _ => h, fun _ => rfl⟩
  case isFalse h => exact iff_of_false (fun h => by cases h) h

end Except
