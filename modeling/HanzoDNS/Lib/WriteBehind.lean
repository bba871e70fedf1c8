import Mathlib

-- A state in memory that clients change, and a file that a client rewrites after its change. The two are
-- not one critical section. A client first changes the memory, and only then waits for the lock under
-- which it captures the memory and replaces the file.
namespace WriteBehind

structure System (σ α γ : Type) where
  change : σ → α → σ
  notifies : σ → α → Bool
  snapshot : σ → γ

inductive Phase (γ : Type)
  | idle
  | pending
  | saving (data : γ)
deriving DecidableEq

structure State (σ γ ι : Type) where
  mem : σ
  file : Option γ
  phase : ι → Phase γ

inductive Action (α ι : Type)
  | change (i : ι) (a : α)
  | capture (i : ι)
  | commit (i : ι)

section

variable [DecidableEq ι] (sys : System σ α γ)

-- The lock is held by the client that is saving.
inductive Step : State σ γ ι → Action α ι → State σ γ ι → Prop
  | change (idle : s.phase i = .idle) :
    Step s (.change i a) {
      mem := sys.change s.mem a
      file := s.file
      phase := if sys.notifies s.mem a then Function.update s.phase i .pending else s.phase
    }
  | capture (pending : s.phase i = .pending) (free : ∀ j d, s.phase j ≠ .saving d) :
    Step s (.capture i) { s with phase := Function.update s.phase i (.saving (sys.snapshot s.mem)) }
  | commit (saving : s.phase i = .saving d) :
    Step s (.commit i) { s with file := some d, phase := Function.update s.phase i .idle }

end

def State.Quiescent (s : State σ γ ι) : Prop :=
  ∀ i, s.phase i = .idle

-- A change of which the client is not told that it has to save changes nothing.
def Action.Announced (sys : System σ α γ) (s : State σ γ ι) : Action α ι → Prop
  | change _ a => sys.notifies s.mem a = false → sys.change s.mem a = s.mem
  | _ => True

-- The file holds the current memory. Before anything has changed it can hold something else.
def UpToDate (sys : System σ α γ) (s₀ s : State σ γ ι) : Prop :=
  s.file = some (sys.snapshot s.mem) ∨ s.file = s₀.file ∧ s.mem = s₀.mem

-- The file at time `k` of a run is a snapshot of the memory at time `ver`. Whoever is saving holds a
-- snapshot that is at least as recent, and if nobody is going to save the current memory, then it is
-- in the file already.
structure Tracks (sys : System σ α γ) (x : ℕ → State σ γ ι) (k ver : ℕ) : Prop where
  le : ver ≤ k
  file : (x k).file = some (sys.snapshot (x ver).mem) ∨ ver = 0 ∧ (x k).file = (x 0).file
  data : ∀ i d, (x k).phase i = .saving d → ∃ w, ver ≤ w ∧ w ≤ k ∧ d = sys.snapshot (x w).mem
  mutex : ∀ i j d d', (x k).phase i = .saving d → (x k).phase j = .saving d' → i = j
  fresh : (∃ i, (x k).phase i = .pending) ∨ (∃ i, (x k).phase i = .saving (sys.snapshot (x k).mem)) ∨
    (∀ i d, (x k).phase i ≠ .saving d) ∧ UpToDate sys (x 0) (x k)

namespace Tracks

variable {sys : System σ α γ} {x : ℕ → State σ γ ι} {k ver : ℕ}

theorem init (h : (x 0).Quiescent) : Tracks sys x 0 0 where
  le := le_rfl
  file := .inr ⟨rfl, rfl⟩
  data := by simp [h _]
  mutex := by simp [h _]
  fresh := .inr <| .inr ⟨by simp [h _], .inr ⟨rfl, rfl⟩⟩

theorem upToDate (h : Tracks sys x k ver) (q : (x k).Quiescent) : UpToDate sys (x 0) (x k) := by
  have hf := h.fresh
  simp [q _] at hf
  exact hf

-- Passing to the next time without a new file, as long as nobody starts to save.
theorem keep (h : Tracks sys x k ver) (hf : (x (k + 1)).file = (x k).file)
    (hp : ∀ {i d}, (x (k + 1)).phase i = .saving d → (x k).phase i = .saving d)
    (fresh : (∃ i, (x (k + 1)).phase i = .pending) ∨
      (x (k + 1)).phase = (x k).phase ∧ (x (k + 1)).mem = (x k).mem) : Tracks sys x (k + 1) ver where
  le := h.le.trans k.le_succ
  file := hf ▸ h.file
  data := fun i d hd =>
    have ⟨w, hv, hk, hd⟩ := h.data i d (hp hd)
    ⟨w, hv, hk.trans k.le_succ, hd⟩
  mutex := fun i j d d' hi hj => h.mutex i j d d' (hp hi) (hp hj)
  fresh := by
    cases fresh
    case inl hp => exact .inl hp
    case inr he =>
      have ⟨hp, hm⟩ := he
      simpa only [UpToDate, hp, hm, hf] using h.fresh

variable [DecidableEq ι] {a : Action α ι}

theorem step (h : Tracks sys x k ver) (hs : Step sys (x k) a (x (k + 1)))
    (ha : a.Announced sys (x k)) : ∃ ver' ≥ ver, Tracks sys x (k + 1) ver' := by
  generalize hx : x (k + 1) = s at hs
  cases hs
  case change i a idle =>
    refine ⟨ver, le_rfl, h.keep (by simp [hx]) ?saving ?fresh⟩
    case saving =>
      intro j d hd
      by_cases hj : j = i <;> simp [hx] at hd <;> split at hd <;> simp_all
    case fresh =>
      cases hn : sys.notifies (x k).mem a
      case true => exact .inl ⟨i, by simp [hx, hn]⟩
      case false => exact .inr <| by simpa [hx, hn] using ha hn
  case capture i pending free =>
    -- The lock was free, so the client that captures is the only one that saves.
    have only {j d} (hd : (x (k + 1)).phase j = .saving d) :
        j = i ∧ d = sys.snapshot (x (k + 1)).mem := by
      by_cases hj : j = i
      case pos => simp_all
      case neg => simp [hx, hj] at hd; exact absurd hd (free j d)
    exact ⟨ver, le_rfl, {
      le := h.le.trans k.le_succ
      file := by simpa [hx] using h.file
      data := fun j d hd => ⟨k + 1, h.le.trans k.le_succ, le_rfl, (only hd).right⟩
      mutex := fun j₁ j₂ d₁ d₂ h₁ h₂ => (only h₁).left.trans (only h₂).left.symm
      fresh := .inr <| .inl ⟨i, by simp [hx]⟩
    }⟩
  case commit i d saving =>
    have ⟨w, hv, hk, hd⟩ := h.data i d saving
    -- Nobody else was saving, and so nobody is saving any more.
    have none j d' : (x (k + 1)).phase j ≠ .saving d' := by
      by_cases hj : j = i
      case pos => simp [hx, hj]
      case neg => simp [hx, hj]; exact fun hp => hj <| h.mutex j i _ _ hp saving
    refine ⟨w, hv, {
      le := hk.trans k.le_succ
      file := .inl <| by simp [hx, hd]
      data := fun j d' hp => absurd hp (none j d')
      mutex := fun j _ d' _ hp => absurd hp (none j d')
      fresh := ?fresh
    }⟩
    cases h.fresh
    case inl hp =>
      have ⟨j, hj⟩ := hp
      have hne : j ≠ i := fun he => by simp [he, saving] at hj
      exact .inl ⟨j, by simp [hx, hne, hj]⟩
    case inr hf =>
      cases hf
      case inr hf => exact absurd saving (hf.left i d)
      case inl hf =>
        have ⟨j, hj⟩ := hf
        cases h.mutex i j _ _ saving hj
        cases saving.symm.trans hj
        exact .inr <| .inr ⟨none, .inl <| by simp [hx]⟩

end Tracks

-- A relation that can be continued from each time to the next without going back can be followed by a
-- monotone function.
theorem exists_monotone {P : ℕ → ℕ → Prop} (n : ℕ) (h₀ : P 0 v₀)
    (h : ∀ k < n, ∀ v, P k v → ∃ v' ≥ v, P (k + 1) v') : ∃ f : ℕ → ℕ, Monotone f ∧ ∀ k ≤ n, P k (f k) := by
  induction n
  case zero => exact ⟨fun _ => v₀, monotone_const, by simpa using h₀⟩
  case succ n hi =>
    have ⟨f, hm, hf⟩ := hi fun k hk => h k (hk.trans n.lt_succ_self)
    have ⟨v, hv, hp⟩ := h n n.lt_succ_self (f n) (hf n le_rfl)
    refine ⟨fun k => if k ≤ n then f k else v, ?_, ?_⟩
    · intro k₁ k₂ hk
      by_cases h₁ : k₁ ≤ n <;> by_cases h₂ : k₂ ≤ n <;> simp [h₁, h₂]
      · exact hm hk
      · exact (hm h₁).trans hv
      · omega
    · intro k hk
      by_cases h₁ : k ≤ n
      case pos => simpa [h₁] using hf k h₁
      case neg => simpa [h₁, show k = n + 1 by omega] using hp

theorem exists_versions [DecidableEq ι] {sys : System σ α γ} {x : ℕ → State σ γ ι} {n : ℕ}
    (h₀ : (x 0).Quiescent) (hs : ∀ k < n, ∃ a, Step sys (x k) a (x (k + 1)) ∧ a.Announced sys (x k)) :
    ∃ v : ℕ → ℕ, Monotone v ∧ ∀ k ≤ n, Tracks sys x k (v k) := by
  refine exists_monotone n (Tracks.init h₀) fun k hk v ht => ?_
  have ⟨a, hs, ha⟩ := hs k hk
  exact ht.step hs ha

end WriteBehind
