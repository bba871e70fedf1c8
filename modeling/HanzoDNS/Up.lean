import HanzoDNS.Lib.Transition

-- Probes that run a function until it says that a target is alive.
namespace Up

inductive Progress
  | idle
  | active
  | stop
deriving DecidableEq

-- What a goroutine that was started by Do is about to do.
inductive Routine
  | unused
  -- It is in the function.
  | running
  | sleeping
  -- It takes the lock after the function has succeeded.
  | finishing
  | ended
deriving DecidableEq

def Routine.Live (r : Routine) : Prop :=
  r ≠ .unused ∧ r ≠ .ended

structure Probe where
  inprogress : Progress := .idle
  routines : Nat → Routine := fun _ => .unused
  started : Nat := 0
  -- Whether a call of Stop has returned.
  stopped : Bool := false

inductive Label
  | «do»
  | stop
  -- The function returns to a goroutine, with an error or without.
  | returned (g : Nat) (err : Bool)
  | wake (g : Nat)
  | finish (g : Nat)

namespace Probe

def set (p : Probe) (g : Nat) (r : Routine) : Probe :=
  { p with routines := Function.update p.routines g r }

def «do» (p : Probe) : Probe :=
  if p.inprogress ≠ .idle then
    p
  else
    { p with inprogress := .active, started := p.started + 1 }.set p.started .running

-- The steps are what is done while the lock is held, and the calls of the function.
def step (p : Probe) : Label → Option Probe
  | .do => some p.do
  | .stop => some { p with inprogress := .stop, stopped := true }
  | .returned g err =>
    if p.routines g ≠ .running then none
    else some (p.set g (if err then .sleeping else .finishing))
  | .wake g =>
    if p.routines g ≠ .sleeping then none
    else some (p.set g (if p.inprogress = .stop then .ended else .running))
  | .finish g =>
    if p.routines g ≠ .finishing then none
    else some ({ p with inprogress := .idle }.set g .ended)

-- No two functions run at the same time, and Do starts none after Stop.
structure Safe (p : Probe) : Prop where
  single : ∀ {g g'}, p.routines g = .running → p.routines g' = .running → g = g'
  stopped : p.stopped → p.do.routines = p.routines

variable {p p' : Probe} {l : Label}

structure Exclusive (p : Probe) : Prop where
  single : ∀ {g g'}, (p.routines g).Live → (p.routines g').Live → g = g'
  idle : p.inprogress = .idle → ∀ g, ¬(p.routines g).Live

theorem exclusive_of_update {g : Nat} {r : Routine} (h : p'.routines = Function.update p.routines g r)
    (others : ∀ g' ≠ g, ¬(p.routines g').Live) (hi : p'.inprogress = .idle → ¬r.Live) : Exclusive p' := by
  have only {g'} (h' : (p'.routines g').Live) : g' = g := by
    by_contra hn
    rw [h, Function.update_of_ne hn] at h'
    exact others g' hn h'
  refine ⟨fun h₁ h₂ => (only h₁).trans (only h₂).symm, fun hp g' h' => hi hp ?_⟩
  rwa [only h', h, Function.update_self] at h'

theorem Exclusive.step (e : Exclusive p) (h : p.step l = some p') : Exclusive p' := by
  have others {g : Nat} (hg : (p.routines g).Live) : ∀ g' ≠ g, ¬(p.routines g').Live :=
    fun g' hn h' => hn (e.single h' hg)
  cases l <;> simp only [Probe.step] at h
  case «do» =>
    cases h
    rw [«do»]
    split
    case isTrue => exact e
    case isFalse hi => exact exclusive_of_update rfl (fun g' _ => e.idle (not_not.mp hi) g') (fun hp => by cases hp)
  case stop =>
    cases h
    exact ⟨e.single, fun hp => by cases hp⟩
  all_goals
    split at h
    case isTrue => cases h
    case isFalse hg =>
      cases h
      have hl : (p.routines _).Live := ⟨by rw [not_not.mp hg]; decide, by rw [not_not.mp hg]; decide⟩
      refine exclusive_of_update rfl (others hl) fun hp => ?_
      first
        | exact absurd hl (e.idle hp _)
        | simp [Routine.Live]

-- A step in which a goroutine does not report to a stopped probe that its function has succeeded.
structure Timely (p : Probe) (l : Label) (p' : Probe) : Prop where
  step : p.step l = some p'
  late : ∀ g, l = .finish g → p.inprogress ≠ .stop

theorem Timely.stopped (t : Timely p l p') (hs : p.stopped → p.inprogress = .stop) :
    p'.stopped → p'.inprogress = .stop := by
  have h := t.step
  cases l <;> simp only [Probe.step] at h
  case «do» =>
    cases h
    rw [«do»]
    split
    case isTrue => exact hs
    case isFalse hi =>
      intro ht
      rw [hs ht] at hi
      exact absurd (by decide) hi
  case stop =>
    cases h
    exact fun _ => rfl
  case finish g =>
    split at h
    case isTrue => cases h
    case isFalse =>
      cases h
      exact fun ht => absurd (hs ht) (t.late g rfl)
  all_goals
    split at h
    case isTrue => cases h
    case isFalse =>
      cases h
      exact hs

-- In every run in which no success is reported after a stop, all states are safe.
theorem safe_of_steps {ls : List Label} (r : Steps Timely {} ls p) : Safe p := by
  have e : Exclusive p :=
    r.invariant (fun e t => e.step t.step) ⟨fun h => absurd rfl h.1, fun _ _ h => h.1 rfl⟩
  have hs : p.stopped → p.inprogress = .stop := r.invariant (fun hs t => t.stopped hs) (fun h => by cases h)
  refine ⟨fun h h' => e.single (by simp [h, Routine.Live]) (by simp [h', Routine.Live]), fun ht => ?_⟩
  rw [«do», if_pos (by rw [hs ht]; decide)]

theorem safe_failed : ∃ p, Steps Timely {} [.do, .stop, .returned 0 true, .wake 0] p ∧ p.stopped ∧ Safe p := by
  obtain ⟨p, r, hs⟩ : ∃ p, Steps Timely {} [.do, .stop, .returned 0 true, .wake 0] p ∧ p.stopped := by
    refine ⟨_, .trans ⟨rfl, ?_⟩ (.trans ⟨rfl, ?_⟩ (.trans ⟨rfl, ?_⟩ (.trans ⟨rfl, ?_⟩ .refl))), rfl⟩
    all_goals
      intro g h
      cases h
  exact ⟨p, r, hs, safe_of_steps r⟩

-- The function succeeds while the probe is being stopped.
theorem not_safe_succeeded : ∃ p, Steps (fun p l p' => p.step l = some p') {}
    [.do, .stop, .returned 0 false, .finish 0] p ∧ ¬Safe p := by
  refine ⟨_, .trans rfl (.trans rfl (.trans rfl (.trans rfl .refl))), fun s => ?_⟩
  have h := congrFun (s.stopped rfl) 1
  cases h

end Probe
end Up
