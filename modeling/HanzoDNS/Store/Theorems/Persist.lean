import HanzoDNS.Store.Theorems.Atomic
import HanzoDNS.Store.Theorems.Restart

open WriteBehind

namespace Hanzodns

open Shop

def WholeStep (s : State Store SnapshotState ι) : Action Mutation ι → Prop
  | .change _ m => ¬m.call.HalfApplied s.mem m.org
  | _ => True

theorem WholeStep.announced {s : State Store SnapshotState ι} {a : Action Mutation ι}
    (h : WholeStep s a) : a.Announced snapshotter s := by
  cases a
  case change m => exact fun hn => Store.exec_silent (.inl hn) |>.mpr h
  all_goals trivial

-- No update is lost in the snapshot file, for any number of clients and any interleaving of their steps.
-- The file always holds the export of some store of the run, never goes back to an older one, and
-- holds the current store whenever no client has a save outstanding. Only before the first save can it
-- still be the file of the initial state.
theorem snapshot_no_lost_update {ι : Type} [DecidableEq ι] {x : ℕ → State Store SnapshotState ι} {n : ℕ}
    (h₀ : (x 0).Quiescent) (hs : ∀ k < n, ∃ a, Step snapshotter (x k) a (x (k + 1)) ∧ WholeStep (x k) a) :
    ∃ v : ℕ → ℕ, Monotone v ∧ ∀ k ≤ n, v k ≤ k ∧
      ((x k).file = some (x (v k)).mem.exportState ∨ v k = 0 ∧ (x k).file = (x 0).file) ∧ ((x k).Quiescent →
        (x k).file = some (x k).mem.exportState ∨ (x k).file = (x 0).file ∧ (x k).mem = (x 0).mem) := by
  have ⟨v, hm, hv⟩ := exists_versions h₀ fun k hk =>
    have ⟨a, hs, hw⟩ := hs k hk
    ⟨a, hs, hw.announced⟩
  exact ⟨v, hm, fun k hk => ⟨(hv k hk).le, (hv k hk).file, (hv k hk).upToDate⟩⟩

-- Two clients that create a zone each. The second one comes in before the first one has saved, and the
-- first save covers both.
def race (m₁ m₂ : Mutation) : ℕ → State Store SnapshotState Bool :=
  let s₁ := snapshotter.change newStore m₁
  let s₂ := snapshotter.change s₁ m₂
  fun
  | 0 => { mem := newStore, file := none, phase := (cond · .idle .idle) }
  | 1 => { mem := s₁, file := none, phase := (cond · .pending .idle) }
  | 2 => { mem := s₂, file := none, phase := (cond · .pending .pending) }
  | 3 => { mem := s₂, file := none, phase := (cond · (.saving s₂.exportState) .pending) }
  | 4 => { mem := s₂, file := some s₂.exportState, phase := (cond · .idle .pending) }
  | 5 => { mem := s₂, file := some s₂.exportState, phase := (cond · .idle (.saving s₂.exportState)) }
  | _ => { mem := s₂, file := some s₂.exportState, phase := (cond · .idle .idle) }

theorem update_cond_true {a b c : α} : Function.update (cond · a b) true c = (cond · c b) := by
  funext i
  cases i <;> simp

theorem update_cond_false {a b c : α} : Function.update (cond · a b) false c = (cond · a c) := by
  funext i
  cases i <;> simp

theorem snapshot_no_lost_update_race :
    let m₁ : Mutation := { org := "acme", env, call := .createZone "shop.example" "authoritative" }
    let m₂ : Mutation := { org := "evil", env, call := .createZone "mall.example" "authoritative" }
    let x := race m₁ m₂
    ∃ v : ℕ → ℕ, Monotone v ∧ ∀ k ≤ 6,
      v k ≤ k ∧
      ((x k).file = some (x (v k)).mem.exportState ∨ v k = 0 ∧ (x k).file = (x 0).file) ∧
      ((x k).Quiescent →
        (x k).file = some (x k).mem.exportState ∨ (x k).file = (x 0).file ∧ (x k).mem = (x 0).mem) := by
  intro m₁ m₂ x
  apply snapshot_no_lost_update
  case h₀ => intro i; cases i <;> rfl
  case hs =>
    have n₁ : snapshotter.notifies newStore m₁ = true := by decide +kernel
    have n₂ : snapshotter.notifies (snapshotter.change newStore m₁) m₂ = true := by decide +kernel
    have h₀ : Step snapshotter (x 0) (.change true m₁) _ := .change rfl
    have h₁ : Step snapshotter (x 1) (.change false m₂) _ := .change rfl
    have h₂ : Step snapshotter (x 2) (.capture true) _ := .capture rfl (by simp [x, race])
    have h₃ : Step snapshotter (x 3) (.commit true) _ := .commit rfl
    have h₄ : Step snapshotter (x 4) (.capture false) _ := .capture rfl (by simp [x, race])
    have h₅ : Step snapshotter (x 5) (.commit false) _ := .commit rfl
    simp only [x, race, n₁, n₂, update_cond_true, update_cond_false, if_true] at h₀ h₁ h₂ h₃ h₄ h₅
    intro k hk
    interval_cases k
    exacts [⟨_, h₀, id⟩, ⟨_, h₁, id⟩, ⟨_, h₂, trivial⟩, ⟨_, h₃, trivial⟩, ⟨_, h₄, trivial⟩, ⟨_, h₅, trivial⟩]

-- A failed update that renames a record does not invoke the hook. The new name is in memory, and the
-- file still has the old one although no save is outstanding.
theorem snapshot_misses_rename :
    let m : Mutation := {
      org := "acme"
      env
      call := .updateRecord "shop.example" "id" { name := some "api", type := some "BOGUS" }
    }
    let x : State Store SnapshotState Unit := {
      mem := store
      file := some store.exportState
      phase := fun _ => .idle
    }
    ∃ x', Step snapshotter x (.change () m) x' ∧ x'.Quiescent ∧ x'.file ≠ some x'.mem.exportState := by
  intro m x
  have hn : snapshotter.notifies store m = false := by decide +kernel
  refine ⟨_, .change rfl, by simp [x, hn, State.Quiescent], fun h => ?_⟩
  have he : store.restart = (snapshotter.change store m).restart :=
    congrArg Store.importState (Option.some_inj.mp h)
  have hl : store.lookup "www.shop.example." "A" = (snapshotter.change store m).lookup "www.shop.example." "A" := by
    rw [←Store.restart_lookup, he, Store.restart_lookup]
  exact absurd hl (by decide +kernel)

end Hanzodns
