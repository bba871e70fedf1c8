import Mathlib.Data.List.Nodup

open List

-- A list of values with different keys, which is kept up to date by changes to single values.
inductive Delta (ν : Type)
  | updated (v : ν)
  | deleted (v : ν)

namespace Delta

variable {κ ν γ : Type} [DecidableEq κ] (key : ν → κ)

def apply (store : List ν) : Delta ν → List ν
  | updated v =>
    if store.any (key · = key v) then
      store.map fun w => if key w = key v then v else w
    else
      store ++ [v]
  | deleted v => store.filter (key · ≠ key v)

-- A value is only replaced by one that is the same in some way, and only values of some kind come or go.
def Keeps (same : ν → ν → Prop) (idle : ν → Prop) (store : List ν) : Delta ν → Prop
  | updated v => (∀ w ∈ store, key w = key v → same w v) ∧ ((∀ w ∈ store, key w ≠ key v) → idle v)
  | deleted v => ∀ w ∈ store, key w = key v → idle w

variable {key} {store : List ν} {d : Delta ν} {same : ν → ν → Prop} {idle : ν → Prop}

theorem filter_flatMap {p : ν → Bool} {f : ν → List γ} :
    (store.filter p).flatMap f = store.flatMap fun v => if p v then f v else [] := by
  induction store
  case nil => rfl
  case cons v store hi =>
    rw [filter_cons, flatMap_cons, ←hi]
    split
    case isTrue => rfl
    case isFalse => rfl

theorem Keeps.flatMap_apply {f : ν → List γ} (h : d.Keeps key same idle store)
    (hs : ∀ {w v}, key w = key v → same w v → f w = f v) (hi : ∀ {v}, idle v → f v = []) :
    (d.apply key store).flatMap f = store.flatMap f := by
  cases d
  case updated v =>
    rw [apply]
    split
    case isTrue =>
      rw [flatMap_map]
      refine flatMap_congr fun w hw => ?_
      split
      case isTrue hk => exact (hs hk (h.1 w hw hk)).symm
      case isFalse => rfl
    case isFalse hn =>
      have hn : ∀ w ∈ store, key w ≠ key v := by simpa using hn
      rw [flatMap_append, flatMap_singleton, hi (h.2 hn), append_nil]
  case deleted v =>
    rw [apply, filter_flatMap]
    refine flatMap_congr fun w hw => ?_
    split
    case isTrue => rfl
    case isFalse hk => exact (hi (h w hw (by simpa using hk))).symm

theorem Keeps.filter_flatMap_apply {p : ν → Bool} {f : ν → List γ} (h : d.Keeps key same idle store)
    (hp : ∀ {w v}, key w = key v → same w v → p w = p v) (hs : ∀ {w v}, key w = key v → same w v → p w → f w = f v)
    (hi : ∀ {v}, idle v → p v → f v = []) :
    ((d.apply key store).filter p).flatMap f = (store.filter p).flatMap f := by
  rw [filter_flatMap, filter_flatMap]
  refine h.flatMap_apply (fun {w v} hk hw => ?_) fun {v} hv => ?_
  case refine_1 =>
    rw [←hp hk hw]
    split
    case isTrue hw' => exact hs hk hw hw'
    case isFalse => rfl
  case refine_2 =>
    split
    case isTrue hv' => exact hi hv hv'
    case isFalse => rfl

theorem Keeps.filter_flatMap_view {view : ν → ν} {p : ν → Bool} {f : ν → List γ}
    (h : d.Keeps key (fun w v => view w = view v ∨ idle w ∧ idle v) idle store)
    (hp : ∀ v, p (view v) = p v) (hf : ∀ v, f (view v) = f v) (hi : ∀ {v}, idle v → p v = false) :
    ((d.apply key store).filter p).flatMap f = (store.filter p).flatMap f := by
  refine h.filter_flatMap_apply (fun {w v} _ hw => ?_) (fun {w v} _ hw hv => ?_) fun hv hv' => ?_
  case refine_1 =>
    obtain hw | ⟨hw, hv⟩ := hw
    case inl => rw [←hp w, hw, hp]
    case inr => rw [hi hw, hi hv]
  case refine_2 =>
    obtain hw | ⟨hw, -⟩ := hw
    case inl => rw [←hf w, hw, hf]
    case inr => simp [hi hw] at hv
  case refine_3 => simp [hi hv] at hv'

omit [DecidableEq κ] in
theorem Keeps.mono {same' : ν → ν → Prop} {idle' : ν → Prop} (h : d.Keeps key same idle store)
    (hs : ∀ {w v}, key w = key v → same w v → same' w v) (hi : ∀ {v}, idle v → idle' v) :
    d.Keeps key same' idle' store := by
  cases d
  case updated v => exact ⟨fun w hw hk => hs hk (h.1 w hw hk), fun hn => hi (h.2 hn)⟩
  case deleted v => exact fun w hw hk => hi (h w hw hk)

omit [DecidableEq κ] in
theorem Keeps.view {view : ν → ν} (h : d.Keeps key (fun w v => view w = view v) idle store) :
    d.Keeps key (fun w v => view w = view v ∨ idle w ∧ idle v) idle store :=
  h.mono (fun _ => .inl) id

theorem nodup_apply (h : (store.map key).Nodup) : ((d.apply key store).map key).Nodup := by
  cases d
  case updated v =>
    rw [apply]
    split
    case isTrue =>
      have hk : (store.map fun w => if key w = key v then v else w).map key = store.map key := by
        rw [map_map]
        refine map_congr_left fun w _ => ?_
        rw [Function.comp_apply]
        split
        case isTrue hk => exact hk.symm
        case isFalse => rfl
      rwa [hk]
    case isFalse hn =>
      rw [map_append, map_singleton]
      refine h.append (nodup_singleton _) ?_
      simpa using hn
  case deleted v => exact h.sublist (filter_sublist.map key)

end Delta
