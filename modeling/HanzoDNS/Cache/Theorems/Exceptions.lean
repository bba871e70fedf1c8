import HanzoDNS.Cache.Theorems.Newest
import HanzoDNS.Plugin.Theorems.Zones

open Dns Strings

namespace Cache

def Config.except (c : Config) (negative : Bool) : List Str :=
  if negative then c.nexcept else c.pexcept

def Writer.except (w : Writer) (negative : Bool) : List Str :=
  if negative then w.nexcept else w.pexcept

section

variable (lib : Library) (c : Config)

def Excepted (negative : Bool) (name : Str) : Prop :=
  ∃ z ∈ c.except negative, z ≠ [] ∧ lib.isSubDomain z name

namespace State

def Respects (s : State) : Prop :=
  ∀ negative k i, s.cache negative k = some i → ¬Excepted lib c negative i.name

-- A reply that refreshes an item is not for a name of which replies of its kind are not to be kept.
def refreshes (s : State) : Event → Bool
  | .respond n res => s.tasks[n]?.all fun t => t.purpose = .miss ||
                        !excepted lib (c.except !positive (typify lib res s.now)) res
  | _ => true

def Informed (s : State) : Prop :=
  ∀ t ∈ s.tasks, t.purpose = .miss → ∀ negative, t.writer.except negative = c.except negative

end State
end

namespace State

variable {lib : Library} {c : Config} {s s' : State} {e : Event} {i : Item} {negative : Bool} {k : UInt64}

theorem not_excepted_iff {m : Msg} {q : Question} (hq : m.question = [q]) :
    ¬excepted lib (c.except negative) m ↔ ¬Excepted lib c negative q.name := by
  have hm : Plugin.Zones.matches lib.isSubDomain (c.except negative) q.name = [] ↔
      ∀ z ∈ c.except negative, lib.isSubDomain z q.name → z = [] := Plugin.Zones.matches_eq_nil_iff
  simp only [excepted, hq, decide_eq_true_eq, not_not, hm, Excepted, not_exists, not_and]
  exact forall_congr' fun z => forall_congr' fun _ => not_imp_not.symm

theorem cache_replaced {j : Item} {k' : UInt64} {prefetch : Bool}
    (h : (if prefetch then (s.add false k' j).remove true k' else s.add false k' j).cache negative k = some i) :
    s.cache negative k = some i ∨ negative = false ∧ i = j := by
  have ha : (s.add false k' j).cache negative k = some i := by
    split at h
    case isFalse => exact h
    case isTrue =>
      rw [cache_remove] at h
      split at h
      case isTrue => cases h
      case isFalse => exact h
  rw [cache_add] at ha
  split at ha
  case isTrue hn => exact .inr ⟨hn.1, (Option.some.inj ha).symm⟩
  case isFalse => exact .inl ha

theorem set_except {w : Writer} {m : Msg} {k' : UInt64} {mt : ResponseType} {d : Duration}
    (h : (s.set lib w m k' mt d).cache negative k = some i) : s.cache negative k = some i ∨
      i = newItem s.log.length w.request m mt s.now d ∧ (negative = !positive mt) ∧
        ¬excepted lib (w.except negative) m := by
  cases mt
  case noError | delegation =>
    rw [set] at h
    split at h
    case isTrue => exact .inl h
    case isFalse he =>
      obtain h | ⟨rfl, rfl⟩ := cache_replaced h
      case inl => exact .inl h
      case inr => exact .inr ⟨rfl, rfl, he⟩
  case nameError | noData | serverError =>
    rw [set] at h
    split at h
    case isTrue => exact .inl h
    case isFalse he =>
      rw [cache_add] at h
      split at h
      case isTrue hn => exact .inr ⟨(Option.some.inj h).symm, hn.1, by rwa [hn.1]⟩
      case isFalse => exact .inl h
  all_goals exact .inl h

theorem writeMsg_except {w : Writer} {res : Msg} (h : s.writeMsg lib c w res = some s')
    (hc : s'.cache negative k = some i) : s.cache negative k = some i ∨
      (∃ q, res.question = [q] ∧ i.name = q.name) ∧ (negative = !positive (typify lib res s.now)) ∧
        ¬excepted lib (w.except negative) res := by
  obtain rfl | ⟨q, d, hq, -, -, rfl⟩ := writeMsg_set h
  case inl => exact .inl hc
  case inr =>
    obtain hc | ⟨rfl, hn, he⟩ := set_except hc
    case inl => exact .inl hc
    case inr => exact .inr ⟨⟨q, hq, by simp [newItem, capped, hq]⟩, hn, he⟩

theorem Informed.effect {reply : Option Reply} (hi : s.Informed c) (h : Effect lib c s e s' reply) : s'.Informed c := by
  intro t ht hm negative
  obtain ⟨t₀, ht₀, hw, hp⟩ | ⟨r, -, hc⟩ := h.task_cases ht
  case inl =>
    -- Nothing becomes of a miss, and nothing becomes one.
    have hp₀ : t₀.purpose = .miss := by
      rw [hm] at hp
      generalize t₀.purpose = p at hp
      cases hp
      rfl
    rw [←hw]
    exact hi t₀ ht₀ hp₀ negative
  case inr =>
    cases hc
    case miss => rfl
    case verify => cases hm
    case prefetch => cases hm

theorem Respects.effect {reply : Option Reply} (hr : s.Respects lib c) (hi : s.Informed c) (h : Effect lib c s e s' reply)
    (he : s.refreshes lib c e) : s'.Respects lib c := by
  intro negative k i hc
  cases h
  case pass | miss | verify | discard | fresh | advance => exact hr negative k i hc
  case stale ha | hit ha | finish ha | fallback ha | timeout ha => exact hr negative k i (ha.cache_eq ▸ hc)
  case respond n t res p ht hp hw =>
    obtain hc | ⟨⟨q, hq, hn⟩, hk, hx⟩ := writeMsg_except hw hc
    case inl => exact hr negative k i hc
    case inr =>
      have hx : ¬excepted lib (c.except negative) res := by
        have he : t.purpose = .miss ∨ ¬excepted lib (c.except !positive (typify lib res s.now)) res := by
          simpa [refreshes, ht] using he
        obtain hm | he := he
        case inl => rwa [hi t (List.mem_of_getElem? ht) hm] at hx
        case inr => rwa [hk]
      rw [hn]
      exact (not_excepted_iff hq).mp hx
  case evict =>
    rw [cache_remove] at hc
    split at hc
    case isTrue => cases hc
    case isFalse => exact hr negative k i hc

theorem respects_of_steps {es : List Event} {now : Time}
    (h : Steps (fun s e s' => Next lib c s e s' ∧ s.refreshes lib c e) { now } es s) : s.Respects lib c := by
  have start : ({ now } : State).Respects lib c ∧ ({ now } : State).Informed c := by
    refine ⟨fun negative k i hc => ?_, fun t ht => by cases ht⟩
    rw [cache_start] at hc
    cases hc
  refine (h.invariant (P := fun s => s.Respects lib c ∧ s.Informed c) ?_ start).1
  rintro s₁ e s₂ ⟨hr, hi⟩ ⟨⟨reply, h⟩, he⟩
  have h := step_effect h
  exact ⟨hr.effect hi h he, hi.effect h⟩

end State

namespace Variants

def strict : Config :=
  { untimed with nexcept := ["example."] }

def vanishes : List Event :=
  answered first (cname first) ++ [.advance (20 * second).toNat, .request first, .respond 0 (nameError first [soa])]

end Variants

namespace State

open Variants

theorem respects_positive : ∃ s i,
    Steps (Next .reference strict) { now := 0 } (answered first (cname first) ++ answered other (nameError other [soa])) s ∧
    s.getIfNotStale .reference strict first = some i ∧ s.Respects .reference strict := by
  have ⟨s, hs, h⟩ : ∃ s ∈ ({ now := 0 } : State).runWhile .reference strict (refreshes .reference strict)
      (answered first (cname first) ++ answered other (nameError other [soa])),
        (s.getIfNotStale .reference strict first).isSome := by
    decide +kernel
  obtain ⟨i, hi⟩ := Option.isSome_iff_exists.mp h
  have hr := steps_of_runWhile hs
  exact ⟨s, i, hr.mono And.left, hi, respects_of_steps hr⟩

-- The writer that verifies a stale item knows of no exceptions.
theorem not_respects_verify : ∃ s i, Steps (Next .reference strict) { now := 0 } vanishes s ∧
    s.ncache (keyOf .reference first) = some i ∧ i.name = "90a0-0-cre.example.".toList ∧ ¬s.Respects .reference strict := by
  have ⟨s, hs, i, hi, hn⟩ : ∃ s ∈ ({ now := 0 } : State).run .reference strict vanishes,
      ∃ i ∈ s.ncache (keyOf .reference first), i.name = "90a0-0-cre.example.".toList := by
    decide +kernel
  refine ⟨s, i, steps_of_run hs, hi, hn, fun hr => ?_⟩
  refine hr true _ i hi ?_
  rw [hn]
  exact ⟨"example.".toList, by decide, by decide, by decide +kernel⟩

end State
end Cache
