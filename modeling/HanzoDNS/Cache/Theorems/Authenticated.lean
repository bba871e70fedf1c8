import HanzoDNS.Cache.Theorems.Newest

open Dns Strings Option

namespace Cache
namespace State

-- Only a writer for a request without an item looks at the AD bit of the request.
def Flagged (s : State) : Prop :=
  ∀ t ∈ s.tasks, t.writer.ad = (decide (t.purpose = .miss) && t.writer.request.authenticatedData)

variable {lib : Library} {c : Config} {s s' : State} {e : Event} {i : Item}

theorem Continues.miss_iff {p p' : Purpose} (h : p.Continues p') : p = .miss ↔ p' = .miss := by
  cases h <;> simp

theorem Flagged.effect {reply : Option Reply} (hf : s.Flagged) (h : Effect lib c s e s' reply) : s'.Flagged := by
  intro t ht
  obtain ⟨t₀, ht₀, hw, hp⟩ | ⟨r, -, hc⟩ := h.task_cases ht
  case inl => rw [←hw, hf t₀ ht₀, decide_eq_decide.mpr (Continues.miss_iff hp)]
  case inr =>
    cases hc
    case miss => rfl
    case verify => rfl
    case prefetch => rfl

theorem flagged_of_steps {es : List Event} {now : Time} (h : Steps (Next lib c) { now } es s) : s.Flagged := by
  refine h.invariant (P := Flagged) ?_ (fun t ht => by cases ht)
  rintro s₁ e s₂ hf ⟨reply, h⟩
  exact hf.effect (step_effect h)

theorem writeMsg_authenticated {w : Writer} {res : Msg} (h : s.writeMsg lib c w res = some s') (hl : s'.log = i :: s.log) :
    i.authenticatedData = (res.authenticatedData && (w.dnssec || w.ad)) := by
  have hn : s.log ≠ i :: s.log := fun h => by simpa using congrArg List.length h
  obtain rfl | ⟨q, d, -, -, -, rfl⟩ := writeMsg_set h
  case inl => exact absurd hl hn
  case inr =>
    have hi : i = newItem s.log.length w.request (capped w res d) (typify lib res s.now) s.now d := by
      obtain hs | ⟨-, hs⟩ | ⟨-, hs⟩ := set_cases lib s w (capped w res d)
        (hash (w.request.name lib) w.request.qtype w.dnssec w.cd) (typify lib res s.now) d
      case inl =>
        rw [hs] at hl
        exact absurd hl hn
      case inr.inl =>
        rw [hs] at hl
        split at hl
        case isTrue =>
          rw [(remove_frame ..).2.2, (add_frame ..).2.2] at hl
          exact (List.cons.inj hl).1.symm
        case isFalse =>
          rw [(add_frame ..).2.2] at hl
          exact (List.cons.inj hl).1.symm
      case inr.inr =>
        rw [hs, (add_frame ..).2.2] at hl
        exact (List.cons.inj hl).1.symm
    rw [hi]
    simp only [newItem, capped]
    cases w.dnssec <;> cases w.ad <;> simp

theorem respond_authenticated {n : Nat} {res : Msg} {t : Task} {reply : Option Reply} (ht : s.tasks[n]? = some t)
    (h : Effect lib c s (.respond n res) s' reply) (hl : s'.log = i :: s.log) :
    i.authenticatedData = (res.authenticatedData && (t.writer.dnssec || t.writer.ad)) := by
  cases h
  case respond t' p _ ht' hw =>
    obtain rfl := Option.some.inj (ht.symm.trans ht')
    exact writeMsg_authenticated hw hl
  case discard => exact absurd hl fun h => by simpa using congrArg List.length h

theorem Effect.authenticated {reply : Reply} (h : Effect lib c s e s' (some reply)) : reply.msg.authenticatedData =
    (reply.item.authenticatedData && (lib.isDo reply.request || reply.request.authenticatedData)) := by
  have hm (r : Msg) (i : Item) (moment now : Time) : (State.reply lib c r i moment now).msg.authenticatedData =
      (i.authenticatedData && (lib.isDo r || r.authenticatedData)) := by
    simp only [State.reply, Item.toMsg]
    cases lib.isDo r <;> cases r.authenticatedData <;> simp
  cases h
  all_goals exact hm ..

-- A reply with the AD bit loses it for those who ask with that bit, unless the one who had it stored did so too.
-- The item may be served in any state.
theorem authenticated_iff {s₁ s₂ s₃ s₄ : State} {es : List Event} {now : Time} {n : Nat} {res : Msg} {t : Task}
    {reply : Reply} (h₁ : Steps (Next lib c) { now } es s₁) (ht : s₁.tasks[n]? = some t)
    (h₂ : s₁.step lib c (.respond n res) = some (s₂, none)) (hi : s₂.log = reply.item :: s₁.log)
    (h₃ : s₃.step lib c e = some (s₄, some reply)) (hv : variant lib reply.request = variant lib t.writer.request) :
    reply.msg.authenticatedData =
      (res.authenticatedData && (lib.isDo reply.request || reply.request.authenticatedData)) ↔
    ¬(res.authenticatedData ∧ ¬lib.isDo reply.request ∧ reply.request.authenticatedData ∧
      ¬(t.purpose = .miss ∧ t.writer.request.authenticatedData)) := by
  have hd : t.writer.dnssec = lib.isDo reply.request := by
    have hp := (proper_of_steps h₁).writer (List.mem_of_getElem? ht)
    exact hp.1.trans (congrArg Variant.dnssec hv).symm
  rw [(step_effect h₃).authenticated, respond_authenticated ht (step_effect h₂) hi, hd,
    flagged_of_steps h₁ t (List.mem_of_getElem? ht)]
  generalize res.authenticatedData = a, lib.isDo reply.request = d, reply.request.authenticatedData = b,
    t.writer.request.authenticatedData = f
  by_cases hm : t.purpose = .miss
  all_goals
    simp only [hm, decide_true, decide_false, true_and, false_and, Bool.true_and, Bool.false_and]
    revert a d b f
    decide

end State

namespace Variants

def wanting : Msg :=
  { first with authenticatedData := true }

def signed (r : Msg) : Msg :=
  { cname r with authenticatedData := true }

end Variants

namespace State

open Variants

structure Shared (lib : Library) (c : Config) (r res r' : Msg) (s₁ s₂ s₃ : State) (t : Task) (reply : Reply) : Prop where
  request : Steps (Next lib c) { now := 0 } [.request r] s₁
  task : s₁.tasks[0]? = some t
  respond : s₁.step lib c (.respond 0 res) = some (s₂, none)
  stored : s₂.log = reply.item :: s₁.log
  served : s₂.step lib c (.request r') = some (s₃, some reply)
  variant : variant lib reply.request = variant lib t.writer.request

def share (lib : Library) (c : Config) (r res r' : Msg) : Option (Task × Reply) :=
  let s₁ := (({ now := 0 } : State).serveDNS lib c r).1
  s₁.tasks[0]?.bind fun t => (s₁.respond lib c 0 res).bind fun s₂ => (s₂.serveDNS lib c r').2.bind fun reply =>
    if s₂.log = reply.item :: s₁.log ∧ variant lib reply.request = variant lib t.writer.request then
      some (t, reply)
    else
      none

theorem shared_of_share {r res r' : Msg} {t : Task} {reply : Reply} (h : share lib c r res r' = some (t, reply)) :
    ∃ s₁ s₂ s₃, Shared lib c r res r' s₁ s₂ s₃ t reply := by
  simp only [share, bind_eq_some_iff] at h
  obtain ⟨t', ht, s₂, hs, reply', hr, h⟩ := h
  split at h
  case isFalse => cases h
  case isTrue hl =>
    cases h
    refine ⟨(({ now := 0 } : State).serveDNS lib c r).1, s₂, (s₂.serveDNS lib c r').1,
      .single ⟨_, rfl⟩, ht, ?_, hl.1, ?_, hl.2⟩
    · rw [step, hs, map_some]
    · rw [step, ←hr]

theorem authenticated_wanting : ∃ s₁ s₂ s₃ t reply,
    Shared .reference untimed wanting (signed wanting) wanting s₁ s₂ s₃ t reply ∧ reply.msg.authenticatedData := by
  have ⟨⟨t, reply⟩, hs, hr, hp, hw⟩ : ∃ p ∈ share .reference untimed wanting (signed wanting) wanting,
      p.2.request = wanting ∧ p.1.purpose = .miss ∧ p.1.writer.request = wanting := by
    decide +kernel
  obtain ⟨s₁, s₂, s₃, h⟩ := shared_of_share hs
  have ha := (authenticated_iff h.request h.task h.respond h.stored h.served h.variant).mpr fun hn =>
    hn.2.2.2 ⟨hp, hw ▸ rfl⟩
  refine ⟨s₁, s₂, s₃, t, reply, h, ?_⟩
  rw [ha, show reply.request = wanting from hr]
  decide

-- The one who asks first does not want to know.
theorem not_authenticated_first : ∃ s₁ s₂ s₃ t reply,
    Shared .reference untimed first (signed first) wanting s₁ s₂ s₃ t reply ∧
    reply.request = wanting ∧ reply.msg.authenticatedData = false ∧ ((signed first).authenticatedData &&
      (Library.reference.isDo reply.request || reply.request.authenticatedData)) = true := by
  have ⟨⟨t, reply⟩, hs, hr, ha⟩ : ∃ p ∈ share .reference untimed first (signed first) wanting,
      p.2.request = wanting ∧ p.2.msg.authenticatedData = false := by
    decide +kernel
  obtain ⟨s₁, s₂, s₃, h⟩ := shared_of_share hs
  refine ⟨s₁, s₂, s₃, t, reply, h, hr, ha, ?_⟩
  rw [show reply.request = wanting from hr]
  decide

end State
end Cache
