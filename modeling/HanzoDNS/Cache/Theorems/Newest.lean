import HanzoDNS.Cache.Theorems.Lifetime

open Dns Strings List Option

namespace Cache

def Variant.key (v : Variant) : UInt64 :=
  hash v.name v.qtype v.dnssec v.cd

namespace State

section

variable (lib : Library) (c : Config)

def newest (s : State) (v : Variant) : Option Item :=
  s.log.find? fun i => variant lib i.request = v

def yields (now : Time) (i : Item) : Bool :=
  i.rcode = Msg.rcodeServerFailure || !servable c i now

-- A positive reply is only stored over a negative item that yields to it, unless it replaces it.
def replaces (s : State) : Event → Bool
  | .respond n res => s.tasks[n]?.all fun t => t.writer.prefetch || !positive (typify lib res s.now) ||
                        (s.ncache (keyOf lib t.writer.request)).all (yields c s.now)
  | _ => true

structure Shows (s : State) : Prop where
  positive : s.newest lib v = some i → positive i.type → s.cache false v.key = some i ∧
               ∀ j, s.cache true v.key = some j → yields c s.now j
  negative : s.newest lib v = some i → ¬State.positive i.type → s.cache true v.key = some i

-- The items that were stored are answers to some of the requests, and requests for their names match them.
structure Logged (rs : List Msg) (s : State) : Prop where
  request : i ∈ s.log → i.request ∈ rs
  answers : i ∈ s.log → i.Answers lib i.request
  name : i ∈ s.log → '\u0130' ∉ i.name

structure Tracked (rs : List Msg) (s : State) : Prop where
  timed : s.Timed c
  proper : s.Proper lib
  within : s.Within rs
  logged : s.Logged lib rs
  shows : s.Shows lib c

end

variable {lib : Library} {c : Config} {s s' : State} {r : Msg} {i : Item} {e : Event} {now moment : Time} {v : Variant}
  {rs : List Msg}

theorem newest_spec (h : s.newest lib v = some i) : i ∈ s.log ∧ variant lib i.request = v := by
  have hv := find?_some h
  exact ⟨mem_of_find?_eq_some h, of_decide_eq_true hv⟩

theorem servable_anti (hs : i.stored ≤ moment) (hm : moment ≤ now) (h : servable c i now) : servable c i moment := by
  have ha := Item.ttl_anti hs hm
  refine decide_eq_true ?_
  obtain h | ⟨hu, h⟩ := of_decide_eq_true h
  · exact .inl (h.trans_le ha)
  · exact .inr ⟨hu, (neg_le_neg ha).trans_lt h⟩

theorem yields_iff : yields c now i ↔ i.rcode = Msg.rcodeServerFailure ∨ ¬servable c i now := by
  simp [yields]

theorem yields_mono (hs : i.stored ≤ moment) (hm : moment ≤ now) (h : yields c moment i) : yields c now i :=
  yields_iff.mpr <| (yields_iff.mp h).imp_right fun hn => hn ∘ servable_anti hs hm

theorem replaces_respond {n : Nat} {res : Msg} {t : Task} (h : s.replaces lib c (.respond n res))
    (ht : s.tasks[n]? = some t) (hw : ¬t.writer.prefetch) (hp : positive (typify lib res s.now))
    (hi : s.ncache (keyOf lib t.writer.request) = some i) : yields c s.now i := by
  simpa [replaces, ht, hw, hp, hi] using h

theorem Logged.effect {reply : Option Reply} (hl : s.Logged lib rs) (hw : s.Within rs) (h : Effect lib c s e s' reply)
    (he : ∀ negative k, e ≠ .evict negative k)
    (hq : ∀ n res, e = .respond n res → ∀ q ∈ res.question, '\u0130' ∉ q.name) : s'.Logged lib rs := by
  obtain ⟨-, hs⟩ | ⟨negative, k, h⟩ | ⟨n, res, t, i, k, rfl, ht, hs⟩ := h.stored_cases
  case inl =>
    constructor <;> rw [hs]
    case request => exact hl.request
    case answers => exact hl.answers
    case name => exact hl.name
  case inr.inl => exact absurd h (he negative k)
  case inr.inr =>
    obtain ⟨q, hn, hi⟩ := hs.stores.question
    constructor <;> rw [hs.log_eq] <;> intro j hj <;> obtain rfl | hj := mem_cons.mp hj
    case request.inl => exact hs.stores.request_eq ▸ hw.task (mem_of_getElem? ht)
    case request.inr => exact hl.request hj
    case answers.inl => exact hs.stores.request_eq ▸ ⟨hs.stores.name_eq, hs.stores.qtype_eq⟩
    case answers.inr => exact hl.answers hj
    case name.inl => exact hi ▸ hq n res rfl q (by simp [hn])
    case name.inr => exact hl.name hj

theorem newest_stored {w : Writer} {res : Msg} {k : UInt64} (hs : Stored lib s s' w res i k) :
    s'.newest lib v = if variant lib i.request = v then some i else s.newest lib v := by
  simp only [newest, hs.log_eq, find?_cons]
  split <;> simp_all

theorem Shows.effect {reply : Option Reply} (hv : s.Shows lib c) (ht : s.Timed c) (hp : s.Proper lib) (hw : s.Within rs)
    (hl : s.Logged lib rs) (hk : ∀ r ∈ rs, ∀ r' ∈ rs, keyOf lib r = keyOf lib r' → variant lib r = variant lib r')
    (h : Effect lib c s e s' reply) (hr : s.replaces lib c e) (he : ∀ negative k, e ≠ .evict negative k) :
    s'.Shows lib c := by
  obtain ⟨hc, hs⟩ | ⟨negative, k, h⟩ | ⟨n, res, t, i, k, rfl, hn, hs⟩ := h.stored_cases
  case inl =>
    have hn : s'.newest lib = s.newest lib := by
      funext v
      rw [newest, newest, hs]
    constructor <;> rw [hn, hc]
    case positive =>
      intro v i hi hp
      obtain ⟨hf, hy⟩ := hv.positive hi hp
      exact ⟨hf, fun j hj => yields_mono (ht.stored hj) h.now_le (hy j hj)⟩
    case negative => exact hv.negative
  case inr.inl => exact absurd h (he negative k)
  case inr.inr =>
    have htm := mem_of_getElem? hn
    have hrs : i.request ∈ rs := hs.stores.request_eq ▸ hw.task htm
    have hki : k = (variant lib i.request).key := by
      rw [hs.key_eq, hs.stores.request_eq, (hp.writer htm).1, (hp.writer htm).2]
      rfl
    have other {v : Variant} {j : Item} (hvi : variant lib i.request ≠ v) (hj : s.newest lib v = some j)
        (negative : Bool) : s'.cache negative v.key = s.cache negative v.key := by
      obtain ⟨hjl, rfl⟩ := newest_spec hj
      refine hs.others negative _ fun hkj => hvi (hk _ hrs _ (hl.request hjl) ?_)
      exact hki.symm.trans hkj.symm
    constructor
    case positive =>
      intro v j hj hpj
      rw [newest_stored hs] at hj
      split at hj
      case isTrue hvi =>
        obtain rfl := Option.some.inj hj
        obtain ⟨hf, hc⟩ := hs.positive hpj
        rw [←hvi, ←hki]
        refine ⟨hf, fun j hj => ?_⟩
        rw [hc] at hj
        split at hj
        case isTrue => cases hj
        case isFalse hpf =>
          rw [hs.now_eq]
          refine replaces_respond hr hn hpf (hs.stores.type_eq ▸ hpj) ?_
          rw [←hj, hki, hs.stores.request_eq]
          rfl
      case isFalse hvi =>
        rw [other hvi hj, other hvi hj, hs.now_eq]
        exact hv.positive hj hpj
    case negative =>
      intro v j hj hpj
      rw [newest_stored hs] at hj
      split at hj
      case isTrue hvi =>
        obtain rfl := Option.some.inj hj
        rw [←hvi, ←hki]
        exact hs.negative hpj
      case isFalse hvi =>
        rw [other hvi hj]
        exact hv.negative hj hpj

theorem Shows.found (hv : s.Shows lib c) (hn : s.newest lib (variant lib r) = some i)
    (hf : i.rcode ≠ Msg.rcodeServerFailure) (hm : i.matches lib r) (hs : servable c i s.now) :
    s.getIfNotStale lib c r = some i := by
  by_cases hp : State.positive i.type
  case pos =>
    obtain ⟨hc, hy⟩ := hv.positive hn hp
    have hc : s.pcache (keyOf lib r) = some i := hc
    have hy (j : Item) (hj : s.ncache (keyOf lib r) = some j) : yields c s.now j := hy j hj
    simp only [getIfNotStale, hc, filter_some, hm, hs, Bool.and_self, if_true]
    split
    case h_1 j hj =>
      obtain ⟨hj, hu⟩ := filter_eq_some_iff.mp hj
      obtain hy | hy := yields_iff.mp (hy j hj)
      · simp [hy]
      · exact absurd (Bool.and_eq_true_iff.mp hu).2 hy
    case h_2 => rfl
  case neg =>
    have hc := hv.negative hn hp
    change s.ncache (keyOf lib r) = some i at hc
    simp only [getIfNotStale, hc, filter_some, hm, hs, Bool.and_self, if_true]
    exact if_neg hf

theorem tracked_of_steps {es : List Event} (h : Steps (fun s e s' => Next lib c s e s' ∧ s.replaces lib c e) { now } es s)
    (he : ∀ negative k, .evict negative k ∉ es)
    (hk : ∀ r ∈ requests es, ∀ r' ∈ requests es, keyOf lib r = keyOf lib r' → variant lib r = variant lib r')
    (hq : ∀ n res, .respond n res ∈ es → ∀ q ∈ res.question, '\u0130' ∉ q.name) : s.Tracked lib c (requests es) := by
  have start : ({ now } : State).Tracked lib c (requests es) := by
    refine ⟨timed_start now, proper_start now, within_start now _, ?_, ?_⟩ <;> constructor
    all_goals
      intro _
      simp [newest]
  refine h.related (R := fun s s' => s.Tracked lib c (requests es) → s'.Tracked lib c (requests es)) (fun _ => id)
    (fun h₁ h₂ => h₂ ∘ h₁) ?_ start
  rintro s₁ e s₂ hm ⟨⟨reply, h⟩, hr⟩ ⟨ht, hp, hw, hl, hv⟩
  have h := step_effect h
  have he : ∀ negative k, e ≠ .evict negative k := fun negative k he' => he negative k (he' ▸ hm)
  exact ⟨ht.effect h, hp.effect h, hw.effect h fun r hr' => mem_requests (hr' ▸ hm),
    hl.effect hw h he fun n res hr' => hq n res (hr' ▸ hm), hv.effect ht hp hw hl hk h hr he⟩

-- The last reply that was stored is found, if nothing else is stored under its key.
theorem newest_found {es : List Event} (h : Steps (fun s e s' => Next lib c s e s' ∧ s.replaces lib c e) { now } es s)
    (he : ∀ negative k, .evict negative k ∉ es)
    (hk : ∀ r ∈ requests es, ∀ r' ∈ requests es, keyOf lib r = keyOf lib r' → variant lib r = variant lib r')
    (hq : ∀ n res, .respond n res ∈ es → ∀ q ∈ res.question, '\u0130' ∉ q.name)
    (hn : s.newest lib (variant lib r) = some i) (hf : i.rcode ≠ Msg.rcodeServerFailure) (ht : 0 < i.ttl s.now) :
    s.getIfNotStale lib c r = some i := by
  obtain ⟨-, -, -, hl, hv⟩ := tracked_of_steps h he hk hq
  obtain ⟨hi, hvi⟩ := newest_spec hn
  obtain ⟨hrn, hrt, -⟩ := Variant.mk.inj hvi
  obtain ⟨han, hat⟩ := hl.answers hi
  refine hv.found hn hf (decide_eq_true ⟨?_, ?_⟩) (decide_eq_true (.inl ht))
  · exact (hat.trans hrt).symm
  · exact equalFold_of_toLower_eq (hl.name hi) (han.trans hrn)

end State

namespace Variants

def untimed : Config :=
  { config with verifyStaleTimeout := 0 }

def denied : Msg :=
  nameError first [{ soa with ttl := 10 }]

def twice (res res' : Msg) : List Event :=
  answered first res ++ .advance (20 * second).toNat :: answered first res'

end Variants

namespace State

open Variants

theorem newest_found_denied : ∃ s i, Steps (Next .reference untimed) { now := 0 } (twice (cname first) denied) s ∧
    s.newest .reference (variant .reference first) = some i ∧ s.getIfNotStale .reference untimed first = some i ∧
    i.rcode = Msg.rcodeNameError := by
  have ⟨s, hs, i, hn, hc, ht⟩ : ∃ s ∈ ({ now := 0 } : State).runWhile .reference untimed
      (replaces .reference untimed) (twice (cname first) denied), ∃ i ∈ s.newest .reference (variant .reference first),
        i.rcode = Msg.rcodeNameError ∧ 0 < i.ttl s.now := by
    decide +kernel
  have hr := steps_of_runWhile hs
  refine ⟨s, i, hr.mono And.left, hn, newest_found hr ?_ (by decide +kernel) ?_ hn (hc ▸ by decide) ht, hc⟩
  · intro negative k
    simp [twice, answered]
  · simp only [twice, answered, cons_append, nil_append, mem_cons, Event.respond.injEq, reduceCtorEq, not_mem_nil,
      false_or, or_false]
    rintro n res (⟨-, rfl⟩ | ⟨-, rfl⟩)
    all_goals decide +kernel

-- A negative item that is stale hides the positive one that it was refreshed with.
theorem newest_hidden : ∃ s i j, Steps (Next .reference untimed) { now := 0 } (twice denied (cname first)) s ∧
    s.newest .reference (variant .reference first) = some i ∧ i.rcode = Msg.rcodeSuccess ∧ 0 < i.ttl s.now ∧
    s.getIfNotStale .reference untimed first = some j ∧ j ≠ i := by
  have ⟨s, hs, i, hn, hc, ht, j, hj, hij⟩ : ∃ s ∈ ({ now := 0 } : State).run .reference untimed
      (twice denied (cname first)), ∃ i ∈ s.newest .reference (variant .reference first), i.rcode = Msg.rcodeSuccess ∧
        0 < i.ttl s.now ∧ ∃ j ∈ s.getIfNotStale .reference untimed first, j ≠ i := by
    decide +kernel
  exact ⟨s, i, j, steps_of_run hs, hn, hc, ht, hj, hij⟩

end State
end Cache
