import HanzoDNS.Lib.Transition
import HanzoDNS.Cache.Serve

open Dns Strings List Option

namespace Cache

-- The writers for the three kinds of requests to the plugins behind the cache.
section Writers

variable (lib : Library) (c : Config) (r : Msg)

def missWriter : Writer where
  request := r
  dnssec := lib.isDo r
  cd := r.checkingDisabled
  ad := r.authenticatedData
  pexcept := c.pexcept
  nexcept := c.nexcept

def verifyWriter : Writer where
  request := r
  dnssec := lib.isDo r
  cd := r.checkingDisabled
  prefetch := 0 < c.verifyStaleTimeout

def prefetchWriter : Writer where
  request := r
  dnssec := lib.isDo r
  cd := r.checkingDisabled
  prefetch := true

end Writers

inductive Purpose.Continues : Purpose → Purpose → Prop
  | refl : Continues p p
  | verify : Continues (.verify timed i moment refreshed) (.verify timed i moment refreshed')
  | detach : Continues (.verify timed i moment refreshed) .detached

namespace State

-- The frame of a step that only adds tasks. The counts of hits are left open.
structure Adds (s s' : State) (ts : List Task) : Prop where
  now_eq : s'.now = s.now
  pcache_eq : s'.pcache = s.pcache
  ncache_eq : s'.ncache = s.ncache
  log_eq : s'.log = s.log
  tasks_eq : s'.tasks = s.tasks ++ ts

section

variable (lib : Library) (c : Config)

def Prefetches (r : Msg) (i : Item) (ts : List Task) : Prop :=
  ∀ t ∈ ts, t.writer = prefetchWriter lib r ∧ ∃ now, t.purpose = .prefetch i now

def staleReply (r : Msg) (i : Item) (moment : Time) : Reply :=
  reply lib c r i moment (moment + i.ttl moment * second)

inductive Effect (s : State) : Event → State → Option Reply → Prop
  | pass : Effect s (.request r) s none
  | miss (found : s.getIfNotStale lib c r = none) :
      Effect s (.request r) (s.push (missWriter lib c r) .miss) none
  | verify (found : s.getIfNotStale lib c r = some i) (stale : i.ttl s.now < 0) (verify : c.verifyStale) :
      Effect s (.request r) (s.push (verifyWriter lib c r) (.verify (c.verifyStaleTimeout ≠ 0) i s.now false)) none
  | stale (found : s.getIfNotStale lib c r = some i) (stale : i.ttl s.now < 0) (adds : s.Adds s' ts)
      (prefetches : Prefetches lib r i ts) : Effect s (.request r) s' (some (staleReply lib c r i s.now))
  | hit (found : s.getIfNotStale lib c r = some i) (fresh : 0 ≤ i.ttl s.now) (adds : s.Adds s' ts)
      (prefetches : Prefetches lib r i ts) : Effect s (.request r) s' (some (reply lib c r i s.now s.now))
  | respond (task : s.tasks[n]? = some t) (continues : t.purpose.Continues p)
      (write : { s with tasks := s.tasks.set n ⟨t.writer, p⟩ }.writeMsg lib c t.writer res = some s') :
      Effect s (.respond n res) s' none
  | discard (task : s.tasks[n]? = some t) (continues : t.purpose.Continues p) :
      Effect s (.respond n res) { s with tasks := s.tasks.set n ⟨t.writer, p⟩ } none
  | finish (task : s.tasks[n]? = some t) (adds : { s with tasks := s.tasks.eraseIdx n }.Adds s' []) :
      Effect s (.finish n) s' none
  | fallback (task : s.tasks[n]? = some t) (purpose : t.purpose = .verify timed i moment false)
      (adds : { s with tasks := s.tasks.eraseIdx n }.Adds s' ts) (prefetches : Prefetches lib t.writer.request i ts) :
      Effect s (.finish n) s' (some (staleReply lib c t.writer.request i moment))
  | fresh (task : s.tasks[n]? = some t) (purpose : t.purpose = .verify true i moment true)
      (found : s.exists lib t.writer.request = some j) :
      Effect s (.finish n) { s with tasks := s.tasks.eraseIdx n }
        (some (reply lib c t.writer.request j s.now s.now))
  | timeout (task : s.tasks[n]? = some t) (purpose : t.purpose = .verify true i moment refreshed)
      (adds : { s with tasks := s.tasks.set n ⟨t.writer, .detached⟩ }.Adds s' ts)
      (prefetches : Prefetches lib t.writer.request i ts) :
      Effect s (.timeout n) s' (some (staleReply lib c t.writer.request i moment))
  | evict : Effect s (.evict negative k) (s.remove negative k) none
  | advance : Effect s (.advance d) { s with now := s.now + d } none

end

variable {lib : Library} {c : Config} {s s' : State} {r : Msg} {i : Item} {reply : Option Reply}

theorem Adds.refl (s : State) : s.Adds s [] := by
  constructor <;> simp

theorem tryPrefetch_adds (lib : Library) (s : State) (i : Item) (r : Msg) (now : Time) :
    ∃ ts, s.Adds (s.tryPrefetch lib i r now) ts ∧ Prefetches lib r i ts := by
  rw [tryPrefetch]
  split
  case isTrue => exact ⟨[], .refl s, by simp [Prefetches]⟩
  case isFalse => exact ⟨[⟨prefetchWriter lib r, .prefetch i now⟩], ⟨rfl, rfl, rfl, rfl, rfl⟩, by simp [Prefetches]⟩

theorem serveStale_adds (lib : Library) (c : Config) (s : State) (r : Msg) (i : Item) (moment : Time) :
    ∃ ts, s.Adds (s.serveStale lib c r i moment).1 ts ∧ Prefetches lib r i ts := by
  simp only [serveStale]
  split
  case isTrue => exact ⟨[], .refl s, by simp [Prefetches]⟩
  case isFalse => exact tryPrefetch_adds ..

theorem Adds.trans {s₁ s₂ s₃ : State} (a₁ : s₁.Adds s₂ ts₁) (a₂ : s₂.Adds s₃ ts₂) : s₁.Adds s₃ (ts₁ ++ ts₂) where
  now_eq := a₂.now_eq.trans a₁.now_eq
  pcache_eq := a₂.pcache_eq.trans a₁.pcache_eq
  ncache_eq := a₂.ncache_eq.trans a₁.ncache_eq
  log_eq := a₂.log_eq.trans a₁.log_eq
  tasks_eq := by rw [a₂.tasks_eq, a₁.tasks_eq, append_assoc]

theorem shouldPrefetch_adds (c : Config) (s : State) (i : Item) (now : Time) : s.Adds (s.shouldPrefetch c i now).1 [] := by
  rw [shouldPrefetch]
  split
  case isTrue => exact .refl s
  case isFalse => constructor <;> simp

theorem serveDNS_effect (lib : Library) (c : Config) (s : State) (r : Msg) :
    Effect lib c s (.request r) (s.serveDNS lib c r).1 (s.serveDNS lib c r).2 := by
  rw [serveDNS]
  split
  case isTrue => exact .pass
  case isFalse =>
    split
    case h_1 hf => exact .miss hf
    case h_2 i hf =>
      split
      case isTrue ht =>
        split
        case isTrue hv => exact .verify hf ht hv
        case isFalse =>
          obtain ⟨ts, ha, hp⟩ := serveStale_adds lib c s r i s.now
          exact .stale hf ht ha hp
      case isFalse ht =>
        have ha := shouldPrefetch_adds c s i s.now
        dsimp only
        split
        case isTrue =>
          obtain ⟨ts, ha', hp⟩ := tryPrefetch_adds lib (s.shouldPrefetch c i s.now).1 i r s.now
          exact .hit hf (not_lt.mp ht) (ha.trans ha') hp
        case isFalse => exact .hit hf (not_lt.mp ht) ha (by simp [Prefetches])

theorem respond_effect {n : Nat} {res : Msg} (h : s.respond lib c n res = some s') :
    Effect lib c s (.respond n res) s' none := by
  simp only [respond, bind_eq_bind, bind_eq_some_iff] at h
  obtain ⟨t, ht, h⟩ := h
  have same : { s with tasks := s.tasks.set n ⟨t.writer, t.purpose⟩ } = s := by
    obtain ⟨hn, rfl⟩ := List.getElem?_eq_some_iff.mp ht
    rw [set_getElem_self]
  split at h
  case h_1 timed i moment _ hp =>
    have hc : t.purpose.Continues (.verify timed i moment
        (res.rcode = Msg.rcodeSuccess ∨ res.rcode = Msg.rcodeNameError)) := hp ▸ .verify
    split at h
    case isTrue => exact .respond ht hc h
    case isFalse =>
      cases h
      exact .discard ht hc
  case h_2 hp =>
    split at h
    case isTrue => exact .respond ht .refl (same.symm ▸ h)
    case isFalse =>
      cases h
      have hd : Effect lib c s (.respond n res) { s with tasks := s.tasks.set n ⟨t.writer, t.purpose⟩ } none :=
        .discard ht .refl
      rwa [same] at hd
  case h_3 => exact .respond ht .refl (same.symm ▸ h)

theorem finish_effect {n : Nat} (h : s.finish lib c n = some (s', reply)) : Effect lib c s (.finish n) s' reply := by
  simp only [finish, bind_eq_bind, bind_eq_some_iff] at h
  obtain ⟨t, ht, h⟩ := h
  split at h
  case h_1 | h_2 =>
    cases h
    exact .finish ht (.refl _)
  case h_3 timed i moment refreshed hp =>
    split at h
    case isTrue hr =>
      cases h
      obtain rfl : refreshed = false := by simpa using hr
      obtain ⟨ts, ha, hf⟩ := serveStale_adds lib c { s with tasks := s.tasks.eraseIdx n }
        t.writer.request i moment
      exact .fallback ht hp ha hf
    case isFalse hr =>
      split at h
      case isTrue htm =>
        cases h
        obtain rfl : refreshed = true := by simpa using hr
        obtain rfl : timed = true := htm
        cases hf : s.exists lib t.writer.request
        case none =>
          have hf : { s with tasks := s.tasks.eraseIdx n }.exists lib t.writer.request = none := hf
          rw [hf]
          exact .finish ht (.refl _)
        case some j =>
          have hf' : { s with tasks := s.tasks.eraseIdx n }.exists lib t.writer.request = some j := hf
          rw [hf']
          exact .fresh ht hp hf
      case isFalse =>
        cases h
        exact .finish ht (.refl _)
  case h_4 i now hp =>
    split at h <;> cases h <;> exact .finish ht ⟨rfl, rfl, rfl, rfl, by simp⟩

theorem timeout_effect {n : Nat} (h : s.timeout lib c n = some (s', reply)) : Effect lib c s (.timeout n) s' reply := by
  simp only [timeout, bind_eq_bind, bind_eq_some_iff] at h
  obtain ⟨t, ht, h⟩ := h
  split at h
  case h_1 i moment refreshed hp =>
    cases h
    obtain ⟨ts, ha, hf⟩ := serveStale_adds lib c
      { s with tasks := s.tasks.set n { t with purpose := .detached } } t.writer.request i moment
    exact .timeout ht hp ha hf
  case h_2 => cases h

theorem step_effect {e : Event} (h : s.step lib c e = some (s', reply)) : Effect lib c s e s' reply := by
  cases e
  case request r =>
    have he := serveDNS_effect lib c s r
    rwa [Option.some.inj h] at he
  case respond n res =>
    obtain ⟨s₁, hs, h⟩ := map_eq_some_iff.mp h
    cases h
    exact respond_effect hs
  case finish n => exact finish_effect h
  case timeout n => exact timeout_effect h
  case evict =>
    cases h
    exact .evict
  case advance =>
    cases h
    exact .advance

structure Stores (lib : Library) (s : State) (w : Writer) (res : Msg) (i : Item) : Prop where
  question : ∃ q, res.question = [q] ∧ i.name = q.name
  request_eq : i.request = w.request
  name_eq : toLower i.name = w.request.name lib
  qtype_eq : i.qtype = w.request.qtype
  rcode_eq : i.rcode = res.rcode
  stored_eq : i.stored = s.now
  type_eq : i.type = typify lib res s.now

def positive (mt : ResponseType) : Bool :=
  mt = .noError ∨ mt = .delegation

theorem set_cases (lib : Library) (s : State) (w : Writer) (m : Msg) (k : UInt64) (mt : ResponseType) (d : Duration) :
    let i := newItem s.log.length w.request m mt s.now d
    s.set lib w m k mt d = s ∨
      positive mt ∧ s.set lib w m k mt d = (if w.prefetch then (s.add false k i).remove true k else s.add false k i) ∨
      ¬positive mt ∧ s.set lib w m k mt d = s.add true k i := by
  cases mt
  case noError | delegation => by_cases h : excepted lib w.pexcept m <;> simp [set, h, positive]
  case nameError | noData | serverError => by_cases h : excepted lib w.nexcept m <;> simp [set, h, positive]
  all_goals exact .inl rfl

theorem matchReply_spec {reply : Msg} (h : r.matchReply lib reply) :
    ∃ q, reply.question = [q] ∧ toLower q.name = r.name lib ∧ q.qtype = r.qtype := by
  rw [Msg.matchReply] at h
  split at h
  case h_1 q hq => exact ⟨q, hq, (of_decide_eq_true h).2⟩
  case h_2 => cases h

theorem key_spec {name : Str} {m : Msg} {mt : ResponseType} {dnssec cd : Bool} {k : UInt64} {q : Question}
    (hq : m.question = [q]) (h : key name m mt dnssec cd = some (some k)) : hash name q.qtype dnssec cd = k := by
  rw [key] at h
  split at h
  case isTrue => cases h
  case isFalse =>
    split at h
    case isTrue => cases h
    case isFalse => simpa [hq] using h

theorem writeMsg_set {w : Writer} {res : Msg} (h : s.writeMsg lib c w res = some s') :
    s' = s ∨ ∃ q d, res.question = [q] ∧ toLower q.name = w.request.name lib ∧ q.qtype = w.request.qtype ∧
      s' = s.set lib w (capped w res d) (hash (w.request.name lib) w.request.qtype w.dnssec w.cd)
        (typify lib res s.now) d := by
  simp only [writeMsg, bind_eq_bind, bind_eq_some_iff] at h
  obtain ⟨key, hk, h⟩ := h
  cases key
  case none =>
    cases h
    exact .inl rfl
  case some k =>
    dsimp only at h
    split at h
    case isFalse =>
      cases h
      exact .inl rfl
    case isTrue hm =>
      cases h
      obtain ⟨q, hq, hn, ht⟩ := matchReply_spec hm.2
      have hq : res.question = [q] := hq
      obtain rfl := key_spec hq hk
      exact .inr ⟨q, _, hq, hn, ht, by rw [ht]⟩

theorem writeMsg_cases {w : Writer} {res : Msg} (h : s.writeMsg lib c w res = some s') :
    s' = s ∨ ∃ i, Stores lib s w res i ∧ let k := hash (w.request.name lib) w.request.qtype w.dnssec w.cd
      (positive i.type ∧ s' = (if w.prefetch then (s.add false k i).remove true k else s.add false k i) ∨
        ¬positive i.type ∧ s' = s.add true k i) := by
  obtain rfl | ⟨q, d, hq, hn, ht, rfl⟩ := writeMsg_set h
  case inl => exact .inl rfl
  case inr =>
    obtain hs | hs := set_cases lib s w (capped w res d)
      (hash (w.request.name lib) w.request.qtype w.dnssec w.cd) (typify lib res s.now) d
    case inl => exact .inl hs
    case inr =>
      refine .inr ⟨newItem s.log.length w.request (capped w res d) (typify lib res s.now) s.now d,
        ⟨⟨q, hq, ?_⟩, rfl, ?_, ?_, rfl, rfl, rfl⟩, hs⟩
      · simp [newItem, capped, hq]
      · simpa [newItem, capped, hq] using hn
      · simpa [newItem, capped, hq, Msg.qtype] using ht

section Frame

variable {e : Event} {negative negative' : Bool} {k k' : UInt64} {t : Task}

def cache (s : State) (negative : Bool) : UInt64 → Option Item :=
  if negative then s.ncache else s.pcache

theorem cache_start (now : Time) : ({ now } : State).cache negative k = none := by
  cases negative <;> rfl

theorem cache_add : (s.add negative k i).cache negative' k' =
    if negative' = negative ∧ k' = k then some i else s.cache negative' k' := by
  cases negative <;> cases negative' <;> simp [cache, add, Function.update_apply]

theorem cache_remove : (s.remove negative k).cache negative' k' =
    if negative' = negative ∧ k' = k then none else s.cache negative' k' := by
  cases negative <;> cases negative' <;> simp [cache, remove, Function.update_apply]

theorem remove_frame (s : State) (negative : Bool) (k : UInt64) : (s.remove negative k).now = s.now ∧
    (s.remove negative k).tasks = s.tasks ∧ (s.remove negative k).log = s.log := by
  cases negative <;> exact ⟨rfl, rfl, rfl⟩

theorem add_frame (s : State) (negative : Bool) (k : UInt64) (i : Item) : (s.add negative k i).now = s.now ∧
    (s.add negative k i).tasks = s.tasks ∧ (s.add negative k i).log = i :: s.log := by
  cases negative <;> exact ⟨rfl, rfl, rfl⟩

theorem writeMsg_frame {w : Writer} {res : Msg} (h : s.writeMsg lib c w res = some s') :
    s'.now = s.now ∧ s'.tasks = s.tasks := by
  obtain rfl | ⟨i, -, ⟨-, rfl⟩ | ⟨-, rfl⟩⟩ := writeMsg_cases h
  · exact ⟨rfl, rfl⟩
  · split
    · simp [remove_frame, add_frame]
    · simp [add_frame]
  · simp [add_frame]

theorem writeMsg_cache {w : Writer} {res : Msg} (h : s.writeMsg lib c w res = some s')
    (hc : s'.cache negative k = some i) : s.cache negative k = some i ∨
      Stores lib s w res i ∧ k = hash (w.request.name lib) w.request.qtype w.dnssec w.cd := by
  obtain rfl | ⟨j, hs, ⟨-, rfl⟩ | ⟨-, rfl⟩⟩ := writeMsg_cases h
  case inl => exact .inl hc
  all_goals
    repeat' split at hc
    all_goals
      simp only [cache_add, cache_remove] at hc
      grind

structure Stored (lib : Library) (s s' : State) (w : Writer) (res : Msg) (i : Item) (k : UInt64) : Prop where
  stores : Stores lib s w res i
  key_eq : k = hash (w.request.name lib) w.request.qtype w.dnssec w.cd
  now_eq : s'.now = s.now
  log_eq : s'.log = i :: s.log
  positive : positive i.type → s'.cache false k = some i ∧
               s'.cache true k = if w.prefetch then none else s.cache true k
  negative : ¬State.positive i.type → s'.cache true k = some i
  others : ∀ negative, ∀ k' ≠ k, s'.cache negative k' = s.cache negative k'

theorem writeMsg_stored {w : Writer} {res : Msg} (h : s.writeMsg lib c w res = some s') :
    s' = s ∨ ∃ i k, Stored lib s s' w res i k := by
  obtain rfl | ⟨i, hs, ⟨hp, rfl⟩ | ⟨hp, rfl⟩⟩ := writeMsg_cases h
  case inl => exact .inl rfl
  case inr.inl =>
    refine .inr ⟨i, _, hs, rfl, ?_, ?_, fun _ => ?_, fun hn => absurd hp hn, fun negative k' hk => ?_⟩
    all_goals split <;> simp_all [remove_frame, add_frame, cache_add, cache_remove]
  case inr.inr =>
    refine .inr ⟨i, _, hs, rfl, (add_frame ..).1, (add_frame ..).2.2, fun hn => absurd hn hp, fun _ => ?_,
      fun negative k' hk => ?_⟩
    all_goals simp_all [cache_add]

theorem getIfNotStale_spec (h : s.getIfNotStale lib c r = some i) :
    (∃ negative, s.cache negative (keyOf lib r) = some i) ∧ i.matches lib r ∧ servable c i s.now := by
  have hu (negative : Bool) (h : (s.cache negative (keyOf lib r)).filter
      (fun i => i.matches lib r && servable c i s.now) = some i) :
      (∃ negative, s.cache negative (keyOf lib r) = some i) ∧ i.matches lib r ∧ servable c i s.now := by
    obtain ⟨hs, hu⟩ := filter_eq_some_iff.mp h
    exact ⟨⟨negative, hs⟩, Bool.and_eq_true_iff.mp hu⟩
  simp only [getIfNotStale] at h
  split at h
  case h_1 j hj =>
    have hn := hu true
    split at h
    case isTrue =>
      cases hp : (s.pcache (keyOf lib r)).filter fun i => i.matches lib r && servable c i s.now
      case none =>
        rw [hp] at h
        exact hn (hj.trans h)
      case some => exact hu false (hp.trans (by simpa [hp] using h))
    case isFalse => exact hn (hj.trans h)
  case h_2 => exact hu false h

theorem exists_spec (h : s.exists lib r = some i) : ∃ negative, s.cache negative (keyOf lib r) = some i := by
  obtain h | ⟨-, h⟩ := or_eq_some_iff.mp h
  · exact ⟨true, h⟩
  · exact ⟨false, h⟩

inductive Created (lib : Library) (c : Config) (s : State) (r : Msg) : Task → Prop
  | miss (found : s.getIfNotStale lib c r = none) : Created lib c s r ⟨missWriter lib c r, .miss⟩
  | verify (found : s.getIfNotStale lib c r = some j) (stale : j.ttl s.now < 0) :
      Created lib c s r ⟨verifyWriter lib c r, .verify (c.verifyStaleTimeout ≠ 0) j s.now false⟩
  | prefetch : Created lib c s r ⟨prefetchWriter lib r, .prefetch j moment⟩

theorem Prefetches.created {ts : List Task} (h : Prefetches lib r i ts) (ht : t ∈ ts) : Created lib c s r t := by
  obtain ⟨w, p⟩ := t
  obtain ⟨rfl, now, rfl⟩ := h _ ht
  exact .prefetch

theorem Adds.cache_eq {ts : List Task} (h : s.Adds s' ts) : s'.cache negative k = s.cache negative k := by
  rw [cache, cache, h.pcache_eq, h.ncache_eq]

namespace Effect

variable (h : Effect lib c s e s' reply)

include h

theorem now_le : s.now ≤ s'.now := by
  cases h
  case pass | miss | verify | discard | fresh => exact le_rfl
  case stale ha | hit ha | finish ha | fallback ha | timeout ha => exact ha.now_eq.ge
  case respond hw => exact (writeMsg_frame hw).1.ge
  case evict => exact (remove_frame ..).1.ge
  case advance => simp

theorem stored_cases : (s'.cache = s.cache ∧ s'.log = s.log) ∨ (∃ negative k, e = .evict negative k) ∨
    ∃ n res t i k, e = .respond n res ∧ s.tasks[n]? = some t ∧ Stored lib s s' t.writer res i k := by
  cases h
  case pass | miss | verify | discard | fresh | advance => exact .inl ⟨rfl, rfl⟩
  case stale ha | hit ha | finish ha | fallback ha | timeout ha =>
    exact .inl ⟨funext fun negative => funext fun k => ha.cache_eq, ha.log_eq⟩
  case respond n t res p ht _ hw =>
    obtain rfl | ⟨i, k, hs⟩ := writeMsg_stored hw
    case inl => exact .inl ⟨rfl, rfl⟩
    case inr => exact .inr (.inr ⟨n, res, t, i, k, rfl, ht, { hs with stores := { hs.stores with } }⟩)
  case evict => exact .inr (.inl ⟨_, _, rfl⟩)

theorem cache_cases (hc : s'.cache negative k = some i) : s.cache negative k = some i ∨
    ∃ n res t, e = .respond n res ∧ s.tasks[n]? = some t ∧ Stores lib s t.writer res i ∧
      k = hash (t.writer.request.name lib) t.writer.request.qtype t.writer.dnssec t.writer.cd := by
  cases h
  case pass | miss | verify | discard | fresh | advance => exact .inl hc
  case stale ha | hit ha | finish ha | fallback ha | timeout ha => exact .inl (ha.cache_eq ▸ hc)
  case respond n t res p ht _ hw =>
    obtain hc | ⟨hs, hk⟩ := writeMsg_cache hw hc
    case inl => exact .inl hc
    case inr => exact .inr ⟨n, res, t, rfl, ht, { hs with }, hk⟩
  case evict =>
    rw [cache_remove] at hc
    split at hc
    case isTrue => cases hc
    case isFalse => exact .inl hc

theorem task_cases (ht : t ∈ s'.tasks) :
    (∃ t₀ ∈ s.tasks, t₀.writer = t.writer ∧ t₀.purpose.Continues t.purpose) ∨
    ∃ r, (e = .request r ∨ ∃ t₀ ∈ s.tasks, t₀.writer.request = r) ∧ Created lib c s r t := by
  have kept (h : t ∈ s.tasks) : ∃ t₀ ∈ s.tasks, t₀.writer = t.writer ∧ t₀.purpose.Continues t.purpose :=
    ⟨t, h, rfl, .refl⟩
  have set {n : Nat} {t₀ : Task} {p : Purpose} (h : s.tasks[n]? = some t₀) (hp : t₀.purpose.Continues p)
      (ht : t ∈ s.tasks.set n ⟨t₀.writer, p⟩) :
      ∃ t₀ ∈ s.tasks, t₀.writer = t.writer ∧ t₀.purpose.Continues t.purpose := by
    obtain ht | rfl := mem_or_eq_of_mem_set ht
    · exact kept ht
    · exact ⟨t₀, mem_of_getElem? h, rfl, hp⟩
  cases h
  case pass => exact .inl (kept ht)
  case miss hf =>
    obtain ht | ht := mem_append.mp ht
    · exact .inl (kept ht)
    · exact .inr ⟨_, .inl rfl, mem_singleton.mp ht ▸ .miss hf⟩
  case verify hf hs _ =>
    obtain ht | ht := mem_append.mp ht
    · exact .inl (kept ht)
    · exact .inr ⟨_, .inl rfl, mem_singleton.mp ht ▸ .verify hf hs⟩
  case stale hp ha | hit hp ha =>
    obtain ht | ht := mem_append.mp (ha.tasks_eq ▸ ht)
    · exact .inl (kept ht)
    · exact .inr ⟨_, .inl rfl, hp.created ht⟩
  case respond h hc hw =>
    rw [(writeMsg_frame hw).2] at ht
    exact .inl (set h hc ht)
  case discard h hc => exact .inl (set h hc ht)
  case finish ha =>
    rw [ha.tasks_eq, append_nil] at ht
    exact .inl (kept (mem_of_mem_eraseIdx ht))
  case fallback h _ hp ha =>
    obtain ht | ht := mem_append.mp (ha.tasks_eq ▸ ht)
    · exact .inl (kept (mem_of_mem_eraseIdx ht))
    · exact .inr ⟨_, .inr ⟨_, mem_of_getElem? h, rfl⟩, hp.created ht⟩
  case fresh => exact .inl (kept (mem_of_mem_eraseIdx ht))
  case timeout h hv hp ha =>
    obtain ht | ht := mem_append.mp (ha.tasks_eq ▸ ht)
    · exact .inl (set h (hv ▸ .detach) ht)
    · exact .inr ⟨_, .inr ⟨_, mem_of_getElem? h, rfl⟩, hp.created ht⟩
  case evict => exact .inl (kept ((remove_frame ..).2.1 ▸ ht))
  case advance => exact .inl (kept ht)

end Effect
end Frame

def Next (lib : Library) (c : Config) (s : State) (e : Event) (s' : State) : Prop :=
  ∃ reply, s.step lib c e = some (s', reply)

def runWhile (lib : Library) (c : Config) (p : State → Event → Bool) (s : State) (es : List Event) : Option State :=
  es.foldlM (fun s e => if p s e then (s.step lib c e).map (·.1) else none) s

theorem steps_of_runWhile {p : State → Event → Bool} {es : List Event} (h : s.runWhile lib c p es = some s') :
    Steps (fun s e s' => Next lib c s e s' ∧ p s e) s es s' := by
  induction es generalizing s
  case nil =>
    cases h
    exact .refl
  case cons e es hi =>
    simp only [runWhile, foldlM_cons, bind_eq_bind, bind_eq_some_iff] at h
    obtain ⟨s₁, hs, h⟩ := h
    split at hs
    case isTrue hp =>
      obtain ⟨⟨_, reply⟩, he, rfl⟩ := map_eq_some_iff.mp hs
      exact .trans ⟨⟨reply, he⟩, hp⟩ (hi h)
    case isFalse => cases hs

def run (lib : Library) (c : Config) (s : State) (es : List Event) : Option State :=
  s.runWhile lib c (fun _ _ => true) es

theorem steps_of_run {es : List Event} (h : s.run lib c es = some s') : Steps (Next lib c) s es s' :=
  (steps_of_runWhile h).mono And.left

-- What is served for an event after a history, and the state before.
def serves (lib : Library) (c : Config) (s : State) (es : List Event) (e : Event) : Option (State × Reply) :=
  (s.run lib c es).bind fun s => (s.step lib c e).bind fun p => p.2.map (s, ·)

theorem exists_serves {es : List Event} {e : Event} {P : State → Reply → Prop}
    (h : ∃ p ∈ s.serves lib c es e, P p.1 p.2) : ∃ s₁ s₂ reply,
      Steps (Next lib c) s es s₁ ∧ s₁.step lib c e = some (s₂, some reply) ∧ P s₁ reply := by
  obtain ⟨⟨s₁, reply⟩, h, hp⟩ := h
  obtain ⟨s₁, hr, h⟩ := bind_eq_some_iff.mp h
  obtain ⟨⟨s₂, o⟩, hs, h⟩ := bind_eq_some_iff.mp h
  obtain ⟨_, rfl, h⟩ := map_eq_some_iff.mp h
  cases h
  exact ⟨s₁, s₂, reply, steps_of_run hr, hs, hp⟩

end State
end Cache
