import HanzoDNS.Cache.Theorems.Step

open Dns Strings List

namespace Cache

structure Variant where
  name : Str
  qtype : RRType
  dnssec : Bool
  cd : Bool
deriving DecidableEq

section

variable (lib : Library)

def variant (r : Msg) : Variant where
  name := r.name lib
  qtype := r.qtype
  dnssec := lib.isDo r
  cd := r.checkingDisabled

def Item.Answers (i : Item) (r : Msg) : Prop :=
  toLower i.name = r.name lib ∧ i.qtype = r.qtype

structure Item.Filed (k : UInt64) (i : Item) : Prop where
  key_eq : State.keyOf lib i.request = k
  answers : i.Answers lib i.request

-- An item that is stored for its own request is an answer to it.
structure State.Proper (s : State) : Prop where
  filed : s.cache negative k = some i → i.Filed lib k
  writer : t ∈ s.tasks → t.writer.dnssec = lib.isDo t.writer.request ∧
               t.writer.cd = t.writer.request.checkingDisabled
  verified : t ∈ s.tasks → t.purpose = .verify timed i moment refreshed →
               variant lib i.request = variant lib t.writer.request

end

def requests : List Event → List Msg
  | [] => []
  | .request r :: es => r :: requests es
  | _ :: es => requests es

theorem mem_requests {r : Msg} {es : List Event} (h : .request r ∈ es) : r ∈ requests es := by
  induction es
  case nil => cases h
  case cons e es hi =>
    obtain rfl | hm := mem_cons.mp h
    case inl => exact mem_cons_self
    case inr =>
      cases e
      case request => exact mem_cons_of_mem _ (hi hm)
      all_goals exact hi hm

structure State.Within (rs : List Msg) (s : State) : Prop where
  cached : s.cache negative k = some i → i.request ∈ rs
  task : t ∈ s.tasks → t.writer.request ∈ rs
  verified : t ∈ s.tasks → t.purpose = .verify timed i moment refreshed → i.request ∈ rs

theorem hash_flags {n : Str} {t : RRType} {d d' cd cd' : Bool} (h : hash n t d cd = hash n t d' cd') :
    d = d' ∧ cd = cd' := by
  have split (d cd : Bool) : hash n t d cd =
      Fnv.write (Fnv.write Fnv.offset [flag d, flag cd]) ([(t >>> 8).toUInt8, t.toUInt8] ++ bytes n) := by
    rw [hash, Fnv.sum, append_assoc, Fnv.write_append]
  have hf := Fnv.write_injective _ ((split d cd).symm.trans (h.trans (split d' cd')))
  have hi : ∀ d cd d' cd' : Bool, Fnv.write Fnv.offset [flag d, flag cd] = Fnv.write Fnv.offset [flag d', flag cd'] →
      d = d' ∧ cd = cd' := by
    decide +kernel
  exact hi d cd d' cd' hf

variable {lib : Library} {c : Config} {s s' : State} {r : Msg} {i : Item} {reply : Reply} {e : Event} {k : UInt64}

namespace Item

theorem Filed.matches_answers (h : i.Filed lib k) (hm : i.matches lib r) : i.Answers lib r := by
  obtain ⟨ht, hn⟩ := of_decide_eq_true hm
  refine ⟨toLower_eq_of_equalFold ?_ hn, ht.symm⟩
  rw [h.answers.1]
  exact Ascii.toLower_ascii

theorem Filed.variant_eq_iff (h : i.Filed lib (State.keyOf lib r)) :
    variant lib i.request = variant lib r ↔ i.Answers lib r := by
  obtain ⟨hn, ht⟩ := h.answers
  constructor
  case mp =>
    intro hv
    obtain ⟨hn', ht', -⟩ := Variant.mk.inj hv
    exact ⟨hn.trans hn', ht.trans ht'⟩
  case mpr =>
    intro ha
    have hn := hn.symm.trans ha.1
    have ht := ht.symm.trans ha.2
    have hk := h.key_eq
    simp only [State.keyOf, hn, ht] at hk
    obtain ⟨hd, hc⟩ := hash_flags hk
    simp only [variant, hn, ht, hd, hc]

theorem filed_of_stores {w : Writer} {res : Msg} (h : State.Stores lib s w res i)
    (hw : w.dnssec = lib.isDo w.request ∧ w.cd = w.request.checkingDisabled) :
    i.Filed lib (hash (w.request.name lib) w.request.qtype w.dnssec w.cd) := by
  obtain ⟨hd, hc⟩ := hw
  constructor
  case key_eq => rw [State.keyOf, h.request_eq, hd, hc]
  case answers => exact ⟨h.request_eq ▸ h.name_eq, h.request_eq ▸ h.qtype_eq⟩

end Item

namespace State

theorem Proper.found (hp : s.Proper lib) (h : s.getIfNotStale lib c r = some i) :
    variant lib i.request = variant lib r := by
  obtain ⟨⟨negative, hc⟩, hm, -⟩ := getIfNotStale_spec h
  have hf := hp.filed hc
  exact hf.variant_eq_iff.mpr (hf.matches_answers hm)

theorem Proper.effect {reply : Option Reply} (hp : s.Proper lib) (h : Effect lib c s e s' reply) :
    s'.Proper lib where
  filed hc := by
    obtain hc | ⟨n, res, t, -, ht, hs, rfl⟩ := h.cache_cases hc
    case inl => exact hp.filed hc
    case inr => exact Item.filed_of_stores hs (hp.writer (mem_of_getElem? ht))
  writer ht := by
    obtain ⟨t₀, ht₀, hw, -⟩ | ⟨r, -, hc⟩ := h.task_cases ht
    case inl => exact hw ▸ hp.writer ht₀
    case inr => cases hc <;> exact ⟨rfl, rfl⟩
  verified ht hv := by
    obtain ⟨t₀, ht₀, hw, hc⟩ | ⟨r, -, hc⟩ := h.task_cases ht
    case inl =>
      rw [hv] at hc
      cases hc' : t₀.purpose <;> rw [hc'] at hc <;> cases hc
      all_goals exact hw ▸ hp.verified ht₀ hc'
    case inr =>
      cases hc <;> cases hv
      exact hp.found ‹_›

theorem proper_start (now : Time) : ({ now } : State).Proper lib where
  filed h := by cases (cache_start now).symm.trans h
  writer h := by cases h
  verified h := by cases h

theorem proper_of_steps {now : Time} {es : List Event} (h : Steps (Next lib c) { now } es s) : s.Proper lib :=
  h.invariant (fun hp h => hp.effect (step_effect h.choose_spec)) (proper_start now)

-- What a verification that was refreshed in time finds is an item for its name and its type.
def FindsOwn (lib : Library) (s : State) : Event → Prop
  | .finish n => ∀ t i moment j, s.tasks[n]? = some t → t.purpose = .verify true i moment true →
                   s.exists lib t.writer.request = some j → j.Answers lib t.writer.request
  | _ => True

theorem Proper.reply_iff (hp : s.Proper lib) (h : Effect lib c s e s' (some reply)) :
    variant lib reply.item.request = variant lib reply.request ↔ s.FindsOwn lib e := by
  cases h
  case stale hf _ _ _ | hit hf _ _ _ => exact iff_of_true (hp.found hf) trivial
  case timeout ht hv _ _ => exact iff_of_true (hp.verified (mem_of_getElem? ht) hv) trivial
  case fallback ht hv _ _ =>
    refine iff_of_true (hp.verified (mem_of_getElem? ht) hv) fun t i moment j ht' hv' => ?_
    obtain rfl := Option.some.inj (ht.symm.trans ht')
    cases hv.symm.trans hv'
  case fresh ht hv hf =>
    obtain ⟨negative, hc⟩ := exists_spec hf
    refine (hp.filed hc).variant_eq_iff.trans ⟨fun ha t' _ _ j' ht' _ hf' => ?_, fun ha => ha _ _ _ _ ht hv hf⟩
    obtain rfl := Option.some.inj (ht.symm.trans ht')
    obtain rfl := Option.some.inj (hf.symm.trans hf')
    exact ha

theorem served_variant_iff {now : Time} {es : List Event} (hr : Steps (Next lib c) { now } es s)
    (h : s.step lib c e = some (s', some reply)) :
    variant lib reply.item.request = variant lib reply.request ↔ s.FindsOwn lib e :=
  (proper_of_steps hr).reply_iff (step_effect h)

theorem Within.found {rs : List Msg} (hi : s.Within rs) (h : s.getIfNotStale lib c r = some i) : i.request ∈ rs := by
  obtain ⟨⟨negative, hc⟩, -⟩ := getIfNotStale_spec h
  exact hi.cached hc

theorem Within.effect {rs : List Msg} {reply : Option Reply} (hi : s.Within rs) (h : Effect lib c s e s' reply)
    (hr : ∀ r, e = .request r → r ∈ rs) : s'.Within rs where
  cached hc := by
    obtain hc | ⟨n, res, t, -, ht, hs, -⟩ := h.cache_cases hc
    case inl => exact hi.cached hc
    case inr => exact hs.request_eq ▸ hi.task (mem_of_getElem? ht)
  task ht := by
    obtain ⟨t₀, ht₀, hw, -⟩ | ⟨r, he, hc⟩ := h.task_cases ht
    case inl => exact hw ▸ hi.task ht₀
    case inr =>
      have hr : r ∈ rs := by
        obtain he | ⟨t₀, ht₀, rfl⟩ := he
        · exact hr r he
        · exact hi.task ht₀
      cases hc <;> exact hr
  verified ht hv := by
    obtain ⟨t₀, ht₀, -, hc⟩ | ⟨r, -, hc⟩ := h.task_cases ht
    case inl =>
      rw [hv] at hc
      cases hc' : t₀.purpose <;> rw [hc'] at hc <;> cases hc
      all_goals exact hi.verified ht₀ hc'
    case inr =>
      cases hc <;> cases hv
      exact hi.found ‹_›

theorem within_start (now : Time) (rs : List Msg) : ({ now } : State).Within rs where
  cached h := by cases (cache_start now).symm.trans h
  task h := by cases h
  verified h := by cases h

theorem within_of_steps {now : Time} {es : List Event} {rs : List Msg} (h : Steps (Next lib c) { now } es s)
    (hr : ∀ r, .request r ∈ es → r ∈ rs) : s.Within rs := by
  refine h.related (R := fun s s' => s.Within rs → s'.Within rs) (fun _ => id) (fun h₁ h₂ => h₂ ∘ h₁) ?_
    (within_start now rs)
  rintro s₁ e s₂ he ⟨reply, h⟩ hi
  exact hi.effect (step_effect h) fun r hr' => hr r (hr' ▸ he)

theorem Within.served {rs : List Msg} (hi : s.Within rs) (h : Effect lib c s e s' (some reply))
    (hr : ∀ r, e = .request r → r ∈ rs) : reply.request ∈ rs ∧ reply.item.request ∈ rs := by
  cases h
  case stale hf _ _ _ | hit hf _ _ _ => exact ⟨hr _ rfl, hi.found hf⟩
  case fallback ht hv _ _ | timeout ht hv _ _ =>
    have ht := mem_of_getElem? ht
    exact ⟨hi.task ht, hi.verified ht hv⟩
  case fresh ht _ hf =>
    obtain ⟨negative, hc⟩ := exists_spec hf
    exact ⟨hi.task (mem_of_getElem? ht), hi.cached hc⟩

-- The class of a request is in no key and in no comparison.
theorem served_class {now : Time} {es : List Event} (hr : Steps (Next lib c) { now } es s)
    (h : s.step lib c e = some (s', some reply)) (hf : s.FindsOwn lib e)
    (hc : ∀ r ∈ requests (es ++ [e]), ∀ r' ∈ requests (es ++ [e]), variant lib r = variant lib r' →
      r.qclass = r'.qclass) :
    reply.item.request.name lib = reply.request.name lib ∧ reply.item.request.qtype = reply.request.qtype ∧
    reply.item.request.qclass = reply.request.qclass := by
  have hw := within_of_steps hr fun r h => mem_requests (mem_append_left [e] h)
  obtain ⟨hq, hi⟩ := hw.served (step_effect h) fun r h => mem_requests (by simp [h])
  have hv := (served_variant_iff hr h).mpr hf
  obtain ⟨hn, ht, -⟩ := Variant.mk.inj hv
  exact ⟨hn, ht, hc _ hi _ hq hv⟩

end State

namespace Variants

def config : Config where
  zones := ["."]
  staleUpTo := 3600 * second
  verifyStale := true
  verifyStaleTimeout := second

def ask (name : Str) (qclass : UInt16) : Msg where
  question := [⟨name, .a, qclass⟩]

def cname (r : Msg) : Msg :=
  { r with response := true, answer := [⟨"a.example.", 10, .cname "b.example."⟩] }

def soa : RR where
  name := "example."
  ttl := 3600
  data := .soa ⟨"ns.example.", "admin.example.", 1, 7200, 3600, 86400, 300⟩

def nameError (r : Msg) (ns : List RR) : Msg :=
  { r with response := true, rcode := Msg.rcodeNameError, ns }

def answered (r res : Msg) : List Event :=
  [.request r, .respond 0 res, .finish 0]

def first : Msg := ask "90a0-0-cre.example." 1
def other : Msg := ask "aa8-9nq8-z.example." 1

def history : List Event :=
  answered first (cname first) ++ answered other (nameError other [soa]) ++
    [.advance (20 * second).toNat, .request first, .respond 0 (nameError first [])]

end Variants

namespace State

open Variants

theorem serves_hit : ∃ s s' reply, Steps (Next .reference config) { now := 0 } (answered first (cname first)) s ∧
    s.step .reference config (.request first) = some (s', some reply) ∧ reply.request = first :=
  exists_serves (by decide +kernel)

theorem served_variant_hit : ∃ s s' reply,
    Steps (Next .reference config) { now := 0 } (answered first (cname first)) s ∧
    s.step .reference config (.request first) = some (s', some reply) ∧
    variant .reference reply.item.request = variant .reference reply.request := by
  obtain ⟨s, s', reply, hr, hs, -⟩ := serves_hit
  exact ⟨s, s', reply, hr, hs, (served_variant_iff hr hs).mpr trivial⟩

-- The refresh of an item is a reply that is not stored, and there is an item for another name under the same key.
theorem served_variant_collision : ∃ s s' reply, Steps (Next .reference config) { now := 0 } history s ∧
    s.step .reference config (.finish 0) = some (s', some reply) ∧
    reply.request = first ∧ reply.item.request = other ∧ variant .reference first ≠ variant .reference other :=
  exists_serves (by decide +kernel)

theorem served_class_hit : ∃ s s' reply,
    Steps (Next .reference config) { now := 0 } (answered first (cname first)) s ∧
    s.step .reference config (.request first) = some (s', some reply) ∧
    reply.item.request.name .reference = reply.request.name .reference ∧
    reply.item.request.qtype = reply.request.qtype ∧ reply.item.request.qclass = reply.request.qclass := by
  obtain ⟨s, s', reply, hr, hs, -⟩ := serves_hit
  exact ⟨s, s', reply, hr, hs, served_class hr hs trivial (by decide +kernel)⟩

-- The reply to a request of the class CHAOS is served for one of the class IN.
theorem served_class_chaos : ∃ s s' reply,
    Steps (Next .reference config) { now := 0 } (answered (ask "a.example." 3) (cname (ask "a.example." 3))) s ∧
    s.step .reference config (.request (ask "a.example." 1)) = some (s', some reply) ∧
    reply.request.qclass = 1 ∧ reply.item.request.qclass = 3 :=
  exists_serves (by decide +kernel)

end State
end Cache
