import HanzoDNS.File.Secondary
import HanzoDNS.File.Theorems.Transfer

open Dns Domain List

namespace File

open Zone Attempt

theorem isSoa_normalize (dns : Labels) (rr : RR) : isSoa (normalize dns rr) = isSoa rr := by
  obtain ⟨name, ttl, data⟩ := rr
  cases data <;> rfl

namespace Attempt

def complete : Attempt → Bool
  | .setup _ => false
  | .stream envs => envs.all fun env => env.error.isNone && env.rrs.all (!refused ·)

def delivered : Attempt → List RR
  | .setup _ => []
  | .stream envs => ((envs.takeWhile (·.error.isNone)).flatMap (·.rrs)).takeWhile (!refused ·)

def records : Attempt → List RR
  | .setup _ => []
  | .stream envs => envs.flatMap (·.rrs)

def Named : Attempt → Prop
  | .setup _ => True
  | .stream envs => ∀ env ∈ envs, ∀ rr ∈ env.rrs, ∃ n : Name, rr.name = n.text

def aborted (as : List Attempt) : List RR :=
  (as.takeWhile (!complete ·)).flatMap delivered

theorem named_of_mem_delivered {a : Attempt} (h : a.Named) (hr : rr ∈ a.delivered) :
    ∃ n : Name, rr.name = n.text := by
  cases a
  case setup => simp [delivered] at hr
  case stream envs =>
    obtain ⟨env, he, hr⟩ := mem_flatMap.mp ((takeWhile_sublist _).subset hr)
    exact h env ((takeWhile_sublist _).subset he) rr hr

theorem delivered_cons (rrs : List RR) (envs : List Envelope) : (stream (⟨rrs, none⟩ :: envs)).delivered =
      if rrs.all (!refused ·) then rrs ++ (stream envs).delivered else rrs.takeWhile (!refused ·) := by
  simp only [delivered, takeWhile_cons, Option.isNone_none, if_true, flatMap_cons]
  split
  case isTrue h => exact takeWhile_append_of_pos (all_eq_true.mp h)
  case isFalse h =>
    rw [takeWhile_append, if_neg]
    rw [all_eq_true, ←takeWhile_eq_self_iff] at h
    exact fun hl => h ((takeWhile_sublist _).eq_of_length hl)

theorem complete_cons (rrs : List RR) (envs : List Envelope) :
    (stream (⟨rrs, none⟩ :: envs)).complete = (rrs.all (!refused ·) && (stream envs).complete) :=
  rfl

theorem delivered_of_complete {a : Attempt} (h : a.complete) : a.delivered = a.records := by
  cases a
  case setup => cases h
  case stream envs =>
    induction envs
    case nil => rfl
    case cons env envs hi =>
      obtain ⟨rrs, error⟩ := env
      cases error
      case some => simp [complete] at h
      case none =>
        rw [complete_cons, Bool.and_eq_true] at h
        rw [delivered_cons, if_pos h.1, hi h.2, records, records, flatMap_cons]

theorem not_refused_of_mem_delivered {a : Attempt} (hr : rr ∈ a.delivered) : ¬refused rr := by
  cases a
  case setup => simp [delivered] at hr
  case stream envs => simpa using mem_takeWhile_imp hr

end Attempt

namespace Zone

variable {dns : Labels} {z z' : Zone} {o : Name} {rrs : List RR}

theorem Holds.insertAll (h : z.Holds dns o rrs) {rrs' : List RR} (hn : ∀ rr ∈ rrs', ∃ n : Name, rr.name = n.text) :
    ∃ z' err, z.insertAll dns rrs' = some (z', err) ∧ (err = none ↔ rrs'.all (!refused ·)) ∧
      z.load dns (rrs'.takeWhile (!refused ·)) = some (.ok z') := by
  induction rrs' generalizing z rrs
  case nil => exact ⟨z, none, rfl, by simp, rfl⟩
  case cons rr rrs' hi =>
    by_cases hr : refused rr
    case pos =>
      obtain ⟨err, he⟩ : ∃ err, z.insert dns rr = some (.error err) := insert_refused z hr
      exact ⟨z, some err, by simp [Zone.insertAll, he], by simp [hr], by simp [hr, Zone.load]⟩
    case neg =>
      obtain ⟨z₁, hz, h₁⟩ := h.insert_ok (hn rr (by simp)) hr
      obtain ⟨z₂, err, hs, he, hl⟩ := hi h₁ fun rr hm => hn rr (mem_cons_of_mem _ hm)
      exact ⟨z₂, err, by simpa [Zone.insertAll, hz] using hs, by simpa [hr] using he, by simpa [hr, Zone.load, hz] using hl⟩

theorem Holds.receive (h : z.Holds dns o rrs) {envs : List Envelope} (hn : (stream envs).Named) :
    ∃ z' err, z.receive dns envs = some (z', err) ∧ (err = none ↔ (stream envs).complete) ∧
      z.load dns (stream envs).delivered = some (.ok z') := by
  induction envs generalizing z rrs
  case nil => exact ⟨z, none, rfl, by simp [complete], rfl⟩
  case cons env envs hi =>
    obtain ⟨rs, error⟩ := env
    cases error
    case some err =>
      exact ⟨z, some err, rfl, by simp [Attempt.complete], by simp [Attempt.delivered, Zone.load]⟩
    case none =>
      obtain ⟨hne, hn⟩ := forall_mem_cons.mp hn
      obtain ⟨z₁, err, hs, he, hl⟩ := h.insertAll hne
      cases err
      case some err =>
        have hr : ¬rs.all (!refused ·) := fun h => by simpa using he.mpr h
        refine ⟨z₁, some err, by simp [receive, hs], ?_, by rwa [delivered_cons, if_neg hr]⟩
        rw [complete_cons, Bool.eq_false_iff.mpr hr]
        simp
      case none =>
        have hr : rs.all (!refused ·) := he.mp rfl
        have hl : z.load dns rs = some (.ok z₁) := by
          rwa [takeWhile_eq_self_iff.mpr (all_eq_true.mp hr)] at hl
        obtain ⟨r, hr', h₁⟩ := h.load hne
        obtain ⟨z₂, err, hs₂, he₂, hl₂⟩ := hi (h₁ z₁ (by rw [hl] at hr'; exact (Option.some.inj hr').symm)) hn
        refine ⟨z₂, err, by simpa [receive, hs] using hs₂, ?_, ?_⟩
        · rw [he₂, complete_cons, hr, Bool.true_and]
        · rw [delivered_cons, if_pos hr, load_append _ hl]
          exact hl₂

-- An attempt that is not complete leaves its records behind for the next.
theorem Holds.attempt (h : z.Holds dns o rrs) {a : Attempt} (hn : a.Named) (as : List Attempt) (err : Option Str) :
    ∃ z', z.load dns a.delivered = some (.ok z') ∧ if a.complete then
        z.attempts dns (a :: as) err = some (z', none) else
        ∃ e, z.attempts dns (a :: as) err = z'.attempts dns as (some e) := by
  cases a
  case setup e => exact ⟨z, rfl, e, rfl⟩
  case stream envs =>
    obtain ⟨z₁, e, hs, hc, hl⟩ := h.receive hn
    refine ⟨z₁, hl, ?_⟩
    cases e
    case none =>
      rw [if_pos (hc.mp rfl)]
      simp [attempts, hs]
    case some e =>
      rw [if_neg fun h => by simpa using hc.mpr h]
      exact ⟨e, by simp [attempts, hs]⟩

theorem Holds.attempts (h : z.Holds dns o rrs) {as : List Attempt} (hn : ∀ a ∈ as, a.Named) (err : Option Str) :
    ∃ z' err', z.attempts dns as err = some (z', err') ∧ match as.find? complete with
      | none => err' = none → as = [] ∧ err = none
      | some a => err' = none ∧ z.load dns (aborted as ++ a.delivered) = some (.ok z') := by
  induction as generalizing z rrs err
  case nil => exact ⟨z, err, rfl, by simp⟩
  case cons a as hi =>
    obtain ⟨hna, hns⟩ := forall_mem_cons.mp hn
    obtain ⟨z₁, hl, hs⟩ := h.attempt hna as err
    cases hc : a.complete
    case true =>
      rw [if_pos hc] at hs
      exact ⟨z₁, none, hs, by simpa [find?_cons, hc, aborted] using hl⟩
    case false =>
      rw [hc] at hs
      obtain ⟨e, hs⟩ := hs
      obtain ⟨r, hr, h₁⟩ := h.load fun rr => named_of_mem_delivered hna
      obtain ⟨z', err', hs', h'⟩ := hi (h₁ z₁ (by rw [hl] at hr; exact (Option.some.inj hr).symm)) hns (some e)
      refine ⟨z', err', hs.trans hs', ?_⟩
      have ha : aborted (a :: as) = a.delivered ++ aborted as := by simp [aborted, hc]
      rw [find?_cons, hc, ha]
      cases hf : as.find? complete
      case none => simpa [hf] using h'
      case some a' =>
        rw [hf] at h'
        dsimp only
        rw [append_assoc, load_append _ hl]
        exact h'

section Same

variable {rrs' : List RR}

-- Records that are already in a zone when others are loaded only go unnoticed if they are superseded.
theorem same_iff (k : z.Keeps dns o rrs') (k' : z'.Keeps dns o (rrs ++ rrs')) :
    z.Same dns z' ↔ (∀ rr ∈ rrs, isSoa rr) ∧ (rrs ≠ [] → ∃ rr ∈ rrs', isSoa rr) := by
  have hp (p : Place) : part o.text (rrs ++ rrs') p = part o.text rrs p ++ part o.text rrs' p := part_append ..
  have hs (rr : RR) : isSoa rr ↔ place o.text rr = .soa := (place_spec o.text rr).1
  constructor
  case mp =>
    intro same
    have apex := same.apex_eq
    rw [k'.apex_eq, k.apex_eq, Apex.add_empty_eq, Apex.add_empty_eq] at apex
    simp only [hp, Apex.mk.injEq, append_left_eq_self] at apex
    obtain ⟨soa, ns, sigsoa, signs⟩ := apex
    have tree : part o.text rrs .tree = [] := by
      refine eq_nil_iff_forall_not_mem.mpr fun rr hr => ?_
      have h := same.rrset_eq rr.name rr.rrtype
      rw [k'.holds.rrset_eq, k.holds.rrset_eq, hp, recordsAt, filter_append] at h
      have hn := filter_eq_nil_iff.mp (append_left_eq_self.mp h) rr hr
      simp [Std.ReflCmp.compare_self] at hn
    have all : ∀ rr ∈ rrs, isSoa rr := by
      intro rr hr
      rw [hs]
      by_contra hn
      have hm : rr ∈ part o.text rrs (place o.text rr) := mem_filter.mpr ⟨hr, by simp⟩
      cases h : place o.text rr <;> simp_all
    refine ⟨all, fun hne => ?_⟩
    by_contra hn
    have hr' : part o.text rrs' .soa = [] := filter_eq_nil_iff.mpr fun rr hr hp =>
      hn ⟨rr, hr, (hs rr).mpr (of_decide_eq_true hp)⟩
    rw [part_of_forall o.text fun rr hr => (hs rr).mp (all rr hr), if_pos rfl, hr', append_nil] at soa
    exact hne (getLast?_eq_none_iff.mp soa)
  case mpr =>
    rintro ⟨all, some⟩
    have hr (p : Place) := part_of_forall o.text (fun rr hr => (hs rr).mp (all rr hr)) p
    have soa : (part o.text (rrs ++ rrs') .soa).getLast? = (part o.text rrs' .soa).getLast? := by
      rw [hp, getLast?_append]
      by_cases hne : rrs = []
      case pos => simp [hne, part]
      case neg =>
        obtain ⟨rr, hm, h⟩ := some hne
        have hm : rr ∈ part o.text rrs' .soa := mem_filter.mpr ⟨hm, decide_eq_true ((hs rr).mp h)⟩
        rw [getLast?_eq_some_getLast (ne_nil_of_mem hm), Option.some_or]
    constructor
    case origin_eq => rw [k'.holds.origin_eq, k.holds.origin_eq]
    case apex_eq =>
      rw [k'.apex_eq, k.apex_eq, Apex.add_empty_eq, Apex.add_empty_eq, soa]
      simp [hp, hr]
    case rrset_eq =>
      intro name t
      rw [k'.holds.rrset_eq, k.holds.rrset_eq, hp, hr, if_neg (by simp), nil_append]

theorem same_load_iff (hn : ∀ rr ∈ rrs ++ rrs', ∃ n : Name, rr.name = n.text)
    (hz : (new dns o.text).load dns rrs' = some (.ok z))
    (hz' : (new dns o.text).load dns (rrs ++ rrs') = some (.ok z')) :
    z.Same dns z' ↔ (∀ rr ∈ rrs, isSoa rr) ∧ (rrs ≠ [] → ∃ rr ∈ rrs', isSoa rr) := by
  have k := keeps_of_load (fun rr hr => hn rr (mem_append_right _ hr)) hz
  have k' := keeps_of_load hn hz'
  rw [map_append] at k'
  rw [same_iff k k']
  simp [isSoa_normalize]

end Same
end Zone

namespace Secondary

section

variable {dns : Labels} {s s' : Secondary} {o : Name} {as : List Attempt}

theorem transferIn_eq {z : Zone} {err : Option Str} (ho : s.zone.origin = o.text) (hne : as ≠ [])
    (h : (new dns o.text).attempts dns as none = some (z, err)) :
    s.transferIn dns as = some (if err = none then s.setData z.apex z.tree else s, err) := by
  rw [transferIn, if_neg (by simpa using hne), ho, h]
  cases err <;> rfl

-- A transfer that fails changes nothing, and one that succeeds installs what a complete stream consists of.
def Exact (dns : Labels) (s : Secondary) (as : List Attempt) (s' : Secondary) : (err : Option Str) → Prop
  | some _ => s' = s
  | none => as = [] ∧ s' = s ∨ ∃ a, as.find? complete = some a ∧
    ∃ z, (new dns s.zone.origin).load dns a.records = some (.ok z) ∧ z.Same dns s'.zone

-- The transfer is exact if nothing is left of the attempts before the one that is complete, except for SOA
-- records that it replaces.
theorem transferIn_exact_iff (ho : s.zone.origin = o.text) (hn : ∀ a ∈ as, a.Named) :
    ∃ s' err, s.transferIn dns as = some (s', err) ∧ (Exact dns s as s' err ↔ ∀ a, as.find? complete = some a →
        (∀ rr ∈ aborted as, isSoa rr) ∧ (aborted as ≠ [] → ∃ rr ∈ a.records, isSoa rr)) := by
  by_cases hne : as = []
  case pos =>
    subst hne
    exact ⟨s, none, rfl, by simp [Exact]⟩
  case neg =>
    obtain ⟨z', err, hs, h⟩ := (Zone.Holds.new dns o).attempts hn none
    refine ⟨_, err, transferIn_eq ho hne hs, ?_⟩
    cases hf : as.find? complete
    case none =>
      rw [hf] at h
      cases err
      case none => exact absurd (h rfl).1 hne
      case some e => simp [Exact]
    case some a =>
      rw [hf] at h
      obtain ⟨rfl, hl⟩ := h
      have hc := delivered_of_complete (find?_some hf)
      have named : ∀ rr ∈ aborted as ++ a.delivered, ∃ n : Name, rr.name = n.text := by
        intro rr hr
        obtain hr | hr := mem_append.mp hr
        case inl =>
          obtain ⟨b, hb, hr⟩ := mem_flatMap.mp hr
          exact named_of_mem_delivered (hn b ((takeWhile_sublist _).subset hb)) hr
        case inr => exact named_of_mem_delivered (hn a (mem_of_find?_eq_some hf)) hr
      obtain ⟨z, hz, -⟩ := (Zone.Holds.new dns o).load_ok
        (fun rr hr => named rr (mem_append_right _ hr)) fun rr => not_refused_of_mem_delivered
      have same := same_load_iff named hz hl
      simp only [Exact, hne, false_and, false_or, hf, Option.some.injEq, forall_eq', exists_eq_left', ho, ←hc]
      rw [←same]
      -- The zone is the one that is loaded, except for fields that a transfer does not touch.
      have ho' := (load_apex hl).2
      rw [new, dns.fqdn_text] at ho'
      constructor
      case mp =>
        rintro ⟨z₀, hz₀, h⟩
        obtain rfl : z = z₀ := by simpa [hz] using hz₀
        exact ⟨ho'.trans (ho.symm.trans h.origin_eq), h.apex_eq, h.rrset_eq⟩
      case mpr =>
        exact fun h => ⟨z, hz, ho.trans (ho'.symm.trans h.origin_eq), h.apex_eq, h.rrset_eq⟩

end

namespace Streams

open File.Sample

def secondary : Secondary where
  zone := .new .reference top.text
  expired := false

def whole : Attempt :=
  .stream [⟨[soa, address (child :: top) "192.0.2.1", soa], none⟩]

def silent : Attempt :=
  .stream [⟨[soa], none⟩, ⟨[], some "EOF"⟩]

def broken : Attempt :=
  .stream [⟨[soa, address (sub :: top) "192.0.2.2"], none⟩, ⟨[], some "EOF"⟩]

theorem whole_named : whole.Named := by
  simp only [whole, Attempt.Named, forall_mem_cons, not_mem_nil, false_imp_iff, implies_true, and_true]
  exact ⟨⟨top, rfl⟩, ⟨child :: top, rfl⟩, ⟨top, rfl⟩⟩

theorem silent_named : silent.Named := by
  simp only [silent, Attempt.Named, forall_mem_cons, not_mem_nil, false_imp_iff, implies_true, and_true]
  exact ⟨top, rfl⟩

end Streams

open File.Sample Streams in
theorem transferIn_exact_silent :
    ∃ s' err, secondary.transferIn .reference [.setup "refused", silent, whole] = some (s', err) ∧
      Exact .reference secondary [.setup "refused", silent, whole] s' err := by
  have hf : [.setup "refused", silent, whole].find? complete = some whole := by decide
  have hn : ∀ a ∈ [.setup "refused", silent, whole], a.Named := by
    simpa using ⟨trivial, silent_named, whole_named⟩
  obtain ⟨s', err, h, hi⟩ := @transferIn_exact_iff .reference secondary top _ rfl hn
  refine ⟨s', err, h, hi.mpr fun a ha => ?_⟩
  obtain rfl : whole = a := Option.some.inj (hf.symm.trans ha)
  exact ⟨by decide, by decide⟩

-- The second primary has no record with this name.
open File.Sample Streams in
theorem transferIn_mixed : [broken, whole].find? complete = some whole ∧
    (∀ rr ∈ whole.records, rr.name ≠ Name.text (sub :: top)) ∧
    ∃ s', secondary.transferIn .reference [broken, whole] = some (s', none) ∧
      s'.zone.rrset .reference (Name.text (sub :: top)) .a = [address (sub :: top) "192.0.2.2"] := by
  refine ⟨by decide, by decide, ?_⟩
  obtain ⟨⟨s', _⟩, hs, rfl, hr⟩ : ∃ r ∈ secondary.transferIn .reference [broken, whole], r.2 = none ∧
      r.1.zone.rrset .reference (Name.text (sub :: top)) .a = [address (sub :: top) "192.0.2.2"] := by
    decide +kernel
  exact ⟨s', hs, hr⟩

end Secondary
end File
