import HanzoDNS.Lib.Transition
import HanzoDNS.File.Theorems.Secondary

open Dns Domain Option

namespace File

def Reply.serial : Reply → Option UInt32
  | .unreachable _ => none
  | .response rcode answer => if rcode = 0 then firstSerial answer else none

def delivered (primaries : List Primary) : Option UInt32 :=
  primaries.findSome? (·.reply.serial)

def Reply.error : Reply → Option Str
  | .unreachable err => some err
  | .response .. => none

-- The error that is left if no primary delivers a SOA, which is that of the last.
def remaining (primaries : List Primary) (err : Option Str) : Option Str :=
  (primaries.getLast?.map (·.reply.error)).getD err

theorem remaining_cons (p : Primary) (ps : List Primary) (err : Option Str) :
    remaining (p :: ps) err = remaining ps p.reply.error := by
  rw [remaining, remaining, List.getLast?_cons]
  cases ps.getLast? <;> rfl

theorem askPrimaries_eq (ps : List Primary) (err : Option Str) : askPrimaries (ps.map (·.reply)) err =
      (delivered ps, if (delivered ps).isSome then none else remaining ps err) := by
  induction ps generalizing err
  case nil => rfl
  case cons p ps hi =>
    obtain ⟨reply, attempt⟩ := p
    rw [remaining_cons, List.map_cons]
    cases reply
    case unreachable e => simp [askPrimaries, hi, delivered, Reply.serial, Reply.error]
    case response rcode answer =>
      by_cases hr : rcode = 0
      case neg => simp [askPrimaries, hi, delivered, Reply.serial, Reply.error, hr]
      case pos => cases hf : firstSerial answer <;> simp [askPrimaries, hi, delivered, Reply.serial, Reply.error, hr, hf]

namespace Secondary

variable {dns : Labels} {s s' : Secondary} {ps : List Primary} {serial : UInt32}

theorem check_of_none (h : delivered ps = none) : s.check dns ps = some (s, (remaining ps none).isNone) := by
  rw [check, shouldTransfer, askPrimaries_eq, h]
  cases remaining ps none <;> rfl

theorem check_of_current (h : delivered ps = some serial) (ho : ¬s.outdated serial) :
    s.check dns ps = some (s, true) := by
  rw [check, shouldTransfer, askPrimaries_eq, h]
  simp [ho]

theorem check_of_outdated (h : delivered ps = some serial) (ho : s.outdated serial) :
    s.check dns ps = (s.transferIn dns (ps.map (·.attempt))).map fun r => (r.1, r.2.isNone) := by
  rw [check, shouldTransfer, askPrimaries_eq, h]
  simp [ho]
  cases s.transferIn dns (ps.map (·.attempt)) <;> rfl

theorem transferIn_not_expired {as : List Attempt} (hne : as ≠ []) (h : s.transferIn dns as = some (s', none)) :
    s'.expired = false := by
  rw [transferIn, if_neg (by simpa using hne)] at h
  simp only [bind_eq_bind, bind_eq_some_iff] at h
  obtain ⟨⟨z, err⟩, -, h⟩ := h
  cases err
  case none =>
    cases h
    rfl
  case some => cases h

end Secondary

namespace Updater

def asks (u : Updater) : Tick → Option (List Primary)
  | .expire => none
  | .retry primaries => if u.retryActive then some primaries else none
  | .refresh primaries => some primaries

section

variable (dns : Labels)

-- What a step is to be like: the timers are only restarted, and the retry state is only left, after a primary
-- delivered a SOA, and the zone is not expired after that unless a transfer failed.
structure Tracks (u : Updater) (t : Tick) (u' : Updater) : Prop where
  contact : u'.started ≠ u.started ∨ u.retryActive ∧ ¬u'.retryActive →
    ∃ ps, u.asks t = some ps ∧ delivered ps ≠ none
  alive : ∀ ps serial, u.asks t = some ps → delivered ps = some serial →
    (u.secondary.outdated serial → ∃ s, u.secondary.transferIn dns (ps.map (·.attempt)) = some (s, none)) →
    u'.secondary.expired = false

-- When it is: a check fails if no primary delivers a SOA, which takes that the last is unreachable, and a zone
-- whose serial is still the current one has not expired.
def Reliable (u : Updater) (t : Tick) : Prop :=
  ∀ ps, u.asks t = some ps →
    match delivered ps with
    | none => (remaining ps none).isSome
    | some serial => u.secondary.outdated serial ∨ u.secondary.expired = false

end

variable {dns : Labels} {u u' : Updater} {t : Tick} {ps : List Primary}

theorem restart_started {s : Secondary} (h : u.restart s = some u') :
    u' = { secondary := s, retryActive := false, started := u.started + 1 } := by
  simp only [restart, bind_eq_bind, bind_eq_some_iff] at h
  obtain ⟨soa, -, h⟩ := h
  split at h
  · cases h
  · exact (Option.some.inj h).symm

theorem step_of_not_asks (ha : u.asks t = none) (h : u.step dns t = some u') :
    u'.started = u.started ∧ u'.retryActive = u.retryActive := by
  cases t
  case expire =>
    simp only [step] at h
    split at h <;> cases h <;> exact ⟨rfl, rfl⟩
  case retry ps =>
    by_cases hr : u.retryActive
    case pos => simp [asks, hr] at ha
    case neg =>
      simp [step, hr] at h
      simp [h]
  case refresh ps => cases ha

theorem step_of_asks (ha : u.asks t = some ps) (h : u.step dns t = some u') :
    ∃ s ok, u.secondary.check dns ps = some (s, ok) ∧ if ok then
        u' = { secondary := s, retryActive := false, started := u.started + 1 }
      else
        u' = { u with secondary := s, retryActive := true } := by
  cases t
  case expire => cases ha
  case retry ps' =>
    by_cases hr : u.retryActive
    case neg => simp [asks, hr] at ha
    case pos =>
      obtain rfl : ps' = ps := by simpa [asks, hr] using ha
      simp only [step, hr, if_true, bind_eq_bind, bind_eq_some_iff] at h
      obtain ⟨⟨s, ok⟩, hc, h⟩ := h
      refine ⟨s, ok, hc, ?_⟩
      cases ok
      case true => exact restart_started h
      case false => exact (Option.some.inj h).symm
  case refresh ps' =>
    obtain rfl : ps' = ps := Option.some.inj ha
    simp only [step, bind_eq_bind, bind_eq_some_iff] at h
    obtain ⟨⟨s, ok⟩, hc, h⟩ := h
    refine ⟨s, ok, hc, ?_⟩
    cases ok
    case true => exact restart_started h
    case false => exact (Option.some.inj h).symm

theorem tracks_of_delivered {serial : UInt32} (ha : u.asks t = some ps) (hd : delivered ps = some serial) :
    u.Tracks dns t u' ↔
      ((u.secondary.outdated serial → ∃ s, u.secondary.transferIn dns (ps.map (·.attempt)) = some (s, none)) →
        u'.secondary.expired = false) := by
  constructor
  case mp => exact fun h => h.alive ps serial ha hd
  case mpr =>
    refine fun h => ⟨fun _ => ⟨ps, ha, by simp [hd]⟩, fun ps' serial' ha' hd' => ?_⟩
    obtain rfl : ps = ps' := Option.some.inj (ha.symm.trans ha')
    obtain rfl : serial = serial' := Option.some.inj (hd.symm.trans hd')
    exact h

theorem tracks_of_not_delivered (ha : ∀ ps, u.asks t = some ps → delivered ps = none) :
    u.Tracks dns t u' ↔ u'.started = u.started ∧ (u.retryActive → u'.retryActive) := by
  constructor
  case mp =>
    intro h
    have hn : ¬(u'.started ≠ u.started ∨ u.retryActive ∧ ¬u'.retryActive) := fun hr => by
      obtain ⟨ps, hs, hd⟩ := h.contact hr
      exact hd (ha ps hs)
    simpa using hn
  case mpr =>
    rintro ⟨hs, hr⟩
    refine ⟨fun h => ?_, fun ps serial hs hd => ?_⟩
    · simp_all
    · simp [ha ps hs] at hd

theorem tracks_iff (h : u.step dns t = some u') : u.Tracks dns t u' ↔ u.Reliable t := by
  cases ha : u.asks t
  case none =>
    obtain ⟨hs, hr⟩ := step_of_not_asks ha h
    rw [tracks_of_not_delivered (by simp [ha])]
    simp [Reliable, ha, hs, hr]
  case some ps =>
    obtain ⟨s, ok, hc, hu⟩ := step_of_asks ha h
    simp only [Reliable, ha, Option.some.injEq, forall_eq']
    cases hd : delivered ps
    case none =>
      rw [tracks_of_not_delivered (by simp [ha, hd])]
      rw [Secondary.check_of_none hd] at hc
      obtain ⟨rfl, rfl⟩ := Prod.mk.inj (Option.some.inj hc)
      cases hr : remaining ps none <;> simp_all
    case some serial =>
      rw [tracks_of_delivered ha hd]
      by_cases ho : u.secondary.outdated serial
      case neg =>
        rw [Secondary.check_of_current hd ho] at hc
        obtain ⟨rfl, rfl⟩ := Prod.mk.inj (Option.some.inj hc)
        simp_all
      case pos =>
        rw [Secondary.check_of_outdated hd ho] at hc
        have hne : ps.map (·.attempt) ≠ [] := by
          rintro hn
          simp [List.map_eq_nil_iff.mp hn, delivered] at hd
        simp only [ho, true_imp_iff, true_or, iff_true]
        rintro ⟨s', hs⟩
        rw [hs] at hc
        obtain ⟨rfl, rfl⟩ := Prod.mk.inj (Option.some.inj hc)
        simp only [isNone_none, if_true] at hu
        rw [hu]
        exact Secondary.transferIn_not_expired hne hs

def Step (dns : Labels) (u : Updater) (t : Tick) (u' : Updater) : Prop :=
  u.step dns t = some u'

-- In every run, expiry tracks the contact with the primaries at every step if all checks are reliable, and only
-- then.
theorem run_tracks_iff {ts : List Tick} : Steps (fun u t u' => Step dns u t u' ∧ u.Tracks dns t u') u ts u' ↔
    Steps (fun u t u' => Step dns u t u' ∧ u.Reliable t) u ts u' := by
  have h {u t u'} : Step dns u t u' ∧ u.Tracks dns t u' ↔ Step dns u t u' ∧ u.Reliable t :=
    and_congr_right tracks_iff
  exact ⟨Steps.mono h.mp, Steps.mono h.mpr⟩

namespace Contact

open File.Sample

def updater (expired retryActive : Bool) (started : Nat) : Updater where
  secondary := { zone := { (Zone.new .reference top.text) with apex := { soa := some soa } }, expired }
  retryActive := retryActive
  started := started

def primary (reply : Reply) : Primary where
  reply := reply
  attempt := .setup "refused"

def down : List Primary :=
  [primary (.unreachable "timeout")]

def failing : List Primary :=
  [primary (.response 2 [])]

def current : List Primary :=
  [primary (.response 0 [soa])]

end Contact

-- The failure ends the retry state of a zone that is expired, and the zone is still expired after the SOA.
open Contact in
theorem tracking_lost :
    Steps (Step .reference) (updater false false 1) [.refresh down, .expire] (updater true true 1) ∧
    Step .reference (updater true true 1) (.retry failing) (updater true false 2) ∧ delivered failing = none ∧
    Step .reference (updater true false 2) (.refresh current) (updater true false 3) ∧
    delivered current = some 1 ∧ ¬(updater true false 2).secondary.outdated 1 :=
  ⟨.trans rfl (.trans rfl .refl), rfl, rfl, rfl, rfl, by decide⟩

end Updater
end File
