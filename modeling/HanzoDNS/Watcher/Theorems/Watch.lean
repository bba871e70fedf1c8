import HanzoDNS.Lib.Transition
import HanzoDNS.Watcher.Basic

open List Multiset Function

namespace Watcher

def Pushed (s : State) (z : DBZone) : Prop :=
  s.coredns z.id = some (z.name, s.db.records z.id)

def Due (s : State) (z : DBZone) : Prop :=
  ∀ since, s.lastSync = some since → since < z.updatedAt

namespace State

def underway (s : State) : List Str :=
  match s.phase with
  | .fetching pending batch => batch.map (·.zone.id) ++ pending.map DBZone.id
  | _ => []

-- A zone is cared for if it is pushed already, or else is going to be. In the middle of a cycle that is
-- because its records are still to be fetched, or because they are in the batch as they are in the
-- database.
def Cares (s : State) (z : DBZone) : Prop :=
  match s.phase with
  | .idle => Pushed s z ∨ Due s z
  | .fetching pending batch =>
    Pushed s z ∧ z.id ∉ s.underway ∨
    (∃ z' ∈ pending, z'.id = z.id ∧ z'.name = z.name) ∨
    (∃ b ∈ batch, b.zone.id = z.id ∧ b.zone.name = z.name ∧ b.records = s.db.records z.id)
  | .pushed => Pushed s z

structure Inv (s : State) : Prop where
  nodup : s.underway.Nodup
  cares : ∀ z ∈ s.db.zones.values, z.active → s.Cares z

end State

-- What the watcher relies on. A commit that matters comes strictly after the last sync, and not while
-- a cycle is running, unless the cycle is yet to fetch the records of the zone under that name. No fetch
-- of records and no push fails.
def Action.Safe (s : State) : Action → Prop
  | .commit zone _ =>
    match s.phase with
    | .idle => ∀ since, s.lastSync = some since → since < s.clock
    | .fetching pending _ => zone.active → ∃ z ∈ pending, z.id = zone.id ∧ z.name = zone.name
    | .pushed => ¬zone.active
  | .fetchFails | .pushFails => False
  | _ => True

def SafeStep (s₁ : State) (a : Action) (s₂ : State) : Prop :=
  a.Safe s₁ ∧ Step s₁ a s₂

namespace State

variable {s s' : State} {z : DBZone}

theorem Cares.congr (h : s.Cares z) (hp : s'.phase = s.phase) (hc : s'.coredns = s.coredns)
    (hl : s'.lastSync = s.lastSync) (hr : s'.db.records z.id = s.db.records z.id) : s'.Cares z := by
  simpa only [Cares, Pushed, Due, underway, hp, hc, hl, hr] using h

theorem mem_listing_iff : z ∈ s.listing ↔ z ∈ s.db.zones.values ∧ z.active ∧ Due s z := by
  cases hl : s.lastSync <;>
    simp [listing, hl, Due, Database.fetchZones, Database.fetchChangedZones]

theorem nodup_listing : (s.listing.map DBZone.id).Nodup := by
  have hv : (s.db.zones.values.map DBZone.id).Nodup := Table.keys_val (t := s.db.zones) ▸ s.db.zones.keys.nodup
  refine nodup_of_le (map_le_map ?_) hv
  cases hl : s.lastSync <;> simp [listing, hl, Database.fetchZones, Database.fetchChangedZones]

end State

namespace Served

variable {coredns : Served} {batch : List ZoneWithRecords}

theorem push_of_not_mem {id : Str} (h : id ∉ batch.map (·.zone.id)) : coredns.push batch id = coredns id := by
  induction batch generalizing coredns
  case nil => rfl
  case cons b batch hi =>
    simp only [List.map_cons, List.mem_cons, not_or] at h
    exact (hi h.right).trans (update_of_ne h.left _ _)

theorem push_of_mem (hn : (batch.map (·.zone.id)).Nodup) (hb : b ∈ batch) :
    coredns.push batch b.zone.id = some (b.zone.name, b.records) := by
  induction batch generalizing coredns
  case nil => contradiction
  case cons b' batch hi =>
    have ⟨hb', hn⟩ := nodup_cons.mp hn
    cases mem_cons.mp hb
    case inl he => subst he; exact (push_of_not_mem hb').trans (update_self ..)
    case inr hb => exact hi hn hb

end Served

namespace State.Inv

variable {s : State} {batch : List ZoneWithRecords}

theorem commit (h : s.Inv) (safe : (Action.commit zone records).Safe s) :
    { s with db := s.db.commit s.clock zone records }.Inv where
  nodup := h.nodup
  cares := by
    intro z hz ha
    cases Table.mem_values_put hz
    case inr hz =>
      have ⟨hz, hne⟩ := hz
      exact (h.cares z hz ha).congr rfl rfl rfl (update_of_ne hne _ _)
    case inl he =>
      subst he
      cases hp : s.phase <;> simp only [Action.Safe, hp] at safe <;> simp only [Cares]
      case idle => exact .inr safe
      case fetching => exact .inr <| .inl <| safe ha
      case pushed => exact absurd ha safe

theorem delete (h : s.Inv) {id : Str} : { s with db := s.db.delete id }.Inv where
  nodup := h.nodup
  cares := by
    intro z hz ha
    have ⟨hz, hne⟩ := Table.mem_values_drop_iff.mp hz
    exact (h.cares z hz ha).congr rfl rfl rfl (update_of_ne hne _ _)

theorem list (h : s.Inv) (idle : s.phase = .idle) {zones : List DBZone} (listing : ↑zones = s.listing) :
    { s with phase := .fetching zones [] }.Inv where
  nodup := by
    have hn := s.nodup_listing
    rw [←listing, map_coe, coe_nodup] at hn
    exact hn
  cares := by
    intro z hz ha
    by_cases hm : z ∈ zones
    case pos => exact .inr <| .inl ⟨z, hm, rfl, rfl⟩
    case neg =>
      have hl : z ∉ s.listing := fun hl => hm <| mem_coe.mp <| listing ▸ hl
      have hc := h.cares z hz ha
      simp only [Cares, idle] at hc
      refine .inl ⟨hc.resolve_right fun hd => hl <| mem_listing_iff.mpr ⟨hz, ha, hd⟩, fun hu => ?_⟩
      -- A listed zone with the same id would be the same zone.
      have ⟨z', hz', hid⟩ := mem_map.mp hu
      have hl' := mem_coe.mpr hz'
      rw [listing] at hl'
      exact hl <| Table.key_inj_on_values (mem_listing_iff.mp hl').left hz hid ▸ hl'

theorem fetch (h : s.Inv) (fetching : s.phase = .fetching (z₀ :: pending) batch) :
    { s with phase := .fetching pending (batch ++ [ZoneWithRecords.mk z₀ (s.db.records z₀.id)]) }.Inv where
  nodup := by
    have hn := h.nodup
    simpa [underway, fetching] using hn
  cares := by
    intro z hz ha
    have hc := h.cares z hz ha
    simp only [Cares, underway, fetching] at hc ⊢
    cases hc
    case inl hc => exact .inl ⟨hc.left, by simpa using hc.right⟩
    case inr hc =>
      cases hc
      case inl hc =>
        have ⟨z', hz', hid, hname⟩ := hc
        cases mem_cons.mp hz'
        case inl he => subst he; exact .inr <| .inr ⟨_, mem_concat_self, hid, hname, hid ▸ rfl⟩
        case inr hz' => exact .inr <| .inl ⟨z', hz', hid, hname⟩
      case inr hc =>
        have ⟨b, hb, hc⟩ := hc
        exact .inr <| .inr ⟨b, mem_append_left _ hb, hc⟩

theorem push (h : s.Inv) (fetching : s.phase = .fetching [] batch) :
    { s with coredns := s.coredns.push batch, phase := .pushed }.Inv where
  nodup := .nil
  cares := by
    intro z hz ha
    have hc := h.cares z hz ha
    have hn := h.nodup
    simp only [Cares, underway, fetching, map_nil, append_nil] at hc hn
    cases hc
    case inl hc => exact (Served.push_of_not_mem hc.right).trans hc.left
    case inr hc =>
      have ⟨b, hb, hid, hname, hr⟩ := hc.resolve_left (by simp)
      change s.coredns.push batch z.id = some (z.name, s.db.records z.id)
      rw [←hid, ←hname, Served.push_of_mem hn hb, hr, hid]

theorem finish (h : s.Inv) (pushed : s.phase = .pushed) :
    { s with lastSync := some s.clock, phase := .idle }.Inv where
  nodup := .nil
  cares := by
    intro z hz ha
    have hc := h.cares z hz ha
    simp only [Cares, pushed] at hc
    exact .inl hc

theorem step (h : s.Inv) (hs : SafeStep s a s') : s'.Inv := by
  have ⟨safe, hs⟩ := hs
  cases hs
  case tick => exact ⟨h.nodup, fun z hz ha => (h.cares z hz ha).congr rfl rfl rfl rfl⟩
  case commit => exact h.commit safe
  case delete => exact h.delete
  case list zones idle hl _ => exact h.list idle hl
  case nothing | listFails => exact h
  case fetch fetching => exact h.fetch fetching
  case push fetching => exact h.push fetching
  case finish pushed => exact h.finish pushed
  case fetchFails | pushFails => contradiction

end State.Inv

-- The watcher forgets no change in runs that respect its assumptions: between two cycles, a zone of which
-- CoreDNS does not hold the present contents is among those that the next cycle lists.
theorem watcher_never_forgets {s₀ s : State} (run : Steps SafeStep s₀ as s) (idle₀ : s₀.phase = .idle)
    (zero : s₀.lastSync = none) (idle : s.phase = .idle) {z : DBZone} (hz : z ∈ s.db.zones.values)
    (active : z.active) (stale : s.coredns z.id ≠ some (z.name, s.db.records z.id)) :
    (s.lastSync = none ∨ ∃ since, s.lastSync = some since ∧ z.updatedAt > since) ∧ z ∈ s.listing := by
  have h₀ : s₀.Inv := {
    nodup := by simp [State.underway, idle₀]
    cares := by simp [State.Cares, idle₀, Due, zero]
  }
  have h : s.Inv := run.invariant (fun h hs => h.step hs) h₀
  have hc := h.cares z hz active
  simp only [State.Cares, idle] at hc
  have hd : Due s z := hc.resolve_left stale
  refine ⟨?_, State.mem_listing_iff.mpr ⟨hz, active, hd⟩⟩
  cases hl : s.lastSync
  case none => exact .inl rfl
  case some since => exact .inr ⟨since, rfl, hd since hl⟩

def boot : State where
  clock := 0
  db := { zones := ∅, records := fun _ => [] }
  coredns := fun _ => none
  lastSync := none
  phase := .idle

def shop : DBZone where
  id := "1"
  orgId := "acme"
  name := "shop.example"
  status := "active"
  cloudflareZoneId := none
  updatedAt := 0

-- The full sync pushes the zone, and a later commit renames it.
theorem watcher_never_forgets_rename : ∃ s, Reachable SafeStep boot s ∧ s.lastSync = some 0 ∧
      { shop with name := "mall.example", updatedAt := 1 } ∈ s.listing := by
  let acts : List Action :=
    [.commit shop [], .list, .fetch, .push, .finish, .tick, .commit { shop with name := "mall.example" } []]
  have ⟨s, run, hs⟩ : ∃ s, Steps SafeStep boot acts s ∧ s.phase = .idle ∧ s.lastSync = some 0 ∧
      { shop with name := "mall.example", updatedAt := 1 } ∈ s.db.zones.values ∧
      s.coredns "1" = some (("shop.example" : Str), []) := by
    refine ⟨_, .trans ⟨by simp [Action.Safe, boot], .commit⟩ <|
      .trans ⟨trivial, .list rfl [shop] (by decide) (.inr rfl)⟩ <| .trans ⟨trivial, .fetch rfl⟩ <|
      .trans ⟨trivial, .push rfl⟩ <| .trans ⟨trivial, .finish rfl⟩ <| .trans ⟨trivial, .tick⟩ <|
      .single ⟨by simp [Action.Safe, boot], .commit⟩, ?_⟩
    exact ⟨rfl, rfl, by decide, by rfl⟩
  have ⟨idle, hl, hz, hc⟩ := hs
  refine ⟨s, ⟨acts, run⟩, hl, ?_⟩
  have stale : s.coredns "1" ≠ some (("mall.example" : Str), s.db.records "1") :=
    fun h => absurd (congrArg (Option.map Prod.fst) (hc.symm.trans h)) (by simp)
  exact watcher_never_forgets run rfl rfl idle hz (by decide) stale |>.right

-- Between two cycles, a zone is neither pushed nor going to be listed by the next cycle.
def Forgotten (s : State) : Prop :=
  s.phase = .idle ∧ ∃ z ∈ s.db.zones.values, z.active ∧
    s.coredns z.id ≠ some (z.name, s.db.records z.id) ∧ ∃ since, s.lastSync = some since ∧ z.updatedAt ≤ since

-- A zone is forgotten when its push fails, and when it changes between the fetch and the end of a cycle.
theorem watcher_forgets :
    (∃ s, Steps Step boot [.commit shop [], .tick, .list, .fetch, .pushFails, .finish] s ∧ Forgotten s) ∧
    (∃ s, Steps Step boot [.commit shop [], .tick, .list, .fetch,
      .commit { shop with name := "mall.example" } [], .push, .finish] s ∧ Forgotten s) := by
  constructor
  · refine ⟨_, .trans .commit <| .trans .tick <| .trans (.list rfl [shop] (by decide) (.inr rfl)) <|
      .trans (.fetch rfl) <| .trans (.pushFails rfl (by simp)) <| .single (.finish rfl), rfl, ?_⟩
    exact ⟨shop, by decide, by decide, by simp [boot], 1, rfl, by decide⟩
  · refine ⟨_, .trans .commit <| .trans .tick <| .trans (.list rfl [shop] (by decide) (.inr rfl)) <|
      .trans (.fetch rfl) <| .trans .commit <| .trans (.push rfl) <| .single (.finish rfl), rfl, ?_⟩
    refine ⟨{ shop with name := "mall.example", updatedAt := 1 }, by decide, by decide, fun h => ?_, 1, rfl,
      by decide⟩
    exact absurd (congrArg (Option.map Prod.fst) h) (by decide)

end Watcher
