import HanzoDNS.Lib.Transition
import HanzoDNS.Operator.Theorems.Reconcile

open Option

namespace Operator

open Table Cloudflare.Edge DnsRecord

def World.Stored (w : World) (record : DnsRecord) : Prop :=
  w.records.get record.name = some record

structure World.Zoned (w : World) (zone : DnsZone) : Prop where
  find : w.zones.find? (·.name = zone.name) = some zone
  refs : ∀ {record}, w.Stored record → record.spec.zoneRef = zone.name

namespace Ownership

inductive Event
  | reconcile (name : Str) (now : Nat)
  | delete (name : Str) (now : Nat)

def Event.apply (r : CloudflareReconciler) (w : World) : Event → World
  | reconcile name now => (r.reconcile {} now w name).1
  | delete name now => w.delete name now

def Distinct (zone : DnsZone) (w : World) : Prop :=
  ∀ {a b : DnsRecord}, w.Stored a → w.Stored b → a.spec.syncToCloudflare → b.spec.syncToCloudflare →
    fqdn a.spec.name zone.zone = fqdn b.spec.name zone.zone → a.spec.type = b.spec.type → a = b

-- What the record wants to be at Cloudflare is there, under the id in its status.
def Owns (zone : DnsZone) (w : World) (record : DnsRecord) : Prop :=
  (w.edge zone.cloudflareZoneID).get record.status.cloudflareRecordID =
    some { desired record.spec zone.zone with id := record.status.cloudflareRecordID }

structure Live (w : World) (record : DnsRecord) : Prop where
  stored : w.Stored record
  alive : record.deletionTimestamp = none
  synced : record.status.cloudflareRecordID ≠ []

-- No two live records have the same record at Cloudflare, and none of them has lost it.
structure Exclusive (zone : DnsZone) (w : World) : Prop where
  distinct : ∀ {a b}, Live w a → Live w b →
    a.status.cloudflareRecordID = b.status.cloudflareRecordID → a = b
  owns : ∀ {a}, Live w a → Owns zone w a

-- A record that is being deleted is responsible for its record at Cloudflare until the finalizer is gone.
structure Holds (w : World) (record : DnsRecord) : Prop where
  stored : w.Stored record
  mem : cloudflareFinalizer ∈ record.finalizers
  synced : record.status.cloudflareRecordID ≠ []

structure Invariant (zone : DnsZone) (w : World) : Prop where
  zoned : w.Zoned zone
  distinct : Distinct zone w
  wanted : ∀ {a}, w.Stored a → a.status.cloudflareRecordID ≠ [] → a.spec.syncToCloudflare
  holds : ∀ {a}, Live w a → Holds w a
  owns : ∀ {a}, Holds w a → Owns zone w a

namespace Invariant

variable {zone : DnsZone} {w w' : World} {a b : DnsRecord} {name : Str}

theorem eq_of_owns (i : Invariant zone w) (ha : Holds w a) (hb : w.Stored b) (hs : b.spec.syncToCloudflare)
    (ho : (w.edge zone.cloudflareZoneID).get a.status.cloudflareRecordID = some e)
    (hn : e.name = (desired b.spec zone.zone).name) (ht : e.type = (desired b.spec zone.zone).type) :
    a = b := by
  have hoa := i.owns ha
  rw [Owns, ho, some_inj] at hoa
  subst hoa
  exact i.distinct ha.stored hb (i.wanted ha.stored ha.synced) hs hn ht

theorem id_ne (i : Invariant zone w) (ha : Holds w a) (hb : Holds w b) (h : a ≠ b) :
    a.status.cloudflareRecordID ≠ b.status.cloudflareRecordID := by
  intro he
  have hob := i.owns hb
  rw [Owns, ←he] at hob
  exact h <| i.eq_of_owns ha hb.stored (i.wanted hb.stored hb.synced) hob rfl rfl

theorem exclusive (i : Invariant zone w) : Exclusive zone w where
  owns ha := i.owns (i.holds ha)
  distinct ha hb he := by
    by_contra h
    exact i.id_ne (i.holds ha) (i.holds hb) h he

theorem zoneID_eq (i : Invariant zone w) (ha : w.Stored a) :
    w.zoneID false a.spec.zoneRef = zone.cloudflareZoneID := by
  simp [World.zoneID, World.zone, i.zoned.refs ha, i.zoned.find]

theorem zoneName_eq (i : Invariant zone w) (ha : w.Stored a) : w.zoneName false a.spec.zoneRef = zone.zone := by
  simp [World.zoneName, World.zone, i.zoned.refs ha, i.zoned.find]

section

-- A step that replaces the record called `name` and leaves alone what the other records hold.
variable (i : Invariant zone w) (ha : w.Stored a) (zones : w'.zones = w.zones)
  (records : ∀ n ≠ a.name, w'.records.get n = w.records.get n)
  (others : ∀ {b}, Holds w b → b ≠ a →
    (w'.edge zone.cloudflareZoneID).get b.status.cloudflareRecordID =
      (w.edge zone.cloudflareZoneID).get b.status.cloudflareRecordID)

include i ha zones records others

theorem replace (spec : ∀ {b}, w'.records.get a.name = some b → b.spec = a.spec)
    (wanted : ∀ {b}, w'.records.get a.name = some b → b.status.cloudflareRecordID ≠ [] →
      b.spec.syncToCloudflare) (holds : ∀ {b}, w'.records.get a.name = some b → Live w' b → Holds w' b)
    (owns : ∀ {b}, w'.records.get a.name = some b → Holds w' b → Owns zone w' b) : Invariant zone w' := by
  have name_eq {b : DnsRecord} (h : w'.records.get a.name = some b) : b.name = a.name := key_eq h
  have old {b : DnsRecord} (hb : w'.Stored b) : w'.records.get a.name = some b ∨ b ≠ a ∧ w.Stored b := by
    by_cases hn : b.name = a.name
    case pos => exact .inl (hn ▸ hb)
    case neg => exact .inr ⟨fun h => hn (h ▸ rfl), (records _ hn).symm.trans hb⟩
  -- Up to the parts that do not matter here, it is a record that was there before.
  have origin {b : DnsRecord} (hb : w'.Stored b) : ∃ c, w.Stored c ∧ c.name = b.name ∧ c.spec = b.spec := by
    obtain hb | ⟨_, hb⟩ := old hb
    · exact ⟨a, ha, (name_eq hb).symm, (spec hb).symm⟩
    · exact ⟨b, hb, rfl, rfl⟩
  have unique {b c : DnsRecord} (hb : w'.Stored b) (hc : w'.Stored c) (hn : b.name = c.name) : b = c :=
    some_inj.mp <| hb.symm.trans (hn ▸ hc)
  refine { zoned := ⟨zones ▸ i.zoned.find, fun hb => ?_⟩, distinct := ?_, wanted := ?_, holds := ?_, owns := ?_ }
  case refine_1 =>
    have ⟨c, hc, _, hs⟩ := origin hb
    exact hs ▸ i.zoned.refs hc
  case refine_2 =>
    intro b c hb hc hsb hsc hn ht
    have ⟨b', hb', hnb, heb⟩ := origin hb
    have ⟨c', hc', hnc, hec⟩ := origin hc
    rw [←heb] at hsb hn ht
    rw [←hec] at hsc hn ht
    have he := i.distinct hb' hc' hsb hsc hn ht
    exact unique hb hc (hnb.symm.trans (he ▸ hnc))
  case refine_3 =>
    intro b hb hi
    obtain hb | ⟨_, hb⟩ := old hb
    · exact wanted hb hi
    · exact i.wanted hb hi
  case refine_4 =>
    intro b hb
    obtain hb' | ⟨_, hb'⟩ := old hb.stored
    · exact holds hb' hb
    · exact { hb with mem := (i.holds ⟨hb', hb.alive, hb.synced⟩).mem }
  case refine_5 =>
    intro b hb
    obtain hb' | ⟨hne, hb'⟩ := old hb.stored
    · exact owns hb' hb
    · have hh : Holds w b := { hb with stored := hb' }
      exact (others hh hne).trans (i.owns hh)

-- The same for a step after which there is a record called `name`, with the same specification.
theorem rewrite (stored : w'.records.get a.name = some b) (spec : b.spec = a.spec)
    (wanted : b.status.cloudflareRecordID ≠ [] → a.spec.syncToCloudflare)
    (holds : Live w' b → cloudflareFinalizer ∈ b.finalizers) (owns : Holds w' b → Owns zone w' b) :
    Invariant zone w' := by
  have eq {c} (h : w'.records.get a.name = some c) : c = b :=
    some_inj.mp <| h.symm.trans stored
  refine i.replace ha zones records others ?_ ?_ ?_ ?_
  case refine_1 => exact fun h => eq h ▸ spec
  case refine_2 => exact fun h hi => by rw [eq h, spec]; exact wanted (eq h ▸ hi)
  case refine_3 => exact fun h hl => { hl with mem := eq h ▸ holds (eq h ▸ hl) }
  case refine_4 => exact fun h hh => eq h ▸ owns (eq h ▸ hh)

theorem remove (gone : w'.records.get a.name = none) : Invariant zone w' := by
  refine i.replace ha zones records others ?_ ?_ ?_ ?_ <;> simp [gone]

end

theorem push (i : Invariant zone w) (ha : w.Stored a) (hs : a.spec.syncToCloudflare)
    (hd : a.deletionTimestamp = none)
    (he : CloudflareReconciler.Ensured w.edge zone.cloudflareZoneID a.status.cloudflareRecordID
      (desired a.spec zone.zone) edge new id') :
    (edge zone.cloudflareZoneID).get id' = some { desired a.spec zone.zone with id := id' } ∧
    ∀ {b}, Holds w b → b ≠ a →
      (edge zone.cloudflareZoneID).get b.status.cloudflareRecordID =
        (w.edge zone.cloudflareZoneID).get b.status.cloudflareRecordID := by
  cases he
  case overwrite hk _ =>
    refine ⟨put_get_self, fun hb hn => put_get_ne fun _ => ?_⟩
    exact i.id_ne hb (i.holds ⟨ha, hd, hk⟩) hn
  case adopt e _ hg hne hte =>
    refine ⟨put_get_self, fun hb hn => put_get_ne fun _ hi => ?_⟩
    exact hn <| i.eq_of_owns hb ha hs (hi ▸ hg) hne hte
  case create hf =>
    refine ⟨put_get_self, fun hb hn => put_get_ne fun _ hi => ?_⟩
    have ho := i.owns hb
    rw [Owns, hi, hf] at ho
    simp at ho

theorem released {r : CloudflareReconciler} (i : Invariant zone w) (ha : w.Stored a)
    (hm : cloudflareFinalizer ∈ a.finalizers)
    (hb : Holds w b) (hn : b ≠ a) :
    (r.releasedEdge {} w a zone.cloudflareZoneID).get b.status.cloudflareRecordID =
      (w.edge zone.cloudflareZoneID).get b.status.cloudflareRecordID := by
  simp only [CloudflareReconciler.releasedEdge]
  split
  case isFalse => rfl
  case isTrue hc =>
    exact deleteRecord_get_ne fun _ => i.id_ne hb ⟨ha, hm, hc.2.1⟩ hn

theorem reconcile (i : Invariant zone w) (r : CloudflareReconciler) (now : Nat) (name : Str) :
    Invariant zone (r.reconcile {} now w name).1 := by
  cases h : w.records.get name
  case none => exact (r.reconcile_missing h).symm ▸ i
  case some a =>
    obtain ⟨hz, hr, new, hrun, -⟩ := r.reconcile_ran h
    obtain rfl : a.name = name := key_eq h
    generalize (r.reconcile {} now w a.name).1 = w' at hz hr hrun
    generalize hg : w'.records.get a.name = a' at hrun
    generalize he : w'.edge = edge at hrun
    have keep {b : DnsRecord} (hs : b.status.cloudflareRecordID = a.status.cloudflareRecordID)
        (hp : b.spec = a.spec) (ho : Owns zone w a) (he : w'.edge = w.edge) : Owns zone w' b := by
      rwa [Owns, hs, hp, he]
    cases hrun
    case idle =>
      refine i.rewrite h hz hr (fun _ _ => he ▸ rfl) hg rfl (i.wanted h) ?_ ?_
      case refine_1 => exact fun hl => (i.holds ⟨h, hl.alive, hl.synced⟩).mem
      case refine_2 => exact fun hh => keep rfl rfl (i.owns ⟨h, hh.mem, hh.synced⟩) he
    case mark =>
      have wanted (hs : a.markError.status.cloudflareRecordID ≠ []) := i.wanted h hs
      refine i.rewrite h hz hr (fun _ _ => he ▸ rfl) hg rfl wanted ?_ ?_
      case refine_1 => exact fun hl => (i.holds ⟨h, hl.alive, hl.synced⟩).mem
      case refine_2 => exact fun hh => keep rfl rfl (i.owns ⟨h, hh.mem, hh.synced⟩) he
    case release hw hm hl =>
      have others {b} (hb : Holds w b) (hn : b ≠ a) := he ▸ i.released (r := r) h hm hb hn
      obtain rfl | rfl := hl
      case inr => exact i.remove h hz hr others hg
      case inl =>
        have wanted (hs : a.removeFinalizer.status.cloudflareRecordID ≠ []) := i.wanted h hs
        refine i.rewrite h hz hr others hg rfl wanted ?_ ?_
        case refine_1 =>
          -- Only a record that is being deleted has both an id and nothing to be pushed.
          intro hl
          exact absurd ⟨hl.alive, i.wanted h hl.synced⟩ hw
        case refine_2 => exact fun hh => absurd hh.mem not_mem_removeFinalizer
    case refused hw =>
      refine i.rewrite h hz hr (fun _ _ => he ▸ rfl) hg (by simp) (fun _ => hw.2) ?_ ?_
      case refine_1 => exact fun _ => mem_addFinalizer
      case refine_2 =>
        intro hh
        have hs : a.status.cloudflareRecordID ≠ [] := by simpa using hh.synced
        exact keep (by simp) (by simp) (i.owns <| i.holds ⟨h, hw.1, hs⟩) he
    case push id hw _ _ hen =>
      rw [i.zoneID_eq h, i.zoneName_eq h] at hen
      have ⟨ho, others⟩ := i.push h hw.2 hw.1 hen
      refine i.rewrite h hz hr (he ▸ others) hg (by simp [markActive]) (fun _ => hw.2) ?_ ?_
      case refine_1 => exact fun _ => mem_addFinalizer
      case refine_2 => exact fun _ => by simpa [Owns, markActive, he] using ho

theorem delete (i : Invariant zone w) (name : Str) (now : Nat) : Invariant zone (w.delete name now) := by
  cases h : w.records.get name
  case none => exact (World.delete_missing h now).symm ▸ i
  case some a =>
    obtain rfl : a.name = name := key_eq h
    obtain ⟨t, he⟩ | ⟨_, he⟩ := World.delete_eq h now <;> rw [he]
    case inr =>
      exact i.remove h rfl (fun _ hn => get_drop_ne hn) (fun _ _ => rfl) get_drop_self
    case inl =>
      refine i.rewrite h rfl (fun _ hn => get_put_ne hn) (fun _ _ => rfl) get_put_self rfl
        (fun hs => i.wanted h hs) ?_ ?_
      case refine_1 => exact fun hl => absurd hl.alive (by simp)
      case refine_2 => exact fun hh => i.owns (a := a) ⟨h, hh.mem, hh.synced⟩

theorem apply (i : Invariant zone w) (r : CloudflareReconciler) : (e : Event) → Invariant zone (e.apply r w)
  | .reconcile name now => i.reconcile r now name
  | .delete name now => i.delete name now

end Invariant

abbrev Run (r : CloudflareReconciler) : World → List Event → World → Prop :=
  Steps fun w e w' => w' = e.apply r w

-- If the records of a zone have pairwise different names or types, then each of them has a record of its
-- own at Cloudflare, whatever is there to begin with, and however they are reconciled and deleted.
theorem exclusive_ownership {r : CloudflareReconciler} {zone : DnsZone} {w w' : World} {es : List Event}
    (zoned : w.Zoned zone) (fresh : ∀ {a}, w.Stored a → a.status.cloudflareRecordID = [])
    (distinct : Distinct zone w) (run : Run r w es w') : Exclusive zone w' := by
  have init : Invariant zone w := {
    zoned := zoned
    distinct := distinct
    wanted := fun ha hi => absurd (fresh ha) hi
    holds := fun ha => absurd (fresh ha.stored) ha.synced
    owns := fun ha => absurd (fresh ha.stored) ha.synced
  }
  exact (run.invariant (fun i h => h ▸ i.apply r _) init).exclusive

open Sample

def run (w : World) (es : List Event) : World :=
  es.foldl (Event.apply reconciler) w

theorem run_run (w : World) (es : List Event) : Run reconciler w es (run w es) := by
  induction es generalizing w
  case nil => exact .refl
  case cons e es hi => exact .trans rfl (hi _)

theorem world_stored {a b c : DnsRecord} (h : (world [a, b]).Stored c) : c = a ∨ c = b := by
  simpa using mem_of_get_ofList h

theorem world_zoned {a b : DnsRecord} (ha : a.spec.zoneRef = "z") (hb : b.spec.zoneRef = "z") :
    (world [a, b]).Zoned zone where
  find := by simp [world, zone]
  refs h := by
    obtain rfl | rfl := world_stored h
    · exact ha
    · exact hb

def idOf (w : World) (name : Str) : Option Str :=
  (w.records.get name).map (·.status.cloudflareRecordID)

instance (w : World) (a : DnsRecord) : Decidable (Live w a) :=
  decidable_of_iff (w.records.get a.name = some a ∧ a.deletionTimestamp = none ∧ a.status.cloudflareRecordID ≠ [])
    ⟨fun ⟨h, h', h''⟩ => ⟨h, h', h''⟩, fun ⟨h, h', h''⟩ => ⟨h, h', h''⟩⟩

theorem exclusive_ownership_two :
    let w := world [record "a" "www" "192.0.2.1", record "b" "mail" "192.0.2.2"]
    let w' := run w [.reconcile "a" 1, .reconcile "b" 2, .delete "a" 3, .reconcile "a" 4]
    idOf w' "a" = none ∧ idOf w' "b" = some ("rr" : Str) ∧ Exclusive zone w' := by
  refine ⟨by decide +kernel, by decide +kernel, ?_⟩
  refine exclusive_ownership (world_zoned rfl rfl) ?_ ?_ (run_run ..)
  case refine_1 =>
    intro a ha
    obtain rfl | rfl := world_stored ha <;> rfl
  case refine_2 =>
    intro a b ha hb _ _ hn _
    obtain rfl | rfl := world_stored ha <;> obtain rfl | rfl := world_stored hb
    case inl.inl => rfl
    case inr.inr => rfl
    all_goals exact absurd hn (by decide)

-- Two addresses of one name. The second record adopts what the first one has created, and takes it
-- away when it is deleted.
theorem shared_ownership :
    let w := world [record "a" "www" "192.0.2.1", record "b" "www" "192.0.2.2"]
    let w₁ := run w [.reconcile "a" 1, .reconcile "b" 2]
    let w₂ := run w [.reconcile "a" 1, .reconcile "b" 2, .delete "b" 3, .reconcile "b" 4]
    w.Zoned zone ∧ (∀ {a}, w.Stored a → a.status.cloudflareRecordID = []) ∧
    (∃ a b, Live w₁ a ∧ Live w₁ b ∧ a.name ≠ b.name ∧
      a.status.cloudflareRecordID = b.status.cloudflareRecordID) ∧
    (∃ a, Live w₂ a ∧ (w₂.edge zone.cloudflareZoneID).get a.status.cloudflareRecordID = none) := by
  intro w w₁ w₂
  refine ⟨world_zoned rfl rfl, fun ha => ?_, ?_, ?_⟩
  case refine_1 => obtain rfl | rfl := world_stored ha <;> rfl
  case refine_2 =>
    have ⟨a, _, b, _, h⟩ : ∃ a ∈ w₁.records.get "a", ∃ b ∈ w₁.records.get "b", Live w₁ a ∧ Live w₁ b ∧ a.name ≠ b.name ∧
        a.status.cloudflareRecordID = b.status.cloudflareRecordID := by decide +kernel
    exact ⟨a, b, h⟩
  case refine_3 =>
    have ⟨a, _, h⟩ : ∃ a ∈ w₂.records.get "a", Live w₂ a ∧
        (w₂.edge zone.cloudflareZoneID).get a.status.cloudflareRecordID = none := by decide +kernel
    exact ⟨a, h⟩

end Ownership
end Operator
