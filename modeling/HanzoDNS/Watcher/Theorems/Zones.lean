import HanzoDNS.Push.Theorems.Payload
import HanzoDNS.Watcher.System
import HanzoDNS.Watcher.Theorems.Watch

open Strings Hanzodns List Multiset

namespace Watcher

namespace System

def Owned (org : Org) (s : Store) : Prop :=
  ∀ k zd, s.zones.get k = some zd → zd.zone.org = org

def Filled (s : Store) (k : Str) (req : SyncZoneRequest) : Prop :=
  ∃ zd e, s.zones.get k = some zd ∧ zd.records = Table.ofList (req.newRecords e)

section Applies

variable {org : Org} {s s' : Store} {req : SyncZoneRequest} {reqs : List SyncZoneRequest} {k : Str}

section

variable (h : Owned org s)

include h

theorem Owned.admits : s.Admits org req.zone :=
  fun zd hz => h _ zd hz

theorem Owned.applies (ha : Applies org s req s') : Owned org s' := by
  obtain ⟨e, _, _, rfl⟩ := ha
  intro k zd hz
  by_cases hk : k = normZone req.zone
  case pos =>
    subst hk
    rw [Store.bulkSync_get h.admits] at hz
    obtain rfl := Option.some_inj.mp hz
    exact Store.target_org (e := e) h.admits
  case neg =>
    rw [Store.bulkSync_get_ne h.admits hk] at hz
    exact h k zd hz

theorem Owned.applies_get (ha : Applies org s req s') : Filled s' (normZone req.zone) req := by
  obtain ⟨e, _, _, rfl⟩ := ha
  exact ⟨_, e, Store.bulkSync_get h.admits, rfl⟩

theorem Owned.applies_get_ne (ha : Applies org s req s') (hk : k ≠ normZone req.zone) :
    s'.zones.get k = s.zones.get k := by
  obtain ⟨e, _, _, rfl⟩ := ha
  exact Store.bulkSync_get_ne h.admits hk

theorem Owned.run (r : Steps (Applies org) s reqs s') : Owned org s' :=
  r.invariant (P := Owned org) (fun h ha => h.applies ha) h

theorem Owned.run_get_ne (r : Steps (Applies org) s reqs s')
    (hk : ∀ req ∈ reqs, normZone req.zone ≠ k) : s'.zones.get k = s.zones.get k := by
  induction r
  case refl => rfl
  case trans ha _ ih =>
    obtain ⟨hk, hks⟩ := forall_mem_cons.mp hk
    rw [ih (h.applies ha) hks, h.applies_get_ne ha hk.symm]

theorem Owned.run_filled {reqs₁ reqs₂ : List SyncZoneRequest}
    (r : Steps (Applies org) s (reqs₁ ++ req :: reqs₂) s')
    (hl : ∀ req' ∈ reqs₂, normZone req'.zone ≠ normZone req.zone) : Filled s' (normZone req.zone) req := by
  obtain ⟨s₁, r₁, r₂⟩ := r.split
  cases r₂
  case trans ha r₂ =>
    have h₁ := h.run r₁
    rw [Filled, (h₁.applies ha).run_get_ne r₂ hl]
    exact h₁.applies_get ha

theorem Owned.run_isSome (r : Steps (Applies org) s reqs s') :
    (s'.zones.get k).isSome ↔ (s.zones.get k).isSome ∨ ∃ req ∈ reqs, normZone req.zone = k := by
  induction r
  case refl => simp
  case trans s₁ req s₂ reqs _ ha _ ih =>
    rw [ih (h.applies ha)]
    by_cases hk : k = normZone req.zone
    case pos =>
      obtain ⟨zd, e, hz, _⟩ := h.applies_get ha
      rw [hk, hz]
      exact iff_of_true (.inl rfl) (.inr ⟨req, .head _, rfl⟩)
    case neg =>
      rw [h.applies_get_ne ha hk, exists_mem_cons_iff, or_iff_right (Ne.symm hk)]

end

end Applies

section Runs

variable {org : Org} {s s₁ s₂ : System} {x : Event} {es : List Event} {k : Str}

theorem Step.owned (hs : Step org s₁ x s₂) (h : Owned org s₁.store) : Owned org s₂.store := by
  cases hs
  case watcher => exact h
  case syncAll => exact h
  case push _ _ _ _ _ _ _ hr => exact h.run hr

theorem Step.isSome_iff (hs : Step org s₁ x s₂) (h : Owned org s₁.store) : (s₂.store.zones.get k).isSome ↔
      (s₁.store.zones.get k).isSome ∨ ∃ batch, x = .push batch ∧ ∃ b ∈ batch, b.zone.key = k := by
  cases hs
  case watcher => simp
  case syncAll => simp
  case push _ batch _ _ hd _ _ hr =>
    rw [decodeSyncRequest_payload] at hd
    obtain rfl := Option.some.inj hd
    rw [h.run_isSome hr]
    refine or_congr_right ⟨fun ⟨req, hm, hk⟩ => ?_, fun ⟨batch', hb, b, hm, hk⟩ => ?_⟩
    case refine_1 =>
      obtain ⟨b, hb, rfl⟩ := mem_map.mp hm
      exact ⟨batch, rfl, b, hb, hk⟩
    case refine_2 =>
      cases hb
      exact ⟨b.sync, mem_map_of_mem hm, hk⟩

theorem run_isSome_iff (r : Steps (Step org) s₁ es s₂) (h : Owned org s₁.store) :
    (s₂.store.zones.get k).isSome ↔
      (s₁.store.zones.get k).isSome ∨ ∃ batch, .push batch ∈ es ∧ ∃ b ∈ batch, b.zone.key = k := by
  induction r
  case refl => simp
  case trans x _ es _ hs _ ih =>
    rw [ih (hs.owned h), hs.isSome_iff h, or_assoc]
    refine or_congr_right ⟨?_, ?_⟩
    · rintro (⟨batch, rfl, hb⟩ | ⟨batch, hm, hb⟩)
      · exact ⟨batch, .head _, hb⟩
      · exact ⟨batch, .tail _ hm, hb⟩
    · rintro ⟨batch, hm, hb⟩
      cases hm
      case head => exact .inl ⟨batch, rfl, hb⟩
      case tail hm => exact .inr ⟨batch, hm, hb⟩

end Runs

section SyncAll

variable {org : Org} {s s' s₁ s₂ : System} {x : Event} {es : List Event} {zones : List DBZone}

def rows (db : Database) (zones : List DBZone) : List ZoneWithRecords :=
  zones.map fun z => .mk z (db.records z.id)

-- The rest of a full sync of these zones: their records are in the batch or still to be fetched, or they have been pushed.
def Syncing (org : Org) (s₁ : System) (zones : List DBZone) (s : System) : Prop :=
  s.watcher.db = s₁.watcher.db ∧
    match s.watcher.phase with
    | .fetching pending batch =>
      s.store = s₁.store ∧ batch ++ rows s₁.watcher.db pending = rows s₁.watcher.db zones
    | _ => Steps (Applies org) s₁.store ((rows s₁.watcher.db zones).map (·.sync)) s.store

theorem Syncing.step (h : Syncing org s₁ zones s) (hs : Step org s x s') (hq : x.Quiet) : Syncing org s₁ zones s' := by
  obtain ⟨hd, h⟩ := h
  cases hs
  case syncAll => exact absurd hq id
  case push w batch reqs _ hs hp hw hr =>
    rw [hp] at h
    obtain ⟨hst, hb⟩ := h
    rw [decodeSyncRequest_payload] at hs
    obtain rfl := Option.some.inj hs
    cases hw
    case push _ =>
      refine ⟨hd, ?_⟩
      rw [rows, map_nil, append_nil] at hb
      rw [hst, hb] at hr
      exact hr
  case watcher a w hu hw =>
    cases hw
    case tick => exact ⟨hd, h⟩
    case fetch hp =>
      rw [hp] at h
      refine ⟨hd, h.left, ?_⟩
      rw [hd, ← h.right, append_assoc]
      rfl
    case finish hp =>
      rw [hp] at h
      exact ⟨hd, h⟩
    all_goals exact absurd hq id

theorem SyncsAll.applied (h : SyncsAll org s₁ es s₂) :
    ∃ zones : List DBZone, ↑zones = s₁.watcher.db.fetchZones ∧ s₂.watcher.db = s₁.watcher.db ∧
      Steps (Applies org) s₁.store ((rows s₁.watcher.db zones).map (·.sync)) s₂.store := by
  obtain ⟨r, hq, hi⟩ := h
  cases r
  case trans hs r =>
    cases hs
    case syncAll zones _ hl =>
      have hz : Syncing org s₁ zones s₂ :=
        (r.restrict hq).invariant (P := Syncing org s₁ zones) (fun h hs => h.step hs.left hs.right) ⟨rfl, rfl, rfl⟩
      obtain ⟨hd, hz⟩ := hz
      rw [hi] at hz
      exact ⟨zones, hl, hd, hz⟩

end SyncAll

section Active

variable {org : Org} {s s' : System} {x : Event} {es : List Event}

def Listed (s : System) : Prop :=
  ∀ pending batch, s.watcher.phase = .fetching pending batch →
    (∀ z ∈ pending, z.active) ∧ ∀ b ∈ batch, b.zone.active

theorem listed_of_listing {zones : List DBZone} (hp : s.watcher.phase = .fetching zones [])
    (hz : ∀ z ∈ zones, z.active) : Listed s := by
  intro pending batch h
  cases hp.symm.trans h
  exact ⟨hz, forall_mem_nil _⟩

theorem listed_of_ne (h : ∀ pending batch, s.watcher.phase ≠ .fetching pending batch) : Listed s :=
  fun pending batch hp => absurd hp (h pending batch)

def Event.Active : Event → Prop
  | push batch => ∀ b ∈ batch, b.zone.active
  | _ => True

theorem Listed.step (h : Listed s) (hs : Step org s x s') : Listed s' ∧ x.Active := by
  cases hs
  case syncAll zones _ hl =>
    refine ⟨listed_of_listing rfl fun z hz => ?_, trivial⟩
    have hm : z ∈ s.watcher.db.fetchZones := hl ▸ mem_coe.mpr hz
    exact (mem_filter.mp hm).right
  case push w batch reqs _ _ hp hw _ =>
    cases hw
    case push =>
      refine ⟨listed_of_ne ?_, (h _ _ hp).right⟩
      rintro _ _ ⟨⟩
  case watcher a w hu hw =>
    refine ⟨?_, trivial⟩
    cases hw
    case list zones _ hl _ =>
      refine listed_of_listing rfl fun z hz => ?_
      have hm : z ∈ s.watcher.listing := hl ▸ mem_coe.mpr hz
      exact (State.mem_listing_iff.mp hm).right.left
    case fetch hp =>
      obtain ⟨hz, hb⟩ := h _ _ hp
      rintro _ _ ⟨⟩
      refine ⟨fun z hm => hz z (.tail _ hm), ?_⟩
      exact forall_mem_append.mpr ⟨hb, forall_mem_singleton.mpr (hz _ (.head _))⟩
    case finish =>
      refine listed_of_ne ?_
      rintro _ _ ⟨⟩
    all_goals first | exact h | exact absurd hu id

end Active

section Served

variable {org : Org} {s₀ s₁ s₂ : System} {es es' : List Event}

structure Keyed (records : List DBRecord) : Prop where
  nodup : (records.map (·.id)).Nodup
  ne_nil : ∀ r ∈ records, r.id ≠ []

-- The store holds the rows of a zone whose types it knows, and nothing else, under the name of the zone.
def Serves (s : System) (z : DBZone) : Prop :=
  ∃ zd, s.store.zones.get z.key = some zd ∧
    (∀ r ∈ s.watcher.db.records z.id, r.type ∈ validRecordTypes → r.Representable →
      ∃ rec, zd.records.get r.id = some rec ∧ r.Kept rec) ∧
    ∀ rec ∈ zd.records.values, ∃ r ∈ s.watcher.db.records z.id, r.type ∈ validRecordTypes ∧ rec.id = r.id

theorem serves_of_filled {s : System} {z : DBZone} (hk : Keyed (s.watcher.db.records z.id))
    (h : Filled s.store z.key (ZoneWithRecords.mk z (s.watcher.db.records z.id)).sync) : Serves s z := by
  obtain ⟨zd, e, hz, hr⟩ := h
  refine ⟨zd, hz, fun r hm ht hp => ?_, fun rec hm => ?_⟩
  case refine_1 =>
    have hg : zd.records.get r.id = some (r.sync.record [] e.now) := by
      rw [hr]
      exact get_newRecords_sync hk.nodup hk.ne_nil hm ht
    exact ⟨_, hg, hp.kept (hk.ne_nil r hm)⟩
  case refine_2 =>
    rw [hr] at hm
    obtain ⟨x, hx, rfl⟩ := SyncZoneRequest.mem_newRecords_iff.mp (Table.mem_of_mem_ofList hm)
    obtain ⟨hx, ht⟩ := mem_filter.mp (fst_mem_of_mem_zipIdx hx)
    obtain ⟨r, hm, hr⟩ := mem_map.mp hx
    rw [← hr] at ht ⊢
    exact ⟨r, hm, of_decide_eq_true ht, SyncRecord.record_id_of_ne_nil (hk.ne_nil r hm)⟩

-- After a full sync the store has every active zone with its rows. Besides, it still has every zone that was pushed before.
theorem syncAll_serves (h₀ : s₀.store = newStore) (hi : s₀.watcher.phase = .idle) (r : Steps (Step org) s₀ es s₁)
    (h : SyncsAll org s₁ es' s₂) : (∀ k, (s₂.store.zones.get k).isSome ↔
      ∃ batch, .push batch ∈ es ++ .syncAll :: es' ∧ ∃ b ∈ batch, b.zone.key = k) ∧
    (∀ batch, .push batch ∈ es ++ .syncAll :: es' → ∀ b ∈ batch, b.zone.active) ∧
    (∀ k zd, s₂.store.zones.get k = some zd → zd.zone.org = org) ∧
    ∀ z ∈ s₂.watcher.db.zones.values, z.active → (s₂.store.zones.get z.key).isSome ∧
      ((∀ z' ∈ s₂.watcher.db.zones.values, z'.active → z'.key = z.key → z' = z) →
        Keyed (s₂.watcher.db.records z.id) → Serves s₂ z) := by
  have ho₀ : Owned org s₀.store := by
    intro k zd hz
    rw [h₀] at hz
    cases hz
  have ho : Owned org s₁.store := r.invariant (P := fun s => Owned org s.store) (fun h hs => hs.owned h) ho₀
  have r₂ := r.append h.left
  obtain ⟨zones, hl, hd, ha⟩ := h.applied
  have hmem (z : DBZone) : z ∈ zones ↔ z ∈ s₂.watcher.db.zones.values ∧ z.active := by
    rw [← Multiset.mem_coe, hl, hd, Database.fetchZones, Multiset.mem_filter]
  refine ⟨fun k => ?_, fun batch hm => ?_, fun k zd hz => ho.run ha k zd hz, fun z hz hza => ⟨?_, fun hu hk => ?_⟩⟩
  case refine_1 =>
    rw [run_isSome_iff r₂ ho₀, h₀]
    exact or_iff_right (by simp [newStore])
  case refine_2 =>
    have hl₀ : Listed s₀ := listed_of_ne fun _ _ hp => by
      rw [hi] at hp
      cases hp
    exact r₂.labels (P := Listed) (Q := Event.Active) (fun h hs => h.step hs) hl₀ _ hm
  case refine_3 =>
    refine (ho.run_isSome ha).mpr (.inr ⟨_, mem_map_of_mem (mem_map_of_mem ((hmem z).mpr ⟨hz, hza⟩)), rfl⟩)
  case refine_4 =>
    obtain ⟨zs₁, zs₂, rfl⟩ := append_of_mem ((hmem z).mpr ⟨hz, hza⟩)
    have hn : (zs₁ ++ z :: zs₂).Nodup := by
      rw [← coe_nodup, hl]
      exact Nodup.filter _ (Table.values_nodup _)
    -- No later zone has the same name.
    have hz₂ (z' : DBZone) (hm : z' ∈ zs₂) : z'.key ≠ z.key := by
      intro he
      obtain ⟨hv, ha'⟩ := (hmem z').mp (mem_append_right _ (.tail _ hm))
      obtain rfl := hu z' hv ha' he
      exact (nodup_cons.mp (nodup_append.mp hn).right.left).left hm
    rw [rows, List.map_append, List.map_cons, List.map_append, List.map_cons, ← hd] at ha
    refine serves_of_filled hk (ho.run_filled ha fun req hm => ?_)
    obtain ⟨b, hb, rfl⟩ := mem_map.mp hm
    obtain ⟨z', hz', rfl⟩ := mem_map.mp hb
    exact hz₂ z' hz'

end Served

section Sample

open Watcher.Sample

def start : System where
  watcher := { boot with db := boot.db.commit 0 shop [row "a" 60 none] }
  store := newStore

def shopRows : List ZoneWithRecords :=
  [.mk shop [row "a" 60 none]]

def left : System where
  watcher := {
    boot with
    db := (boot.db.commit 0 shop [row "a" 60 none]).commit 0 { shop with status := "inactive" } []
    coredns := boot.coredns.push shopRows
    lastSync := some 0
  }
  store := (newStore.bulkSync env "acme" (ZoneWithRecords.mk shop [row "a" 60 none]).sync).store

theorem start_syncsAll : SyncsAll "acme" start [.watcher .fetch, .push shopRows, .watcher .finish] {
    left with watcher := { left.watcher with db := boot.db.commit 0 shop [row "a" 60 none] } } := by
  refine ⟨.trans (.syncAll rfl [shop] ?_) <| .trans (.watcher trivial (.fetch rfl)) <|
    .trans (.push rfl (.push rfl) (decodeSyncRequest_payload _) (.single ⟨env, _, rfl, rfl⟩)) <|
    .single (.watcher trivial (.finish rfl)), ?_, rfl⟩
  · decide
  · simp [Event.Quiet]

theorem syncAll_serves_shop : ∃ s, SyncsAll "acme" start [.watcher .fetch, .push shopRows, .watcher .finish] s ∧
    shop ∈ s.watcher.db.zones.values ∧ shop.active ∧ Serves s shop := by
  refine ⟨_, start_syncsAll, by decide, by decide, ?_⟩
  obtain ⟨-, -, -, h⟩ := syncAll_serves rfl rfl .refl start_syncsAll
  refine (h shop (by decide) (by decide)).right ?_ ?_
  case refine_1 => decide
  case refine_2 => exact ⟨by decide, by decide⟩

-- There is no active zone any more, but the store still has the one that was pushed before.
theorem syncAll_keeps_left : ∃ es s₁ es' s₂, Steps (Step "acme") start es s₁ ∧ SyncsAll "acme" s₁ es' s₂ ∧
    s₂.watcher.db.fetchZones = 0 ∧ (s₂.store.zones.get "shop.example.").isSome := by
  have hc : Unfailing (.commit { shop with status := "inactive" } []) := trivial
  refine ⟨_, left, [.push [], .watcher .finish], left,
    start_syncsAll.left.append (.single (.watcher hc .commit)), ⟨?_, ?_, rfl⟩, ?_, ?_⟩
  case refine_1 =>
    exact .trans (.syncAll rfl [] (by decide)) <|
      .trans (.push rfl (.push rfl) (decodeSyncRequest_payload _) .refl) <| .single (.watcher trivial (.finish rfl))
  case refine_2 => simp [Event.Quiet]
  case refine_3 => decide
  case refine_4 => decide +kernel

end Sample
end System
end Watcher
