import HanzoDNS.Store.Theorems.Change

open List

namespace Hanzodns

open Record Table SyncRecord

def Record.undated (r : Record) : Record :=
  { r with createdAt := 0, updatedAt := 0 }

namespace SyncRecord

structure Stored (sr : SyncRecord) (r : Record) : Prop where
  name : r.name = sr.name
  type : r.type = sr.type
  content : r.content = sr.content
  priority : r.priority = sr.priority
  proxied : r.proxied = sr.proxied
  ttl : r.ttl = if sr.ttl = 0 then 300 else sr.ttl

variable {sr : SyncRecord} {uuid id : Str} {now : Time}

theorem stored_record : sr.Stored (sr.record uuid now) where
  name := rfl
  type := rfl
  content := rfl
  priority := rfl
  proxied := rfl
  ttl := rfl

theorem record_id_of_nil (h : sr.id = []) : (sr.record uuid now).id = uuid :=
  if_pos h

theorem record_id_of_ne_nil (h : sr.id ≠ []) : (sr.record uuid now).id = sr.id :=
  if_neg h

theorem record_eq (h : sr.id ≠ []) (uuid' : Str) : sr.record uuid now = sr.record uuid' now := by
  simp [record, h]

end SyncRecord

namespace SyncZoneRequest

variable (req : SyncZoneRequest)

def valid : List SyncRecord :=
  req.records.filter (·.type ∈ validRecordTypes)

def ids : List Str :=
  (req.valid.map (·.id)).filter (· ≠ [])

-- New ids are different from each other and from those of the request.
structure Fresh (e : Env) : Prop where
  injective : e.uuid.Injective
  unused : ∀ n, e.uuid n ≠ [] ∧ ∀ sr ∈ req.valid, sr.id ≠ e.uuid n

-- The records of a zone are those of the request. The last one of those with an id is found under it, and each of those
-- without one is found under a new id of its own.
structure Holds (t : Table Record.id) : Prop where
  given : ∀ id sr, id ≠ [] → req.valid.reverse.find? (·.id = id) = some sr → ∃ r, t.get id = some r ∧ sr.Stored r
  generated : ∃ new : List Str, new.Nodup ∧ (∀ id ∈ new, id ∉ req.ids) ∧
    Forall₂ (fun id sr => ∃ r, t.get id = some r ∧ sr.Stored r) new (req.valid.filter (·.id = [])) ∧
    t.keys = req.ids.toFinset ∪ new.toFinset

end SyncZoneRequest

namespace Store

def Admits (s : Store) (org : Org) (zone : Str) : Prop :=
  ∀ zd, s.zones.get (normZone zone) = some zd → zd.zone.org = org

def recordCount (s : Store) (zone : Str) : Nat :=
  (s.zones.get (normZone zone)).elim 0 (·.records.values.card)

def undated (s : Store) (zone id : Str) : Option Record :=
  ((s.zones.get (normZone zone)).bind (·.records.get id)).map Record.undated

structure Replaces (s : Store) (org : Org) (req : SyncZoneRequest) (s' : Store) (resp : SyncResponse) : Prop where
  others : ∀ k, k ≠ normZone req.zone → s'.zones.get k = s.zones.get k
  records : ∃ zd, s'.zones.get (normZone req.zone) = some zd ∧ req.Holds zd.records
  deleted : resp.deleted = s.recordCount req.zone
  created : resp.created = s'.recordCount req.zone
  count : resp.recordCount = s'.recordCount req.zone
  repeated : (∀ sr ∈ req.records, sr.id ≠ []) →
    ∀ e id, (s'.bulkSync e org req).store.undated req.zone id = s'.undated req.zone id

end Store

namespace SyncZoneRequest

variable {req : SyncZoneRequest} {e : Env} {sr : SyncRecord} {id : Str} {r : Record}

theorem mem_ids_iff : id ∈ req.ids ↔ id ≠ [] ∧ ∃ sr ∈ req.valid, sr.id = id := by
  simp [ids, and_comm]

theorem newRecords_eq : req.newRecords e = req.valid.mapIdx fun i sr => sr.record (e.uuid (i + 1)) e.now :=
  rfl

theorem mem_newRecords_iff :
    r ∈ req.newRecords e ↔ ∃ x ∈ req.valid.zipIdx, x.1.record (e.uuid (x.2 + 1)) e.now = r := by
  rw [newRecords_eq, mapIdx_eq_zipIdx_map, mem_map]

theorem get_newRecords_of_given {srs : List SyncRecord} (hi : id ≠ []) (hu : ∀ n, e.uuid n ≠ id) :
    (Table.ofList (srs.mapIdx fun i sr => sr.record (e.uuid (i + 1)) e.now) : Table Record.id).get id =
      (srs.reverse.find? (·.id = id)).map (·.record [] e.now) := by
  induction srs using List.reverseRecOn
  case nil => rfl
  case append_singleton srs sr ih =>
    rw [mapIdx_concat, ofList_snoc, reverse_concat, find?_cons, get_put, ih]
    by_cases hs : sr.id = id
    case pos =>
      have hn : sr.id ≠ [] := hs ▸ hi
      rw [if_pos (by rw [record_id_of_ne_nil hn, hs]), record_eq hn []]
      simp [hs]
    case neg =>
      have hk : id ≠ (sr.record (e.uuid (srs.length + 1)) e.now).id := by
        by_cases hn : sr.id = []
        case pos => exact record_id_of_nil hn ▸ (hu _).symm
        case neg => exact record_id_of_ne_nil hn ▸ Ne.symm hs
      rw [if_neg hk]
      simp [hs]

theorem get_newRecords_of_distinct (hn : ∀ sr ∈ req.records, sr.id ≠ []) (hd : (req.records.map (·.id)).Nodup)
    (hs : sr ∈ req.valid) :
    (Table.ofList (req.newRecords e) : Table Record.id).get sr.id = some (sr.record [] e.now) := by
  have hk {sr : SyncRecord} (hs : sr ∈ req.valid) : sr.id ≠ [] := hn sr (mem_filter.mp hs).1
  obtain ⟨i, hi⟩ := mem_iff_getElem?.mp hs
  have hm : sr.record [] e.now ∈ req.newRecords e :=
    mem_newRecords_iff.mpr ⟨(sr, i), mem_zipIdx_iff_getElem?.mpr hi, record_eq (hk hs) []⟩
  have hid : (sr.record [] e.now).id = sr.id := record_id_of_ne_nil (hk hs)
  rw [←hid]
  refine get_ofList_of_mem (fun r hr he => ?_) hm
  obtain ⟨x, hx, rfl⟩ := mem_newRecords_iff.mp hr
  have hxs := fst_mem_of_mem_zipIdx hx
  rw [hid, record_id_of_ne_nil (hk hxs)] at he
  rw [inj_on_of_nodup_map hd (mem_filter.mp hxs).1 (mem_filter.mp hs).1 he]
  exact record_eq (hk hs) []

variable (req e) in
def new : List Str :=
  (req.valid.zipIdx.filter (·.1.id = [])).map fun x => e.uuid (x.2 + 1)

theorem Fresh.nodup_new (h : req.Fresh e) : (req.new e).Nodup := by
  have hi : (req.valid.zipIdx.map Prod.snd).Nodup := by
    rw [zipIdx_map_snd]
    exact nodup_range'
  have hf : ((req.valid.zipIdx.filter (·.1.id = [])).map Prod.snd).Nodup := hi.sublist (filter_sublist.map _)
  have hn : req.new e = ((req.valid.zipIdx.filter (·.1.id = [])).map Prod.snd).map fun i => e.uuid (i + 1) := by
    rw [new, map_map]
    rfl
  rw [hn]
  exact hf.map fun i j he => Nat.succ_injective (h.injective he)

theorem Fresh.not_mem_ids (h : req.Fresh e) : ∀ id ∈ req.new e, id ∉ req.ids := by
  intro id hn hm
  obtain ⟨x, -, rfl⟩ := mem_map.mp hn
  obtain ⟨-, sr, hs, he⟩ := mem_ids_iff.mp hm
  exact (h.unused _).2 sr hs he

theorem Fresh.get_new (h : req.Fresh e) {x : SyncRecord × Nat} (hx : x ∈ req.valid.zipIdx) (hn : x.1.id = []) :
    (Table.ofList (req.newRecords e) : Table Record.id).get (e.uuid (x.2 + 1)) =
      some (x.1.record (e.uuid (x.2 + 1)) e.now) := by
  have hk : (x.1.record (e.uuid (x.2 + 1)) e.now).id = e.uuid (x.2 + 1) := record_id_of_nil hn
  nth_rewrite 1 [←hk]
  refine get_ofList_of_mem (fun r hr he => ?_) (mem_newRecords_iff.mpr ⟨x, hx, rfl⟩)
  obtain ⟨y, hy, rfl⟩ := mem_newRecords_iff.mp hr
  rw [hk] at he
  by_cases hm : y.1.id = []
  case pos =>
    rw [record_id_of_nil hm] at he
    have hi : y.2 = x.2 := Nat.succ_injective (h.injective he)
    obtain ⟨sr, i⟩ := x
    obtain ⟨sr', j⟩ := y
    obtain rfl : j = i := hi
    rw [mem_zipIdx_iff_getElem?] at hx hy
    rw [Option.some_inj.mp (hy.symm.trans hx)]
  case neg =>
    rw [record_id_of_ne_nil hm] at he
    exact absurd he ((h.unused _).2 _ (fst_mem_of_mem_zipIdx hy))

theorem forall₂_new {p : Str → SyncRecord → Prop}
    (h : ∀ x ∈ req.valid.zipIdx, x.1.id = [] → p (e.uuid (x.2 + 1)) x.1) :
    Forall₂ p (req.new e) (req.valid.filter (·.id = [])) := by
  have hf : req.valid.filter (·.id = []) = (req.valid.zipIdx.filter (·.1.id = [])).map Prod.fst := by
    conv_lhs => rw [←zipIdx_map_fst 0 req.valid, filter_map]
    rfl
  rw [new, hf, forall₂_map_left_iff, forall₂_map_right_iff, forall₂_same]
  intro x hx
  obtain ⟨hx, hn⟩ := mem_filter.mp hx
  exact h x hx (of_decide_eq_true hn)

theorem Fresh.keys (h : req.Fresh e) :
    (Table.ofList (req.newRecords e) : Table Record.id).keys = req.ids.toFinset ∪ (req.new e).toFinset := by
  ext id
  rw [mem_keys_iff, Finset.mem_union, mem_toFinset, mem_toFinset]
  constructor
  case mp =>
    rintro ⟨r, hr⟩
    obtain ⟨x, hx, rfl⟩ := mem_newRecords_iff.mp (mem_of_get_ofList hr)
    have hk := key_eq hr
    by_cases hn : x.1.id = []
    case pos =>
      rw [record_id_of_nil hn] at hk
      exact .inr (mem_map.mpr ⟨x, mem_filter.mpr ⟨hx, decide_eq_true hn⟩, hk⟩)
    case neg =>
      rw [record_id_of_ne_nil hn] at hk
      exact .inl (mem_ids_iff.mpr ⟨hk ▸ hn, _, fst_mem_of_mem_zipIdx hx, hk⟩)
  case mpr =>
    rintro (hm | hm)
    case inl =>
      obtain ⟨hn, sr, hs, he⟩ := mem_ids_iff.mp hm
      rw [newRecords_eq, get_newRecords_of_given hn fun n hu => (h.unused n).2 sr hs (he.trans hu.symm)]
      have hf : (req.valid.reverse.find? (·.id = id)).isSome :=
        find?_isSome.mpr ⟨sr, mem_reverse.mpr hs, decide_eq_true he⟩
      obtain ⟨sr', hs'⟩ := Option.isSome_iff_exists.mp hf
      exact ⟨_, congrArg _ hs'⟩
    case inr =>
      obtain ⟨x, hx, rfl⟩ := mem_map.mp hm
      obtain ⟨hx, hn⟩ := mem_filter.mp hx
      exact ⟨_, h.get_new hx (of_decide_eq_true hn)⟩

theorem Fresh.holds (h : req.Fresh e) : req.Holds (ofList (req.newRecords e)) where
  given id sr hi hs := by
    have hm : sr ∈ req.valid := mem_reverse.mp (mem_of_find?_eq_some hs)
    have he : sr.id = id := by simpa using find?_some hs
    refine ⟨sr.record [] e.now, ?_, stored_record⟩
    rw [newRecords_eq, get_newRecords_of_given hi fun n hu => (h.unused n).2 sr hm (he.trans hu.symm), hs]
    rfl
  generated :=
    ⟨req.new e, h.nodup_new, h.not_mem_ids, forall₂_new fun _ hx hn => ⟨_, h.get_new hx hn, SyncRecord.stored_record⟩,
      h.keys⟩

theorem undated_newRecords (h : ∀ sr ∈ req.records, sr.id ≠ []) (e' : Env) :
    ((Table.ofList (req.newRecords e) : Table Record.id).get id).map Record.undated =
      ((Table.ofList (req.newRecords e') : Table Record.id).get id).map Record.undated := by
  have hid : ∀ r, (Record.undated r).id = r.id := fun _ => rfl
  rw [←Table.get_ofList_map hid, ←Table.get_ofList_map hid]
  refine congrArg (fun l => (Table.ofList l : Table Record.id).get id) ?_
  rw [newRecords_eq, newRecords_eq, mapIdx_eq_zipIdx_map, mapIdx_eq_zipIdx_map, map_map, map_map]
  refine map_congr_left fun x hx => ?_
  have hn : x.1.id ≠ [] := h _ (mem_filter.mp (fst_mem_of_mem_zipIdx hx)).1
  simp [SyncRecord.record, Record.undated, hn]

end SyncZoneRequest

namespace Store

variable {s s' : Store} {e : Env} {org : Org} {req : SyncZoneRequest} {zone : Str}

def target (s : Store) (e : Env) (org : Org) (req : SyncZoneRequest) : ZoneData :=
  (s.zones.get (normZone req.zone)).getD (newZone e org req.zone [])

section

variable (h : s.Admits org req.zone)

include h

theorem bulkSync_of_admits : s.bulkSync e org req = bulkSync.replace s e req (s.target e org req) := by
  rw [bulkSync, target]
  cases hz : s.zones.get (normZone req.zone)
  case none => rfl
  case some zd => exact if_pos (h zd hz)

omit h in
theorem bulkSync_of_not_admits (h : ¬s.Admits org req.zone) :
    s.bulkSync e org req = { store := s, result := .error (.zoneExists (normZone req.zone)), notified := true } := by
  rw [bulkSync]
  simp only [Admits, not_forall] at h
  obtain ⟨zd, hz, ho⟩ := h
  rw [hz]
  exact if_neg ho

omit h in
theorem target_name : (s.target e org req).name = normZone req.zone := by
  rw [target]
  cases hz : s.zones.get (normZone req.zone)
  case none => rfl
  case some zd => exact key_eq hz

theorem bulkSync_get : (s.bulkSync e org req).store.zones.get (normZone req.zone) =
      some ({ s.target e org req with records := ofList (req.newRecords e) }.touch e.now) := by
  rw [bulkSync_of_admits h]
  exact get_put_of_key_eq target_name

theorem bulkSync_get_ne {k : Str} (hk : k ≠ normZone req.zone) :
    (s.bulkSync e org req).store.zones.get k = s.zones.get k := by
  rw [bulkSync_of_admits h]
  exact get_put_ne (hk.trans_eq target_name.symm)

theorem target_org : (s.target e org req).zone.org = org := by
  rw [target]
  cases hz : s.zones.get (normZone req.zone)
  case none => rfl
  case some zd => exact h zd hz

theorem admits_bulkSync : (s.bulkSync e org req).store.Admits org req.zone := by
  intro zd hz
  rw [bulkSync_get h] at hz
  obtain rfl := Option.some_inj.mp hz
  exact target_org (e := e) h

theorem recordCount_bulkSync : (s.bulkSync e org req).store.recordCount req.zone =
      (Table.ofList (req.newRecords e) : Table Record.id).values.card := by
  rw [recordCount, bulkSync_get h]
  rfl

omit h in
theorem target_recordCount : (s.target e org req).records.values.card = s.recordCount req.zone := by
  rw [target, recordCount]
  cases s.zones.get (normZone req.zone)
  case none => rfl
  case some => rfl

theorem undated_bulkSync {id : Str} : (s.bulkSync e org req).store.undated req.zone id =
      ((Table.ofList (req.newRecords e) : Table Record.id).get id).map Record.undated := by
  rw [undated, bulkSync_get h]
  rfl

theorem bulkSync_replaces (hf : req.Fresh e) :
    ∃ resp, (s.bulkSync e org req).result = .ok resp ∧ s.Replaces org req (s.bulkSync e org req).store resp := by
  have hr := bulkSync_of_admits (e := e) h
  refine ⟨_, congrArg Outcome.result hr, ?_⟩
  constructor
  case others => exact fun k hk => bulkSync_get_ne h hk
  case records => exact ⟨_, bulkSync_get h, hf.holds⟩
  case deleted => exact target_recordCount
  case created => exact (recordCount_bulkSync h).symm
  case count => exact (recordCount_bulkSync h).symm
  case repeated =>
    intro hi e' id
    rw [undated_bulkSync (admits_bulkSync h), undated_bulkSync h]
    exact SyncZoneRequest.undated_newRecords hi e

end

end Store

namespace SyncZoneRequest.Sample

def request : SyncZoneRequest where
  zone := "shop.example"
  records := [
    { id := "r", name := "www", type := "A", ttl := 60, content := "192.0.2.1", priority := 0, proxied := false },
    { id := "r", name := "api", type := "A", ttl := 0, content := "192.0.2.2", priority := 0, proxied := true },
    { id := [], name := "@", type := "MX", ttl := 300, content := "mail", priority := 10, proxied := false },
    { id := "x", name := "www", type := "BOGUS", ttl := 300, content := "x", priority := 0, proxied := false }
  ]

def env : Env where
  now := 7
  uuid := fun n => List.replicate (n + 1) 'u'

theorem fresh : request.Fresh env where
  injective i j h := by simpa [env] using congrArg List.length h
  unused n := by
    refine ⟨by simp [env], fun sr hs he => ?_⟩
    have hu : 'u' ∈ sr.id := he ▸ mem_replicate.mpr ⟨by simp, rfl⟩
    have hn : ∀ sr ∈ request.valid, 'u' ∉ sr.id := by decide +kernel
    exact hn sr hs hu

end SyncZoneRequest.Sample

open SyncZoneRequest.Sample in
theorem bulkSync_replaces_new_zone : ∃ resp, (newStore.bulkSync env "acme" request).result = .ok resp ∧
      newStore.Replaces "acme" request (newStore.bulkSync env "acme" request).store resp := by
  refine Store.bulkSync_replaces (fun zd hz => ?_) fresh
  cases hz

end Hanzodns
