import HanzoDNS.Operator.Reconcile

open Finset

namespace Operator

open Table

namespace Cloudflare

def matching (t : Table Record.id) (name type : Str) : Finset Str :=
  t.keys.filter fun id => (t.get id).any fun r => r.name = name ∧ r.type = type

theorem mem_matching {t : Table Record.id} {id : Str} :
    id ∈ matching t name type ↔ ∃ r, t.get id = some r ∧ r.name = name ∧ r.type = type := by
  simp only [matching, mem_filter, mem_keys_iff]
  grind

def Service.least : Service where
  first t name type :=
    if h : (matching t name type).Nonempty then t.get ((matching t name type).min' h) else none
  newID edge zoneID _ :=
    List.replicate ((edge zoneID).keys.sup List.length + 1) 'r'
  first_some h := by
    split at h
    case isFalse => simp at h
    case isTrue hm =>
      have ⟨_, hr, ht⟩ := mem_matching.mp <| min'_mem _ hm
      have hi := key_eq h
      grind
  first_none h := by
    intro r hr hm
    split at h
    case isFalse he => exact he ⟨r.id, mem_matching.mpr ⟨r, mem_values_iff.mp hr, hm⟩⟩
    case isTrue he =>
      have ⟨_, hg, _⟩ := mem_matching.mp <| min'_mem _ he
      simp [hg] at h
  newID_ne := by simp
  newID_fresh := by
    intro edge zoneID _
    by_contra h
    have hk := mem_keys_iff.mpr <| Option.ne_none_iff_exists'.mp h
    have hl := le_sup (f := List.length) hk
    rw [List.length_replicate] at hl
    omega

namespace Edge

variable {edge edge' : Edge} {zoneID zoneID' id id' : Str} {r : Record}

theorem put_get_self : (edge.put zoneID r zoneID).get r.id = some r := by
  simp [put]

theorem put_get_ne (h : zoneID' = zoneID → id ≠ r.id) :
    (edge.put zoneID r zoneID').get id = (edge zoneID').get id := by
  simp only [put, Function.update_apply]
  split
  case isTrue hz => rw [get_put_ne (h hz), hz]
  case isFalse => rfl

theorem deleteRecord_get_self : (edge.deleteRecord zoneID id zoneID).get id = none := by
  simp [deleteRecord]

theorem deleteRecord_get_ne (h : zoneID' = zoneID → id' ≠ id) :
    (edge.deleteRecord zoneID id zoneID').get id' = (edge zoneID').get id' := by
  simp only [deleteRecord, Function.update_apply]
  split
  case isTrue hz => rw [get_drop_ne (h hz), hz]
  case isFalse => rfl

theorem deleteRecord_get_of_ne_none (h : (edge.deleteRecord zoneID id zoneID').get id' ≠ none) :
    (edge zoneID').get id' ≠ none ∧ (zoneID' = zoneID → id' ≠ id) := by
  have hn : zoneID' = zoneID → id' ≠ id := by
    rintro rfl rfl
    exact h deleteRecord_get_self
  exact ⟨deleteRecord_get_ne hn ▸ h, hn⟩

theorem updateRecord_eq_some_iff : edge.updateRecord zoneID id r = some edge' ↔
      (edge zoneID).get id ≠ none ∧ edge' = edge.put zoneID { r with id } := by
  cases h : (edge zoneID).get id <;> simp [updateRecord, h, eq_comm]

theorem updateRecord_eq_none_iff : edge.updateRecord zoneID id r = none ↔ (edge zoneID).get id = none := by
  cases h : (edge zoneID).get id <;> simp [updateRecord, h]

end Edge
end Cloudflare

namespace DnsRecord

def Wanted (record : DnsRecord) : Prop :=
  record.deletionTimestamp = none ∧ record.spec.syncToCloudflare

instance : DecidablePred Wanted :=
  fun _ => inferInstanceAs <| Decidable (_ ∧ _)

variable {record : DnsRecord}

@[simp]
theorem addFinalizer_name : record.addFinalizer.name = record.name := by
  simp only [addFinalizer]
  split <;> rfl

@[simp]
theorem addFinalizer_spec : record.addFinalizer.spec = record.spec := by
  simp only [addFinalizer]
  split <;> rfl

@[simp]
theorem addFinalizer_status : record.addFinalizer.status = record.status := by
  simp only [addFinalizer]
  split <;> rfl

@[simp]
theorem addFinalizer_deletionTimestamp : record.addFinalizer.deletionTimestamp = record.deletionTimestamp := by
  simp only [addFinalizer]
  split <;> rfl

theorem mem_addFinalizer : cloudflareFinalizer ∈ record.addFinalizer.finalizers := by
  simp only [addFinalizer]
  split
  case isTrue h => exact h
  case isFalse => simp

theorem not_mem_removeFinalizer : cloudflareFinalizer ∉ record.removeFinalizer.finalizers := by
  simp [removeFinalizer]

end DnsRecord

namespace World

variable {w : World} {record : DnsRecord} {name : Str}

theorem update_records_get_ne (h : name ≠ record.name) :
    (w.update record).records.get name = w.records.get name := by
  simp only [update]
  split
  · exact get_drop_ne h
  · exact get_put_ne h

@[simp]
theorem update_zones : (w.update record).zones = w.zones := by
  simp only [update]
  split <;> rfl

@[simp]
theorem update_edge : (w.update record).edge = w.edge := by
  simp only [update]
  split <;> rfl

@[simp]
theorem update_created : (w.update record).created = w.created := by
  simp only [update]
  split <;> rfl

theorem update_eq_put (h : record.deletionTimestamp = none) :
    w.update record = { w with records := w.records.put record } := by
  simp [update, h]

theorem delete_eq (h : w.records.get name = some record) (now : Nat) : (∃ t, w.delete name now =
      { w with records := w.records.put { record with deletionTimestamp := some t } }) ∨
    record.finalizers = [] ∧ w.delete name now = { w with records := w.records.drop name } := by
  obtain rfl : record.name = name := key_eq h
  simp only [delete, h, update]
  split
  case isTrue hd =>
    have ⟨t, ht⟩ := Option.isSome_iff_exists.mp hd
    have he : { record with deletionTimestamp := some t } = record := by rw [←ht]
    exact .inl ⟨t, by rw [he, put_get_eq_self h]⟩
  case isFalse =>
    split
    case isTrue hf => exact .inr ⟨hf.2, rfl⟩
    case isFalse => exact .inl ⟨now, rfl⟩

theorem delete_missing (h : w.records.get name = none) (now : Nat) : w.delete name now = w := by
  simp [delete, h]

end World

namespace CloudflareReconciler

open Operator.Cloudflare

-- What `ensure` does to Cloudflare: the new state, the records that it creates, and the id it returns.
inductive Ensured (edge : Edge) (zoneID id : Str) (des : Record) : Edge → List (Str × Str) → Str → Prop
  | overwrite (known : id ≠ []) (stored : (edge zoneID).get id ≠ none) :
    Ensured edge zoneID id des (edge.put zoneID { des with id }) [] id
  | adopt (unknown : id = []) (stored : (edge zoneID).get e.id = some e)
      (name : e.name = des.name) (type : e.type = des.type) :
    Ensured edge zoneID id des (edge.put zoneID { des with id := e.id }) [] e.id
  | create (unknown : id = []) (ne : new ≠ []) (fresh : (edge zoneID).get new = none) :
    Ensured edge zoneID id des (edge.put zoneID { des with id := new }) [(zoneID, new)] new

section

variable {cf : Service} {w w' : World} {zoneID id : Str} {des : Record}

theorem ensure_ok (h : ensure cf w zoneID id des = (w', .ok id')) :
    ∃ edge new, Ensured w.edge zoneID id des edge new id' ∧
      w' = { w with edge, created := new ++ w.created } := by
  simp only [ensure] at h
  split at h
  case isTrue hi =>
    split at h
    case h_1 e hf =>
      have ⟨hg, hn, ht⟩ := cf.first_some hf
      split at h
      case h_1 => simp at h
      case h_2 hu =>
        have ⟨_, he⟩ := Edge.updateRecord_eq_some_iff.mp hu
        simp only [Prod.mk.injEq, Except.ok.injEq] at h
        obtain ⟨rfl, rfl⟩ := h
        exact ⟨_, [], he ▸ .adopt hi hg hn ht, rfl⟩
    case h_2 =>
      simp only [Edge.createRecord, Prod.mk.injEq, Except.ok.injEq] at h
      obtain ⟨rfl, rfl⟩ := h
      exact ⟨_, _, .create hi cf.newID_ne cf.newID_fresh, rfl⟩
  case isFalse hi =>
    split at h
    case h_1 => simp at h
    case h_2 hu =>
      have ⟨hg, he⟩ := Edge.updateRecord_eq_some_iff.mp hu
      simp only [Prod.mk.injEq, Except.ok.injEq] at h
      obtain ⟨rfl, rfl⟩ := h
      exact ⟨_, [], he ▸ .overwrite hi hg, rfl⟩

theorem ensure_error (h : ensure cf w zoneID id des = (w', .error e)) : w' = w := by
  simp only [ensure] at h
  split at h <;> split at h <;> try split at h
  all_goals simp_all

theorem ensure_error_iff :
    (∃ e, (ensure cf w zoneID id des).2 = .error e) ↔ id ≠ [] ∧ (w.edge zoneID).get id = none := by
  simp only [ensure]
  split
  case isTrue hi =>
    split
    case h_1 e hf =>
      have ⟨hg, _⟩ := cf.first_some hf
      split
      case h_1 hu => simp [Edge.updateRecord_eq_none_iff.mp hu] at hg
      case h_2 => simp [hi]
    case h_2 => simp [hi]
  case isFalse hi =>
    split
    case h_1 hu => simp [hi, Edge.updateRecord_eq_none_iff.mp hu]
    case h_2 hu => simp [Edge.updateRecord_eq_some_iff.mp hu]

end

variable (r : CloudflareReconciler) (f : Faults) (now : Nat) (w : World) (record : DnsRecord)

def releasedEdge : Edge :=
  let zoneID := w.zoneID f.zoneID record.spec.zoneRef
  let id := record.status.cloudflareRecordID
  if zoneID ≠ [] ∧ id ≠ [] ∧ r.cf.isSome then w.edge.deleteRecord zoneID id else w.edge

-- Everything that a run for a stored record can do: what becomes of the record, the state of
-- Cloudflare, and the records that are created there.
inductive Run : Option DnsRecord → Edge → List (Str × Str) → Prop
  | idle : Run record w.edge []
  | mark (wanted : record.Wanted) : Run record.markError w.edge []
  -- The update that removes the finalizer can fail, and it can be what removes the object.
  | release (unwanted : ¬record.Wanted) (mem : cloudflareFinalizer ∈ record.finalizers)
      (left : if f.update then record' = some record else
        record' = some record.removeFinalizer ∨ record' = none) :
    Run record' (r.releasedEdge f w record) []
  | refused (wanted : record.Wanted) : Run record.addFinalizer w.edge []
  | push {id : Str} (wanted : record.Wanted) (zone : w.zoneID f.zoneID record.spec.zoneRef ≠ [])
      (client : r.cf.isSome)
      (ensured :
        Ensured w.edge (w.zoneID f.zoneID record.spec.zoneRef) record.status.cloudflareRecordID
          (desired record.spec (w.zoneName f.zoneName record.spec.zoneRef)) edge new id) :
    Run (if f.status then record.addFinalizer else record.addFinalizer.markActive id now) edge new

-- The part of the world that a run for `name` can change is described by `Run`.
structure Ran (name : Str) (w' : World) : Prop where
  zones : w'.zones = w.zones
  records : ∀ n ≠ name, w'.records.get n = w.records.get n
  run : ∃ new, Run r f now w record (w'.records.get name) w'.edge new ∧ w'.created = new ++ w.created

variable {r f now w record} {name : Str}

theorem release_ran (h : w.records.get name = some record) (hw : ¬record.Wanted) : Ran r f now w record name
      (r.release f w record (w.zoneID f.zoneID record.spec.zoneRef)).1 := by
  have hn : record.name = name := key_eq h
  simp only [release]
  split
  case isFalse => exact ⟨rfl, fun _ _ => rfl, [], h ▸ .idle, rfl⟩
  case isTrue hf =>
    have he : (if w.zoneID f.zoneID record.spec.zoneRef ≠ [] ∧
        record.status.cloudflareRecordID ≠ [] ∧ r.cf.isSome then
        { w with edge := w.edge.deleteRecord (w.zoneID f.zoneID record.spec.zoneRef)
                  record.status.cloudflareRecordID } else w) =
        { w with edge := r.releasedEdge f w record } := by
      simp only [releasedEdge]
      split <;> rfl
    rw [he]
    split
    case isTrue hu => exact ⟨rfl, fun _ _ => rfl, [], .release hw hf (by simp [hu, h]), rfl⟩
    case isFalse hu =>
      refine ⟨by simp, fun n hn' => ?_, [], ?_, by simp⟩
      case refine_1 => exact World.update_records_get_ne (show n ≠ record.name from hn ▸ hn')
      case refine_2 =>
        rw [World.update_edge]
        refine .release hw hf ?_
        simp only [World.update, hu, if_false, Bool.false_eq_true]
        split
        · exact .inr (hn ▸ get_drop_self)
        · exact .inl (hn ▸ get_put_self)

theorem push_ran {cf : Service} (h : w.records.get name = some record) (hw : record.Wanted)
    (hz : w.zoneID f.zoneID record.spec.zoneRef ≠ []) (hc : r.cf.isSome) :
    Ran r f now w record name (push f cf now w record (w.zoneID f.zoneID record.spec.zoneRef)).1 := by
  have hn : record.name = name := key_eq h
  simp only [push]
  split
  case isTrue => exact ⟨rfl, fun _ _ => rfl, [], h ▸ .idle, rfl⟩
  case isFalse =>
    -- Whether or not the finalizer was there before, the record is now stored with it.
    have hs : (if record.addFinalizer ≠ record then w.update record.addFinalizer else w) =
        { w with records := w.records.put record.addFinalizer } := by
      split
      case isTrue => exact World.update_eq_put (by simp [hw.1])
      case isFalse he =>
        rw [not_not.mp he, put_get_eq_self (hn.symm ▸ h)]
    rw [hs]
    have hg {record' : DnsRecord} (hr : record'.name = name) (t : Table DnsRecord.name) :
        (t.put record').get name = some record' := hr ▸ get_put_self
    have hne {record' : DnsRecord} (hr : record'.name = name) (t : Table DnsRecord.name) :
        ∀ n ≠ name, (t.put record').get n = t.get n := fun _ hn' => get_put_ne (hr ▸ hn')
    have ha : record.addFinalizer.name = name := by simp [hn]
    split
    case h_1 e hu =>
      rw [ensure_error hu]
      exact ⟨rfl, hne ha _, [], (hg ha _).symm ▸ .refused hw, rfl⟩
    case h_2 id hu =>
      obtain ⟨edge, new, hen, rfl⟩ := ensure_ok hu
      have hp : Run r f now w record _ edge new := .push hw hz hc hen
      split <;> rename_i hf <;> simp only [hf, if_true, if_false, Bool.false_eq_true] at hp
      case isTrue => exact ⟨rfl, hne ha _, new, (hg ha _).symm ▸ hp, rfl⟩
      case isFalse =>
        have hm : (record.addFinalizer.markActive id now).name = name := ha
        exact ⟨rfl, fun n hn' => (hne hm _ n hn').trans (hne ha _ n hn'), new, (hg hm _).symm ▸ hp, rfl⟩

theorem reconcile_ran (h : w.records.get name = some record) :
    Ran r f now w record name (r.reconcile f now w name).1 := by
  have idle : Ran r f now w record name w := ⟨rfl, fun _ _ => rfl, [], h ▸ .idle, rfl⟩
  simp only [reconcile, h]
  split
  case isTrue => exact idle
  case isFalse =>
    split
    case isTrue hd => exact release_ran h (by simp_all [DnsRecord.Wanted, Option.isSome_iff_ne_none])
    case isFalse hd =>
      split
      case isTrue hs => exact release_ran h (by simp_all [DnsRecord.Wanted])
      case isFalse hs =>
        have hw : record.Wanted := ⟨by simpa using hd, by simpa using hs⟩
        split
        case h_1 => exact idle
        case h_2 cf hc =>
          split
          case isFalse hz => exact push_ran h hw hz (by simp [hc])
          case isTrue =>
            split
            case isTrue => exact idle
            case isFalse =>
              have hn : record.markError.name = name := show record.name = name from key_eq h
              have hg : (w.records.put record.markError).get name = some record.markError :=
                hn ▸ get_put_self
              exact ⟨rfl, fun n hn' => get_put_ne (hn ▸ hn'), [], hg.symm ▸ .mark hw, rfl⟩

theorem reconcile_missing (h : w.records.get name = none) : (r.reconcile f now w name).1 = w := by
  simp only [reconcile, h]
  split <;> rfl

end CloudflareReconciler

-- A cluster with one zone, before anything has been pushed.
namespace Sample

def zone : DnsZone where
  name := "z"
  zone := "example.com"
  cloudflareZoneID := "cf"

def record (name recordName content : Str) : DnsRecord where
  name := name
  deletionTimestamp := none
  finalizers := []
  spec := {
    zoneRef := "z"
    name := recordName
    type := "A"
    content := content
    ttl := 300
    priority := none
    proxied := false
    syncToCloudflare := true }
  status := { phase := none, cloudflareRecordID := [], lastSyncTime := none }

def world (records : List DnsRecord) : World where
  records := .ofList records
  zones := [zone]
  edge := fun _ => ∅
  created := []

def reconciler : CloudflareReconciler where
  cf := some .least

end Sample
end Operator
