import HanzoDNS.Lib.Transition
import HanzoDNS.Operator.Theorems.Reconcile

open Option

namespace Operator.Lifecycle

open CloudflareReconciler Cloudflare.Edge DnsRecord Table

-- What can happen to one record: it is reconciled, its specification is edited, it is deleted; the zones of
-- the cluster are edited; and somebody else deletes a record at Cloudflare.
inductive Event
  | reconcile (f : Faults) (now : Nat)
  | editSpec (spec : DnsRecordSpec)
  | editZones (zones : List DnsZone)
  | delete (now : Nat)
  | lose (zoneID id : Str)

def Event.apply (r : CloudflareReconciler) (name : Str) (w : World) : Event → World
  | reconcile f now => (r.reconcile f now w name).1
  | editSpec spec =>
    match w.records.get name with
    | none => w
    | some record => { w with records := w.records.put { record with spec } }
  | editZones zones => { w with zones }
  | delete now => w.delete name now
  | lose zoneID id => { w with edge := w.edge.deleteRecord zoneID id }

abbrev Run (r : CloudflareReconciler) (name : Str) : World → List Event → World → Prop :=
  Steps fun w e w' => w' = e.apply r name w

variable {r : CloudflareReconciler} {name : Str} {w w' : World} {record : DnsRecord} {e : Event}

theorem zoneID_of_ne_nil {fault : Bool} {ref : Str} (h : w.zoneID fault ref ≠ []) :
    w.zoneID fault ref = w.zoneID false ref := by
  cases fault
  case false => rfl
  case true => simp [World.zoneID, World.zone] at h

section Cleanup

def Clean (name : Str) (w : World) : Prop :=
  (∀ {record}, w.records.get name = some record → cloudflareFinalizer ∉ record.finalizers) →
    ∀ {zoneID id}, (zoneID, id) ∈ w.created → (w.edge zoneID).get id = none

-- Nothing changes the id of the zone while the finalizer is there, the zones can be listed when the record
-- is released, and its status can be written when it is pushed.
def Event.SafeFor (w : World) (record : DnsRecord) : Event → Prop
  | reconcile f _ => if record.Wanted then ¬f.status else ¬f.zoneID
  | editSpec spec => cloudflareFinalizer ∈ record.finalizers →
    w.zoneID false spec.zoneRef = w.zoneID false record.spec.zoneRef
  | editZones zones => cloudflareFinalizer ∈ record.finalizers →
    { w with zones }.zoneID false record.spec.zoneRef = w.zoneID false record.spec.zoneRef
  | delete _ => True
  | lose .. => True

instance : (e : Event) → Decidable (e.SafeFor w record)
  | .reconcile .. => inferInstanceAs <| Decidable (if record.Wanted then _ else _)
  | .editSpec _ => inferInstanceAs <| Decidable (_ → _)
  | .editZones _ => inferInstanceAs <| Decidable (_ → _)
  | .delete _ => inferInstanceAs <| Decidable True
  | .lose .. => inferInstanceAs <| Decidable True

def Event.Safe (name : Str) (w : World) (e : Event) : Prop :=
  ∀ record ∈ w.records.get name, e.SafeFor w record

instance : Decidable (Event.Safe name w e) :=
  inferInstanceAs <| Decidable (∀ _ ∈ _, _)

-- The record `id` at Cloudflare can be found again by the next run that releases it.
structure Traced (r : CloudflareReconciler) (name : Str) (w : World) (zoneID id : Str) : Prop where
  client : r.cf.isSome
  zone : zoneID ≠ []
  known : id ≠ []
  record : ∃ record, w.records.get name = some record ∧ cloudflareFinalizer ∈ record.finalizers ∧
    record.status.cloudflareRecordID = id ∧ w.zoneID false record.spec.zoneRef = zoneID

def Tracked (r : CloudflareReconciler) (name : Str) (w : World) : Prop :=
  ∀ zoneID id, (zoneID, id) ∈ w.created → (w.edge zoneID).get id ≠ none → Traced r name w zoneID id

theorem Tracked.clean (t : Tracked r name w) : Clean name w := by
  intro h zoneID id hc
  by_contra he
  have ⟨record, hr, hf, _⟩ := (t _ _ hc he).record
  exact h hr hf

theorem Traced.mono (t : Traced r name w zoneID id')
    (h : ∀ {record}, w.records.get name = some record → cloudflareFinalizer ∈ record.finalizers →
      ∃ new, w'.records.get name = some new ∧ cloudflareFinalizer ∈ new.finalizers ∧
        new.status.cloudflareRecordID = record.status.cloudflareRecordID ∧
        w'.zoneID false new.spec.zoneRef = w.zoneID false record.spec.zoneRef) : Traced r name w' zoneID id' :=
  have ⟨_, hr, hf, hi, hz⟩ := t.record
  have ⟨new, hr', hf', hi', hz'⟩ := h hr hf
  { t with record := ⟨new, hr', hf', hi'.trans hi, hz'.trans hz⟩ }

theorem releasedEdge_get_eq_none {f : Faults} {zoneID id : Str} (h : (w.edge zoneID).get id = none) :
    (r.releasedEdge f w record zoneID).get id = none := by
  simp only [releasedEdge]
  split
  case isFalse => exact h
  case isTrue =>
    by_contra hn
    exact (deleteRecord_get_of_ne_none hn).1 h

theorem Tracked.reconcile (t : Tracked r name w) {f : Faults} {now : Nat}
    (safe : Event.Safe name w (.reconcile f now)) : Tracked r name (r.reconcile f now w name).1 := by
  cases h : w.records.get name
  case none => exact (r.reconcile_missing h).symm ▸ t
  case some record =>
    obtain ⟨hz, -, new, hrun, hc⟩ := r.reconcile_ran h
    generalize (r.reconcile f now w name).1 = w' at hz hrun hc
    generalize hg : w'.records.get name = record' at hrun
    generalize he : w'.edge = edge at hrun
    have zoneID_eq {fault ref} : w'.zoneID fault ref = w.zoneID fault ref := by
      simp [World.zoneID, World.zone, hz]
    -- The record as the run leaves it traces what the old one has traced.
    have keep {zoneID id : Str} {new : DnsRecord} (tr : Traced r name w zoneID id)
        (hr : w'.records.get name = some new)
        (hf : cloudflareFinalizer ∈ record.finalizers → cloudflareFinalizer ∈ new.finalizers)
        (hi : new.status.cloudflareRecordID = record.status.cloudflareRecordID)
        (hs : new.spec = record.spec) : Traced r name w' zoneID id := by
      refine tr.mono fun hr' hf' => ⟨new, hr, ?_⟩
      obtain rfl := some_inj.mp <| h.symm.trans hr'
      exact ⟨hf hf', hi, by rw [zoneID_eq, hs]⟩
    intro zoneID id hm hne
    rw [hc] at hm
    rw [he] at hne
    cases hrun
    case idle => exact keep (t _ _ hm hne) hg (fun hf => hf) rfl rfl
    case mark => exact keep (t _ _ hm hne) hg (fun hf => hf) rfl rfl
    case refused => exact keep (t _ _ hm hne) hg (fun _ => mem_addFinalizer) (by simp) (by simp)
    case release hw hf _ =>
      -- The record at Cloudflare is the one that the run has deleted.
      exfalso
      have hs : f.zoneID = false := by simpa [Event.SafeFor, hw] using safe _ h
      have hne' : (w.edge zoneID).get id ≠ none := fun hn => hne (releasedEdge_get_eq_none hn)
      have tr := t _ _ hm hne'
      obtain ⟨_, hr, _, rfl, rfl⟩ := tr.record
      obtain rfl := some_inj.mp <| h.symm.trans hr
      refine hne ?_
      simp only [releasedEdge, hs]
      rw [if_pos ⟨tr.zone, tr.known, tr.client⟩]
      exact deleteRecord_get_self
    case push id' hw hzi hcf hen =>
      have hs : f.status = false := by simpa [Event.SafeFor, hw] using safe _ h
      simp only [hs, Bool.false_eq_true, if_false] at hg
      rw [zoneID_of_ne_nil hzi] at hen hzi
      -- A record without an id has created nothing that is still there.
      have fresh (hi : record.status.cloudflareRecordID = []) {zoneID id : Str}
          (hm : (zoneID, id) ∈ w.created) : (w.edge zoneID).get id = none := by
        by_contra hn
        have tr := t _ _ hm hn
        obtain ⟨_, hr, _, rfl, _⟩ := tr.record
        obtain rfl := some_inj.mp <| h.symm.trans hr
        exact tr.known hi
      cases hen
      case overwrite _ hst =>
        have hne' : (w.edge zoneID).get id ≠ none := fun hn => hne <| by
          rw [put_get_ne, hn]
          rintro rfl rfl
          exact hst hn
        exact keep (t _ _ hm hne') hg (fun _ => mem_addFinalizer) rfl (by simp [markActive])
      case adopt e hi hst _ _ =>
        have hn := fresh hi hm
        refine absurd ?_ hne
        rw [put_get_ne, hn]
        rintro rfl rfl
        simp [hst] at hn
      case create hi hn _ =>
        by_cases he : zoneID = w.zoneID false record.spec.zoneRef ∧ id = id'
        case pos =>
          refine ⟨hcf, he.1 ▸ hzi, he.2 ▸ hn, _, hg, mem_addFinalizer, he.2.symm, ?_⟩
          simp [zoneID_eq, markActive, he.1]
        case neg =>
          have hm := (List.mem_cons.mp hm).resolve_left fun h => he (Prod.mk.inj h)
          refine absurd ?_ hne
          rw [put_get_ne fun hz hi => he ⟨hz, hi⟩]
          exact fresh hi hm

theorem Tracked.apply (t : Tracked r name w) (safe : e.Safe name w) : Tracked r name (e.apply r name w) := by
  cases e
  case reconcile => exact t.reconcile safe
  case editSpec spec =>
    simp only [Event.apply]
    split
    case h_1 => exact t
    case h_2 record h =>
      obtain rfl : record.name = name := key_eq h
      intro zoneID id hm hne
      refine (t _ _ hm hne).mono fun hr hf => ⟨_, get_put_self, ?_⟩
      obtain rfl := some_inj.mp <| h.symm.trans hr
      exact ⟨hf, rfl, safe _ hr hf⟩
  case editZones zones =>
    intro zoneID id hm hne
    exact (t _ _ hm hne).mono fun hr hf => ⟨_, hr, hf, rfl, safe _ hr hf⟩
  case delete now =>
    simp only [Event.apply]
    cases h : w.records.get name
    case none => exact (World.delete_missing h now).symm ▸ t
    case some record =>
      obtain rfl : record.name = name := key_eq h
      intro zoneID id
      obtain ⟨_, he⟩ | ⟨hf, he⟩ := World.delete_eq h now <;> rw [he] <;> intro hm hne
      case inl =>
        refine (t _ _ hm hne).mono fun hr hf => ⟨_, get_put_self, ?_⟩
        obtain rfl := some_inj.mp <| h.symm.trans hr
        exact ⟨hf, rfl, rfl⟩
      case inr =>
        -- Without finalizers there was nothing to be traced.
        have ⟨_, hr, hm', _⟩ := (t _ _ hm hne).record
        obtain rfl := some_inj.mp <| h.symm.trans hr
        simp [hf] at hm'
  case lose =>
    intro zoneID id hm hne
    exact (t _ _ hm (deleteRecord_get_of_ne_none hne).1).mono fun hr hf => ⟨_, hr, hf, rfl, rfl⟩

abbrev SafeRun (r : CloudflareReconciler) (name : Str) : World → List Event → World → Prop :=
  Steps fun w e w' => e.Safe name w ∧ w' = e.apply r name w

-- If all steps of a run are safe, then the reconciler never loses track of a record it has created.
theorem no_orphans {es : List Event} (start : w.created = [])
    (run : SafeRun r name w es w') : Clean name w' := by
  have init : Tracked r name w := by simp [Tracked, start]
  refine (run.invariant (P := Tracked r name) ?_ init).clean
  intro _ _ _ t h
  exact h.2 ▸ t.apply h.1

open Sample

def sample : World :=
  world [Sample.record "a" "www" "192.0.2.1"]

def optOut : DnsRecordSpec :=
  { (Sample.record "a" "www" "192.0.2.1").spec with syncToCloudflare := false }

def run (name : Str) (w : World) (es : List Event) : World :=
  es.foldl (Event.apply reconciler name) w

theorem no_orphans_opt_out :
    let w := run "a" sample [.reconcile {} 1, .editSpec optOut, .reconcile {} 2]
    (("cf" : Str), ("r" : Str)) ∈ w.created ∧ (w.edge "cf").get "r" = none ∧ Clean "a" w := by
  refine ⟨by decide +kernel, by decide +kernel, ?_⟩
  have safe : SafeRun reconciler "a" sample [.reconcile {} 1, .editSpec optOut, .reconcile {} 2] _ :=
    .trans ⟨by decide +kernel, rfl⟩ <| .trans ⟨by decide +kernel, rfl⟩ <|
      .trans ⟨by decide +kernel, rfl⟩ .refl
  exact no_orphans rfl safe

-- The zone is deleted before the record is opted out. All calls succeed, and the record at Cloudflare stays.
theorem orphan_of_zone_deletion :
    let w := run "a" sample [.reconcile {} 1, .editZones [], .editSpec optOut, .reconcile {} 2]
    sample.created = [] ∧
    Run reconciler "a" sample [.reconcile {} 1, .editZones [], .editSpec optOut, .reconcile {} 2] w ∧
    ¬Clean "a" w := by
  intro w
  refine ⟨rfl, .trans rfl <| .trans rfl <| .trans rfl <| .trans rfl .refl, fun clean => ?_⟩
  have free : ∀ record ∈ w.records.get "a", cloudflareFinalizer ∉ record.finalizers := by decide +kernel
  have hc : (("cf" : Str), ("r" : Str)) ∈ w.created := by decide +kernel
  have he : (w.edge "cf").get "r" ≠ none := by decide +kernel
  exact he <| clean (fun h => free _ h) hc

end Cleanup

section Convergence

-- A run of the reconciler, with all calls to Kubernetes successful, has no error and leaves the desired
-- record at Cloudflare, under the id in the status.
def Converges (r : CloudflareReconciler) (now : Nat) (name : Str) (w : World) (record : DnsRecord) : Prop :=
  let zoneID := w.zoneID false record.spec.zoneRef
  let des := desired record.spec (w.zoneName false record.spec.zoneRef)
  (∃ result, (r.reconcile {} now w name).2 = .ok result) ∧
  ∃ record', (r.reconcile {} now w name).1.records.get name = some record' ∧
    ((r.reconcile {} now w name).1.edge zoneID).get record'.status.cloudflareRecordID =
      some { des with id := record'.status.cloudflareRecordID }

def Linked (w : World) (record : DnsRecord) : Prop :=
  record.status.cloudflareRecordID = [] ∨
    (w.edge (w.zoneID false record.spec.zoneRef)).get record.status.cloudflareRecordID ≠ none

theorem ensured_get {edge edge' : Cloudflare.Edge} {zoneID id id' : Str} {des : Cloudflare.Record}
    (h : CloudflareReconciler.Ensured edge zoneID id des edge' new id') :
    (edge' zoneID).get id' = some { des with id := id' } := by
  cases h <;> exact put_get_self

theorem converges_iff {now : Nat} (client : r.cf.isSome) (h : w.records.get name = some record)
    (hw : record.Wanted) (hz : w.zoneID false record.spec.zoneRef ≠ []) :
    Converges r now name w record ↔ Linked w record := by
  have ⟨cf, hc⟩ := isSome_iff_exists.mp client
  have hr : r.reconcile {} now w name =
      push {} cf now w record (w.zoneID false record.spec.zoneRef) := by
    simp [reconcile, h, hw.1, hw.2, hc, hz]
  obtain rfl : record.name = name := key_eq h
  simp only [Converges, hr, push, Bool.false_eq_true, and_false, if_false]
  generalize hw₁ : (if record.addFinalizer ≠ record then w.update record.addFinalizer else w) = w₁
  have he : w₁.edge = w.edge := by
    rw [←hw₁]
    split <;> simp
  have hi : (∃ e, (ensure cf w₁ (w.zoneID false record.spec.zoneRef)
      record.status.cloudflareRecordID
      (desired record.spec (w.zoneName false record.spec.zoneRef))).2 = .error e) ↔ _ :=
    ensure_error_iff
  rw [he] at hi
  split
  case h_1 e hu =>
    have hl := hi.mp ⟨e, by rw [hu]⟩
    simp [Linked, hl]
  case h_2 w₂ id' hu =>
    obtain ⟨edge, new, hen, he'⟩ := ensure_ok hu
    have hl : Linked w record := by
      by_contra hn
      obtain ⟨e, hu'⟩ := hi.mpr (by simpa [Linked] using hn)
      simp [hu] at hu'
    have hg : (w₂.records.put (record.addFinalizer.markActive id' now)).get record.name = _ :=
      get_put_of_key_eq (by simp [markActive])
    refine iff_of_true ⟨⟨_, rfl⟩, record.addFinalizer.markActive id' now, hg, ?_⟩ hl
    rw [he']
    exact ensured_get hen

-- Nothing is released or lost that the status still refers to, and nothing changes the id of its zone.
def Event.KeepsFor (w : World) (record : DnsRecord) : Event → Prop
  | reconcile .. => record.Wanted ∨ cloudflareFinalizer ∉ record.finalizers ∨
    record.status.cloudflareRecordID = []
  | editSpec spec => record.status.cloudflareRecordID ≠ [] →
    w.zoneID false spec.zoneRef = w.zoneID false record.spec.zoneRef
  | editZones zones => record.status.cloudflareRecordID ≠ [] →
    { w with zones }.zoneID false record.spec.zoneRef = w.zoneID false record.spec.zoneRef
  | delete _ => True
  | lose zoneID id => zoneID = w.zoneID false record.spec.zoneRef → id ≠ record.status.cloudflareRecordID

instance : (e : Event) → Decidable (e.KeepsFor w record)
  | .reconcile .. => inferInstanceAs <| Decidable (_ ∨ _ ∨ _)
  | .editSpec _ => inferInstanceAs <| Decidable (_ → _)
  | .editZones _ => inferInstanceAs <| Decidable (_ → _)
  | .delete _ => inferInstanceAs <| Decidable True
  | .lose .. => inferInstanceAs <| Decidable (_ → _)

def Event.Keeps (name : Str) (w : World) (e : Event) : Prop :=
  ∀ record ∈ w.records.get name, e.KeepsFor w record

instance : Decidable (Event.Keeps name w e) :=
  inferInstanceAs <| Decidable (∀ _ ∈ _, _)

abbrev KeepingRun (r : CloudflareReconciler) (name : Str) : World → List Event → World → Prop :=
  Steps fun w e w' => e.Keeps name w ∧ w' = e.apply r name w

theorem Linked.of_eq {record' : DnsRecord} (l : Linked w record)
    (id : record'.status.cloudflareRecordID = record.status.cloudflareRecordID)
    (zone : record.status.cloudflareRecordID ≠ [] →
      w'.zoneID false record'.spec.zoneRef = w.zoneID false record.spec.zoneRef)
    (edge : (w'.edge (w.zoneID false record.spec.zoneRef)).get record.status.cloudflareRecordID =
      (w.edge (w.zoneID false record.spec.zoneRef)).get record.status.cloudflareRecordID) :
    Linked w' record' := by
  by_cases hi : record.status.cloudflareRecordID = []
  case pos => exact .inl (id.trans hi)
  case neg => exact .inr <| by rw [id, zone hi, edge]; exact l.resolve_left hi

theorem Linked.reconcile {f : Faults} {now : Nat} {record' : DnsRecord} (l : Linked w record)
    (h : w.records.get name = some record) (keeps : Event.KeepsFor w record (.reconcile f now))
    (h' : (r.reconcile f now w name).1.records.get name = some record') :
    Linked (r.reconcile f now w name).1 record' := by
  obtain ⟨hz, -, new, hrun, -⟩ := r.reconcile_ran h
  generalize (r.reconcile f now w name).1 = w' at hz hrun h'
  have zoneID_eq {ref} : w'.zoneID false ref = w.zoneID false ref := by
    simp [World.zoneID, World.zone, hz]
  rw [h'] at hrun
  generalize he : w'.edge = edge at hrun
  generalize hr : some record' = stored at hrun
  cases hrun
  case idle =>
    obtain rfl := some_inj.mp hr
    exact l.of_eq rfl (fun _ => zoneID_eq) (he ▸ rfl)
  case mark =>
    obtain rfl := some_inj.mp hr
    exact l.of_eq rfl (fun _ => zoneID_eq) (he ▸ rfl)
  case refused =>
    obtain rfl := some_inj.mp hr
    exact l.of_eq (by simp) (fun _ => by simp [zoneID_eq]) (he ▸ rfl)
  case release hw hf hl =>
    -- There was no id to be released.
    have hi : record.status.cloudflareRecordID = [] := (keeps.resolve_left hw).resolve_left (not_not_intro hf)
    left
    split at hl
    · simp_all
    · obtain hl | hl := hl <;> simp_all [removeFinalizer]
  case push id' hw hzi _ hen =>
    rw [zoneID_of_ne_nil hzi] at hen
    have hg := ensured_get hen
    split at hr <;> obtain rfl := some_inj.mp hr
    case isFalse =>
      right
      simpa [zoneID_eq, he, markActive] using ne_none_iff_exists'.mpr ⟨_, hg⟩
    case isTrue =>
      -- The status could not be written, which only matters if it already had an id.
      by_cases hi : record.status.cloudflareRecordID = []
      case pos => exact .inl (by simp [hi])
      case neg =>
        have hid : id' = record.status.cloudflareRecordID := by
          cases hen
          case overwrite => rfl
          all_goals contradiction
        right
        simpa [zoneID_eq, he] using ne_none_iff_exists'.mpr ⟨_, hid ▸ hg⟩

def Intact (name : Str) (w : World) : Prop :=
  ∀ record ∈ w.records.get name, Linked w record

theorem Intact.apply (i : Intact name w) (keeps : e.Keeps name w) : Intact name (e.apply r name w) := by
  intro record' h'
  cases h : w.records.get name
  case none =>
    -- None of the steps creates a record.
    exfalso
    cases e <;> simp_all [Event.apply, World.delete, reconcile_missing]
  case some record =>
    have l := i record h
    have k := keeps record h
    obtain rfl : record.name = name := key_eq h
    cases e
    case reconcile => exact l.reconcile h k h'
    case editSpec spec =>
      simp only [Event.apply, h] at h' ⊢
      obtain rfl := some_inj.mp <| get_put_self.symm.trans h'
      exact l.of_eq rfl k rfl
    case editZones =>
      obtain rfl := some_inj.mp <| h.symm.trans h'
      exact l.of_eq rfl k rfl
    case delete now =>
      simp only [Event.apply] at h' ⊢
      obtain ⟨_, he⟩ | ⟨_, he⟩ := World.delete_eq h now <;> rw [he] at h' ⊢
      case inl =>
        obtain rfl := some_inj.mp <| get_put_self.symm.trans h'
        exact l.of_eq rfl (fun _ => rfl) rfl
      case inr => simp at h'
    case lose =>
      obtain rfl := some_inj.mp <| h.symm.trans h'
      exact l.of_eq rfl (fun _ => rfl) <| deleteRecord_get_ne fun hz => (k hz.symm).symm

-- In every state, a record that is opted in converges exactly if the id in its status is known to
-- Cloudflare. This is the case after every run that keeps what the status refers to.
theorem opt_in_converges {now : Nat} (client : r.cf.isSome) (stored : w.records.get name = some record)
    (wanted : record.Wanted) (zone : w.zoneID false record.spec.zoneRef ≠ []) :
    (Converges r now name w record ↔ Linked w record) ∧
    ∀ w₀ es, (∀ record ∈ w₀.records.get name, record.status.cloudflareRecordID = []) →
      KeepingRun r name w₀ es w → Converges r now name w record := by
  have iff : Converges r now name w record ↔ Linked w record := converges_iff client stored wanted zone
  refine ⟨iff, fun w₀ es start run => iff.mpr ?_⟩
  have init : Intact name w₀ := fun record h => .inl (start record h)
  refine run.invariant (P := Intact name) ?_ init record stored
  intro _ _ _ i h
  exact h.2 ▸ i.apply h.1

open Sample

def renamed : DnsRecordSpec :=
  { (Sample.record "a" "www" "192.0.2.1").spec with name := "web" }

theorem opt_in_converges_rename :
    let w := run "a" sample [.reconcile {} 1, .editSpec renamed]
    ∃ record, w.records.get "a" = some record ∧ record.spec = renamed ∧
      record.status.cloudflareRecordID = ("r" : Str) ∧ Converges reconciler 2 "a" w record := by
  intro w
  have ⟨record, stored, wanted, spec, id⟩ : ∃ record ∈ w.records.get "a", record.Wanted ∧ record.spec = renamed ∧
      record.status.cloudflareRecordID = ("r" : Str) := by decide +kernel
  have zone : w.zoneID false record.spec.zoneRef ≠ [] := spec ▸ by decide +kernel
  have keeping : KeepingRun reconciler "a" sample [.reconcile {} 1, .editSpec renamed] w :=
    .trans ⟨by decide +kernel, rfl⟩ <| .trans ⟨by decide +kernel, rfl⟩ .refl
  have start : ∀ record ∈ sample.records.get "a", record.status.cloudflareRecordID = [] := by decide +kernel
  exact ⟨record, stored, spec, id, (opt_in_converges rfl stored wanted zone).2 _ _ start keeping⟩

-- A record is pushed, opted out, released and opted in again. Its status still has the id of the record
-- that was deleted at Cloudflare.
theorem opt_in_again_fails :
    let w := run "a" sample [.reconcile {} 1, .editSpec optOut, .reconcile {} 2,
      .editSpec (Sample.record "a" "www" "192.0.2.1").spec]
    ∃ record, w.records.get "a" = some record ∧ record.Wanted ∧
      w.zoneID false record.spec.zoneRef ≠ [] ∧ ¬Converges reconciler 3 "a" w record := by
  intro w
  have ⟨record, stored, wanted, zone⟩ : ∃ record ∈ w.records.get "a", record.Wanted ∧
      w.zoneID false record.spec.zoneRef ≠ [] := by decide +kernel
  refine ⟨record, stored, wanted, zone, fun ⟨⟨_, ok⟩, _⟩ => ?_⟩
  have failed : (reconciler.reconcile {} 3 w "a").2.isOk = false := by decide +kernel
  rw [ok] at failed
  cases failed

end Convergence
end Operator.Lifecycle
