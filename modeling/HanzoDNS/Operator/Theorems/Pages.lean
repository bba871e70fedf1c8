import HanzoDNS.Lib.Transition
import HanzoDNS.Operator.Pages

namespace Operator

open Table

structure Cloudflare.Pages.Succeeds (cf : Cloudflare.Pages) : Prop where
  get : ∀ accountID name, ∃ proj, cf.getPagesProject accountID name = .ok proj
  create : ∀ accountID proj, ∃ proj', cf.createPagesProject accountID proj = .ok proj'
  add : ∀ accountID project domain, cf.addPagesDomain accountID project domain = .ok ()

namespace Pages

inductive Event
  | reconcile (cf : Cloudflare.Pages) (key : Str × Str)
  | edit (key : Str × Str) (spec : PagesProjectSpec)
  | delete (key : Str × Str) (now : Nat)
  | create (o : OwnedRecord)

inductive Step (rt : Runtime) : Cluster → Event → Cluster → Prop
  | reconcile (succeeds : cf.Succeeds) :
    Step rt w (.reconcile cf key) (PagesProjectReconciler.reconcile { rt, cf := some cf } {} w key).1
  | edit (mem : w.projects.get key = some pp) :
    Step rt w (.edit key spec) { w with projects := w.projects.put { pp with spec } }
  | delete (mem : w.projects.get key = some pp) :
    Step rt w (.delete key now) { w with projects := w.projects.put { pp with deletionTimestamp := some now } }
  | create (unused : w.records.get o.key = none) :
    Step rt w (.create o) { w with records := w.records.put o.defaulted }

def Apart (w : Cluster) : Event → Prop
  | .create o => ∀ pp ∈ w.projects.values, o.key ≠ pp.domainKey
  | _ => True

def ApartStep (rt : Runtime) (w : Cluster) (x : Event) (w' : Cluster) : Prop :=
  Step rt w x w' ∧ Apart w x

end Pages

namespace PagesProject

variable {pp pp' : PagesProject} {rt : Runtime} {cf : Cloudflare.Pages} {records records' : Table OwnedRecord.key}
variable {subdomain : Str} {o : OwnedRecord}

def Wired (pp : PagesProject) : Prop :=
  pp.spec.customDomain ≠ [] ∧ pp.spec.zoneRef ≠ []

theorem ref_congr (hk : pp'.key = pp.key) (hu : pp'.uid = pp.uid) : pp'.ref = pp.ref := by
  unfold ref
  rw [hk, hu]

theorem domainKey_congr (hk : pp'.key = pp.key) : pp'.domainKey = pp.domainKey := by
  rw [domainKey, domainKey, hk]

theorem domainKey_inj (h : pp.domainKey = pp'.domainKey) : pp.key = pp'.key := by
  obtain ⟨h₁, h₂⟩ := Prod.mk.inj h
  exact Prod.ext h₁ (List.append_cancel_right h₂)

theorem ensureProject_ok (h : cf.Succeeds) : ∃ proj, pp.ensureProject cf = .ok proj := by
  obtain ⟨found, hf⟩ := h.get pp.spec.accountID pp.cloudflareName
  rw [ensureProject, hf]
  cases found
  case none => exact h.create _ _
  case some proj => exact ⟨proj, rfl⟩

-- The record for the domain is there, and the project controls it.
structure Wires (pp : PagesProject) (subdomain : Str) (o : OwnedRecord) : Prop where
  key : o.key = pp.domainKey
  controller : o.controller = some pp.ref
  spec : o.record.spec = (pp.domainSpec subdomain).defaulted

theorem getD_key : ((records.get pp.domainKey).getD pp.freshRecord).key = pp.domainKey := by
  cases h : records.get pp.domainKey
  case none => rfl
  case some o => exact key_eq h

theorem ensureDomainRecord_ok (h : pp.ensureDomainRecord rt {} records subdomain = .ok records') :
    ∃ o, pp.Wires subdomain o ∧ records' = records.put o := by
  rw [ensureDomainRecord, createOrUpdate] at h
  cases hm : rt.setControllerReference pp
    { (records.get pp.domainKey).getD pp.freshRecord with record.spec := pp.domainSpec subdomain }
  case none =>
    rw [show pp.freshRecord.key = pp.domainKey from rfl, hm] at h
    cases h
  case some o =>
    rw [show pp.freshRecord.key = pp.domainKey from rfl, hm] at h
    obtain rfl := rt.sets hm
    refine ⟨_, ?_, (Except.ok.inj h).symm⟩
    exact ⟨getD_key, rfl, rfl⟩

theorem ensureDomainRecord_isOk (h : ∀ o, records.get pp.domainKey = some o → o.controller = some pp.ref) :
    ∃ records', pp.ensureDomainRecord rt {} records subdomain = .ok records' := by
  have hc : ((records.get pp.domainKey).getD pp.freshRecord).controller = none ∨
      ((records.get pp.domainKey).getD pp.freshRecord).controller = some pp.ref := by
    cases hg : records.get pp.domainKey
    case none => exact .inl rfl
    case some o => exact .inr (h o hg)
  obtain ⟨o, ho⟩ := Option.isSome_iff_exists.mp (rt.accepts (o :=
    { (records.get pp.domainKey).getD pp.freshRecord with record.spec := pp.domainSpec subdomain }) hc)
  rw [ensureDomainRecord, createOrUpdate, show pp.freshRecord.key = pp.domainKey from rfl, ho]
  exact ⟨_, rfl⟩

theorem wire_of_wired (hc : cf.Succeeds) (hw : pp.Wired) :
    pp.wire rt cf {} records subdomain = pp.ensureDomainRecord rt {} records subdomain := by
  rw [wire, if_pos hw.left, hc.add]
  exact if_pos hw.right

theorem wire_of_not_wired (hc : cf.Succeeds) (hw : ¬pp.Wired) : pp.wire rt cf {} records subdomain = .ok records := by
  rw [wire]
  split
  case isTrue hd =>
    rw [hc.add]
    exact if_neg fun hz => hw ⟨hd, hz⟩
  case isFalse => rfl

end PagesProject

namespace PagesProjectReconciler

variable {rt : Runtime} {cf : Cloudflare.Pages} {w : Cluster} {key k : Str × Str} {pp pp' : PagesProject}

theorem updateStatus_eq {status : PagesProjectStatus} {result : Result} :
    updateStatus {} w pp status result = ({ w with projects := w.projects.put { pp with status } }, .ok result) :=
  rfl

theorem reconcile_of_wire {proj : Cloudflare.PagesProject} {records : Table OwnedRecord.key}
    (hp : w.projects.get key = some pp) (hd : pp.deletionTimestamp = none) (he : pp.ensureProject cf = .ok proj)
    (hw : pp.wire rt cf {} w.records proj.subdomain = .ok records) :
    (reconcile { rt, cf := some cf } {} w key).1.records = records := by
  rw [reconcile, hp]
  simp only [hd, he, hw, updateStatus_eq]
  rfl

-- A step of the reconciler: it leaves everything as it is, or it changes the status of a project that is not being
-- deleted. In the latter case it may write the record for the domain.
theorem reconcile_cases (hc : cf.Succeeds) : (reconcile { rt, cf := some cf } {} w key).1 = w ∨
      ∃ pp status, w.projects.get key = some pp ∧
        (reconcile { rt, cf := some cf } {} w key).1.projects = w.projects.put { pp with status } ∧
        ((reconcile { rt, cf := some cf } {} w key).1.records = w.records ∨
          ∃ subdomain o, pp.Wires subdomain o ∧
            (reconcile { rt, cf := some cf } {} w key).1.records = w.records.put o) := by
  rw [reconcile, if_neg (by decide)]
  cases hp : w.projects.get key
  case none => exact .inl rfl
  case some pp =>
    dsimp only
    split
    case isTrue => exact .inl rfl
    case isFalse =>
      obtain ⟨proj, he⟩ := @PagesProject.ensureProject_ok pp cf hc
      rw [he]
      dsimp only
      by_cases hw : pp.Wired
      case neg =>
        rw [PagesProject.wire_of_not_wired hc hw]
        exact .inr ⟨pp, _, rfl, rfl, .inl rfl⟩
      case pos =>
        rw [PagesProject.wire_of_wired hc hw]
        split
        case h_1 => exact .inr ⟨pp, _, rfl, rfl, .inl rfl⟩
        case h_2 records hr =>
          obtain ⟨o, ho, rfl⟩ := PagesProject.ensureDomainRecord_ok hr
          exact .inr ⟨pp, _, rfl, rfl, .inr ⟨_, o, ho, rfl⟩⟩

end PagesProjectReconciler

namespace Pages

variable {rt : Runtime} {cf : Cloudflare.Pages} {w w' : Cluster} {x : Event} {es : List Event}

-- Whatever stands under the name for the domain of a project belongs to the project.
def Inv (w : Cluster) : Prop :=
  ∀ key pp o, w.projects.get key = some pp → w.records.get pp.domainKey = some o → o.controller = some pp.ref

theorem Inv.put {key : Str × Str} {pp pp' : PagesProject} (h : Inv w) (hp : w.projects.get key = some pp)
    (hk : pp'.key = pp.key) (hu : pp'.uid = pp.uid) : Inv { w with projects := w.projects.put pp' } := by
  intro k q o hq ho
  rw [get_put] at hq
  split at hq
  case isTrue =>
    obtain rfl := Option.some.inj hq
    rw [PagesProject.domainKey_congr hk] at ho
    rw [PagesProject.ref_congr hk hu]
    exact h key pp o hp ho
  case isFalse => exact h k q o hq ho

theorem Inv.putRecord {key : Str × Str} {pp : PagesProject} {subdomain : Str} {o : OwnedRecord} (h : Inv w)
    (hp : w.projects.get key = some pp) (ho : pp.Wires subdomain o) : Inv { w with records := w.records.put o } := by
  intro k q o' hq ho'
  rw [get_put, ho.key] at ho'
  split at ho'
  case isTrue hk =>
    obtain rfl := Option.some.inj ho'
    have he : key = k := (key_eq hp).symm.trans ((PagesProject.domainKey_inj hk).symm.trans (key_eq hq))
    subst he
    obtain rfl := Option.some.inj (hp.symm.trans hq)
    exact ho.controller
  case isFalse => exact h k q o' hq ho'

theorem Inv.step (h : Inv w) (hs : ApartStep rt w x w') : Inv w' := by
  obtain ⟨hs, ha⟩ := hs
  cases hs
  case edit hp => exact h.put hp rfl rfl
  case delete hp => exact h.put hp rfl rfl
  case reconcile cf key hc =>
    obtain he | ⟨pp, status, hp, hps, hr⟩ := @PagesProjectReconciler.reconcile_cases rt cf w key hc
    case inl => rwa [he]
    case inr =>
      have h₁ : Inv { w with projects := w.projects.put { pp with status } } := h.put hp rfl rfl
      obtain hr | ⟨subdomain, o, ho, hr⟩ := hr
      case inl =>
        rw [← hps, ← hr] at h₁
        exact h₁
      case inr =>
        have h₂ : Inv { projects := w.projects.put { pp with status }, records := w.records.put o } :=
          h₁.putRecord get_put_self ⟨ho.key, ho.controller, ho.spec⟩
        rw [← hps, ← hr] at h₂
        exact h₂
  case create o hn =>
    intro k pp o' hp ho'
    have hne : pp.domainKey ≠ o.defaulted.key := (ha pp (mem_values_of_get hp)).symm
    rw [get_put_ne hne] at ho'
    exact h k pp o' hp ho'

def Aside (o : OwnedRecord) (w : Cluster) : Prop :=
  w.records.get o.key = some o ∧ ∀ key pp, w.projects.get key = some pp → o.key ≠ pp.domainKey

theorem Aside.put {o : OwnedRecord} {key : Str × Str} {pp pp' : PagesProject} (h : Aside o w)
    (hp : w.projects.get key = some pp) (hk : pp'.key = pp.key) :
    Aside o { w with projects := w.projects.put pp' } := by
  refine ⟨h.left, fun k q hq => ?_⟩
  rw [get_put] at hq
  split at hq
  case isTrue =>
    obtain rfl := Option.some.inj hq
    rw [PagesProject.domainKey_congr hk]
    exact h.right key pp hp
  case isFalse => exact h.right k q hq

theorem Aside.step {o : OwnedRecord} (h : Aside o w) (hs : Step rt w x w') : Aside o w' := by
  cases hs
  case edit hp => exact h.put hp rfl
  case delete hp => exact h.put hp rfl
  case reconcile cf key hc =>
    obtain he | ⟨pp, status, hp, hps, hr⟩ := @PagesProjectReconciler.reconcile_cases rt cf w key hc
    case inl => rwa [he]
    case inr =>
      have h₁ : Aside o { w with projects := w.projects.put { pp with status } } := h.put hp rfl
      rw [Aside, hps]
      refine ⟨?_, h₁.right⟩
      obtain hr | ⟨subdomain, o', ho, hr⟩ := hr
      case inl => exact hr ▸ h.left
      case inr =>
        rw [hr, get_put_ne (ho.key ▸ h.right key pp hp)]
        exact h.left
  case create o' hn =>
    have hne : o.key ≠ o'.defaulted.key := by
      intro he
      have hn : w.records.get o.key = none := he ▸ hn
      rw [h.left] at hn
      cases hn
    refine ⟨?_, h.right⟩
    rw [get_put_ne hne]
    exact h.left

theorem aside_of_create {w₀ : Cluster} {o : OwnedRecord} (run : Steps (ApartStep rt) w₀ es w) (ho : .create o ∈ es) :
    Aside o.defaulted w := by
  obtain ⟨es₁, es₂, rfl⟩ := List.append_of_mem ho
  obtain ⟨w₁, _, r⟩ := run.split
  cases r
  case trans w₂ hs r =>
    refine r.invariant (fun h hs => h.step hs.left) ?_
    obtain ⟨hs, ha⟩ := hs
    cases hs
    case create hn =>
      exact ⟨get_put_self, fun key pp hp => ha pp (mem_values_of_get hp)⟩

-- While a project has a domain in a zone, its record is kept up to date. Nothing else is written.
theorem domain_tracked {w₀ : Cluster} {key : Str × Str} {pp : PagesProject}
    (h₀ : ∀ pp ∈ w₀.projects.values, w₀.records.get pp.domainKey = none) (run : Steps (ApartStep rt) w₀ es w)
    (hp : w.projects.get key = some pp) (hd : pp.deletionTimestamp = none) (hc : cf.Succeeds) :
    let w' := (PagesProjectReconciler.reconcile { rt, cf := some cf } {} w key).1
    (pp.Wired → ∃ proj o, pp.ensureProject cf = .ok proj ∧ w'.records.get pp.domainKey = some o ∧
      pp.Wires proj.subdomain o) ∧
    (¬pp.Wired → w'.records = w.records) ∧
    (∀ k ≠ pp.domainKey, w'.records.get k = w.records.get k) ∧
    (∀ o, .create o ∈ es → w'.records.get o.key = some o.defaulted) ∧
    ∀ k o, w₀.records.get k = some o → w'.records.get k = some o := by
  have hi : Inv w := run.invariant (fun h hs => h.step hs) fun key pp o hp ho => by
    rw [h₀ pp (mem_values_of_get hp)] at ho
    cases ho
  have hs : Step rt w (.reconcile cf key) _ := .reconcile hc
  obtain ⟨proj, he⟩ := @PagesProject.ensureProject_ok pp cf hc
  refine ⟨fun hw => ?_, fun hw => ?_, fun k hk => ?_, fun o ho => ?_, fun k o ho => ?_⟩
  case refine_1 =>
    obtain ⟨records, hr⟩ := @PagesProject.ensureDomainRecord_isOk pp rt w.records proj.subdomain fun o => hi key pp o hp
    obtain ⟨o, ho, rfl⟩ := PagesProject.ensureDomainRecord_ok hr
    rw [← PagesProject.wire_of_wired hc hw] at hr
    refine ⟨proj, o, he, ?_, ho⟩
    rw [PagesProjectReconciler.reconcile_of_wire hp hd he hr]
    exact get_put_of_key_eq ho.key
  case refine_2 =>
    exact PagesProjectReconciler.reconcile_of_wire hp hd he (PagesProject.wire_of_not_wired hc hw)
  case refine_3 =>
    obtain h | ⟨pp', status, hp', -, h⟩ := @PagesProjectReconciler.reconcile_cases rt cf w key hc
    case inl => rw [h]
    case inr =>
      obtain rfl := Option.some.inj (hp.symm.trans hp')
      obtain h | ⟨subdomain, o, ho, h⟩ := h
      case inl => rw [h]
      case inr => rw [h, get_put_ne (ho.key ▸ hk)]
  case refine_4 => exact ((aside_of_create run ho).step hs).left
  case refine_5 =>
    have ha : Aside o w₀ := by
      rw [← key_eq ho] at ho
      refine ⟨ho, fun key pp hp he => ?_⟩
      rw [he, h₀ pp (mem_values_of_get hp)] at ho
      cases ho
    have ha : Aside o w := run.invariant (fun h hs => h.step hs.left) ha
    rw [← key_eq ho]
    exact (ha.step hs).left

namespace Sample

def runtime : Runtime where
  setControllerReference pp o :=
    if o.controller = none ∨ o.controller = some pp.ref then some { o with controller := some pp.ref } else none
  sets h := by
    split at h
    case isTrue => exact (Option.some.inj h).symm
    case isFalse => cases h
  accepts h := by rw [if_pos h, Option.isSome_some]

def edge : Cloudflare.Pages where
  getPagesProject _ name := .ok (some { name, subdomain := name ++ ".pages.dev".toList, productionBranch := "main" })
  createPagesProject _ proj := .ok proj
  addPagesDomain _ _ _ := .ok ()

theorem edge_succeeds : edge.Succeeds :=
  ⟨fun _ _ => ⟨_, rfl⟩, fun _ _ => ⟨_, rfl⟩, fun _ _ _ => rfl⟩

def spec (domain : Str) : PagesProjectSpec where
  accountID := "a"
  projectName := []
  productionBranch := "main"
  customDomain := domain
  zoneRef := "z"

def site : PagesProject where
  key := ("ns", "site")
  uid := "1"
  deletionTimestamp := none
  spec := spec "shop.example"
  status := { phase := none, subdomain := [] }

def cluster : Cluster where
  projects := (∅ : Table PagesProject.key).put site
  records := ∅

def other (name : Str) : OwnedRecord where
  ns := "ns"
  record := {
    name := name
    deletionTimestamp := none
    finalizers := []
    spec := {
      zoneRef := "z", name := "www", type := "A", content := "192.0.2.1", ttl := 60, priority := none, proxied := false
      syncToCloudflare := false
    }
    status := { phase := none, cloudflareRecordID := [], lastSyncTime := none }
  }
  controller := none

def reconciler : PagesProjectReconciler where
  rt := runtime
  cf := some edge

end Sample

open Sample

theorem domain_tracked_site :
    let w : Cluster := { cluster with records := cluster.records.put (other "www") }
    let w' := (reconciler.reconcile {} w ("ns", "site")).1
    site.Wired ∧ (∃ o, w'.records.get site.domainKey = some o ∧ site.Wires "site.pages.dev" o) ∧
      w'.records.get (other "www").key = some (other "www") := by
  intro w w'
  have hw : site.Wired := ⟨by decide, by decide⟩
  have ha : ∀ pp ∈ cluster.projects.values, (other "www").key ≠ pp.domainKey := by decide +kernel
  have run : Steps (ApartStep runtime) cluster [.create (other "www")] w := .single ⟨.create rfl, ha⟩
  obtain ⟨h₁, -, -, h₂, -⟩ :=
    @domain_tracked runtime edge w _ cluster ("ns", "site") site (fun _ _ => rfl) run rfl rfl edge_succeeds
  obtain ⟨proj, o, hp, ho, hs⟩ := h₁ hw
  cases hp
  exact ⟨hw, ⟨o, ho, hs⟩, h₂ _ (.head _)⟩

-- The record stays when the domain of the site is cleared, and a record of a user is overwritten.
theorem domain_not_tracked : (∃ w, Steps (Step runtime) cluster
      [.reconcile edge ("ns", "site"), .edit ("ns", "site") (spec []), .reconcile edge ("ns", "site")] w ∧
      (∃ pp, w.projects.get ("ns", "site") = some pp ∧ ¬pp.Wired) ∧
      (w.records.get ("ns", "site-domain")).map (·.controller) = some (some site.ref)) ∧
    ∃ w, Steps (Step runtime) cluster [.create (other "site-domain"), .reconcile edge ("ns", "site")] w ∧
      w.records.get (other "site-domain").key ≠ some (other "site-domain") := by
  constructor
  case left =>
    let ready : PagesProject := { site with status := { phase := some .ready, subdomain := "site.pages.dev" } }
    have he : (reconciler.reconcile {} cluster ("ns", "site")).1.projects.get ("ns", "site") = some ready := rfl
    refine ⟨_, .trans (.reconcile edge_succeeds) <| .trans (.edit he) <|
      .single (.reconcile edge_succeeds), ⟨{ ready with spec := spec [] }, rfl, fun h => h.left rfl⟩, ?_⟩
    decide +kernel
  case right =>
    refine ⟨_, .trans (.create rfl) <| .single (.reconcile edge_succeeds), ?_⟩
    decide +kernel

end Pages
end Operator
