import HanzoDNS.Api.Basic

open Prog List

namespace Hanzodns

def Request.zone : Request → Str
  | getZone zone | deleteZone zone | listRecords zone | getRecord zone _ => zone
  | createRecord zone _ | updateRecord zone .. | deleteRecord zone _ => zone
  | listZones | createZone _ | sync _ => []

-- The handler has seen that the zone is served from the store, and nothing else.
def Local (es : List Answered) (org : Org) (zone : Str) : Prop :=
  ∃ kind ≠ providerCloudflare, es = [⟨.store org (.zoneProvider zone), .ok (some kind)⟩]

def Delegated (es : List Answered) (org : Org) (zone : Str) : Prop :=
  ∃ token zoneID, connected org zone token zoneID <+: es

-- The provider of a zone, under the token of the org and its own id of the zone, has returned a record.
def Returned (es : List Answered) (org : Org) (zone : Str) (pr : ProviderRecord) : Prop :=
  ∃ token zoneID, connected org zone token zoneID <+: es ∧
    ((∃ input, ⟨.provider { token } (.createRecord zoneID input), .ok pr⟩ ∈ es) ∨
      ∃ id patch, ⟨.provider { token } (.updateRecord zoneID id patch), .ok pr⟩ ∈ es)

namespace Request

-- The circumstances in which the handler of a request makes a call that can change the store. All
-- statements about what requests preserve are derived from this, not from the handlers.
def Justifies (req : Request) (org : Org) (es : List Answered) : Call → Prop
  | .createZone .. => ∃ body, req = .createZone body
  | .deleteZone _ => req = .deleteZone req.zone
  | .createRecord zone .. => zone = req.zone ∧ Local es org zone
  | .updateRecord zone .. => zone = req.zone ∧ Local es org zone
  | .deleteRecord zone _ => zone = req.zone ∧ Local es org zone
  | .putMirror zone pr => zone = req.zone ∧ Returned es org zone pr
  | .dropMirror zone _ => zone = req.zone ∧ Delegated es org zone
  | .bulkSync zr =>
    (∃ zones, req = .sync (some zones) ∧ zr ∈ zones) ∧
      ∀ x ∈ es, ∃ zr a, x = ⟨.store org (.bulkSync zr), a⟩
  | _ => True

def Admits (req : Request) (org : Org) (es : List Answered) : Query → Prop
  | .store o c => o = org ∧ req.Justifies org es c
  | _ => True

theorem Admits.probes {req : Request} (es : List Answered) (q : Query) (h : q.Probes org) :
    req.Admits org es q := by
  cases q
  case store o c =>
    cases c <;> try exact h.elim
    exact ⟨h, trivial⟩
  all_goals trivial

end Request

namespace Answered

-- The id of the record that a successful call of the provider is about, with what the call has left there.
def call? : Answered → Option (Str × Option ProviderRecord)
  | ⟨.provider _ (.createRecord ..), .ok pr⟩ => some (pr.id, some pr)
  | ⟨.provider _ (.updateRecord ..), .ok pr⟩ => some (pr.id, some pr)
  | ⟨.provider _ (.deleteRecord _ id), .ok _⟩ => some (id, none)
  | _ => none

def mirror? : Answered → Option (Str × Option ProviderRecord)
  | ⟨.store _ (.putMirror _ pr), _⟩ => some (pr.id, some pr)
  | ⟨.store _ (.dropMirror _ id), _⟩ => some (id, none)
  | _ => none

end Answered

-- Every change at the provider is followed by the write of its mirror, with nothing else in between.
def Balanced (es : List Answered) : Prop :=
  es.filterMap Answered.call? = es.filterMap Answered.mirror?

theorem Balanced.of_silent {es : List Answered}
    (h : ∀ x ∈ es, x.call? = none ∧ x.mirror? = none) : Balanced es := by
  rw [Balanced, filterMap_eq_nil_iff.mpr fun x hx => (h x hx).left,
    filterMap_eq_nil_iff.mpr fun x hx => (h x hx).right]

theorem Query.Probes.silent {x : Answered} (h : x.1.Probes org) : x.call? = none ∧ x.mirror? = none := by
  obtain ⟨q, a⟩ := x
  cases q
  case store c => cases c <;> first | exact h.elim | exact ⟨rfl, rfl⟩
  case provider c => cases c <;> first | exact h.elim | exact ⟨rfl, rfl⟩
  all_goals exact ⟨rfl, rfl⟩

section Admitted

variable {req : Request} {quote : Str → Str} {org : Org}

abbrev Admitted (p : Handler α) (req : Request) (org : Org) (es : List Answered) : Prop :=
  p.Meets (req.Admits org) (fun es _ => Balanced es) es

-- A handler may go on from the backend of a zone in two ways: locally if the zone is not delegated, and
-- with the connector of the zone's provider.
theorem backend_admitted {f : Except BackendError (Option (Provider × Str)) → Handler α}
    (refused : ∀ es err, Balanced es → Admitted (f (.error err)) req org es)
    (served : ∀ kind, kind ≠ providerCloudflare →
      Admitted (f (.ok none)) req org [⟨.store org (.zoneProvider zone), .ok (some kind)⟩])
    (delegated : ∀ token zoneID,
      Admitted (f (.ok (some ({ token }, zoneID)))) req org (connected org zone token zoneID)) :
    Admitted (zoneBackend quote org zone >>= f) req org [] := by
  rw [Admitted, meets_bind]
  refine zoneBackend_meets quote Request.Admits.probes (fun es err he => ?_) served delegated
  exact refused es err (.of_silent fun x hx => (he x hx).silent)

theorem handleListRecords_admitted : Admitted (handleListRecords quote org zone) req org [] := by
  apply backend_admitted
  case refused => exact fun _ _ h => h
  case served => exact fun _ _ => ⟨⟨rfl, trivial⟩, fun a => by cases a <;> rfl⟩
  case delegated =>
    refine fun _ _ => ⟨trivial, fun a => ?_⟩
    cases a
    case error => rfl
    case ok => exact ⟨trivial, fun _ => rfl⟩

theorem handleCreateRecord_admitted :
    Admitted (handleCreateRecord quote org zone body) (.createRecord zone body) org [] := by
  cases body
  case none => rfl
  case some body =>
    rw [handleCreateRecord]
    split <;> try split <;> try split
    case isFalse.isFalse.isFalse =>
      apply backend_admitted
      case refused => exact fun _ _ h => h
      case served =>
        refine fun kind hk => ⟨⟨rfl, rfl, kind, hk, rfl⟩, fun a => ?_⟩
        cases a <;> rfl
      case delegated =>
        refine fun token zoneID => ⟨trivial, fun a => ?_⟩
        cases a
        case error => rfl
        case ok =>
          refine ⟨⟨rfl, rfl, token, zoneID, prefix_append .., .inl ?_⟩, fun _ => ⟨trivial, fun _ => rfl⟩⟩
          exact ⟨_, mem_append_right _ (.head _)⟩
    all_goals rfl

theorem handleUpdateRecord_admitted :
    Admitted (handleUpdateRecord quote org zone recordID patch) (.updateRecord zone recordID patch) org [] := by
  cases patch
  case none => rfl
  case some patch =>
    apply backend_admitted
    case refused => exact fun _ _ h => h
    case served =>
      refine fun kind hk => ⟨⟨rfl, rfl, kind, hk, rfl⟩, fun a => ?_⟩
      cases a <;> rfl
    case delegated =>
      refine fun token zoneID => ⟨trivial, fun a => ?_⟩
      cases a
      case error => rfl
      case ok =>
        refine ⟨⟨rfl, rfl, token, zoneID, prefix_append .., .inr ?_⟩, fun _ => ⟨trivial, fun _ => rfl⟩⟩
        exact ⟨_, _, mem_append_right _ (.head _)⟩

theorem handleDeleteRecord_admitted :
    Admitted (handleDeleteRecord quote org zone recordID) (.deleteRecord zone recordID) org [] := by
  apply backend_admitted
  case refused => exact fun _ _ h => h
  case served =>
    refine fun kind hk => ⟨⟨rfl, rfl, kind, hk, rfl⟩, fun a => ?_⟩
    cases a <;> rfl
  case delegated =>
    refine fun token zoneID => ⟨trivial, fun a => ?_⟩
    cases a
    case error => rfl
    case ok => exact ⟨⟨rfl, rfl, token, zoneID, prefix_append ..⟩, fun _ => rfl⟩

theorem syncZones_admitted (hz : ∀ zr ∈ rest, zr ∈ zones)
    (he : ∀ x ∈ es, ∃ zr a, x = ⟨.store org (.bulkSync zr), a⟩) :
    Admitted (syncZones quote org results rest) (.sync (some zones)) org es := by
  have silent {es : List Answered} (h : ∀ x ∈ es, ∃ zr a, x = ⟨.store org (.bulkSync zr), a⟩) :
      Balanced es := by
    refine .of_silent fun x hx => ?_
    obtain ⟨_, _, rfl⟩ := h x hx
    exact ⟨rfl, rfl⟩
  induction rest generalizing results es
  case nil => exact silent he
  case cons zr rest hi =>
    rw [syncZones]
    split
    case isTrue => exact silent he
    case isFalse =>
      refine ⟨⟨rfl, ⟨zones, rfl, hz zr (by simp)⟩, he⟩, fun a => ?_⟩
      have he' : ∀ x ∈ es ++ [⟨.store org (.bulkSync zr), a⟩],
          ∃ zr a, x = ⟨.store org (.bulkSync zr), a⟩ := by
        intro x hx
        obtain hx | hx := mem_append.mp hx
        · exact he x hx
        · exact ⟨_, _, mem_singleton.mp hx⟩
      cases a
      case error => exact silent he'
      case ok => exact hi (fun zr hm => hz zr (by simp [hm])) he'

theorem handle_admitted : Admitted (handle quote org req) req org [] := by
  cases req
  case createRecord => exact handleCreateRecord_admitted
  case updateRecord => exact handleUpdateRecord_admitted
  case deleteRecord => exact handleDeleteRecord_admitted
  case listRecords => exact handleListRecords_admitted
  case listZones => exact ⟨⟨rfl, trivial⟩, fun _ => rfl⟩
  case getZone => exact ⟨⟨rfl, trivial⟩, fun a => by rcases a with _ | _ | _ <;> rfl⟩
  case deleteZone => exact ⟨⟨rfl, rfl⟩, fun a => by cases a <;> rfl⟩
  case getRecord => exact ⟨⟨rfl, trivial⟩, fun a => by cases a <;> rfl⟩
  case createZone body =>
    cases body
    case none => rfl
    case some body =>
      simp only [handle, handleCreateZone]
      split <;> try split
      · rfl
      · rfl
      · exact ⟨⟨rfl, _, rfl⟩, fun a => by cases a <;> rfl⟩
  case sync body =>
    cases body
    case none => rfl
    case some zones =>
      simp only [handle, handleSync]
      split
      · rfl
      · exact syncZones_admitted (fun _ => id) (by simp)

end Admitted
end Hanzodns
