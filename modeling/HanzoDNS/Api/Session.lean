import HanzoDNS.Api.Basic

open Prog

namespace Hanzodns

abbrev Upstream := Table ProviderRecord.id

-- What is known about the provider: its calls are atomic, a new record gets an id that is not in use, and
-- a call returns the record as it is stored. Of a failed call nothing is known.
def Upstream.Answers (u₁ : Upstream) : Answered → Upstream → Prop
  | ⟨.provider _ (.createRecord ..), .ok pr⟩, u₂ => u₁.get pr.id = none ∧ u₂ = u₁.put pr
  | ⟨.provider _ (.updateRecord _ id _), .ok pr⟩, u₂ => pr.id = id ∧ u₁.get id ≠ none ∧ u₂ = u₁.put pr
  | ⟨.provider _ (.deleteRecord _ id), .ok _⟩, u₂ => u₁.get id ≠ none ∧ u₂ = u₁.drop id
  | ⟨.provider _ (.listRecords _), .ok prs⟩, u₂ => u₂ = u₁ ∧ u₁.values = prs
  | ⟨.provider _ _, .error _⟩, _ => True
  | _, u₂ => u₂ = u₁

def Request.Edits (key : Str) : Request → Prop
  | createRecord zone _ | updateRecord zone .. | deleteRecord zone _ => normZone zone = key
  | _ => False

instance (key : Str) : DecidablePred (Request.Edits key)
  | .createRecord zone _ | .updateRecord zone .. | .deleteRecord zone _ =>
    inferInstanceAs (Decidable (normZone zone = key))
  | .listZones | .getZone _ | .createZone _ | .deleteZone _ | .listRecords _ | .getRecord .. | .sync _ =>
    inferInstanceAs (Decidable False)

namespace Api

structure Client where
  org : Org
  request : Request

-- Any number of clients edit the records of a delegated zone, which has no records yet, at the same
-- time. The history is an arbitrary interleaving of what happens on behalf of their requests, all of
-- which are completed with successful calls of the provider.
structure Session [DecidableEq ι] (quote : Str → Str) (clients : ι → Client) (key : Str)
    (s₁ : Store) (u₁ : Upstream) (history : List (ι × Answered)) (s₂ : Store) (u₂ : Upstream) : Prop where
  zone : ∃ zd, s₁.zones.get key = some zd ∧ zd.zone.provider = providerCloudflare ∧ zd.records = ∅
  edits : ∀ i, (clients i).request.Edits key
  complete : ∀ i, ∃ response,
    (handle quote (clients i).org (clients i).request).Path (history.of i) response
  successful : ∀ i p c err, (i, ⟨.provider p c, .error err⟩) ∉ history
  store : Steps Store.Answers s₁ (history.map Prod.snd) s₂
  upstream : Steps Upstream.Answers u₁ (history.map Prod.snd) u₂

end Api

def Store.mirrored (s : Store) (key id : Str) : Option ProviderRecord :=
  (s.zones.get key).bind fun zd => (zd.records.get id).map Record.upstream

def RecordPatch.applyUpstream (patch : RecordPatch) (pr : ProviderRecord) : ProviderRecord :=
  { pr with
    name := patch.name.getD pr.name
    type := patch.type.getD pr.type
    content := patch.content.getD pr.content
    ttl := patch.ttl.getD pr.ttl
    proxied := patch.proxied.getD pr.proxied
    priority := patch.priority.getD pr.priority }

def Upstream.answer (u : Upstream) : (c : ProviderCall) → Except Str c.Result × Upstream
  | .zoneIDForName _ => (.ok "z", u)
  | .listRecords _ => (.error "unavailable", u)
  | .createRecord _ input =>
    let id := List.replicate (u.values.card + 1) 'r'
    let pr : ProviderRecord :=
      ⟨id, input.name, input.type, input.content, input.ttl, input.proxied, input.priority⟩
    if u.get id = none then (.ok pr, u.put pr) else (.error "conflict", u)
  | .updateRecord _ id patch =>
    match u.get id with
    | none => (.error "not found", u)
    | some pr => (.ok (patch.applyUpstream pr), u.put (patch.applyUpstream pr))
  | .deleteRecord _ id =>
    match u.get id with
    | none => (.error "not found", u)
    | some _ => (.ok (), u.drop id)

theorem Upstream.answers (u : Upstream) (p : Provider) (c : ProviderCall) :
    u.Answers ⟨.provider p c, (u.answer c).1⟩ (u.answer c).2 := by
  cases c
  case zoneIDForName => rfl
  case listRecords => trivial
  case createRecord =>
    simp only [answer]
    split
    case isTrue hg => exact ⟨hg, rfl⟩
    case isFalse => trivial
  case updateRecord =>
    simp only [answer]
    split
    case h_1 => trivial
    case h_2 pr hg =>
      have hi : pr.id = _ := Table.key_eq hg
      exact ⟨hi, by simp [hg], rfl⟩
  case deleteRecord =>
    simp only [answer]
    split
    case h_1 => trivial
    case h_2 hg => exact ⟨by simp [hg], rfl⟩

namespace Api

def answer (e : Env) (w : Store × Upstream) : (q : Query) → q.Answer × Store × Upstream
  | .store org c => ((w.1.perform e org c).result, (w.1.perform e org c).store, w.2)
  | .provider _ c => ((w.2.answer c).1, w.1, (w.2.answer c).2)
  | .kmsSecret _ _ => (.ok "token", w)
  | .now => (e.now, w)

theorem answer_answers (e : Env) (w : Store × Upstream) (q : Query) :
    w.1.Answers ⟨q, (answer e w q).1⟩ (answer e w q).2.1 ∧
    w.2.Answers ⟨q, (answer e w q).1⟩ (answer e w q).2.2 := by
  cases q
  case store => exact ⟨⟨e, rfl, rfl⟩, rfl⟩
  case provider c => exact ⟨rfl, w.2.answers _ c⟩
  all_goals exact ⟨rfl, rfl⟩

def schedule [DecidableEq ι] (quote : Str → Str) (e : Env) (clients : ι → Client) (s : Store)
    (u : Upstream) (turns : List ι) : Interleaved Query.Answer Response (Store × Upstream) ι :=
  interleave (answer e) turns (s, u) fun i => handle quote (clients i).org (clients i).request

def failed : Answered → Bool
  | ⟨.provider _ _, .error _⟩ => true
  | _ => false

theorem schedule_session [DecidableEq ι] (quote : Str → Str) (e : Env) (clients : ι → Client)
    (s : Store) (u : Upstream) (turns : List ι)
    (zone : ∃ zd, s.zones.get key = some zd ∧ zd.zone.provider = providerCloudflare ∧ zd.records = ∅)
    (edits : ∀ i, (clients i).request.Edits key)
    (complete : ∀ i, ((schedule quote e clients s u turns).rest i).isDone)
    (successful : (schedule quote e clients s u turns).history.all fun x => !failed x.2) :
    let il := schedule quote e clients s u turns
    Session quote clients key s u il.history il.state.1 il.state.2 := by
  intro il
  have run : Steps (fun w x w' => Store.Answers w.1 x w'.1 ∧ Upstream.Answers w.2 x w'.2)
      (s, u) (il.history.map Prod.snd) il.state := interleave_steps (answer_answers e)
  exact {
    zone := zone
    edits := edits
    complete := fun i => interleave_path (complete i)
    successful := fun i p c err h => by simpa [failed] using List.all_eq_true.mp successful _ h
    store := run.map Prod.fst And.left
    upstream := run.map Prod.snd And.right
  }

end Api
end Hanzodns
