import HanzoDNS.Api.Session
import HanzoDNS.Api.Theorems.Handlers
import HanzoDNS.Store.Theorems.Change

open Prog List

namespace Hanzodns

open Answered Table Store

def ProviderRecord.Mirrorable (pr : ProviderRecord) : Prop :=
  pr.id ≠ [] ∧ pr.type ∈ validRecordTypes

instance : DecidablePred ProviderRecord.Mirrorable :=
  fun _ => inferInstanceAs (Decidable (_ ∧ _))

namespace Answered

-- What an event leaves of a certain record at the provider, and what it tries to leave of its mirror.
def callOf (id : Str) (x : Answered) : Option (Option ProviderRecord) :=
  x.call?.bind fun c => if c.1 = id then some c.2 else none

def mirrorOf (id : Str) (x : Answered) : Option (Option ProviderRecord) :=
  x.mirror?.bind fun c => if c.1 = id then some c.2 else none

def onUpstream (id : Str) (o : Option ProviderRecord) (x : Answered) : Option ProviderRecord :=
  (x.callOf id).getD o

def onMirror (id : Str) (o : Option ProviderRecord) (x : Answered) : Option ProviderRecord :=
  match x.mirrorOf id with
  | some (some pr) => if pr.Mirrorable then some pr else o
  | some none => none
  | none => o

variable {x : Answered} {id id' : Str} {o v : Option ProviderRecord}

theorem onUpstream_eq (h : x.call? = some (id', v)) : x.onUpstream id o = if id = id' then v else o := by
  simp only [onUpstream, callOf, h, Option.bind_some, eq_comm (a := id)]
  split <;> rfl

theorem onMirror_eq_self (h : x.mirror? = none) : x.onMirror id o = o := by
  simp [onMirror, mirrorOf, h]

theorem onMirror_putMirror {a : Except Error Unit} : onMirror id o ⟨.store org (.putMirror zone pr), a⟩ =
      if pr.id = id ∧ pr.Mirrorable then some pr else o := by
  by_cases hi : pr.id = id <;> simp [onMirror, mirrorOf, mirror?, hi]

theorem onMirror_dropMirror {a : Except Error Unit} :
    onMirror id o ⟨.store org (.dropMirror zone id'), a⟩ = if id' = id then none else o := by
  by_cases hi : id' = id <;> simp [onMirror, mirrorOf, mirror?, hi]

end Answered

theorem Balanced.filterMap_eq {es : List Answered} (h : Balanced es) (id : Str) :
    es.filterMap (callOf id) = es.filterMap (mirrorOf id) := by
  have hb := congrArg (List.filterMap fun c => if c.1 = id then some c.2 else none) h
  rwa [filterMap_filterMap, filterMap_filterMap] at hb

theorem Upstream.Answers.get {u₁ u₂ : Upstream} {x : Answered} (h : u₁.Answers x u₂)
    (hx : ∀ p c err, x ≠ ⟨.provider p c, .error err⟩) (id : Str) : u₂.get id = x.onUpstream id (u₁.get id) := by
  obtain ⟨q, a⟩ := x
  cases q
  case provider p c =>
    cases a
    case error err => exact absurd rfl (hx p c err)
    case ok a =>
      cases c
      case createRecord =>
        rw [h.right, get_put, onUpstream_eq rfl]
      case updateRecord =>
        rw [h.right.right, get_put, onUpstream_eq rfl]
      case deleteRecord =>
        rw [h.right, get_drop, onUpstream_eq rfl]
      case listRecords => rw [h.left]; rfl
      case zoneIDForName => rw [show u₂ = u₁ from h]; rfl
  all_goals
    rw [show u₂ = u₁ from h]
    rfl

theorem Upstream.get_of_steps {u₁ u₂ : Upstream} {es : List Answered} (h : Steps Answers u₁ es u₂)
    (hes : ∀ p c err, ⟨.provider p c, .error err⟩ ∉ es) (id : Str) :
    u₂.get id = es.foldl (onUpstream id) (u₁.get id) := by
  induction h
  case refl => rfl
  case trans h _ hi =>
    rw [foldl_cons, ←h.get (fun p c err he => hes p c err (by simp [he])) id]
    exact hi fun p c err hm => hes p c err (mem_cons_of_mem _ hm)

structure ZoneData.Holds (zd : ZoneData) (owner : Org) (m : Str → Option ProviderRecord) : Prop where
  org : zd.zone.org = owner
  provider : zd.zone.provider = providerCloudflare
  records : ∀ id, (zd.records.get id).map Record.upstream = m id

namespace Store

variable {s : Store} {e : Env} {org owner : Org} {zone : Str} {zd : ZoneData}
variable {m : Str → Option ProviderRecord}

theorem putMirror_holds (hf : s.zoneForOrg org zone = some zd) (hz : zd.Holds owner m) :
    ∃ zd', (s.putMirror e org zone pr).store.zones.get (normZone zone) = some zd' ∧
      zd'.Holds owner fun id => if pr.id = id ∧ pr.Mirrorable then some pr else m id := by
  have ⟨hg, _⟩ := zoneForOrg_eq_some_iff.mp hf
  simp only [putMirror]
  split <;> try split
  case isTrue hi =>
    exact ⟨zd, hg, hz.org, hz.provider, by simp [ProviderRecord.Mirrorable, hi, hz.records]⟩
  case isFalse.isTrue ht =>
    exact ⟨zd, hg, hz.org, hz.provider, by simp [ProviderRecord.Mirrorable, ht, hz.records]⟩
  case isFalse.isFalse hi ht =>
    have hm : pr.Mirrorable := ⟨hi, not_not.mp ht⟩
    rw [hf]
    refine ⟨_, set_get_of_name_eq hg rfl, hz.org, hz.provider, fun id => ?_⟩
    simp only [hm, and_true]
    by_cases hid : pr.id = id
    case pos =>
      subst hid
      rw [if_pos rfl]
      exact congrArg (Option.map Record.upstream) (get_put_self (t := zd.records))
    case neg =>
      rw [if_neg hid, ←hz.records]
      exact congrArg (Option.map Record.upstream) (get_put_ne (Ne.symm hid))

theorem dropMirror_holds (hf : s.zoneForOrg org zone = some zd) (hz : zd.Holds owner m) (id' : Str) :
    ∃ zd', (s.dropMirror e org zone id').store.zones.get (normZone zone) = some zd' ∧
      zd'.Holds owner fun id => if id' = id then none else m id := by
  have ⟨hg, _⟩ := zoneForOrg_eq_some_iff.mp hf
  simp only [dropMirror, hf]
  cases hr : zd.records.get id'
  case none =>
    refine ⟨zd, hg, hz.org, hz.provider, fun id => ?_⟩
    split
    case isTrue hi => simp [←hi, hr]
    case isFalse hi => exact hz.records id
  case some =>
    refine ⟨_, set_get_of_name_eq hg rfl, hz.org, hz.provider, fun id => ?_⟩
    simp only [ZoneData.touch, ZoneData.dropRecord, get_drop, eq_comm (a := id)]
    split
    · rfl
    · exact hz.records id

end Store

theorem Request.Edits.zone {req : Request} (h : req.Edits key) : normZone req.zone = key := by
  cases req <;> first | exact h.elim | exact h

namespace Api

variable {ι : Type} {key zone : Str} {org owner : Org} {h : List (ι × Answered)} {i : ι} {x : Answered}
variable {s s' : Store}

def upstreamAfter (u : Upstream) (h : List (ι × Answered)) (id : Str) : Option ProviderRecord :=
  h.foldl (fun o x => x.2.onUpstream id o) (u.get id)

def mirrorAfter (h : List (ι × Answered)) (id : Str) : Option ProviderRecord :=
  h.foldl (fun o x => x.2.onMirror id o) none

theorem mirrorAfter_snoc : mirrorAfter (h ++ [(i, x)]) = fun id => x.onMirror id (mirrorAfter h id) := by
  funext id
  simp [mirrorAfter]

-- The zone follows the history of mirror writes, and to the handlers it looks the same all the time.
structure Tracked (key : Str) (owner : Org) (h : List (ι × Answered)) (s : Store) : Prop where
  holds : ∃ zd, s.zones.get key = some zd ∧ zd.Holds owner (mirrorAfter h)
  seen : ∀ i org zone kind, (i, ⟨.store org (.zoneProvider zone), .ok (some kind)⟩) ∈ h →
    normZone zone = key → org = owner ∧ kind = providerCloudflare

namespace Tracked

theorem extend (t : Tracked key owner h s) (holds : ∃ zd, s'.zones.get key = some zd ∧
      zd.Holds owner fun id => x.onMirror id (mirrorAfter h id))
    (seen : ∀ org zone kind, x = ⟨.store org (.zoneProvider zone), .ok (some kind)⟩ →
      normZone zone = key → org = owner ∧ kind = providerCloudflare) :
    Tracked key owner (h ++ [(i, x)]) s' where
  holds := mirrorAfter_snoc ▸ holds
  seen j org zone kind hm hz := by
    obtain hm | hm := mem_append.mp hm
    · exact t.seen j org zone kind hm hz
    · exact seen org zone kind (Prod.mk.inj (mem_singleton.mp hm)).right.symm hz

theorem keep (t : Tracked key owner h s) (hx : x.mirror? = none)
    (seen : ∀ org zone kind, x = ⟨.store org (.zoneProvider zone), .ok (some kind)⟩ →
      normZone zone = key → org = owner ∧ kind = providerCloudflare) : Tracked key owner (h ++ [(i, x)]) s :=
  t.extend (by simpa [onMirror_eq_self hx] using t.holds) seen

theorem zoneProvider (t : Tracked key owner h s) (hk : normZone zone = key)
    (ha : s.zoneProvider org zone = some kind) : org = owner ∧ kind = providerCloudflare := by
  have ⟨zd, hg, hz⟩ := t.holds
  have hn : providerCloudflare ≠ [] := by decide
  simp only [Store.zoneProvider, Option.map_eq_some_iff] at ha
  have ⟨zd', hf, ha⟩ := ha
  have ⟨hg', ho'⟩ := zoneForOrg_eq_some_iff.mp hf
  rw [hk, hg] at hg'
  cases hg'
  simp only [hz.provider, hn, if_false] at ha
  exact ⟨ho'.symm.trans hz.org, ha.symm⟩

variable [DecidableEq ι]

theorem not_local (t : Tracked key owner h s) (hk : normZone zone = key) : ¬Local (h.of i) org zone := by
  intro ⟨kind, hne, he⟩
  have hm : ⟨.store org (.zoneProvider zone), .ok (some kind)⟩ ∈ h.of i := by simp [he]
  exact hne (t.seen i org zone kind (mem_of_iff.mp hm) hk).right

theorem zoneForOrg (t : Tracked key owner h s) (hk : normZone zone = key)
    (hd : connected org zone token zoneID <+: h.of i) :
    ∃ zd, s.zoneForOrg org zone = some zd ∧ zd.Holds owner (mirrorAfter h) := by
  have ⟨zd, hg, hz⟩ := t.holds
  have hm : ⟨.store org (.zoneProvider zone), .ok (some providerCloudflare)⟩ ∈ h.of i :=
    hd.subset (.head _)
  have ⟨ho, _⟩ := t.seen i org zone _ (mem_of_iff.mp hm) hk
  exact ⟨zd, zoneForOrg_eq_some_iff.mpr ⟨hk ▸ hg, hz.org.trans ho.symm⟩, hz⟩

theorem step {req : Request} (t : Tracked key owner h s) (hx : s.Answers x s')
    (ha : req.Admits org (h.of i) x.1) (he : req.Edits key) : Tracked key owner (h ++ [(i, x)]) s' := by
  obtain ⟨q, a⟩ := x
  cases q
  case store o c =>
    obtain ⟨e, rfl, rfl⟩ := hx
    obtain ⟨rfl, ha⟩ := ha
    cases c
    case zoneProvider zone =>
      refine t.keep rfl fun _ _ kind hx hk => ?_
      simp only [Sigma.mk.injEq, Query.store.injEq, Call.zoneProvider.injEq] at hx
      obtain ⟨⟨rfl, rfl⟩, hx⟩ := hx
      exact t.zoneProvider hk (Except.ok.inj (eq_of_heq hx))
    case createZone =>
      obtain ⟨_, rfl⟩ := ha
      exact he.elim
    case deleteZone =>
      rw [ha] at he
      exact he.elim
    case bulkSync =>
      obtain ⟨⟨_, rfl, _⟩, _⟩ := ha
      exact he.elim
    case createRecord | updateRecord | deleteRecord =>
      obtain ⟨rfl, ha⟩ := ha
      exact absurd ha (t.not_local he.zone)
    case putMirror =>
      obtain ⟨rfl, token, zoneID, hd, _⟩ := ha
      have ⟨zd, hf, hz⟩ := t.zoneForOrg he.zone hd
      refine t.extend ?_ (by simp)
      simp only [onMirror_putMirror]
      exact he.zone ▸ putMirror_holds hf hz
    case dropMirror =>
      obtain ⟨rfl, token, zoneID, hd⟩ := ha
      have ⟨zd, hf, hz⟩ := t.zoneForOrg he.zone hd
      refine t.extend ?_ (by simp)
      simp only [onMirror_dropMirror]
      exact he.zone ▸ dropMirror_holds hf hz _
    all_goals exact t.keep rfl (by simp)
  all_goals
    cases hx
    exact t.keep rfl (by simp)

end Tracked

namespace Session

variable [DecidableEq ι] {quote : Str → Str} {clients : ι → Client} {history : List (ι × Answered)}
variable {s₁ s₂ : Store} {u₁ u₂ : Upstream}

section

variable (S : Session quote clients key s₁ u₁ history s₂ u₂)

include S

theorem tracked : ∃ owner, Tracked key owner history s₂ := by
  have ⟨zd, hg, hp, hr⟩ := S.zone
  have init : Tracked key zd.zone.org ([] : List (ι × Answered)) s₁ :=
    ⟨⟨zd, hg, rfl, hp, fun id => by simp [hr, mirrorAfter]⟩, by simp⟩
  -- The induction is on the part of the history that is still ahead.
  have run (h₁ h₂ : List (ι × Answered)) (s : Store) (he : history = h₁ ++ h₂)
      (t : Tracked key zd.zone.org h₁ s) (hs : Steps Store.Answers s (h₂.map Prod.snd) s₂) :
      Tracked key zd.zone.org history s₂ := by
    induction h₂ generalizing h₁ s
    case nil =>
      cases hs
      simpa [he] using t
    case cons x h₂ hi =>
      obtain ⟨i, x⟩ := x
      cases hs
      case trans s' hx hs =>
        have ⟨_, hp⟩ := S.complete i
        rw [he, of_append_cons] at hp
        have ha := handle_admitted.admissible hp
        exact hi (h₁ ++ [(i, x)]) s' (by simp [he]) (t.step hx ha (S.edits i)) hs
  exact ⟨_, run [] history s₁ rfl init S.store⟩

theorem filterMap_eq (i : ι) (id : Str) :
    (history.of i).filterMap (callOf id) = (history.of i).filterMap (mirrorOf id) := by
  have ⟨_, hp⟩ := S.complete i
  have hb : Balanced (history.of i) := handle_admitted.result hp
  exact hb.filterMap_eq id

theorem mirrored_eq {id : Str} : s₂.mirrored key id = mirrorAfter history id := by
  have ⟨_, t⟩ := S.tracked
  have ⟨zd, hg, hz⟩ := t.holds
  simp [mirrored, hg, hz.records]

theorem upstream_eq {id : Str} : u₂.get id = upstreamAfter u₁ history id := by
  rw [Upstream.get_of_steps S.upstream, foldl_map]
  case hes =>
    intro p c err he
    have ⟨⟨i, _⟩, hx, he⟩ := mem_map.mp he
    cases he
    exact S.successful i p c err hx
  rfl

end

end Session

-- The request that was the last one to change a record at the provider also was the last one to write
-- its mirror, and what it wrote is accepted by the store.
def Settled (id : Str) (history : List (ι × Answered)) : Prop :=
  ∀ c ∈ history.latest (callOf id),
    (history.latest (mirrorOf id)).map Prod.fst = some c.1 ∧ ∀ pr ∈ c.2, pr.Mirrorable

def Written (id : Str) (history : List (ι × Answered)) : Prop :=
  ∃ x ∈ history, ∃ pr, x.2.callOf id = some (some pr)

-- The mirrors of a zone agree with its provider once all requests are completed: a record is mirrored if
-- and only if it was created or updated through the API and has not been deleted, with the values that
-- the provider has now.
theorem mirror_agreement [DecidableEq ι] {quote : Str → Str} {clients : ι → Client}
    {history : List (ι × Answered)} {s₁ s₂ : Store} {u₁ u₂ : Upstream} {id : Str}
    (session : Session quote clients key s₁ u₁ history s₂ u₂) (settled : Settled id history)
    (pr : ProviderRecord) : s₂.mirrored key id = some pr ↔ u₂.get id = some pr ∧ Written id history := by
  rw [session.mirrored_eq, session.upstream_eq]
  cases hc : history.latest (callOf id)
  case none =>
    have hc := latest_eq_none_iff.mp hc
    have hm x (hx : x ∈ history) : x.2.mirrorOf id = none := by
      have hn : (history.of x.1).filterMap (callOf id) = [] :=
        filterMap_eq_nil_iff.mpr fun y hy => hc _ (mem_of_iff.mp hy)
      rw [session.filterMap_eq] at hn
      exact filterMap_eq_nil_iff.mp hn _ (mem_of_iff.mpr hx)
    have hw : ¬Written id history := fun ⟨x, hx, pr, hw⟩ => by simp [hc x hx] at hw
    have hn : mirrorAfter history id = none :=
      foldl_inert fun x hx o => by simp [onMirror, hm x hx]
    simp [hn, hw]
  case some c =>
    obtain ⟨i, v⟩ := c
    have ⟨hi, hpr⟩ := settled (i, v) hc
    obtain ⟨⟨_, w⟩, hm, rfl⟩ := Option.map_eq_some_iff.mp hi
    have hv : v = w := by
      have hw := getLast?_of_latest hm
      rw [←session.filterMap_eq, getLast?_of_latest hc] at hw
      exact Option.some.inj hw
    subst hv
    have ⟨h₁, x, h₂, he, hx, hn⟩ := latest_eq_some_iff.mp hc
    have ⟨g₁, y, g₂, he', hy, hn'⟩ := latest_eq_some_iff.mp hm
    have hu : upstreamAfter u₁ history id = v := by
      rw [upstreamAfter, he, foldl_last fun y hy o => by simp [onUpstream, hn y hy]]
      simp [onUpstream, hx]
    have hm : mirrorAfter history id = v := by
      rw [mirrorAfter, he', foldl_last fun z hz o => by simp [onMirror, hn' z hz]]
      cases v
      case none => simp [onMirror, hy]
      case some pr => simp [onMirror, hy, hpr pr rfl]
    rw [hu, hm]
    constructor
    case mp => exact fun h => ⟨h, _, he ▸ mem_append_right _ (.head _), pr, h ▸ hx⟩
    case mpr => exact And.left

section Samples

def sampleEnv : Env where
  now := 7
  uuid _ := "u"

def sampleStore : Store :=
  (newStore.createZone sampleEnv "acme" "shop.example" "cloudflare").store

def sampleClients (requests : Fin n → Request) (i : Fin n) : Client where
  org := "acme"
  request := requests i

def sampleRun (requests : Fin n → Request) (u : Upstream) (turns : List (Fin n)) :
    Interleaved Query.Answer Response (Store × Upstream) (Fin n) :=
  schedule (fun t => ['"'] ++ t ++ ['"']) sampleEnv (sampleClients requests) sampleStore u turns

def SampleSession (requests : Fin n → Request) (u : Upstream) (turns : List (Fin n)) : Prop :=
  Session (fun t => ['"'] ++ t ++ ['"']) (sampleClients requests) "shop.example." sampleStore u
    (sampleRun requests u turns).history (sampleRun requests u turns).state.1
    (sampleRun requests u turns).state.2

theorem sampleRun_session (requests : Fin n → Request) (u : Upstream) (turns : List (Fin n))
    (h : (∀ i, (requests i).Edits "shop.example.") ∧ (∀ i, ((sampleRun requests u turns).rest i).isDone) ∧
      (sampleRun requests u turns).history.all fun x => !failed x.2) : SampleSession requests u turns :=
  have zone : sampleStore.zones.get "shop.example." =
      some (newZone sampleEnv "acme" "shop.example" "cloudflare") := by decide +kernel
  schedule_session _ _ _ _ _ _ ⟨_, zone, rfl, rfl⟩ h.left h.right.left h.right.right

def createWww (type : Str) : Request :=
  .createRecord "shop.example" (some ⟨"www", type, 60, "192.0.2.1", 0, false⟩)

def updateWww (content : Str) : Request :=
  .updateRecord "Shop.example." "r" (some { content := some content })

def upstreamWww (content : Str) : ProviderRecord :=
  ⟨"r", "www", "A", content, 60, false, 0⟩

end Samples

-- One client creates a record, and another one updates it before its mirror is written.
theorem mirror_agreement_update :
    let run := sampleRun ![createWww "A", updateWww "192.0.2.2"] ∅ [0, 0, 0, 0, 1, 1, 1, 1, 0, 1, 0, 1]
    run.state.1.mirrored "shop.example." "r" = some (upstreamWww "192.0.2.2") := by
  intro run
  have session : SampleSession ![createWww "A", updateWww "192.0.2.2"] ∅ _ :=
    sampleRun_session _ _ [0, 0, 0, 0, 1, 1, 1, 1, 0, 1, 0, 1] (by decide +kernel)
  have hc : run.history.latest (callOf "r") = some (1, some (upstreamWww "192.0.2.2")) := by
    decide +kernel
  have settled : Settled "r" run.history := by
    intro c hm
    cases hc.symm.trans hm
    exact ⟨by decide +kernel, by decide +kernel⟩
  have ⟨_, x, _, he, hx, _⟩ := latest_eq_some_iff.mp hc
  refine (mirror_agreement session settled _).mpr ⟨by decide +kernel, (1, x), ?_, _, hx⟩
  exact he ▸ mem_append_right _ (.head _)

def creates (id : Str) : Answered → Bool
  | ⟨.provider _ (.createRecord ..), .ok pr⟩ => pr.id = id
  | _ => false

-- Exactly the records of the provider that were created through the API are mirrored.
def Exact (key id : Str) (history : List (ι × Answered)) (s : Store) (u : Upstream) : Prop :=
  ∀ pr, s.mirrored key id = some pr ↔ u.get id = some pr ∧ history.any fun x => creates id x.2

def Diverges (requests : Fin n → Request) (u : Upstream) (turns : List (Fin n)) : Prop :=
  let run := sampleRun requests u turns
  SampleSession requests u turns ∧ ¬Exact "shop.example." "r" run.history run.state.1 run.state.2

-- The mirror is left with the older of two values if the mirror writes of two updates overtake each
-- other. Apart from that, a record that was not created through the API is mirrored when it is updated,
-- and a record of a type which the store does not support is never mirrored.
theorem mirror_diverges : Diverges ![createWww "A", updateWww "192.0.2.2", updateWww "192.0.2.3"] ∅
      [0, 0, 0, 0, 0, 0, 1, 1, 1, 1, 2, 2, 2, 2, 2, 2, 1, 1] ∧
    Diverges ![updateWww "192.0.2.2"] (put ∅ (upstreamWww "192.0.2.1")) [0, 0, 0, 0, 0, 0] ∧
    Diverges ![createWww "PTR"] ∅ [0, 0, 0, 0, 0, 0] := by
  refine ⟨⟨sampleRun_session _ _ _ (by decide +kernel), fun h => ?race⟩,
    ⟨sampleRun_session _ _ _ (by decide +kernel), fun h => ?foreign⟩,
    ⟨sampleRun_session _ _ _ (by decide +kernel), fun h => ?exotic⟩⟩
  case race =>
    refine absurd (h (upstreamWww "192.0.2.3")) ?_
    decide +kernel
  case foreign =>
    refine absurd (h (upstreamWww "192.0.2.2")) ?_
    decide +kernel
  case exotic =>
    refine absurd (h { upstreamWww "192.0.2.1" with type := "PTR" }) ?_
    decide +kernel

end Api
end Hanzodns
