import HanzoDNS.Api.Cloudflare
import HanzoDNS.Api.Theorems.Handlers

open Strings Json Cloudflare Prog List

namespace Hanzodns

open CfEnvelope CfRecord Provider

section

variable (parse : Http.Bytes → Option Json)

def NoContent : Cloudflare.Exchange → Prop
  | .response status _ _ => status = 204
  | _ => False

def contentOf : Cloudflare.Exchange → Option Json
  | .response _ body _ => parse (body.take bodyLimit)
  | _ => none

def Succeeds (x : Cloudflare.Exchange) : Prop :=
  ∃ j, contentOf parse x = some j ∧ (decode j).success

def resultOf (x : Cloudflare.Exchange) : Option Json :=
  ((contentOf parse x).bind rawResult).bind id

-- The record comes from the one reply of a call. If there is anything in that, it says that the call has succeeded,
-- and its result is the record.
def ReturnedBy (es : List (Prog.Event fun _ : Cloudflare.Request => Cloudflare.Exchange)) (pr : ProviderRecord) : Prop :=
  ∃ r x, es = [⟨r, x⟩] ∧ (¬NoContent x → Succeeds parse x ∧
    ∀ v, resultOf parse x = some v → ∃ found, decode {} v = some found ∧ pr = found.toProvider)

-- A record that the provider is said to have created has been returned by its connector.
def Connects : Answered → Prop
  | ⟨.provider _ (.createRecord zoneID input), .ok pr⟩ =>
    ∃ es, (createRecord parse zoneID input).Path es (.ok pr)
  | _ => True

def ServedLocally (es : List Answered) (org : Org) (zone : Str) : Prop :=
  ∃ kind ≠ providerCloudflare, [⟨.store org (.zoneProvider zone), .ok (some kind)⟩] <+: es

def CreatedUpstream (es : List Answered) (org : Org) (zone : Str) (pr : ProviderRecord) : Prop :=
  ∃ token zoneID input, connected org zone token zoneID <+: es ∧
    ⟨.provider { token } (.createRecord zoneID input), .ok pr⟩ ∈ es

end

section Calls

variable {parse : Http.Bytes → Option Json} {r : Cloudflare.Request} {out : Option (Decoder α)} {init : α}
variable {es : List (Prog.Event fun _ : Cloudflare.Request => Cloudflare.Exchange)}
  {x : Cloudflare.Exchange} {pr : ProviderRecord}

theorem cfDo_path {res : Except CfError α} :
    (cfDo parse r out init).Path es res ↔ ∃ x, es = [⟨r, x⟩] ∧ res = received parse out init x := by
  constructor
  case mp =>
    rintro ⟨x, _, rfl, rfl, rfl⟩
    exact ⟨x, rfl, rfl⟩
  case mpr =>
    rintro ⟨x, rfl, rfl⟩
    exact ⟨x, [], rfl, rfl, rfl⟩

theorem received_ok {a : α} (h : received parse out init x = .ok a) (hc : ¬NoContent x) :
    Succeeds parse x ∧ ∀ decode, out = some decode → ∀ v, resultOf parse x = some v → decode init v = some a := by
  cases x
  case unsent => cases h
  case failed => cases h
  case response status body err =>
    have hc : status ≠ 204 := hc
    rw [received, unwrap, if_neg hc] at h
    dsimp only at h
    split at h
    case h_1 => cases h
    case h_2 he =>
      -- Without an error there is a text, and it says so.
      obtain ⟨j, hj, hs⟩ : ∃ j, parse (body.take bodyLimit) = some j ∧ (CfEnvelope.decode j).success := by
        have hf (status : Nat) : CfEnvelope.err {} status ≠ none := by simp [CfEnvelope.err]
        split at he
        case isFalse => exact absurd he (hf status)
        case isTrue =>
          cases hp : parse (body.take bodyLimit)
          case none =>
            rw [hp] at he
            exact absurd he (hf status)
          case some j =>
            rw [hp, Option.elim_some, CfEnvelope.err] at he
            exact ⟨j, rfl, by simpa using he⟩
      refine ⟨⟨j, hj, hs⟩, ?_⟩
      rintro decode rfl v hv
      have hv : rawResult j = some (some v) := by
        simpa [resultOf, contentOf, hj, Option.bind_eq_some_iff] using hv
      simp only [hj, Option.bind_some, hv] at h
      split at h
      case h_1 => cases h
      case h_2 a' ha => rw [ha, Except.ok.inj h]

theorem returnedBy (h : es = [⟨r, x⟩] ∧ (received parse (some decode) {} x).map toProvider = .ok pr) :
    ReturnedBy parse es pr := by
  obtain ⟨rfl, h⟩ := h
  cases hr : received parse (some decode) {} x
  case error => simp [hr, Except.map] at h
  case ok found =>
    have hp : found.toProvider = pr := by simpa [hr, Except.map] using h
    refine ⟨r, x, rfl, fun hc => ?_⟩
    obtain ⟨hs, hd⟩ := received_ok hr hc
    exact ⟨hs, fun v hv => ⟨found, hd _ rfl v hv, hp.symm⟩⟩

theorem createRecord_returnedBy {zoneID : Str} {input : RecordInput}
    (h : (createRecord parse zoneID input).Path es (.ok pr)) : ReturnedBy parse es pr := by
  obtain ⟨x, _, rfl, rfl, h⟩ := h
  exact returnedBy ⟨rfl, h.symm⟩

theorem updateRecord_returnedBy {zoneID recordID : Str} {patch : RecordPatch}
    (h : (updateRecord parse zoneID recordID patch).Path es (.ok pr)) : ReturnedBy parse es pr := by
  obtain ⟨x, _, rfl, rfl, h⟩ := h
  exact returnedBy ⟨rfl, h.symm⟩

end Calls

section Handlers

variable {quote : Str → Str} {org : Org} {zone : Str} {body : Option RecordBody} {es : List Answered}

def Reports (org : Org) (zone : Str) (es : List Answered) (response : Response) : Prop :=
  response.status = 201 → ServedLocally es org zone ∨
    ∃ pr now, CreatedUpstream es org zone pr ∧ response.body = .record (toRecord pr now)

theorem writeError_reports {code msg : Str} (h : status ≠ 201) : Reports org zone es (writeError status code msg) :=
  fun hr => absurd hr h

theorem writeRecordError_reports {err : Error} : Reports org zone es (writeRecordError quote err) := by
  rw [writeRecordError]
  split <;> try split
  all_goals exact writeError_reports (by decide)

theorem handleCreateRecord_reports :
    (handleCreateRecord quote org zone body).Meets (fun _ _ => True) (Reports org zone) [] := by
  cases body
  case none => exact writeError_reports (by decide)
  case some body =>
    rw [handleCreateRecord]
    split <;> try split <;> try split
    case isFalse.isFalse.isFalse =>
      rw [meets_bind]
      apply zoneBackend_meets
      case probes => exact fun _ _ _ => trivial
      case refused =>
        intro _ err _
        cases err <;> exact writeError_reports (by decide)
      case served =>
        refine fun kind hk => ⟨trivial, fun a => ?_⟩
        cases a
        case error => exact writeRecordError_reports
        case ok => exact fun _ => .inl ⟨kind, hk, prefix_append ..⟩
      case delegated =>
        refine fun token zoneID => ⟨trivial, fun a => ?_⟩
        cases a
        case error => exact writeError_reports (by decide)
        case ok pr =>
          refine ⟨trivial, fun _ => ⟨trivial, fun now _ => .inr ⟨pr, now, ?_, rfl⟩⟩⟩
          simp only [append_assoc, nil_append]
          exact ⟨token, zoneID, _, prefix_append .., mem_append_right _ (.head _)⟩
    all_goals exact writeError_reports (by decide)

-- A call fails unless there is no content or the content says that it has succeeded, and what is reported as created
-- is what the provider has returned.
theorem fails_closed (quote : Str → Str) (parse : Http.Bytes → Option Json) :
    (∀ (α : Type) r out (init a : α) es, (cfDo parse r out init).Path es (.ok a) →
      ∃ x, es = [⟨r, x⟩] ∧ (NoContent x ∨ Succeeds parse x)) ∧
    (∀ zoneID input es pr, (createRecord parse zoneID input).Path es (.ok pr) → ReturnedBy parse es pr) ∧
    (∀ zoneID recordID patch es pr, (updateRecord parse zoneID recordID patch).Path es (.ok pr) →
      ReturnedBy parse es pr) ∧
    ∀ org zone body es response, (handleCreateRecord quote org zone body).Path es response →
      (∀ x ∈ es, Connects parse x) → response.status = 201 → ServedLocally es org zone ∨
        ∃ pr now, CreatedUpstream es org zone pr ∧ response.body = .record (toRecord pr now) ∧
          ∃ calls, ReturnedBy parse calls pr := by
  refine ⟨fun α r out init a es h => ?_, ?_, ?_, fun org zone body es response hp hx hs => ?_⟩
  case refine_1 =>
    obtain ⟨x, rfl, hr⟩ := cfDo_path.mp h
    refine ⟨x, rfl, ?_⟩
    by_cases hc : NoContent x
    case pos => exact .inl hc
    case neg => exact .inr (received_ok hr.symm hc).left
  case refine_2 => exact fun _ _ _ _ => createRecord_returnedBy
  case refine_3 => exact fun _ _ _ _ _ => updateRecord_returnedBy
  case refine_4 =>
    obtain hl | ⟨pr, now, ⟨token, zoneID, input, hc, hm⟩, hb⟩ := handleCreateRecord_reports.result hp hs
    case inl => exact .inl hl
    case inr =>
      obtain ⟨calls, hp⟩ := hx _ hm
      exact .inr ⟨pr, now, ⟨token, zoneID, input, hc, hm⟩, hb, calls, createRecord_returnedBy hp⟩

def createdInput : RecordInput where
  name := "www"
  type := "A"
  content := "192.0.2.1"
  ttl := 300
  proxied := false
  priority := 0

def createdBody : RecordBody := { createdInput with }

def createdText : Str :=
  "\x7b\"success\":true,\"result\":\x7b\"id\":\"r1\",\"name\":\"www.example.org\",\"type\":\"A\",".toList ++
  "\"content\":\"192.0.2.1\",\"ttl\":300\x7d\x7d".toList

def createdReply : Json := .object [
  ("success".toList, .bool true),
  ("result".toList, .object [
    ("id".toList, .string "r1"), ("name".toList, .string "www.example.org"), ("type".toList, .string "A"),
    ("content".toList, .string "192.0.2.1"), ("ttl".toList, .number "300")])
]

def creation (pr : ProviderRecord) : List Answered :=
  connected "acme" "example.org" "token" "z1" ++ [
    ⟨.provider { token := "token" } (.createRecord "z1" createdInput), .ok pr⟩,
    ⟨.store "acme" (.putMirror "example.org" pr), .ok ()⟩, ⟨.now, (0 : Nat)⟩
  ]

theorem creation_path (pr : ProviderRecord) :
    (handleCreateRecord id "acme" "example.org" (some createdBody)).Path (creation pr)
      { status := 201, body := .record (toRecord pr 0) } :=
  ⟨_, _, rfl, _, _, rfl, _, _, rfl, _, _, rfl, _, _, rfl, _, _, rfl, rfl, rfl⟩

-- A reply without content is taken for success, and the record that is reported has no id.
theorem not_fails_closed :
    let pr := toProvider {}
    let x : Cloudflare.Exchange := .response 204 [] none
    ¬Succeeds (fun _ => none) x ∧ pr.id = [] ∧
      (∃ r, (createRecord (fun _ => none) "z1" createdInput).Path [⟨r, x⟩] (.ok pr)) ∧
      ∃ response, (handleCreateRecord id "acme" "example.org" (some createdBody)).Path (creation pr) response ∧
        response.status = 201 := by
  refine ⟨?_, rfl, ⟨_, _, _, rfl, rfl, rfl⟩, _, creation_path _, rfl⟩
  rintro ⟨j, hj, _⟩
  cases hj

theorem fails_closed_created :
    let pr : ProviderRecord := {
      id := "r1", name := "www.example.org", type := "A", content := "192.0.2.1"
      ttl := 300, proxied := false, priority := 0 }
    let parse := Json.parser [(createdText, createdReply)]
    (handleCreateRecord id "acme" "example.org" (some createdBody)).Path (creation pr)
        { status := 201, body := .record (toRecord pr 0) } ∧
      (∀ x ∈ creation pr, Connects parse x) ∧ (ServedLocally (creation pr) "acme" "example.org" ∨
        ∃ pr' now, CreatedUpstream (creation pr) "acme" "example.org" pr' ∧
          Body.record (toRecord pr 0) = .record (toRecord pr' now) ∧ ∃ calls, ReturnedBy parse calls pr') := by
  intro pr parse
  have hp : ∃ es, (createRecord parse "z1" createdInput).Path es (.ok pr) := by
    refine ⟨_, .response 200 (Strings.bytes createdText) none, _, rfl, rfl, ?_⟩
    decide +kernel
  have hx : ∀ x ∈ creation pr, Connects parse x := by
    simp only [creation, connected, cons_append, nil_append, forall_mem_cons]
    exact ⟨trivial, trivial, trivial, hp, trivial, trivial, forall_mem_nil _⟩
  exact ⟨creation_path pr, hx, (fails_closed id parse).2.2.2 _ _ _ _ _ (creation_path pr) hx rfl⟩

end Handlers
end Hanzodns
