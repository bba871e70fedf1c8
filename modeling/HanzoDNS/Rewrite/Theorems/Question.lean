import HanzoDNS.Lib.Fallible
import HanzoDNS.Rewrite.Serve

open Dns Strings List

namespace Rewrite

open Dnsserver ResponseReverter Edns Draft Msg Outcome

-- The next plugin writes one response to the request that it has got, or none and returns a code that says so.
def Replies (next : Handler) : Prop :=
  ∀ r, (∃ m rcode, next r = ([m], rcode) ∧ clientWrite rcode ∧ m.question = r.question) ∨
    ∃ rcode, next r = ([], rcode) ∧ ¬clientWrite rcode

def Sees (env : Env) (rules : List Rule) (next : Handler) (r : Msg) : Prop :=
  ∃ m, (serveDNS env {} rules next r).received env = [m] ∧ m.question = r.question

def ResponseRule.usesOpt : ResponseRule → Bool
  | edns0Set _ | edns0Replace .. => true
  | _ => false

-- The rules change the question and nothing changes it back. Either no rule that applies deals with responses
-- and none ends the search for more; or none ends it, and the next plugin does not write; or a rule for options
-- panics at the first record of a response without an OPT record, and the server gets the request as the rules
-- that are undone before have left it.
inductive Leaks (env : Env) (rules : List Rule) (next : Handler) (q : Question) (r : Msg) : Prop
  | bypassed (h : rewriteRequest env q rules r [] = .done r' [] .continue) (hq : r'.question ≠ [q])
  | unanswered (h : rewriteRequest env q rules r [] = .done r' respRules .continue) (hn : (next r').1 = [])
    (hq : r'.question ≠ [q])
  | panicked (h : rewriteRequest env q rules r [] = .done r' (rest ++ rule :: undone) mode) (hn : (next r').1 = [m])
    (ho : ¬m.HasOpt) (hm : m.records ≠ []) (hu : rule.usesOpt) (hr : ∀ rule ∈ undone, ¬rule.usesOpt)
    (hd : rewriteResourceRecord env undone (.ofMsg r' { m with question := [q] }) 0 = .ok d) (hq : d.request.question ≠ [q])

variable {env : Env} {r r' res m : Msg} {d : Draft} {q : Question} {i : Nat}

section Requests

theorem setOptions_question (options : List EDNS0) : (env.dns.setOptions options r).question = r.question := by
  rw [setOptions]
  split <;> rfl

theorem setupEdns0Opt_question : (setupEdns0Opt env r).question = r.question := by
  rw [setupEdns0Opt]
  split
  case h_1 => rfl
  case h_2 =>
    obtain ⟨rr, udpSize, options, -, hs⟩ := env.dns.setEdns0_eq r
    rw [hs]

theorem rewriteOption_question (action : Action) (code : UInt16) (revert : Bool) (ofKind : EDNS0 → Bool)
    (update : EDNS0 → EDNS0) (new : EDNS0) (addAnother : Bool) :
    (rewriteOption env r action code revert ofKind update new addAnother).1.question = r.question := by
  rw [rewriteOption]
  repeat' split
  all_goals first
    | exact setupEdns0Opt_question
    | exact (setOptions_question _).trans setupEdns0Opt_question

variable (env) in
theorem Rule.rewrite_question (rule : Rule) (h : r.question = [q]) : ∃ q', (rule.rewrite env r).1.question = [q'] := by
  have name (base : NameRuleBase) (name : Str) : ∃ q', (base.rewriteTo env r name).1.question = [q'] :=
    ⟨{ q with name }, by simp [NameRuleBase.rewriteTo, setName, h]⟩
  have unset (code : UInt16) : (unsetEdns0Option env r code).1.question = [q] :=
    (setOptions_question _).trans (setupEdns0Opt_question.trans h)
  cases rule
  all_goals rw [rewrite]
  case exactNameRule | substringNameRule =>
    split
    · exact name _ _
    · exact ⟨q, h⟩
  case prefixNameRule | suffixNameRule =>
    split
    · exact name _ _
    · exact ⟨q, h⟩
  case regexNameRule =>
    split
    · exact ⟨q, h⟩
    · exact name _ _
  case classRule toClass _ =>
    split
    · exact ⟨{ q with qclass := toClass }, by simp [h]⟩
    · exact ⟨q, h⟩
  case typeRule toType _ =>
    split
    · exact ⟨{ q with qtype := toType }, by simp [h]⟩
    · exact ⟨q, h⟩
  case edns0LocalRule | edns0NsidRule | edns0SubnetRule =>
    split
    · exact ⟨q, unset _⟩
    · exact ⟨q, (rewriteOption_question ..).trans h⟩
  case edns0VariableRule =>
    split
    · exact ⟨q, h⟩
    · exact ⟨q, (rewriteOption_question ..).trans h⟩
  case ttlRule | rcodeRule | cnameTargetRule => exact ⟨q, h⟩

-- The question of a request with a name that is not valid is the one that it came with.
def Requested.HasQuestion (original : Question) : Requested → Prop
  | invalid r => r.question = [original]
  | done r _ _ => ∃ q, r.question = [q]

theorem rewriteRequest_hasQuestion {original : Question} {rules : List Rule} {respRules : List ResponseRule}
    (h : r.question = [q]) : (rewriteRequest env original rules r respRules).HasQuestion original := by
  induction rules generalizing r q respRules
  case nil => exact ⟨q, h⟩
  case cons rule rules hi =>
    obtain ⟨q', hq⟩ := rule.rewrite_question env h
    rcases hr : rule.rewrite env r with ⟨r₁, _ | add⟩
    all_goals
      replace hq : r₁.question = [q'] := by simpa [hr] using hq
      rw [rewriteRequest, hr]
    case none => exact hi hq
    case some =>
      dsimp only
      split
      case isTrue => simp [Requested.HasQuestion, hq]
      case isFalse =>
        split
        case isTrue => exact ⟨q', hq⟩
        case isFalse => exact hi hq

end Requests

section Responses

namespace Draft

-- The types of the additional records. Rules do not change them.
def Carries (types : List RRType) (d : Draft) : Prop :=
  d.extra.map (d.heap[·]?.map (·.rrtype)) = types.map some

variable {types : List RRType}

theorem Carries.hasOpt_iff (h : d.Carries types) : d.toMsg.HasOpt ↔ .opt ∈ types := by
  have ho : some .opt ∈ d.extra.map (d.heap[·]?.map (·.rrtype)) ↔ some .opt ∈ types.map some := by rw [h]
  simp only [mem_map, Option.map_eq_some_iff, Option.some.injEq, exists_eq_right] at ho
  simp only [Msg.HasOpt, toMsg, read, mem_filterMap, ←ho]
  grind

theorem Carries.modify {f : RR → RR} (h : d.Carries types) (hf : ∀ rr, (f rr).rrtype = rr.rrtype) :
    (d.modify i f).Carries types := by
  refine Eq.trans (map_congr_left fun a _ => ?_) h
  simp only [Draft.modify, getElem?_modify]
  cases d.heap[a]?
  case none => rfl
  case some rr => by_cases i = a <;> simp [*]

theorem aliases_last {heap : List RR} {target : Str} {answer : List Nat} {j : Nat}
    (h : (aliases heap target answer).2 = some j) : ∃ rr, heap[j]? = some rr ∧ rr.rrtype = .cname := by
  induction answer
  case nil => cases h
  case cons k answer hi =>
    rw [aliases] at h
    split at h
    case h_1 rr t hk =>
      split at h
      case isTrue =>
        cases h
        exact ⟨_, hk, rfl⟩
      case isFalse => exact hi h
    case h_2 => exact hi h

-- What is found for the new target is put behind the records that are there.
theorem Carries.follow {request upRes : Msg} {fromTarget toTarget : Str} (h : d.Carries types) :
    (d.follow request fromTarget toTarget upRes).Carries types := by
  refine Eq.trans (map_congr_left fun a ha => ?_) h
  obtain ⟨t, -, ht⟩ := mem_map.mp (h ▸ mem_map_of_mem ha)
  obtain ⟨rr, hr, -⟩ := Option.map_eq_some_iff.mp ht.symm
  have hl : a < d.heap.length := (List.getElem?_eq_some_iff.mp hr).1
  rw [Draft.follow]
  dsimp only
  cases hj : (aliases d.heap fromTarget d.answer).2
  case none => simp [getElem?_append_left hl]
  case some j =>
    obtain ⟨rr', hr', ht'⟩ := aliases_last hj
    by_cases hn : j = a
    case neg => simp [getElem?_append_left, hl, hn]
    case pos =>
      subst hn
      simp only [Option.elim_some, length_modify, hl, getElem?_append_left, getElem?_modify_eq, hr', Option.map_eq_map,
        Option.map_some, ht']
      rfl

end Draft

variable {types : List RRType}

theorem rrtype_rewriteValue (rewriter : StringRewriter) (data : RData) :
    (rewriteValue rewriter data).rrtype = data.rrtype := by
  rw [rewriteValue]
  split
  case isTrue => cases data <;> rfl
  case isFalse => rfl

theorem Draft.rewriteOptions_eq_error (f : List EDNS0 → List EDNS0) (h : ¬d.toMsg.HasOpt) :
    d.rewriteOptions env f = .error d.request := by
  have hn : env.dns.isEdns0 d.toMsg = none := by_contra fun hn => h (Edns.isEdns0_ne_none_iff.mp hn)
  rw [Draft.rewriteOptions, hn]

theorem Draft.Carries.rewriteOptions {f : List EDNS0 → List EDNS0} (h : d.Carries types) (ho : .opt ∈ types) :
    (d.rewriteOptions env f).Ends (Carries types) fun _ => False := by
  obtain ⟨j, hj⟩ := Option.ne_none_iff_exists'.mp <| Edns.isEdns0_ne_none_iff.mpr (h.hasOpt_iff.mpr ho)
  rw [Draft.rewriteOptions, hj]
  change (d.extra[j]?.elim d _).Carries types
  cases d.extra[j]?
  case none => exact h
  case some a => exact Draft.Carries.modify h fun _ => RData.rrtype_setOptions _

variable (env d i) in
theorem CnameTargetRule.rewriteResponse_cases (rule : CnameTargetRule) : rule.rewriteResponse env d i = d ∨
    ∃ target, rule.rewriteResponse env d i = { d with request := setName target d.request } ∨
      ∃ fromTarget upRes, rule.rewriteResponse env d i = d.follow (setName target d.request) fromTarget target upRes := by
  rw [rewriteResponse]
  split
  case h_2 => exact .inl rfl
  case h_1 t _ =>
    dsimp only
    split
    case isTrue => exact .inl rfl
    case isFalse =>
      refine .inr ⟨(rule.getFromAndToTarget t).2, ?_⟩
      split
      case h_1 => exact .inl rfl
      case h_2 => exact .inr ⟨_, _, rfl⟩

theorem ResponseRule.rewriteResponse_eq_error (rule : ResponseRule) (hu : rule.usesOpt) (h : ¬d.toMsg.HasOpt) :
    rule.rewriteResponse env d i = .error d.request := by
  cases rule
  case edns0Set | edns0Replace =>
    rw [rewriteResponse]
    exact rewriteOptions_eq_error _ h
  all_goals cases hu

theorem ResponseRule.rewriteResponse_carries (rule : ResponseRule) (h : d.Carries types)
    (ho : rule.usesOpt → .opt ∈ types) : (rule.rewriteResponse env d i).Ends (Carries types) fun _ => False := by
  cases rule
  case name | ttl => exact h.modify fun _ => rfl
  case value rewriter => exact h.modify fun rr => rrtype_rewriteValue rewriter rr.data
  case rcode =>
    rw [rewriteResponse]
    split <;> exact h
  case edns0Set | edns0Replace =>
    rw [rewriteResponse]
    exact h.rewriteOptions (ho rfl)
  case cnameTarget rule =>
    change (rule.rewriteResponse env d i).Carries types
    obtain hd | ⟨target, hd | ⟨fromTarget, upRes, hd⟩⟩ := rule.rewriteResponse_cases env d i
    all_goals rw [hd]
    · exact h
    · exact h
    · exact h.follow

-- The question of the response is not changed any more, and the request still has one.
def Draft.Shows (question : List Question) (d : Draft) : Prop :=
  d.msg.question = question ∧ ∃ q, d.request.question = [q]

theorem ResponseRule.rewriteResponse_shows {question : List Question} (rule : ResponseRule) (h : d.Shows question) :
    (rule.rewriteResponse env d i).Ends (Draft.Shows question) fun r => ∃ q, r.question = [q] := by
  cases rule
  case name | value | ttl => exact h
  case rcode =>
    rw [rewriteResponse]
    split <;> exact h
  case edns0Set | edns0Replace =>
    rw [rewriteResponse, rewriteOptions]
    split
    case h_1 => exact h.2
    case h_2 j _ =>
      cases d.extra[j]?
      case none => exact h
      case some a => exact h
  case cnameTarget rule =>
    change (rule.rewriteResponse env d i).Shows question
    obtain ⟨hq, q, hr⟩ := h
    have hs (name : Str) : (setName name d.request).question = [{ q with name }] := by simp [setName, hr]
    obtain hd | ⟨target, hd | ⟨fromTarget, upRes, hd⟩⟩ := rule.rewriteResponse_cases env d i
    all_goals rw [hd]
    · exact ⟨hq, q, hr⟩
    · exact ⟨hq, _, hs target⟩
    · exact ⟨hq, _, hs target⟩

def Draft.rewriteAll (env : Env) (rules : List ResponseRule) (d : Draft) : Except Msg (Msg × Msg) := do
  let d ← d.ns.foldlM (rewriteResourceRecord env rules) d
  let d ← d.answer.foldlM (rewriteResourceRecord env rules) d
  let d ← d.extra.foldlM (rewriteResourceRecord env rules) d
  return (d.toMsg, d.request)

def ResponseReverter.restore (wr : ResponseReverter) (res : Msg) : Msg :=
  { res with question := if wr.policy.noRestore then res.question else res.question.set 0 wr.originalQuestion }

variable {wr : ResponseReverter}

theorem ResponseReverter.writeMsg_eq_rewriteAll (hq : wr.policy.noRestore = false → res.question ≠ []) :
    wr.writeMsg env r res = (Draft.ofMsg r (wr.restore res)).rewriteAll env wr.responseRules := by
  rw [writeMsg, if_neg fun hc => hq (Bool.eq_false_of_not_eq_true hc.1) hc.2]
  rfl

theorem ResponseReverter.writeMsg_ends {P : Draft → Prop} {E : Msg → Prop}
    (hq : wr.policy.noRestore = false → res.question ≠ []) (hp : P (.ofMsg r (wr.restore res)))
    (hs : ∀ d i, ∀ rule ∈ wr.responseRules, P d → (rule.rewriteResponse env d i).Ends P E) :
    (wr.writeMsg env r res).Ends (fun w => ∃ d, P d ∧ w = (d.toMsg, d.request)) E := by
  have record (d : Draft) (i : Nat) (h : P d) : (rewriteResourceRecord env wr.responseRules d i).Ends P E :=
    .foldlM h fun d rule hr h => hs d i rule (mem_reverse.mp hr) h
  have all (d : Draft) (is : List Nat) (h : P d) :
      (is.foldlM (rewriteResourceRecord env wr.responseRules) d).Ends P E :=
    .foldlM h fun d i _ h => record d i h
  rw [writeMsg_eq_rewriteAll hq]
  refine (all _ _ hp).bind fun d hd => ?_
  refine (all _ _ hd).bind fun d hd => ?_
  refine (all _ _ hd).bind fun d hd => ?_
  exact ⟨d, hd, rfl⟩

end Responses

section Replies

variable {registered : UInt16 → Bool} {rcode : Nat}

theorem sizeAndDo_reply {out : Msg × Msg} (h : env.dns.sizeAndDo registered r { env.dns.setReply r with rcode } = out)
    (hq : r.question = [q]) :
    out.1.question = [q] ∧ out.2.question = [q] ∧ (out.2.HasOpt ∨ out.2.records = []) := by
  subst h
  refine ⟨sizeAndDo_question.1.trans hq, sizeAndDo_question.2.trans (env.dns.setReply_question hq), ?_⟩
  by_cases ho : r.HasOpt
  case pos => exact .inl (sizeAndDo_hasOpt ho)
  case neg =>
    rw [sizeAndDo_eq_of_not_hasOpt ho]
    exact .inr (env.dns.setReply_records r)

theorem errorFunc_question (h : r.question = [q]) : (errorFunc env r rcode).question = [q] :=
  sizeAndDo_question.2.trans (env.dns.setReply_question h)

theorem map_getElem?_range (before rrs after : List RR) :
    (List.range' before.length rrs.length).map ((before ++ rrs ++ after)[·]?) = rrs.map some := by
  refine ext_getElem (by simp) fun i _ hi => ?_
  rw [length_map] at hi
  simp [getElem?_append_right, getElem?_append_left, hi]

theorem Draft.carries_ofMsg : (Draft.ofMsg r res).Carries (res.extra.map (·.rrtype)) := by
  have he := map_getElem?_range (res.ns ++ res.answer) res.extra []
  rw [append_nil, length_append] at he
  simpa [Carries, ofMsg, Function.comp_def] using congrArg (map (Option.map (·.rrtype))) he

theorem Draft.toMsg_ofMsg : (Draft.ofMsg r res).toMsg = res := by
  have read (before rrs after : List RR) :
      (List.range' before.length rrs.length).filterMap ((before ++ rrs ++ after)[·]?) = rrs := by
    simpa [filterMap_map] using congrArg (filterMap id) (map_getElem?_range before rrs after)
  have hn := read [] res.ns (res.answer ++ res.extra)
  have ha := read res.ns res.answer res.extra
  have he := read (res.ns ++ res.answer) res.extra []
  simp only [nil_append, append_nil, length_append, length_nil, ←append_assoc] at hn ha he
  simp only [toMsg, Draft.read, ofMsg, hn, ha, he]

variable {wr : ResponseReverter}

theorem ResponseReverter.writeMsg_question {q' : Question} (hp : wr.policy.noRestore = false)
    (hq : res.question = [q]) (hr : r.question = [q']) :
    (wr.writeMsg env r res).Ends (fun w => w.1.question = [wr.originalQuestion]) fun r => ∃ q, r.question = [q] := by
  have hw : (wr.writeMsg env r res).Ends
      (fun w => ∃ d, Draft.Shows [wr.originalQuestion] d ∧ w = (d.toMsg, d.request)) fun r => ∃ q, r.question = [q] := by
    refine writeMsg_ends (by simp [hq]) ?_ fun d i rule _ h => rule.rewriteResponse_shows h
    exact ⟨by simp [ofMsg, restore, hp, hq], q', hr⟩
  cases h : wr.writeMsg env r res
  all_goals rw [h] at hw
  case error => exact hw
  case ok =>
    obtain ⟨d, hd, rfl⟩ := hw
    exact hd.1

theorem ResponseReverter.exists_writeMsg_nil (hq : wr.policy.noRestore = false → res.question ≠ [])
    (hm : res.records = []) : ∃ m, wr.writeMsg env r res = .ok (m, r) := by
  simp only [records, append_eq_nil_iff] at hm
  rw [writeMsg_eq_rewriteAll hq]
  simp only [rewriteAll, ofMsg, restore, hm, length_nil, range'_zero, foldlM_nil]
  exact ⟨_, rfl⟩

theorem ResponseReverter.exists_writeMsg (hq : res.question ≠ [])
    (ho : res.records ≠ [] → ∀ rule ∈ wr.responseRules, rule.usesOpt → res.HasOpt) :
    ∃ m r', wr.writeMsg env r res = .ok (m, r') := by
  by_cases hm : res.records = []
  case pos =>
    obtain ⟨m, hw⟩ := exists_writeMsg_nil (fun _ => hq) hm
    exact ⟨m, r, hw⟩
  case neg =>
    have hw : (wr.writeMsg env r res).Ends
        (fun w => ∃ d, Carries (res.extra.map (·.rrtype)) d ∧ w = (d.toMsg, d.request)) fun _ => False :=
      writeMsg_ends (fun _ => hq) carries_ofMsg fun d i rule hr h =>
        rule.rewriteResponse_carries h fun hu => mem_map.mpr (ho hm rule hr hu)
    obtain ⟨⟨m, r'⟩, hw, -⟩ := hw.exists_ok
    exact ⟨m, r', hw⟩

-- The first record is at address 0, whatever section it is in.
theorem Draft.first_ofMsg (h : res.records ≠ []) : let d := ofMsg r res
    d.ns.head? = some 0 ∨ d.ns = [] ∧ (d.answer.head? = some 0 ∨ d.answer = [] ∧ d.extra.head? = some 0) := by
  rw [records] at h
  simp only [ofMsg, head?_range', range'_eq_nil_iff]
  grind

variable {rest undone : List ResponseRule} {rule : ResponseRule}

theorem ResponseReverter.writeMsg_panics (hq : wr.policy.noRestore = false → res.question ≠ [])
    (hr : wr.responseRules = rest ++ rule :: undone) (ho : ¬res.HasOpt) (hm : res.records ≠ []) (hu : rule.usesOpt)
    (hn : ∀ rule ∈ undone, ¬rule.usesOpt) :
    ∃ d, rewriteResourceRecord env undone (ofMsg r (wr.restore res)) 0 = .ok d ∧
      wr.writeMsg env r res = .error d.request := by
  have hc : (rewriteResourceRecord env undone (ofMsg r (wr.restore res)) 0).Ends
      (Carries (res.extra.map (·.rrtype))) fun _ => False :=
    .foldlM carries_ofMsg fun d rule hr h => rule.rewriteResponse_carries h fun hu =>
      absurd hu (hn rule (mem_reverse.mp hr))
  obtain ⟨d, hd, hc⟩ := hc.exists_ok
  have hf : rewriteResourceRecord env wr.responseRules (ofMsg r (wr.restore res)) 0 = .error d.request := by
    have hw : rule.rewriteResponse env d 0 = .error d.request :=
      rule.rewriteResponse_eq_error hu fun h => ho (mem_map.mp (hc.hasOpt_iff.mp h))
    rw [rewriteResourceRecord] at hd
    rw [hr, rewriteResourceRecord, reverse_append, reverse_cons, append_assoc, foldlM_append, hd]
    simp [bind, Except.bind, hw]
  have first {is : List Nat} (h : is.head? = some 0) :
      is.foldlM (rewriteResourceRecord env wr.responseRules) (ofMsg r (wr.restore res)) = .error d.request := by
    obtain ⟨is, rfl⟩ := head?_eq_some_iff.mp h
    rw [foldlM_cons, hf]
    rfl
  refine ⟨d, hd, ?_⟩
  rw [writeMsg_eq_rewriteAll hq, rewriteAll]
  obtain hs | ⟨hs, hs' | ⟨hs', he⟩⟩ := @first_ofMsg r (wr.restore res) hm
  · rw [first hs]; rfl
  · rw [hs, foldlM_nil, pure_bind, first hs']; rfl
  · rw [hs, foldlM_nil, pure_bind, hs', foldlM_nil, pure_bind, first he]; rfl

-- Writing panics if there is a record but no OPT record for a rule that is to change options.
theorem ResponseReverter.writeMsg_eq_error_iff (hq : res.question ≠ []) : wr.writeMsg env r res = .error r' ↔
    ∃ rest rule undone d, wr.responseRules = rest ++ rule :: undone ∧ ¬res.HasOpt ∧ res.records ≠ [] ∧ rule.usesOpt ∧
      (∀ rule ∈ undone, ¬rule.usesOpt) ∧
      rewriteResourceRecord env undone (ofMsg r (wr.restore res)) 0 = .ok d ∧ d.request = r' := by
  constructor
  case mp =>
    intro hw
    have hc : ¬(res.records ≠ [] → ∀ rule ∈ wr.responseRules, rule.usesOpt → res.HasOpt) := by
      intro ho
      obtain ⟨_, _, h⟩ := exists_writeMsg hq ho
      cases hw.symm.trans h
    push Not at hc
    obtain ⟨hm, rule, hr, hu, ho⟩ := hc
    obtain ⟨rule, hf⟩ := Option.isSome_iff_exists.mp <| find?_isSome.mpr ⟨rule, mem_reverse.mpr hr, hu⟩
    obtain ⟨hu, undone, rest, hs, hn⟩ := find?_eq_some_iff_append.mp hf
    have hr : wr.responseRules = rest.reverse ++ rule :: undone.reverse := by simpa using congrArg reverse hs
    replace hn : ∀ rule ∈ undone.reverse, ¬rule.usesOpt := by simpa using hn
    obtain ⟨d, hd, h⟩ := writeMsg_panics (fun _ => hq) hr ho hm hu hn
    cases hw.symm.trans h
    exact ⟨_, rule, _, d, hr, ho, hm, hu, hn, hd, rfl⟩
  case mpr =>
    rintro ⟨rest, rule, undone, d, hr, ho, hm, hu, hn, hd, rfl⟩
    obtain ⟨_, hd', hw⟩ := writeMsg_panics (fun _ => hq) hr ho hm hu hn
    cases hd.symm.trans hd'
    exact hw

end Replies

section Client

variable {rules : List Rule} {next : Handler}

theorem received_failed {rcode : Nat} (h : ¬clientWrite rcode) :
    (mk [] r (some rcode)).received env = [errorFunc env r rcode] := by
  rw [received]
  simp [h]

theorem received_written {rcode : Nat} (h : clientWrite rcode) :
    (mk [m] r (some rcode)).received env = [m] := by
  rw [received]
  simp [h]

theorem received_panicked : (mk [] r none).received env = [errorFunc env r rcodeServerFailure] :=
  rfl

theorem not_clientWrite_serverFailure : ¬clientWrite rcodeServerFailure := by
  decide

theorem clientWrite_success : clientWrite rcodeSuccess := by
  decide

theorem sees_iff_of_received {out : Outcome} (h : serveDNS env {} rules next r = out)
    (hr : out.received env = [m]) : Sees env rules next r ↔ m.question = r.question := by
  rw [Sees, h, hr]
  simp

variable {respRules : List ResponseRule} {mode : Mode} {q' : Question} {rcode : Nat}

variable (hr : r.question = [q])

include hr

theorem sees_of_invalid (hw : rewriteRequest env q rules r [] = .invalid r')
    (hq : r'.question = [q]) : Sees env rules next r := by
  have ho : serveDNS env {} rules next r = ⟨[], r', some rcodeServerFailure⟩ := by
    simp [serveDNS, hr, hw]
  refine (sees_iff_of_received ho (received_failed not_clientWrite_serverFailure)).mpr ?_
  rw [errorFunc_question hq, hr]

theorem sees_iff_of_unanswered (hw : rewriteRequest env q rules r [] = .done r' respRules .continue)
    (hq : r'.question = [q']) (hn : next r' = ([], rcode)) (hc : ¬clientWrite rcode) :
    Sees env rules next r ↔ r'.question = [q] := by
  have ho : serveDNS env {} rules next r = ⟨[], r', some rcode⟩ := by
    simp [serveDNS, hr, hw, hn, writeAll, ite_self]
  rw [sees_iff_of_received ho (received_failed hc), errorFunc_question hq, hr, hq]

theorem sees_of_stopped (hw : rewriteRequest env q rules r [] = .done r' respRules .stop)
    (hq : r'.question = [q']) (hn : next r' = ([], rcode)) (hc : ¬clientWrite rcode) :
    Sees env rules next r := by
  rcases hs : env.dns.sizeAndDo env.registered r' { env.dns.setReply r' with rcode } with ⟨r₀, res⟩
  obtain ⟨hr₀, hres, ho⟩ := sizeAndDo_reply hs hq
  have hm' : ((mk q respRules {}).writeMsg env r₀ res).Ends (fun w => w.1.question = [q]) _ :=
    writeMsg_question rfl hres hr₀
  obtain ⟨m, r₁, hm⟩ : ∃ m r₁, (mk q respRules {}).writeMsg env r₀ res = .ok (m, r₁) :=
    exists_writeMsg (hres ▸ cons_ne_nil _ _) fun hm _ _ _ => ho.resolve_right hm
  rw [hm] at hm'
  have ho : serveDNS env {} rules next r = ⟨[m], r₁, some rcodeSuccess⟩ := by
    simp only [serveDNS, hr, hw, hn, writeAll, hs, hm, hc]
    rfl
  refine (sees_iff_of_received ho (received_written clientWrite_success)).mpr ?_
  rw [hr]
  exact hm'

theorem sees_iff_of_bypassed (hw : rewriteRequest env q rules r [] = .done r' [] .continue)
    (hn : next r' = ([m], rcode)) (hc : clientWrite rcode) (hm : m.question = r'.question) :
    Sees env rules next r ↔ r'.question = [q] := by
  have ho : serveDNS env {} rules next r = ⟨[m], r', some rcode⟩ := by
    simp [serveDNS, hr, hw, hn]
  rw [sees_iff_of_received ho (received_written hc), hm, hr]

theorem serveDNS_reverted (hw : rewriteRequest env q rules r [] = .done r' respRules mode)
    (hm : mode = .stop ∨ respRules ≠ []) (hn : next r' = ([m], rcode)) (hc : clientWrite rcode) :
    serveDNS env {} rules next r = (mk q respRules {}).writeAll env rcode r' [m] := by
  cases mode
  case stop => simp [serveDNS, hr, hw, hn, hc]
  case «continue» =>
    obtain hm | hm := hm
    · cases hm
    · simp [serveDNS, hr, hw, hn, hm]

theorem sees_iff_of_reverted (hw : rewriteRequest env q rules r [] = .done r' respRules mode)
    (hm : mode = .stop ∨ respRules ≠ []) (hq : r'.question = [q']) (hn : next r' = ([m], rcode))
    (hc : clientWrite rcode) (hmq : m.question = r'.question) : Sees env rules next r ↔
      ∀ r'', (mk q respRules {}).writeMsg env r' m = .error r'' → r''.question = [q] := by
  have hs := serveDNS_reverted hr hw hm hn hc
  have hwq : ((mk q respRules {}).writeMsg env r' m).Ends (fun w => w.1.question = [q]) fun r => ∃ q, r.question = [q] :=
    writeMsg_question rfl (hmq.trans hq) hq
  rw [writeAll] at hs
  rcases hm : (mk q respRules {}).writeMsg env r' m with r'' | ⟨m', r''⟩
  all_goals rw [hm] at hs hwq
  case error =>
    obtain ⟨q'', hq''⟩ : ∃ q'', r''.question = [q''] := hwq
    rw [sees_iff_of_received hs received_panicked, errorFunc_question hq'', hr, ←hq'']
    simp
  case ok =>
    rw [sees_iff_of_received hs (received_written hc), hr]
    exact iff_of_true hwq (by simp)

-- The client sees its own question unless one of the three things happens.
theorem sees_iff (hn : Replies next) : Sees env rules next r ↔ ¬Leaks env rules next q r := by
  have hh : (rewriteRequest env q rules r []).HasQuestion q := rewriteRequest_hasQuestion hr
  rcases hw : rewriteRequest env q rules r [] with r' | ⟨r', respRules, mode⟩
  all_goals rw [hw] at hh
  case invalid =>
    refine iff_of_true (sees_of_invalid hr hw hh) ?_
    rintro (⟨h, -⟩ | ⟨h, -⟩ | ⟨h, -⟩)
    all_goals cases hw.symm.trans h
  case done =>
    obtain ⟨q', hq⟩ := hh
    obtain ⟨m, rcode, hm, hc, hmq⟩ | ⟨rcode, hm, hc⟩ := hn r'
    case inr =>
      cases mode
      case stop =>
        refine iff_of_true (sees_of_stopped hr hw hq hm hc) ?_
        rintro (⟨h, -⟩ | ⟨h, -⟩ | ⟨h, h', -⟩)
        all_goals cases hw.symm.trans h
        simp [hm] at h'
      case «continue» =>
        rw [sees_iff_of_unanswered hr hw hq hm hc]
        constructor
        case mp =>
          rintro hr' (⟨h, hne⟩ | ⟨h, -, hne⟩ | ⟨h, h', -⟩)
          all_goals cases hw.symm.trans h
          · exact hne hr'
          · exact hne hr'
          · simp [hm] at h'
        case mpr =>
          intro hl
          by_contra hne
          exact hl (.unanswered hw (by rw [hm]) hne)
    case inl =>
      by_cases hs : mode = .stop ∨ respRules ≠ []
      case pos =>
        have hmq' : (mk q respRules {}).restore m = { m with question := [q] } := by simp [restore, hmq, hq]
        simp only [sees_iff_of_reverted hr hw hs hq hm hc hmq, writeMsg_eq_error_iff (hmq.trans hq ▸ cons_ne_nil _ _), hmq']
        constructor
        case mp =>
          rintro hp (⟨h, hne⟩ | ⟨h, h', -⟩ | ⟨h, h', ho, hm', hu, hn, hd, hne⟩)
          all_goals cases hw.symm.trans h
          · simp at hs
          · simp [hm] at h'
          · rw [hm] at h'
            cases h'
            exact hne (hp _ ⟨_, _, _, _, rfl, ho, hm', hu, hn, hd, rfl⟩)
        case mpr =>
          rintro hl _ ⟨_, _, _, _, rfl, ho, hm', hu, hn, hd, rfl⟩
          by_contra hne
          exact hl (.panicked hw (by rw [hm]) ho hm' hu hn hd hne)
      case neg =>
        obtain ⟨hms, rfl⟩ : mode ≠ .stop ∧ respRules = [] := by simpa using hs
        obtain rfl : mode = .continue := by cases mode <;> simp_all
        rw [sees_iff_of_bypassed hr hw hm hc hmq]
        constructor
        case mp =>
          rintro hr' (⟨h, hne⟩ | ⟨h, h', -⟩ | ⟨h, -⟩)
          all_goals have h := hw.symm.trans h
          · cases h
            exact hne hr'
          · cases h
            simp [hm] at h'
          · simp at h
        case mpr =>
          intro hl
          by_contra hne
          exact hl (.bypassed hw hne)

end Client

namespace Sample

def addr : Addr where
  proto := "udp"
  ip := [192, 0, 2, 1]
  text := "192.0.2.1:53"

def world : Env where
  dns := .reference
  remoteAddr := addr
  localAddr := addr
  metadata _ := none
  registered _ := false
  upstream _ _ _ := none

def question : Question where
  name := "a."
  qtype := .a
  qclass := classINET

def request : Msg where
  question := [question]

def echo : Handler :=
  fun r => ([{ r with response := true }], rcodeSuccess)

end Sample

open Sample

theorem sees_stopped : Sees world [.typeRule .a .aaaa .stop] echo request := by
  have hn : Replies echo := fun r => .inl ⟨_, _, rfl, by decide, rfl⟩
  refine (sees_iff (q := question) rfl hn).mpr ?_
  have hw : rewriteRequest world question [.typeRule .a .aaaa .stop] request [] = .done _ [] .stop := rfl
  rintro (⟨h, -⟩ | ⟨h, -⟩ | ⟨h, -⟩)
  · cases h
  · cases h
  · simp [hw] at h

-- If the search goes on and ends with the list of rules, the client gets the question for the other type.
theorem not_sees_continued : ¬Sees world [.typeRule .a .aaaa .continue] echo request := by
  rintro ⟨m, hm, hq⟩
  have hs : (serveDNS world {} [.typeRule .a .aaaa .continue] echo request).received world =
      [{ response := true, question := [{ name := "a.", qtype := .aaaa, qclass := classINET }] }] := by
    decide +kernel
  rw [hs] at hm
  cases hm
  exact absurd hq (by decide)

end Rewrite
