import HanzoDNS.Lib.Edits
import HanzoDNS.Rewrite.Theorems.Records

open Dns Strings List

namespace Rewrite

open ResponseRule EDNS0 Edit Draft ResponseReverter Sample

-- Which OPT record the DNS library finds depends on the types of the records only.
def FindsByType (dns : Edns) : Prop :=
  ∀ m m' : Msg, m.extra.map RR.rrtype = m'.extra.map RR.rrtype → dns.isEdns0 m = dns.isEdns0 m'

def Rule.Reverts : Rule → Prop
  | edns0LocalRule _ _ _ _ revert => revert
  | edns0VariableRule _ _ _ _ revert => revert
  | edns0NsidRule _ _ revert => revert
  | _ => False

section Expected

variable (env : Env) (r : Msg)

-- An option that is added to a request is to be removed from the response, and one that is replaced is to be restored.
def undoOption (action : Action) (code : UInt16) (ofKind : EDNS0 → Bool) (addAnother : Bool) : List (Edit UInt16 EDNS0) :=
  match (env.dns.options (setupEdns0Opt env r)).find? ofKind, action with
  | some old, .replace | some old, .set => [.restore code old]
  | some _, .append => if addAnother then [.remove code] else []
  | none, .append | none, .set => [.remove code]
  | _, _ => []

def Rule.undo : Rule → List (Edit UInt16 EDNS0)
  | edns0LocalRule _ action code _ _ => undoOption env r action code (isLocal code) true
  | edns0VariableRule _ action code var _ =>
    if (ruleData env r var).isSome then undoOption env r action code (isLocal code) false else []
  | edns0NsidRule _ action _ => undoOption env r action codeNSID isNsid true
  | _ => []

def undoOptions (rules : List Rule) (r : Msg) : List (Edit UInt16 EDNS0) :=
  match rules with
  | [] => []
  | rule :: rules => rule.undo env r ++
    if rule.mode = .stop ∧ (rule.rewrite env r).2.isSome then [] else undoOptions rules (rule.rewrite env r).1

-- Every option that a rule has added is taken out, and every option that a rule has replaced is put back, once.
def Reverted (es : List (Edit UInt16 EDNS0)) (wr : ResponseReverter) (request res : Msg) : Prop :=
  ∃ m request', wr.writeMsg env request res = .ok (m, request') ∧
    (res.HasOpt → env.dns.options m = applyAll option es (env.dns.options res))

end Expected

def ResponseRule.ofEdit : Edit UInt16 EDNS0 → ResponseRule
  | .remove code => edns0Set code
  | .restore code source => edns0Replace code source

section Drafts

variable {env : Env} {d : Draft} {j a i : Nat} {es : List (Edit UInt16 EDNS0)} {options : List EDNS0}

@[simps! answer extra request]
def Draft.withOptions (d : Draft) (a : Nat) (options : List EDNS0) : Draft :=
  d.modify a fun rr => { rr with data := rr.data.setOptions options }

structure Draft.OptAt (env : Env) (d : Draft) (j a : Nat) : Prop where
  find : env.dns.isEdns0 d.toMsg = some j
  addr : d.extra[j]? = some a
  valid : ∀ b ∈ d.extra, b < d.heap.length

theorem Draft.getElem?_read (h : ∀ b ∈ d.extra, b < d.heap.length) :
    (d.read d.extra)[j]? = d.extra[j]?.bind (d.heap[·]?) := by
  rw [read]
  generalize d.extra = extra at h
  induction extra generalizing j
  case nil => rfl
  case cons b extra hi =>
    rw [forall_mem_cons] at h
    rw [filterMap_cons, getElem?_eq_getElem h.1]
    cases j
    case zero => simp [getElem?_eq_getElem h.1]
    case succ => exact hi h.2

theorem Draft.OptAt.record (h : d.OptAt env j a) :
    ∃ rr udpSize options, d.heap[a]? = some rr ∧ rr.data = .opt udpSize options := by
  obtain ⟨rr, udpSize, options, hr, ho⟩ := env.dns.isEdns0_some h.find
  refine ⟨rr, udpSize, options, ?_, ho⟩
  have hr : (d.read d.extra)[j]? = some rr := hr
  rwa [getElem?_read h.valid, h.addr] at hr

theorem Draft.rrtype_withOptions :
    (d.withOptions a options).toMsg.extra.map RR.rrtype = d.toMsg.extra.map RR.rrtype := by
  simp only [withOptions, toMsg, read, modify, map_filterMap]
  refine filterMap_congr fun b _ => ?_
  rw [getElem?_modify]
  cases d.heap[b]?
  case none => rfl
  case some rr =>
    refine congrArg some ?_
    split
    case isTrue => exact RData.rrtype_setOptions options
    case isFalse => rfl

variable (hf : FindsByType env.dns)

include hf

theorem Draft.OptAt.withOptions (h : d.OptAt env j a) : (d.withOptions a options).OptAt env j a where
  find := (hf _ _ rrtype_withOptions).trans h.find
  addr := h.addr
  valid := by
    rw [Draft.withOptions, Draft.modify, length_modify]
    exact h.valid

theorem Draft.OptAt.options_withOptions (h : d.OptAt env j a) :
    env.dns.options (d.withOptions a options).toMsg = options := by
  obtain ⟨rr, udpSize, old, hr, ho⟩ := h.record
  have hw : (d.withOptions a options).OptAt env j a := h.withOptions hf
  have hr : (d.withOptions a options).toMsg.extra[j]? = some { rr with data := .opt udpSize options } := by
    change ((d.withOptions a options).read (d.withOptions a options).extra)[j]? = _
    rw [Draft.getElem?_read hw.valid, hw.addr]
    simp [Draft.withOptions, Draft.modify, hr, ho, RData.setOptions]
  rw [Edns.options, hw.find, Option.bind_some, hr]

theorem Draft.OptAt.rewriteOptions (h : d.OptAt env j a) (f : List EDNS0 → List EDNS0) :
    (d.withOptions a options).rewriteOptions env f = .ok (d.withOptions a (f options)) := by
  have hw : (d.withOptions a options).OptAt env j a := h.withOptions hf
  have hs : (d.withOptions a options).withOptions a (f options) = d.withOptions a (f options) := by
    rw [Draft.withOptions, Draft.withOptions, Draft.modify_modify, Draft.withOptions]
    refine congrArg (d.modify a) (funext fun rr => ?_)
    cases hd : rr.data
    all_goals simp [hd, RData.setOptions]
  rw [Draft.rewriteOptions, hw.find]
  dsimp only
  rw [hw.addr, h.options_withOptions hf]
  exact congrArg Except.ok hs

theorem rewriteResourceRecord_options (h : d.OptAt env j a) :
    rewriteResourceRecord env (es.map ofEdit) (d.withOptions a options) i =
      .ok (d.withOptions a (applyAll option es options)) := by
  rw [rewriteResourceRecord]
  induction es
  case nil => rfl
  case cons e es hi =>
    have hs : (ofEdit e).rewriteResponse env (d.withOptions a (applyAll option es options)) i =
        .ok (d.withOptions a (applyAll option (e :: es) options)) := by
      cases e
      case remove code => exact h.rewriteOptions hf (apply option (.remove code))
      case restore code source => exact h.rewriteOptions hf (apply option (.restore code source))
    rw [map_cons, reverse_cons, foldlM_append, hi]
    exact (bind_pure _).trans hs

theorem foldlM_options (h : d.OptAt env j a) (is : List Nat) :
    is.foldlM (rewriteResourceRecord env (es.map ofEdit)) (d.withOptions a options) =
      .ok (d.withOptions a ((applyAll option es)^[is.length] options)) := by
  induction is generalizing options
  case nil => rfl
  case cons i is hi =>
    rw [foldlM_cons, rewriteResourceRecord_options hf h]
    exact hi

theorem rewriteAll_options (h : d.OptAt env j a) (hd : d.withOptions a options = d) : d.rewriteAll env (es.map ofEdit) =
    .ok ((d.withOptions a ((applyAll option es)^[d.addrs.length] options)).toMsg, d.request) := by
  have run (is : List Nat) (options : List EDNS0) :
      is.foldlM (rewriteResourceRecord env (es.map ofEdit)) (d.withOptions a options) =
        .ok (d.withOptions a ((applyAll option es)^[is.length] options)) := foldlM_options hf h is
  have hl : d.addrs.length = d.extra.length + (d.answer.length + d.ns.length) := by
    simp only [addrs, length_append]
    omega
  rw [hl, Function.iterate_add_apply, Function.iterate_add_apply]
  have hn := run d.ns options
  rw [hd] at hn
  simp [rewriteAll, hn, run, bind, Except.bind, pure, Except.pure, withOptions_answer,
    withOptions_extra, withOptions_request]

end Drafts

section Messages

variable {env : Env} {wr : ResponseReverter} {es : List (Edit UInt16 EDNS0)} {r res : Msg}

theorem Draft.withOptions_eq_self {d : Draft} {a : Nat} {rr : RR} {udpSize : UInt16} {options : List EDNS0}
    (h : d.heap[a]? = some rr) (hd : rr.data = .opt udpSize options) : d.withOptions a options = d := by
  obtain ⟨name, ttl, data⟩ := rr
  obtain rfl : data = .opt udpSize options := hd
  refine congrArg (fun heap => { d with heap }) (ext_getElem? fun k => ?_)
  rw [getElem?_modify]
  by_cases hk : a = k
  case pos => simp [←hk, h, RData.setOptions]
  case neg => simp [hk]

theorem Draft.optAt_ofMsg {j : Nat} (h : env.dns.isEdns0 res = some j) : ∃ a, (ofMsg r res).OptAt env j a ∧
      (ofMsg r res).withOptions a (env.dns.options res) = ofMsg r res := by
  obtain ⟨rr, udpSize, options, hr, hd⟩ := env.dns.isEdns0_some h
  have hj : j < res.extra.length := (List.getElem?_eq_some_iff.mp hr).1
  have ho : env.dns.options res = options := by
    obtain ⟨name, ttl, data⟩ := rr
    obtain rfl : data = .opt udpSize options := hd
    rw [Edns.options, h, Option.bind_some, hr]
  have hh : (ofMsg r res).heap[res.ns.length + res.answer.length + j]? = some rr := by
    rw [←hr, ofMsg, ←length_append, getElem?_append_right (Nat.le_add_right ..), Nat.add_sub_cancel_left]
  refine ⟨res.ns.length + res.answer.length + j, ⟨?_, ?_, ?_⟩, ?_⟩
  · rwa [toMsg_ofMsg]
  · simp [ofMsg, hj]
  · intro b hb
    simp only [ofMsg, mem_range'_1, length_append] at hb ⊢
    omega
  · rw [ho]
    exact withOptions_eq_self hh hd

variable (hf : FindsByType env.dns)

include hf

theorem options_eq_of_extra {m m' : Msg} (h : m.extra = m'.extra) : env.dns.options m = env.dns.options m' := by
  rw [Edns.options, Edns.options, h, hf m m' (by rw [h])]

theorem ResponseReverter.exists_writeMsg_options (hq : wr.policy.noRestore = false → res.question ≠ [])
    (he : wr.responseRules = es.map ofEdit) (ho : res.HasOpt) : ∃ m, wr.writeMsg env r res = .ok (m, r) ∧
      env.dns.options m = (applyAll option es)^[res.records.length] (env.dns.options res) := by
  obtain ⟨j, hj⟩ : ∃ j, env.dns.isEdns0 (wr.restore res) = some j :=
    Option.ne_none_iff_exists'.mp (Edns.isEdns0_ne_none_iff.mpr ho)
  obtain ⟨a, ha, hd⟩ := optAt_ofMsg (r := r) hj
  have hx : env.dns.options (wr.restore res) = env.dns.options res := options_eq_of_extra hf rfl
  have hl : (ofMsg r (wr.restore res)).addrs.length = res.records.length := by
    rw [addrs_ofMsg, length_range', Msg.records, length_append, length_append]
    exact congrArg (· + _) (Nat.add_comm ..)
  have hw : wr.writeMsg env r res = _ := writeMsg_eq_rewriteAll hq
  rw [he, rewriteAll_options hf ha hd, hl, hx] at hw
  exact ⟨_, hw, ha.options_withOptions hf⟩

omit hf

theorem ResponseReverter.writeMsg_error (hq : wr.policy.noRestore = false → res.question ≠ [])
    (he : wr.responseRules = es.map ofEdit) (ho : ¬res.HasOpt) (hn : es ≠ []) (hm : res.records ≠ []) :
    wr.writeMsg env r res = .error r := by
  obtain ⟨es, e, rfl⟩ := eq_nil_or_concat' es |>.resolve_left hn
  rw [map_append] at he
  have hu : (ofEdit e).usesOpt := by cases e <;> rfl
  obtain ⟨d, hd, hw⟩ := writeMsg_panics hq he ho hm hu (forall_mem_nil _)
  cases hd
  exact hw

end Messages

section Requests

variable {env : Env} {r r' : Msg} {rule : Rule} {rules : List Rule} {respRules respRules' : List ResponseRule}
  {q : Question} {mode : Mode} {action : Action} {code : UInt16} {ofKind : EDNS0 → Bool} {another : Bool}

def Coded (es : List (Edit UInt16 EDNS0)) : Prop :=
  ∀ code old, .restore code old ∈ es → old.code = code

theorem undoOption_isKeyed (hk : ∀ o, ofKind o → o.option = code) :
    ∀ e ∈ undoOption env r action code ofKind another, e.IsKeyed option := by
  intro e he
  rw [undoOption.eq_def] at he
  cases hf : (env.dns.options (setupEdns0Opt env r)).find? ofKind
  all_goals
    rw [hf] at he
    cases action
  all_goals
    grind [IsKeyed]

theorem rewriteOption_undo {update : EDNS0 → EDNS0} {new : EDNS0}
    (hc : Coded (undoOption env r action code ofKind another)) :
    (rewriteOption env r action code true ofKind update new another).2.getD [] =
      (undoOption env r action code ofKind another).map ofEdit := by
  simp only [undoOption.eq_def, find?_eq_bind_findIdx?_getElem?] at hc ⊢
  simp only [rewriteOption]
  cases hi : (env.dns.options (setupEdns0Opt env r)).findIdx? ofKind
  case none => cases action <;> rfl
  case some i =>
    obtain ⟨hl, -⟩ := findIdx?_eq_some_iff_getElem.mp hi
    simp only [hi, Option.bind_some, getElem?_eq_getElem hl] at hc ⊢
    cases action
    case replace | set => simp [ofEdit, hc code _ (mem_singleton_self _)]
    case append => cases another <;> simp [ofEdit]
    case unset => cases another <;> simp

theorem Rule.rewrite_undo (hr : rule.Reverts) (hc : Coded (rule.undo env r)) :
    (rule.rewrite env r).2.getD [] = (rule.undo env r).map ofEdit := by
  cases rule
  case edns0LocalRule action _ _ _ =>
    obtain rfl := hr
    rw [rewrite]
    split
    case isTrue ha => simp [undo, undoOption, ha, unsetEdns0Option]
    case isFalse => exact rewriteOption_undo hc
  case edns0VariableRule =>
    obtain rfl := hr
    simp only [rewrite, undo] at hc ⊢
    split
    case h_1 hd => simp [hd]
    case h_2 hd =>
      rw [hd] at hc ⊢
      exact rewriteOption_undo hc
  case edns0NsidRule =>
    obtain rfl := hr
    rw [rewrite]
    split
    case isTrue ha => simp [undo, undoOption, ha, unsetEdns0Option]
    case isFalse => exact rewriteOption_undo hc
  all_goals cases hr

theorem Rule.undo_isKeyed : ∀ e ∈ rule.undo env r, e.IsKeyed option := by
  have hl (code : UInt16) (o : EDNS0) (h : isLocal code o) : o.option = code := by
    cases o
    case «local» => exact of_decide_eq_true h
    all_goals cases h
  have hn (o : EDNS0) (h : isNsid o) : o.option = codeNSID := by
    cases o
    case nsid => rfl
    all_goals cases h
  cases rule
  case edns0LocalRule => exact undoOption_isKeyed (hl _)
  case edns0VariableRule =>
    rw [undo]
    split
    case isTrue => exact undoOption_isKeyed (hl _)
    case isFalse => exact forall_mem_nil _
  case edns0NsidRule => exact undoOption_isKeyed hn
  all_goals exact forall_mem_nil _

theorem undoOptions_isKeyed : ∀ e ∈ undoOptions env rules r, e.IsKeyed option := by
  induction rules generalizing r
  case nil => exact forall_mem_nil _
  case cons rule rules hi =>
    refine forall_mem_append.mpr ⟨Rule.undo_isKeyed, ?_⟩
    split
    case isTrue => exact forall_mem_nil _
    case isFalse => exact hi

-- What the rules have added and replaced is what they collect for the response.
theorem rewriteRequest_undoOptions (hr : ∀ rule ∈ rules, rule.Reverts) (hc : Coded (undoOptions env rules r))
    (hw : rewriteRequest env q rules r respRules = .done r' respRules' mode) :
    respRules' = respRules ++ (undoOptions env rules r).map ofEdit := by
  induction rules generalizing r respRules
  case nil =>
    cases hw
    exact (append_nil _).symm
  case cons rule rules hi =>
    rw [forall_mem_cons] at hr
    have ha := Rule.rewrite_undo hr.1 fun code old hm => hc code old (mem_append_left _ hm)
    have hc (hs : ¬(rule.mode = .stop ∧ (rule.rewrite env r).2.isSome)) :
      Coded (undoOptions env rules (rule.rewrite env r).1) :=
      fun code old hm => hc code old (mem_append_right _ (by rwa [if_neg hs]))
    rw [undoOptions, map_append, ←ha, ←append_assoc]
    rw [rewriteRequest] at hw
    split at hw
    case h_1 r₁ h =>
      simp only [h, Option.isSome_none] at hc ⊢
      simpa using hi hr.2 (hc (by simp)) hw
    case h_2 r₁ add h =>
      simp only [h, Option.isSome_some, and_true] at hc ⊢
      split at hw
      case isTrue => cases hw
      case isFalse =>
        split at hw
        case isTrue hs =>
          cases hw
          simp [hs]
        case isFalse hs => simpa [hs] using hi hr.2 (hc hs) hw

end Requests

section Main

variable {env : Env} {rules : List Rule} {r r' res : Msg} {q : Question} {respRules : List ResponseRule} {mode : Mode}
  {policy : RevertPolicy} {es : List (Edit UInt16 EDNS0)} {wr : ResponseReverter}

theorem reverted_iff_of_isKeyed (hf : FindsByType env.dns) (he : wr.responseRules = es.map ofEdit)
    (hk : ∀ e ∈ es, e.IsKeyed option) : Reverted env es wr r res ↔
      (wr.policy.noRestore = false → res.question ≠ []) ∧
      (es = [] ∨ res.records = [] ∨ res.HasOpt ∧ (res.records.length = 1 ∨ ∀ code,
        removals es code = 0 ∨ (env.dns.options res).countP (·.option = code) ≤ removals es code)) := by
  by_cases hq : wr.policy.noRestore = false → res.question ≠ []
  case neg =>
    have hw : wr.writeMsg env r res = .error r := by
      rw [Classical.not_imp, not_not] at hq
      exact writeMsg_eq_error hq.1 hq.2
    refine iff_of_false ?_ fun h => hq h.1
    rintro ⟨m, r', h, -⟩
    rw [hw] at h
    cases h
  case pos =>
    rw [and_iff_right hq]
    by_cases ho : res.HasOpt
    case pos =>
      obtain ⟨m, hw, hm⟩ := exists_writeMsg_options (r := r) hf hq he ho
      have hne : res.records ≠ [] := by
        obtain ⟨rr, hm, -⟩ := ho
        exact ne_nil_of_mem (mem_append_right _ hm)
      have hl : res.records.length ≠ 0 := fun h => hne (length_eq_zero_iff.mp h)
      have hi := iterate_applyAll_eq_iff (l := env.dns.options res) hk hl
      have hre : Reverted env es wr r res ↔
          env.dns.options m = applyAll option es (env.dns.options res) := by
        refine ⟨?_, fun h => ⟨m, r, hw, fun _ => h⟩⟩
        rintro ⟨m', r', hw', hm'⟩
        rw [hw] at hw'
        cases hw'
        exact hm' ho
      rw [hre, hm, hi, or_iff_right hne, and_iff_right ho]
      refine ⟨.inr, ?_⟩
      rintro (rfl | h)
      · exact .inr fun code => .inl rfl
      · exact h
    case neg =>
      constructor
      case mp =>
        rintro ⟨m, r', hw, -⟩
        by_contra hc
        rw [not_or, not_or] at hc
        rw [writeMsg_error hq he ho hc.1 hc.2.1] at hw
        cases hw
      case mpr =>
        rintro (rfl | hm | ⟨h, -⟩)
        · exact ⟨_, _, writeMsg_eq (he ▸ forall_mem_nil _) hq, fun h => absurd h ho⟩
        · obtain ⟨m, hw⟩ := exists_writeMsg_nil hq hm
          exact ⟨m, r, hw, fun h => absurd h ho⟩
        · exact absurd h ho

end Main

namespace Sample

def carrying (m : Msg) (options : List EDNS0) : Msg :=
  { m with extra := [{ opt 0 with data := .opt 1232 options }] }

def appending (mode : Mode) : Rule :=
  .edns0LocalRule mode .append 65001 [1] true

def both : List Rule :=
  [appending .continue, .edns0LocalRule .stop .set 65002 [2] true]

def client : Msg :=
  carrying Sample.request [.local 65002 [9]]

def added : Msg :=
  { Sample.request with extra := [{ name := ".", ttl := 0, data := .opt 4096 [.local 65001 [1]] }] }

theorem undoOptions_both : undoOptions world both client = [.remove 65001, .restore 65002 (.local 65002 [9])] :=
  rfl

theorem rewriteRequest_both : rewriteRequest world question both client [] =
    .done (carrying Sample.request [.local 65002 [2], .local 65001 [1]])
      [.edns0Set 65001, .edns0Replace 65002 (.local 65002 [9])] .stop :=
  rfl

theorem rewriteRequest_appending :
    rewriteRequest world question [appending .stop] request [] = .done added [.edns0Set 65001] .stop :=
  rfl

theorem rewriteRequest_nsid :
    rewriteRequest world question [.edns0NsidRule .stop .set true] (carrying request [.nsid 0 "aa"]) [] =
      .done (carrying request [.nsid 0 []]) [.edns0Replace 0 (.nsid 0 "aa")] .stop :=
  rfl

def Fails (rules : List Rule) (r r' : Msg) (respRules : List ResponseRule) (res : Msg) : Prop :=
  rewriteRequest world question rules r [] = .done r' respRules .stop ∧
    ¬Reverted world (undoOptions world rules r) ⟨question, respRules, {}⟩ r' res

theorem world_findsByType : FindsByType world.dns := by
  have find (m : Msg) : world.dns.isEdns0 m =
      ((m.extra.map RR.rrtype).reverse.findIdx? (· = RRType.opt)).map ((m.extra.map RR.rrtype).length - 1 - ·) := by
    rw [←map_reverse, findIdx?_map, length_map]
    rfl
  intro m m' h
  rw [find, find, h]

end Sample

end Rewrite
