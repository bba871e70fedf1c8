import HanzoDNS.Rewrite.Theorems.Records

open Dns Strings List

namespace Rewrite

open ResponseReverter Sample

-- The rewriters, the last one first, take a name to another. There are names in between.
inductive Undone : List StringRewriter → Str → Str → Prop
  | nil (s : Str) : Undone [] s s
  | cons (h : Undone ws s u) (hu : u ≠ []) (hw : StringRewriter.rewriteString w u = t) : Undone (w :: ws) s t

def both (ws : List StringRewriter) : List ResponseRule :=
  ws.flatMap fun w => [.name w, .value w]

def undo (w : StringRewriter) (rr : RR) : RR :=
  { rr with name := w.rewriteString rr.name, data := rewriteValue w rr.data }

def undoAll (ws : List StringRewriter) (rr : RR) : RR :=
  ws.foldr undo rr

def target : RData → Option Str
  | .cname target => some target
  | .srv _ _ _ target => some target
  | .mx _ mx => some mx
  | .ns ns => some ns
  | .ptr ptr => some ptr
  | _ => none

-- The arguments of a name rule without rules for answers, which is automatic unless it is for one name only.
def AutoArgs (fqdn : Str → Str) (compile : Str → Option Regexp) : List Str → Prop
  | [_, _] => True
  | kind :: _ :: _ :: args =>
    ∃ auto, parseAnswers fqdn compile (toLower kind) args = .ok (auto, []) ∧ (auto ∨ toLower kind = exactMatch)
  | _ => False

def Rule.IsAuto (env : Env) (compile : Str → Option Regexp) (rule : Rule) : Prop :=
  ∃ mode args, newNameRule env.dns.fqdn compile mode args = .ok rule ∧ AutoArgs env.dns.fqdn compile args

def Plain (env : Env) (r : Msg) : Prop :=
  ∃ q, r.question = [q] ∧ q.name ≠ [] ∧ (env.dns.nameString q.name).text = q.name

-- None of the names that the question has on the way needs escapes.
def PlainAlong (env : Env) : List Rule → Msg → Prop
  | [], r => Plain env r
  | rule :: rules, r =>
    Plain env r ∧
    match rule.rewrite env r with
    | (r, none) => PlainAlong env rules r
    | (r, some _) => if rule.mode = .stop then Plain env r else PlainAlong env rules r

def Restored (final original : Str) (rr rr' : RR) : Prop :=
  rr'.name = original ∧ (target rr.data = some final → target rr'.data = some original)

section Records

variable {ws : List StringRewriter} {s t : Str} {rr : RR} {data : RData}

theorem target_rewriteValue (w : StringRewriter) (ht : target data = some s) (hs : s ≠ []) :
    target (rewriteValue w data) = some (w.rewriteString s) := by
  have hg : getRecordValueForRewrite data = s := by
    cases data
    all_goals simp_all [target, getRecordValueForRewrite]
  rw [rewriteValue, hg]
  split
  case isTrue =>
    cases data
    all_goals simp_all [target, setRewrittenRecordValue]
  case isFalse h =>
    have he : w.rewriteString s = s := by
      by_contra hn
      exact h ⟨hs, hn⟩
    rw [he, ht]

theorem Undone.name (h : Undone ws s t) (hr : rr.name = s) : (undoAll ws rr).name = t := by
  induction h
  case nil => exact hr
  case cons w hw hi =>
    rw [←hw, ←hi hr]
    rfl

theorem Undone.target (h : Undone ws s t) (hs : s ≠ []) (hr : target rr.data = some s) :
    target (undoAll ws rr).data = some t := by
  induction h
  case nil => exact hr
  case cons hu hw hi =>
    rw [←hw]
    exact target_rewriteValue _ (hi hs hr) hu

end Records

section Reverter

variable {env : Env} {ws : List StringRewriter} {r res : Msg} {q q' : Question}

theorem both_isOfRecord : ∀ rule ∈ both ws, rule.IsOfRecord := by
  intro rule hm
  simp only [both, mem_flatMap, mem_cons, not_mem_nil, or_false] at hm
  obtain ⟨w, -, rfl | rfl⟩ := hm
  all_goals trivial

theorem rewriteRecord_both : rewriteRecord (both ws) = undoAll ws := by
  funext rr
  induction ws
  case nil => rfl
  case cons w ws hi => exact congrArg (undo w) hi

theorem writeMsg_both (hq : res.question = [q']) :
    ∃ m, (mk q (both ws) {}).writeMsg env r res = .ok (m, r) ∧ m.question = [q] ∧
      m.answer = res.answer.map (undoAll ws) := by
  refine ⟨_, writeMsg_eq both_isOfRecord fun _ => by simp [hq], ?_, ?_⟩
  · simp [restore, hq]
  · rw [rewriteRecord_both]

end Reverter

section Rules

variable {env : Env} {rule : Rule} {r r' : Msg} {s replacement : Str}

theorem toLower_name : toLower (r.name env.dns.toLibrary) = r.name env.dns.toLibrary :=
  toLower_idem _

theorem toLower_eq_of_part (h : s <:+: t) (ht : toLower t = t) : toLower s = s := by
  rw [toLower_eq_self_iff] at ht ⊢
  exact fun c hc => ht c (h.subset hc)

theorem toLower_append_eq {t : Str} (hs : toLower s = s) (ht : toLower t = t) : toLower (s ++ t) = s ++ t := by
  rw [toLower_append, hs, ht]

theorem toLower_substitute {groups : List Str} (hr : toLower replacement = replacement)
    (hg : ∀ group ∈ groups, toLower group = group) :
    toLower (substitute replacement groups) = substitute replacement groups := by
  rw [substitute]
  have hz : ∀ p ∈ groups.zipIdx, toLower p.1 = p.1 := fun p hp => hg p.1 (fst_mem_of_mem_zipIdx hp)
  generalize groups.zipIdx = ps at hz
  induction ps generalizing replacement
  case nil => exact hr
  case cons p ps hi =>
    rw [forall_mem_cons] at hz
    exact hi (toLower_replaceAll hr hz.1) hz.2

theorem toLower_closed (h : toLower s = s) : toLower (closed s) = closed s := by
  rw [closed]
  split
  case isTrue => exact h
  case isFalse => exact toLower_append_eq h (by decide)

-- A rule leaves the request alone, or changes the name of the question to one in lower case and knows how to
-- get the old one back.
def Rule.Reversible (env : Env) (rule : Rule) : Prop :=
  ∀ r : Msg, r.name env.dns.toLibrary ≠ [] → rule.rewrite env r = (r, none) ∨
    ∃ n w, rule.rewrite env r = (setName n r, some [.name w, .value w]) ∧ toLower n = n ∧
      w.rewriteString n = r.name env.dns.toLibrary

theorem rewriteTo_auto {n : Str} {mode : Mode} (hr : r.name env.dns.toLibrary ≠ []) (hn : toLower n = n) :
    ∃ m w, (NameRuleBase.mk mode true replacement []).rewriteTo env r n = (setName m r, some [.name w, .value w]) ∧
      toLower m = m ∧ w.rewriteString m = r.name env.dns.toLibrary := by
  refine ⟨n, .remap n (r.name env.dns.toLibrary), ?_, hn, if_pos rfl⟩
  simp [NameRuleBase.rewriteTo, hr]

variable {mode : Mode} (hr : toLower replacement = replacement)

include hr

theorem newExactNameRule_reversible (orig : Str) : (newExactNameRule mode replacement [] orig).Reversible env := by
  intro r hn
  rw [newExactNameRule, Rule.rewrite]
  split
  case isTrue => exact .inr (rewriteTo_auto hn hr)
  case isFalse => exact .inl rfl

theorem newPrefixNameRule_reversible (leading : Str) :
    (newPrefixNameRule mode true replacement [] leading).Reversible env := by
  intro r hn
  rw [newPrefixNameRule, Rule.rewrite]
  split
  case h_1 after ha =>
    have hs : after <:+ r.name env.dns.toLibrary := ⟨leading, (cutPrefix_eq_some_iff.mp ha).symm⟩
    exact .inr (rewriteTo_auto hn (toLower_append_eq hr (toLower_eq_of_part hs.isInfix toLower_name)))
  case h_2 => exact .inl rfl

theorem newSuffixNameRule_reversible (suffix : Str) :
    (newSuffixNameRule mode true replacement [] suffix).Reversible env := by
  intro r hn
  rw [newSuffixNameRule, Rule.rewrite]
  split
  case h_1 before hb =>
    rw [cutSuffix_eq_some_iff] at hb
    have hl : toLower before = before := toLower_eq_of_part (IsPrefix.isInfix ⟨suffix, hb.symm⟩) toLower_name
    refine .inr ⟨before ++ replacement, .suffix replacement suffix, ?_, toLower_append_eq hl hr, ?_⟩
    · simp [NameRuleBase.rewriteTo]
    · have hc : cutSuffix (before ++ replacement) replacement = some before := cutSuffix_eq_some_iff.mpr rfl
      rw [StringRewriter.rewriteString, hc, hb]
  case h_2 => exact .inl rfl

theorem newSubstringNameRule_reversible (substring : Str) :
    (newSubstringNameRule mode true replacement [] substring).Reversible env := by
  intro r hn
  rw [newSubstringNameRule, Rule.rewrite]
  split
  case isTrue => exact .inr (rewriteTo_auto hn (toLower_replaceAll toLower_name hr))
  case isFalse => exact .inl rfl

theorem newRegexNameRule_reversible (pattern : Regexp) :
    (newRegexNameRule mode true replacement [] pattern).Reversible env := by
  intro r hn
  rw [newRegexNameRule, Rule.rewrite]
  split
  case h_1 => exact .inl rfl
  case h_2 =>
    refine .inr (rewriteTo_auto hn (toLower_substitute hr fun group hg => ?_))
    exact toLower_eq_of_part (pattern.within _ group hg) toLower_name

omit hr

variable {fqdn : Str → Str} {compile : Str → Option Regexp} {kind rewriteFrom rewriteTo : Str} {auto : Bool}

theorem newMatchedRule_reversible (h : newMatchedRule fqdn compile mode kind rewriteFrom rewriteTo auto [] = .ok rule)
    (ha : auto ∨ kind = exactMatch) : rule.Reversible env := by
  have hl : toLower (normalize fqdn rewriteTo) = normalize fqdn rewriteTo := toLower_idem _
  rw [newMatchedRule] at h
  split at h
  case isTrue =>
    split at h
    all_goals cases h
    exact newExactNameRule_reversible (toLower_closed hl) _
  case isFalse hk =>
    obtain rfl : auto = true := by simpa [hk] using ha
    split at h
    case isTrue =>
      cases h
      exact newPrefixNameRule_reversible hl _
    case isFalse =>
      split at h
      case isTrue =>
        cases h
        exact newSuffixNameRule_reversible (toLower_closed hl) _
      case isFalse =>
        split at h
        case isTrue =>
          cases h
          exact newSubstringNameRule_reversible hl _
        case isFalse =>
          split at h
          case isTrue =>
            split at h
            all_goals cases h
            exact newRegexNameRule_reversible hl _
          case isFalse => cases h

theorem Rule.IsAuto.reversible (h : rule.IsAuto env compile) : rule.Reversible env := by
  obtain ⟨mode, args, hn, ha⟩ := h
  rw [newNameRule.eq_def] at hn
  split at hn
  case h_1 => exact newMatchedRule_reversible hn (.inr rfl)
  case h_2 kind rewriteFrom rewriteTo args _ =>
    obtain ⟨auto, hp, ha⟩ := ha
    rw [hp] at hn
    exact newMatchedRule_reversible hn ha
  case h_3 => cases hn

end Rules

section Chain

variable {env : Env} {rules : List Rule} {r r' : Msg} {respRules respRules' : List ResponseRule} {mode : Mode}
  {q : Question} {n : Str}

theorem PlainAlong.plain (h : PlainAlong env rules r) : Plain env r := by
  cases rules
  case nil => exact h
  case cons => exact h.1

theorem Plain.name_eq (h : Plain env r) (hq : r.question = [q]) : r.name env.dns.toLibrary = toLower q.name := by
  obtain ⟨q', hq', -, hp⟩ := h
  obtain rfl : q = q' := by simpa using hq.symm.trans hq'
  rw [Msg.name, Msg.qname, hq, hp]

theorem Plain.name_ne_nil (h : Plain env r) : r.name env.dns.toLibrary ≠ [] := by
  obtain ⟨q, hq, hn, -⟩ := id h
  rw [h.name_eq hq]
  exact fun hl => hn (toLower_eq_nil_iff.mp hl)

theorem rewriteRequest_undone (hr : ∀ rule ∈ rules, rule.Reversible env) (hp : PlainAlong env rules r)
    (hw : rewriteRequest env q rules r respRules = .done r' respRules' mode) :
    ∃ ws, respRules' = respRules ++ both ws ∧ (ws = [] ∧ r' = r ∨
      ws ≠ [] ∧ ∃ q', r'.question = [q'] ∧ q'.name ≠ [] ∧ Undone ws q'.name (r.name env.dns.toLibrary)) := by
  induction rules generalizing r respRules
  case nil =>
    cases hw
    exact ⟨[], (append_nil _).symm, .inl ⟨rfl, rfl⟩⟩
  case cons rule rules hi =>
    rw [forall_mem_cons] at hr
    obtain ⟨hpl, hp⟩ := hp
    rw [rewriteRequest] at hw
    obtain hn | ⟨n, w, hn, hl, hu⟩ := hr.1 r hpl.name_ne_nil
    all_goals rw [hn] at hw hp
    case inl => exact hi hr.2 hp hw
    case inr =>
      dsimp only at hw hp
      have hpl' : Plain env (setName n r) := by
        split at hp
        case isTrue => exact hp
        case isFalse => exact hp.plain
      obtain ⟨q', hq', hne, -⟩ := id hpl'
      obtain ⟨q₀, hq₀, -⟩ := hpl
      obtain rfl : q' = { q₀ with name := n } := by simpa [setName, hq₀, eq_comm] using hq'
      have hn' : (setName n r).name env.dns.toLibrary = n := (hpl'.name_eq hq').trans hl
      have done : ∃ ws, respRules ++ both [w] = respRules ++ both ws ∧ (ws = [] ∧ setName n r = r ∨
          ws ≠ [] ∧ ∃ q', (setName n r).question = [q'] ∧ q'.name ≠ [] ∧ Undone ws q'.name (r.name env.dns.toLibrary)) :=
        ⟨[w], rfl, .inr ⟨cons_ne_nil w [], _, hq', hne, .cons (.nil n) hne hu⟩⟩
      split at hw
      case isTrue => cases hw
      case isFalse =>
        split at hw
        case isTrue =>
          cases hw
          exact done
        case isFalse hs =>
          rw [if_neg hs] at hp
          obtain ⟨ws, rfl, ⟨rfl, rfl⟩ | ⟨-, q', hq', hne', hws⟩⟩ := hi hr.2 hp hw
          · rw [show both [] = [] from rfl, append_nil]
            exact done
          · refine ⟨w :: ws, append_assoc .., .inr ⟨cons_ne_nil w ws, q', hq', hne', ?_⟩⟩
            exact .cons (hn' ▸ hws) hne hu

variable {compile : Str → Option Regexp} {next : Handler} {res : Msg} {q' : Question} {rcode : Nat}

theorem serveDNS_direct (hq : r.question = [q]) (hw : rewriteRequest env q rules r [] = .done r' [] .continue)
    (hn : next r' = ([res], rcode)) : (serveDNS env {} rules next r).written.head? = some res := by
  simp [serveDNS, hq, hw, hn]

-- The message is the first one that is written, even if the return code makes the plugin write another one.
theorem serveDNS_written {m : Msg} (hq : r.question = [q])
    (hw : rewriteRequest env q rules r [] = .done r' respRules mode) (hm : mode = .stop ∨ respRules ≠ [])
    (hn : next r' = ([res], rcode)) (hr : (mk q respRules {}).writeMsg env r' res = .ok (m, r')) :
    (serveDNS env {} rules next r).written.head? = some m := by
  cases mode
  case «continue» =>
    obtain hm | hm := hm
    · cases hm
    · simp [serveDNS, hq, hw, hn, hm, writeAll, hr]
  case stop =>
    simp only [serveDNS, hq, hw, hn, writeAll, hr, Bool.false_eq_true, if_false]
    repeat' split
    all_goals rfl

-- Every record is mapped back. The name is the one that rules see, in lower case, unless no rule applies.
theorem serveDNS_restored (hr : ∀ rule ∈ rules, rule.IsAuto env compile) (hq : r.question = [q])
    (hp : PlainAlong env rules r) (hw : rewriteRequest env q rules r [] = .done r' respRules mode)
    (hq' : r'.question = [q']) (hn : next r' = ([res], rcode)) (hres : res.question = [q'])
    (ho : ∀ rr ∈ res.answer, rr.name = q'.name) :
    ∃ m, (serveDNS env {} rules next r).written.head? = some m ∧ m.question = [q] ∧
      Forall₂ (Restored q'.name (if respRules = [] then q.name else toLower q.name)) res.answer m.answer := by
  obtain ⟨ws, hws, hu⟩ := rewriteRequest_undone (fun rule hm => (hr rule hm).reversible) hp hw
  rw [nil_append] at hws
  subst hws
  obtain ⟨m, hm, hmq, hma⟩ : ∃ m, (mk q (both ws) {}).writeMsg env r' res = .ok (m, r') ∧
      m.question = [q] ∧ m.answer = res.answer.map (undoAll ws) := writeMsg_both hres
  obtain ⟨rfl, rfl⟩ | ⟨hne, q₁, hq₁, hn₁, hu⟩ := hu
  case inl =>
    obtain rfl : q = q' := by simpa using hq.symm.trans hq'
    have hs : Forall₂ (Restored q.name q.name) res.answer res.answer :=
      forall₂_same.mpr fun rr hm => ⟨ho rr hm, id⟩
    have hb : both [] = [] := rfl
    rw [if_pos hb]
    cases mode
    case stop =>
      refine ⟨m, serveDNS_written hq hw (.inl rfl) hn hm, hmq, ?_⟩
      rw [hma]
      exact (map_id res.answer).symm ▸ hs
    case «continue» => exact ⟨res, serveDNS_direct hq hw hn, hres, hs⟩
  case inr =>
    obtain rfl : q₁ = q' := by simpa using hq₁.symm.trans hq'
    have hb : both ws ≠ [] := by
      obtain ⟨w, ws, rfl⟩ := exists_cons_of_ne_nil hne
      exact cons_ne_nil _ _
    rw [hp.plain.name_eq hq] at hu
    refine ⟨m, serveDNS_written hq hw (.inr hb) hn hm, hmq, ?_⟩
    rw [if_neg hb, hma, forall₂_map_right_iff, forall₂_same]
    exact fun rr hm => ⟨hu.name (ho rr hm), hu.target hn₁⟩

end Chain

namespace Sample

def pattern : Regexp where
  numSubexp := 0
  findStringSubmatch _ := []
  within _ := forall_mem_nil _

def chain : List Rule :=
  [newSuffixNameRule .continue true "c." [] "b.", newExactNameRule .stop "d." [] "a.c."]

def asked (name : Str) : Question where
  name := name
  qtype := .cname
  qclass := Msg.classINET

def record (name : Str) : RR where
  name := name
  ttl := 60
  data := .cname name

-- Whatever name is asked for, it is an alias of itself.
def loop : Handler :=
  fun r => ([{ r with response := true, answer := (r.question.head?.map (record ·.name)).toList }], Msg.rcodeSuccess)

theorem chain_isAuto : ∀ rule ∈ chain, rule.IsAuto world fun _ => some pattern := by
  simp only [chain, forall_mem_cons, not_mem_nil, false_imp_iff, implies_true, and_true]
  constructor
  · exact ⟨.continue, ["suffix", "b.", "c.", "answer", "auto"], rfl, true, rfl, .inl rfl⟩
  · exact ⟨.stop, ["exact", "a.c.", "d."], rfl, false, rfl, .inr rfl⟩

end Sample

theorem serveDNS_restored_chain :
    ∃ m, (serveDNS world {} chain loop { question := [asked "A.B."] }).written.head? = some m ∧
      m.question = [asked "A.B."] ∧ Forall₂ (Restored "d." "a.b.") [record "d."] m.answer := by
  have plain (name : Str) (hn : name ≠ []) (hs : (world.dns.nameString name).text = name) :
      Plain world { question := [asked name] } := ⟨_, rfl, hn, hs⟩
  have hp : PlainAlong world chain { question := [asked "A.B."] } :=
    ⟨plain "A.B." (by decide) (by decide +kernel), plain "a.c." (by decide) (by decide +kernel),
      plain "d." (by decide) (by decide +kernel)⟩
  have hw : rewriteRequest world (asked "A.B.") chain { question := [asked "A.B."] } [] =
      .done { question := [asked "d."] } (both [.suffix "c." "b.", .remap "d." "a.c."]) .stop := rfl
  have hn : loop { question := [asked "d."] } =
      ([{ response := true, question := [asked "d."], answer := [record "d."] }], Msg.rcodeSuccess) := rfl
  exact serveDNS_restored chain_isAuto rfl hp hw rfl hn rfl (forall_mem_singleton.mpr rfl)

-- If no rule applies, the response is passed on as it is, with the letter case of the request.
theorem serveDNS_letter_case :
    ¬∃ m, (serveDNS world {} chain loop { question := [asked "A."] }).written.head? = some m ∧
      m.question = [asked "A."] ∧ Forall₂ (Restored "A." (toLower "A.")) [record "A."] m.answer := by
  rintro ⟨m, hm, -, hr⟩
  have hs : (serveDNS world {} chain loop { question := [asked "A."] }).written.head? =
      some { response := true, question := [asked "A."], answer := [record "A."] } := by
    decide +kernel
  rw [hs] at hm
  cases hm
  cases hr
  case cons hr _ => exact absurd hr.1 (by decide)

end Rewrite
