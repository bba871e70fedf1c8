import HanzoDNS.Dns.Echo
import HanzoDNS.Rewrite.Setup
import HanzoDNS.Rewrite.Theorems.Question

open Dns Strings List

namespace Rewrite

def clampTTL (minTTL maxTTL t : UInt32) : UInt32 :=
  if t < minTTL then minTTL else if t > maxTTL then maxTTL else t

-- The rules that look at one record only, which name rules and TTL rules give.
def ResponseRule.IsOfRecord : ResponseRule → Prop
  | name _ | value _ | ttl _ _ => True
  | _ => False

def ResponseRule.onRecord : ResponseRule → RR → RR
  | name rewriter, rr => { rr with name := rewriter.rewriteString rr.name }
  | value rewriter, rr => { rr with data := rewriteValue rewriter rr.data }
  | ttl minTTL maxTTL, rr => { rr with ttl := clampTTL minTTL maxTTL rr.ttl }
  | _, rr => rr

def rewriteRecord (rules : List ResponseRule) (rr : RR) : RR :=
  rules.foldr ResponseRule.onRecord rr

def rewriteName (rules : List ResponseRule) (name : Str) : Str :=
  rules.foldr (fun rule name => (rule.onRecord { name, ttl := 0, data := .opt 0 [] }).name) name

-- The TTLs that the rules together let pass, the last one first.
def ttlRange (rules : List ResponseRule) : UInt32 × UInt32 :=
  rules.foldr (fun rule (low, high) =>
    match rule with
    | .ttl minTTL maxTTL => (clampTTL minTTL maxTTL low, clampTTL minTTL maxTTL high)
    | _ => (low, high)) (0, 0xffffffff)

structure KeepsOpt (rr rr' : RR) : Prop where
  rrtype : rr'.rrtype = .opt
  name : rr'.name = rr.name
  udpSize : rr'.data.udpSize = rr.data.udpSize
  ttl : rr'.ttl = rr.ttl

structure InRange (minTTL maxTTL : UInt32) (rr rr' : RR) : Prop where
  min : minTTL ≤ rr'.ttl
  max : rr'.ttl ≤ maxTTL
  keep : minTTL ≤ rr.ttl → rr.ttl ≤ maxTTL → rr'.ttl = rr.ttl

-- The OPT record is left alone, and a single rule for TTLs brings all other records into its range.
structure Framed (rules : List ResponseRule) (res m : Msg) : Prop where
  opt : Forall₂ (fun rr rr' => rr.rrtype = .opt → KeepsOpt rr rr') res.extra m.extra
  ttl : ∀ minTTL maxTTL, rules = [.ttl minTTL maxTTL] → minTTL ≤ maxTTL →
    Forall₂ (fun rr rr' => rr.rrtype ≠ .opt → InRange minTTL maxTTL rr rr') res.records m.records

section Drafts

variable {env : Env} {d : Draft} {i : Nat} {rule : ResponseRule} {rules : List ResponseRule}

theorem Draft.modify_modify (f g : RR → RR) : (d.modify i f).modify i g = d.modify i (g ∘ f) := by
  simp [Draft.modify, modify_modify_eq]

theorem Draft.modify_id : d.modify i id = d := by
  simp [Draft.modify]

theorem ResponseRule.rewriteResponse_eq (h : rule.IsOfRecord) :
    rule.rewriteResponse env d i = .ok (d.modify i rule.onRecord) := by
  cases rule
  case name | value | ttl => rfl
  all_goals cases h

theorem rewriteResourceRecord_eq (h : ∀ rule ∈ rules, rule.IsOfRecord) :
    rewriteResourceRecord env rules d i = .ok (d.modify i (rewriteRecord rules)) := by
  rw [rewriteResourceRecord]
  induction rules
  case nil => exact congrArg Except.ok Draft.modify_id.symm
  case cons rule rules hi =>
    rw [forall_mem_cons] at h
    have hr : rule.rewriteResponse env (d.modify i (rewriteRecord rules)) i =
        .ok (d.modify i (rewriteRecord (rule :: rules))) := by
      rw [rule.rewriteResponse_eq h.1, Draft.modify_modify]
      rfl
    rw [reverse_cons, foldlM_append, hi h.2]
    exact (bind_pure _).trans hr

def Draft.modifyAll (is : List Nat) (f : RR → RR) (d : Draft) : Draft :=
  is.foldl (fun d i => d.modify i f) d

theorem Draft.modifyAll_eq (is : List Nat) (f : RR → RR) :
    d.modifyAll is f = { d with heap := (d.modifyAll is f).heap } := by
  induction is generalizing d
  case nil => rfl
  case cons i is hi => exact hi (d := d.modify i f)

section

variable (is : List Nat) (f : RR → RR)

@[simp]
theorem Draft.modifyAll_msg : (d.modifyAll is f).msg = d.msg := by
  rw [Draft.modifyAll_eq]

@[simp]
theorem Draft.modifyAll_ns : (d.modifyAll is f).ns = d.ns := by
  rw [Draft.modifyAll_eq]

@[simp]
theorem Draft.modifyAll_answer : (d.modifyAll is f).answer = d.answer := by
  rw [Draft.modifyAll_eq]

@[simp]
theorem Draft.modifyAll_extra : (d.modifyAll is f).extra = d.extra := by
  rw [Draft.modifyAll_eq]

@[simp]
theorem Draft.modifyAll_request : (d.modifyAll is f).request = d.request := by
  rw [Draft.modifyAll_eq]

end

theorem Draft.modifyAll_append (is js : List Nat) (f : RR → RR) :
    (d.modifyAll is f).modifyAll js f = d.modifyAll (is ++ js) f :=
  (foldl_append ..).symm

theorem Draft.getElem?_modifyAll {is : List Nat} {f : RR → RR} {k : Nat} (h : is.Nodup) :
    (d.modifyAll is f).heap[k]? = if k ∈ is then d.heap[k]?.map f else d.heap[k]? := by
  induction is generalizing d
  case nil => rfl
  case cons i is hi =>
    rw [nodup_cons] at h
    have hs : (d.modifyAll (i :: is) f).heap[k]? = ((d.modify i f).modifyAll is f).heap[k]? := rfl
    rw [hs, hi h.2, Draft.modify, getElem?_modify]
    by_cases hk : i = k
    case pos =>
      subst hk
      simp [h.1]
    case neg => simp [hk, Ne.symm hk]

def Draft.addrs (d : Draft) : List Nat :=
  d.ns ++ d.answer ++ d.extra

theorem Draft.toMsg_modifyAll {f : RR → RR} (h : d.addrs.Nodup) : (d.modifyAll d.addrs f).toMsg =
    { d.toMsg with ns := d.toMsg.ns.map f, answer := d.toMsg.answer.map f, extra := d.toMsg.extra.map f } := by
  have read {js : List Nat} (hs : js ⊆ d.addrs) : (d.modifyAll d.addrs f).read js = (d.read js).map f := by
    rw [Draft.read, Draft.read, map_filterMap]
    refine filterMap_congr fun k hk => ?_
    rw [Draft.getElem?_modifyAll h, if_pos (hs hk)]
  have hn : d.ns ⊆ d.addrs := by simp [Draft.addrs]
  have ha : d.answer ⊆ d.addrs := by simp [Draft.addrs]
  have he : d.extra ⊆ d.addrs := by simp [Draft.addrs]
  simp [Draft.toMsg, Draft.modifyAll_msg, Draft.modifyAll_ns, Draft.modifyAll_answer, Draft.modifyAll_extra,
    read hn, read ha, read he]

theorem foldlM_rewriteResourceRecord (h : ∀ rule ∈ rules, rule.IsOfRecord) (is : List Nat) :
    is.foldlM (rewriteResourceRecord env rules) d = .ok (d.modifyAll is (rewriteRecord rules)) := by
  induction is generalizing d
  case nil => rfl
  case cons i is hi =>
    rw [foldlM_cons, rewriteResourceRecord_eq h]
    exact hi

variable {r res : Msg}

theorem Draft.addrs_ofMsg :
    (ofMsg r res).addrs = List.range' 0 (res.ns.length + res.answer.length + res.extra.length) := by
  simp only [addrs, ofMsg]
  rw [←range'_append_1, ←range'_append_1, Nat.zero_add, Nat.zero_add]

variable {wr : ResponseReverter}

theorem ResponseReverter.writeMsg_eq_error (hp : wr.policy.noRestore = false) (hq : res.question = []) :
    wr.writeMsg env r res = .error r := by
  rw [writeMsg, if_pos ⟨by simp [hp], hq⟩]
  rfl

theorem ResponseReverter.writeMsg_eq (h : ∀ rule ∈ wr.responseRules, rule.IsOfRecord)
    (hq : wr.policy.noRestore = false → res.question ≠ []) : wr.writeMsg env r res = .ok ({ wr.restore res with
          ns := res.ns.map (rewriteRecord wr.responseRules)
          answer := res.answer.map (rewriteRecord wr.responseRules)
          extra := res.extra.map (rewriteRecord wr.responseRules) }, r) := by
  have hn {m : Msg} : (Draft.ofMsg r m).addrs.Nodup := by
    rw [Draft.addrs_ofMsg]
    exact nodup_range' ..
  rw [writeMsg_eq_rewriteAll hq, Draft.rewriteAll]
  simp only [foldlM_rewriteResourceRecord h, bind, Except.bind, pure, Except.pure, Draft.modifyAll_answer,
    Draft.modifyAll_extra, Draft.modifyAll_request, Draft.modifyAll_append]
  rw [←Draft.addrs, Draft.toMsg_modifyAll hn, Draft.toMsg_ofMsg]
  rfl

end Drafts

section Range

variable {a b l u t : UInt32}

theorem le_clampTTL (h : a ≤ b) : a ≤ clampTTL a b t := by
  grind [clampTTL]

theorem clampTTL_le (h : a ≤ b) : clampTTL a b t ≤ b := by
  grind [clampTTL]

theorem clampTTL_eq_self_iff (h : a ≤ b) : clampTTL a b t = t ↔ a ≤ t ∧ t ≤ b := by
  grind [clampTTL]

theorem clampTTL_mono (h : a ≤ b) (hl : l ≤ u) : clampTTL a b l ≤ clampTTL a b u := by
  grind [clampTTL]

theorem clampTTL_clampTTL (h : a ≤ b) (hl : l ≤ u) :
    clampTTL a b (clampTTL l u t) = clampTTL (clampTTL a b l) (clampTTL a b u) t := by
  grind [clampTTL]

end Range

section Opt

variable {rules : List ResponseRule} {rr : RR}

theorem name_rewriteRecord : (rewriteRecord rules rr).name = rewriteName rules rr.name := by
  induction rules
  case nil => rfl
  case cons rule rules hi =>
    cases rule
    case name w => exact congrArg w.rewriteString hi
    all_goals exact hi

-- Clamping twice is clamping once, to a smaller range.
theorem ttl_rewriteRecord (rr : RR) (h : ∀ minTTL maxTTL, .ttl minTTL maxTTL ∈ rules → minTTL ≤ maxTTL) :
    (ttlRange rules).1 ≤ (ttlRange rules).2 ∧
    (rewriteRecord rules rr).ttl = clampTTL (ttlRange rules).1 (ttlRange rules).2 rr.ttl := by
  induction rules
  case nil =>
    refine ⟨by decide, ((clampTTL_eq_self_iff (by decide)).mpr ⟨UInt32.zero_le, ?_⟩).symm⟩
    exact UInt32.le_iff_toNat_le.mpr (Nat.le_of_lt_succ rr.ttl.toNat_lt)
  case cons rule rules hi =>
    obtain ⟨hl, ht⟩ := hi fun minTTL maxTTL hm => h minTTL maxTTL (mem_cons_of_mem rule hm)
    cases rule
    case ttl minTTL maxTTL =>
      have hr := h minTTL maxTTL mem_cons_self
      refine ⟨clampTTL_mono hr hl, ?_⟩
      exact (congrArg (clampTTL minTTL maxTTL) ht).trans (clampTTL_clampTTL hr hl)
    all_goals exact ⟨hl, ht⟩

theorem data_rewriteRecord (rules : List ResponseRule) (h : rr.rrtype = .opt) :
    (rewriteRecord rules rr).data = rr.data := by
  obtain ⟨udpSize, options, hd⟩ := RData.exists_opt h
  induction rules
  case nil => rfl
  case cons rule rules hi =>
    cases rule
    case value w =>
      change rewriteValue w (rewriteRecord rules rr).data = rr.data
      rw [hi, hd]
      rfl
    all_goals exact hi

variable {env : Env} {wr : ResponseReverter} {r r' res m : Msg}

theorem keepsOpt_iff (ht : ∀ minTTL maxTTL, .ttl minTTL maxTTL ∈ rules → minTTL ≤ maxTTL) (h : rr.rrtype = .opt) :
    KeepsOpt rr (rewriteRecord rules rr) ↔
      rewriteName rules rr.name = rr.name ∧ (ttlRange rules).1 ≤ rr.ttl ∧ rr.ttl ≤ (ttlRange rules).2 := by
  have hd := data_rewriteRecord rules h
  obtain ⟨hl, htr⟩ := ttl_rewriteRecord rr ht
  rw [←clampTTL_eq_self_iff hl, ←htr, ←name_rewriteRecord]
  constructor
  case mp => exact fun h => ⟨h.name, h.ttl⟩
  case mpr => exact fun ⟨hn, ht⟩ => ⟨(congrArg RData.rrtype hd).trans h, hn, congrArg RData.udpSize hd, ht⟩

theorem framed_iff (hr : ∀ rule ∈ wr.responseRules, rule.IsOfRecord)
    (ht : ∀ minTTL maxTTL, .ttl minTTL maxTTL ∈ wr.responseRules → minTTL ≤ maxTTL)
    (hw : wr.writeMsg env r res = .ok (m, r')) : Framed wr.responseRules res m ↔
      ∀ opt ∈ res.opts, rewriteName wr.responseRules opt.name = opt.name ∧
        (ttlRange wr.responseRules).1 ≤ opt.ttl ∧ opt.ttl ≤ (ttlRange wr.responseRules).2 := by
  have hq : wr.policy.noRestore = false → res.question ≠ [] := by
    intro hp hq
    rw [ResponseReverter.writeMsg_eq_error hp hq] at hw
    cases hw
  rw [ResponseReverter.writeMsg_eq hr hq] at hw
  cases hw
  have ho : (∀ opt ∈ res.opts, KeepsOpt opt (rewriteRecord wr.responseRules opt)) ↔
      Forall₂ (fun rr rr' => rr.rrtype = .opt → KeepsOpt rr rr') res.extra
        (res.extra.map (rewriteRecord wr.responseRules)) := by
    rw [forall₂_map_right_iff, forall₂_same]
    simp [Msg.opts]
  have hk : (∀ opt ∈ res.opts, KeepsOpt opt (rewriteRecord wr.responseRules opt)) ↔
      ∀ opt ∈ res.opts, rewriteName wr.responseRules opt.name = opt.name ∧
        (ttlRange wr.responseRules).1 ≤ opt.ttl ∧ opt.ttl ≤ (ttlRange wr.responseRules).2 := by
    refine forall₂_congr fun opt hm => keepsOpt_iff ht ?_
    simpa using (mem_filter.mp hm).2
  rw [←hk, ho]
  refine ⟨Framed.opt, fun h => ⟨h, ?_⟩⟩
  intro minTTL maxTTL hs hle
  have hm : ∀ rr ∈ res.records, rr.rrtype ≠ .opt → InRange minTTL maxTTL rr (rewriteRecord wr.responseRules rr) := by
    rw [hs]
    exact fun rr _ _ => ⟨le_clampTTL hle, clampTTL_le hle, fun hl hu => (clampTTL_eq_self_iff hle).mpr ⟨hl, hu⟩⟩
  simp only [Msg.records]
  rw [←map_append, ←map_append, forall₂_map_right_iff, forall₂_same]
  exact hm

end Opt

namespace Sample

def opt (ttl : UInt32) : RR where
  name := "."
  ttl := ttl
  data := .opt 1232 []

def replied (ttl : UInt32) : Msg where
  response := true
  question := [question]
  answer := [{ name := "b.", ttl := 300, data := .mx 10 "c." }]
  extra := [opt ttl]

def limiter : ResponseReverter where
  originalQuestion := question
  responseRules := [.name (.remap "b." "a."), .ttl 0 60]
  policy := {}

end Sample

open Sample

theorem framed_sample :
    ∃ m, limiter.writeMsg world request (replied 0) = .ok (m, request) ∧
      Framed limiter.responseRules (replied 0) m := by
  have hr : ∀ rule ∈ limiter.responseRules, rule.IsOfRecord := by
    simp [limiter, ResponseRule.IsOfRecord]
  have ht : ∀ minTTL maxTTL, .ttl minTTL maxTTL ∈ limiter.responseRules → minTTL ≤ maxTTL := by
    simp [limiter]
  have hw : limiter.writeMsg world request (replied 0) = _ :=
    ResponseReverter.writeMsg_eq hr fun _ => cons_ne_nil _ _
  exact ⟨_, hw, (framed_iff hr ht hw).mpr (by decide)⟩

-- The DO bit is lost, and other flags are set in its place.
theorem not_framed_flags :
    ∃ m, limiter.writeMsg world request (replied doMask) = .ok (m, request) ∧
      m.extra = [opt 60] ∧ ¬Framed limiter.responseRules (replied doMask) m := by
  refine ⟨_, rfl, rfl, fun h => ?_⟩
  obtain ⟨hk, -⟩ := forall₂_cons.mp h.opt
  exact absurd (hk rfl).ttl (by decide)

end Rewrite
