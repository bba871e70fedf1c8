import HanzoDNS.Dns.Nsec
import HanzoDNS.Dnssec.Basic

open Dns Domain Strings Cache List

namespace Dnssec

open Call Name

variable {κ : Type}

def Call.added (call : Call) (res : Msg) : List RR :=
  res.ns.drop call.req.ns.length

-- An NSEC record says that there is nothing of a type at a name, and says nothing about other names.
structure Denies (n : Name) (t : RRType) (nsec : RR) : Prop where
  owner : nsec.At n
  between : ∃ next, nsec.Next next ∧ ∀ m, n.canonical m = .lt → m.canonical next ≠ .lt
  absent : ∃ next types, nsec.data = .nsec next types ∧ t ∉ types

-- An NSEC record says that the name with the NS records of a referral is delegated, and has no DS records.
structure Delegates (ns : List RR) (nsec : RR) : Prop where
  owner : ∀ rr ∈ ns, rr.rrtype = .ns → ∀ m, rr.At m → nsec.At m
  types : ∃ next types, nsec.data = .nsec next types ∧ .ns ∈ types ∧ .ds ∉ types ∧ .soa ∉ types

section

variable (dns : Signing κ) (call : Call)

-- However the signatures are made, a reply gets NSEC records with a certain property only. It gets one if there is no
-- error.
def Gets (p : RR → Prop) : Prop :=
  ∀ es out, (call.sign dns).Path es out → ∃ res, out = some res ∧
    (∀ nsec ∈ call.added res, nsec.rrtype = .nsec → p nsec) ∧
    ((∀ e ∈ es, e.2 ≠ none) → ∃ nsec ∈ call.added res, nsec.rrtype = .nsec)

def mt : ResponseType :=
  typify dns.toLibrary call.req call.clock

def qnameText : Str :=
  (call.req.qname dns.toLibrary).text

structure Proves : Prop where
  denial : mt dns call = .nameError ∨ mt dns call = .noData → (∃ soa, call.req.ns = [soa] ∧ soa.rrtype = .soa) →
    call.req.qtype ≠ .nsec → ∀ n : Name, qnameText dns call = n.text → Gets dns call (Denies n call.req.qtype)
  referral : mt dns call = .delegation → (∀ rr ∈ call.req.ns, rr.rrtype ≠ .ds) →
    Gets dns call (Delegates call.req.ns)

-- The NS records of a reply have the name that was asked for, which is neither the zone nor the root.
structure AtCut : Prop where
  owner : ∀ rr ∈ call.req.ns, rr.rrtype = .ns → ∀ m, rr.At m →
    ∃ n : Name, qnameText dns call = n.text ∧ n.canonical m = .eq
  below : call.req.name dns.toLibrary ≠ call.zone
  label : dns.splitDomainName (qnameText dns call) ≠ []

end

variable {dns : Signing κ} {call : Call} {es : List (Prog.Event Answer)} {out : Option Msg} {n : Name} {nsec : RR}

section Programs

variable {task : Task} {rrs more : List RR}

variable (dns) in
def attached (answer : Option (List Rrsig)) (more : List RR) : List RR :=
  answer.elim [] fun sigs => sigs.map (·.rr dns) ++ more

theorem elim_eq_append (answer : Option (List Rrsig)) :
    (answer.elim rrs fun sigs => rrs ++ sigs.map (·.rr dns) ++ more) = rrs ++ attached dns answer more := by
  cases answer
  case none => simp [attached]
  case some => simp [attached]

theorem path_attach_bind {f : List RR → Prog Answer α} {a : α} : (attach dns task rrs more >>= f).Path es a ↔
      ∃ (answer : Answer task) (es' : _), es = ⟨task, answer⟩ :: es' ∧
        (f (rrs ++ attached dns answer more)).Path es' a := by
  have h (answer : Answer task) := @elim_eq_append κ dns rrs more answer
  simp only [←h]
  exact .rfl

theorem eq_of_mem_attached {answer : Option (List Rrsig)} {rr : RR} (h : rr ∈ attached dns answer [nsec])
    (ht : rr.rrtype = .nsec) : rr = nsec := by
  cases answer
  case none => cases h
  case some sigs =>
    obtain h | h := mem_append.mp h
    case inr => exact mem_singleton.mp h
    case inl =>
      obtain ⟨sig, -, rfl⟩ := mem_map.mp h
      exact absurd ht (by decide : RRType.rrsig ≠ .nsec)

theorem ne_nsec_of_mem_attached {answer : Option (List Rrsig)} {rr : RR} (h : rr ∈ attached dns answer []) :
    rr.rrtype ≠ .nsec := by
  cases answer
  case none => cases h
  case some sigs =>
    rw [attached, Option.elim_some, append_nil] at h
    obtain ⟨sig, -, rfl⟩ := mem_map.mp h
    exact (by decide : RRType.rrsig ≠ .nsec)

theorem mem_attached {answer : Option (List Rrsig)} (h : answer ≠ none) : nsec ∈ attached dns answer [nsec] := by
  obtain ⟨sigs, rfl⟩ := Option.ne_none_iff_exists'.mp h
  simp [attached]

end Programs

section Nsec

theorem not_mem_filterBitmap {full : List RRType} {t : RRType} {mt : ResponseType} (hm : mt = .nameError ∨ mt = .noData)
    (ht : t ≠ .nsec) (hd : full.Nodup) : t ∉ filterBitmap full t full mt := by
  have hm : ¬((mt ≠ .noData ∧ mt ≠ .nameError) ∨ t = .nsec) := by
    obtain rfl | rfl := hm
    case inl => simp [ht]
    case inr => simp [ht]
  rw [filterBitmap, if_neg hm]
  split
  case isTrue => exact hd.not_mem_erase
  case isFalse => assumption

theorem nextDomain_eq (n : Name) :
    (if n.text = ['.'] then "\\000.".toList else "\\000.".toList ++ n.text) = text (Label.zero :: n) := by
  cases n
  case nil => rfl
  case cons l n =>
    rw [text_of_ne_nil (cons_ne_nil l n), if_neg (cat_ne_root _), text_of_ne_nil (cons_ne_nil _ _),
      cat_cons Label.zero]
    rfl

theorem denies_of_nsec {mt : ResponseType} {ttl : UInt32} (hm : mt = .nameError ∨ mt = .noData)
    (ht : call.req.qtype ≠ .nsec) (hq : qnameText dns call = n.text) :
    ∃ nsec, call.nsec dns mt ttl = some nsec ∧ nsec.rrtype = .nsec ∧ Denies n call.req.qtype nsec := by
  have made (types : List RRType) (h : call.req.qtype ∉ types) :
      Denies n call.req.qtype ⟨n.text, ttl, .nsec (text (Label.zero :: n)) types⟩ := by
    constructor
    case owner => exact ⟨n, rfl, Std.ReflCmp.compare_self⟩
    case between => exact ⟨_, ⟨_, types, rfl, Std.ReflCmp.compare_self⟩, fun _ => not_between⟩
    case absent => exact ⟨_, types, rfl, h⟩
  have hd : mt ≠ .delegation := by
    obtain rfl | rfl := hm
    all_goals decide
  have hx : (call.req.qname dns.toLibrary).text = n.text := hq
  simp only [nsec, hx, nextDomain_eq, hd, false_or, if_false]
  split
  case isTrue => exact ⟨_, rfl, rfl, made _ (not_mem_filterBitmap hm ht (by decide))⟩
  case isFalse =>
    split
    case isTrue h => exact ⟨_, rfl, rfl, made _ (h ▸ by decide)⟩
    case isFalse h => exact ⟨_, rfl, rfl, made _ (not_mem_filterBitmap hm ht (by decide))⟩

end Nsec

theorem denial_ns (h : call.req.qtype ≠ .nsec) (ns : List RR) : (call.denial ns).ns = ns := by
  rw [denial, if_neg h]
  split <;> rfl

theorem gets_denies (hm : mt dns call = .nameError ∨ mt dns call = .noData)
    (hs : ∃ soa, call.req.ns = [soa] ∧ soa.rrtype = .soa) (ht : call.req.qtype ≠ .nsec)
    (hq : qnameText dns call = n.text) : Gets dns call (Denies n call.req.qtype) := by
  obtain ⟨soa, hs, hr⟩ := hs
  obtain ⟨nsec, hn, hx, hp⟩ := @denies_of_nsec _ dns call n _ (firstTTL call.req.ns) hm ht hq
  intro es out h
  have hd : mt dns call ≠ .delegation := by
    obtain hm | hm := hm
    all_goals simp [hm]
  have he : call.sign dns = call.signDenial dns (mt dns call) := by
    have hl : ¬(call.req.ns.length ≠ 1 ∨ ¬call.req.ns.all (·.rrtype = .soa)) := by simp [hs, hr]
    rw [sign]
    exact (if_neg hd).trans <| (if_pos hm).trans <| if_neg hl
  rw [he, signDenial, path_attach_bind] at h
  obtain ⟨a₁, es, rfl, h⟩ := h
  simp only [hn] at h
  rw [path_attach_bind] at h
  obtain ⟨a₂, es, rfl, rfl, rfl⟩ := h
  have ha : call.added (call.denial (call.req.ns ++ attached dns a₁ [] ++ attached dns a₂ [nsec])) =
      attached dns a₁ [] ++ attached dns a₂ [nsec] := by
    rw [added, denial_ns ht, append_assoc, drop_left]
  refine ⟨_, rfl, ?_, ?_⟩
  case _ =>
    rw [ha]
    intro rr hm hrr
    obtain hm | hm := mem_append.mp hm
    case inl => exact absurd hrr (ne_nsec_of_mem_attached hm)
    case inr => exact eq_of_mem_attached hm hrr ▸ hp
  case _ =>
    rw [ha]
    exact fun h => ⟨nsec, mem_append_right _ (mem_attached (h ⟨_, a₂⟩ (by simp))), hx⟩

section Referral

variable {ttl : UInt32}

theorem nsec_apex (h : call.req.name dns.toLibrary = call.zone) :
    ∃ next, call.nsec dns .delegation ttl = some ⟨qnameText dns call, ttl, .nsec next apexBitmap⟩ := by
  have hf : filter18 call.req.qtype apexBitmap .delegation = apexBitmap := by
    rw [filter18, filterBitmap, if_pos (.inl ⟨by decide, by decide⟩)]
  simp only [nsec, h, if_true, hf]
  exact ⟨_, rfl⟩

theorem nsec_root (h : call.req.name dns.toLibrary ≠ call.zone) (hl : dns.splitDomainName (qnameText dns call) = []) :
    call.nsec dns .delegation ttl = none := by
  rw [qnameText] at hl
  simp only [nsec, h, true_or, if_true, if_false, hl]

theorem nsec_below (h : call.req.name dns.toLibrary ≠ call.zone) (hl : dns.splitDomainName (qnameText dns call) ≠ []) :
    ∃ next, call.nsec dns .delegation ttl = some ⟨qnameText dns call, ttl, .nsec next delegationBitmap⟩ := by
  obtain ⟨label, labels, hl⟩ := exists_cons_of_ne_nil hl
  rw [qnameText] at hl
  simp only [nsec, h, true_or, if_true, if_false, hl]
  exact ⟨_, rfl⟩

theorem sign_of_referral (hm : mt dns call = .delegation) : call.sign dns = call.signDelegation dns := by
  have hn : call.req.ns ≠ [] := by
    intro hn
    revert hm
    simp only [mt, typify, hn, any_nil]
    split_ifs <;> simp_all
  rw [sign]
  exact (if_pos hm).trans (if_neg hn)

variable (hm : mt dns call = .delegation) (hd : ∀ rr ∈ call.req.ns, rr.rrtype ≠ .ds)

include hm hd

theorem sign_unsigned : call.sign dns =
    (call.nsec dns .delegation (firstTTL call.req.ns)).elim (pure none) fun nsec => do
      let ns ← attach dns (call.task [nsec] (firstTTL call.req.ns)) call.req.ns [nsec]
      return some { call.req with ns } := by
  have hf : call.req.ns.filter (·.rrtype = .ds) = [] := by simpa using hd
  rw [sign_of_referral hm, signDelegation]
  simp only [hf, if_true]
  split
  case h_1 h => rw [h]; rfl
  case h_2 h => rw [h]; rfl

theorem path_of_nsec (hn : call.nsec dns .delegation (firstTTL call.req.ns) = some nsec) :
    (call.sign dns).Path es out ↔ ∃ answer, es = [⟨call.task [nsec] (firstTTL call.req.ns), answer⟩] ∧
      out = some { call.req with ns := call.req.ns ++ attached dns answer [nsec] } := by
  rw [sign_unsigned hm hd, hn, Option.elim_some, path_attach_bind]
  constructor
  case mp => rintro ⟨answer, es, rfl, rfl, rfl⟩; exact ⟨answer, rfl, rfl⟩
  case mpr => rintro ⟨answer, rfl, rfl⟩; exact ⟨answer, [], rfl, rfl, rfl⟩

theorem gets_iff_of_nsec {p : RR → Prop} (hn : call.nsec dns .delegation (firstTTL call.req.ns) = some nsec)
    (ht : nsec.rrtype = .nsec) : Gets dns call p ↔ p nsec := by
  have ha (answer : Option (List Rrsig)) :
      call.added { call.req with ns := call.req.ns ++ attached dns answer [nsec] } = attached dns answer [nsec] :=
    drop_left
  constructor
  case mp =>
    intro hg
    obtain ⟨res, hr, hp, -⟩ := hg _ _ ((path_of_nsec hm hd hn).mpr ⟨some [], rfl, rfl⟩)
    cases hr
    rw [ha] at hp
    exact hp nsec (mem_attached (by simp)) ht
  case mpr =>
    intro hp es out h
    obtain ⟨answer, rfl, rfl⟩ := (path_of_nsec hm hd hn).mp h
    refine ⟨_, rfl, ?_, fun h => ?_⟩
    case refine_1 =>
      rw [ha]
      exact fun rr hrr htt => eq_of_mem_attached hrr htt ▸ hp
    case refine_2 =>
      rw [ha]
      exact ⟨nsec, mem_attached (h ⟨_, answer⟩ (by simp)), ht⟩

theorem gets_delegates_iff : Gets dns call (Delegates call.req.ns) ↔ AtCut dns call := by
  by_cases hz : call.req.name dns.toLibrary = call.zone
  case pos =>
    obtain ⟨next, hn⟩ := @nsec_apex _ dns call (firstTTL call.req.ns) hz
    refine iff_of_false ?_ fun h => h.below hz
    rw [gets_iff_of_nsec hm hd hn rfl]
    intro hp
    obtain ⟨_, types, ht, -, -, hs⟩ := hp.types
    cases ht
    exact hs (by decide)
  case neg =>
    by_cases hl : dns.splitDomainName (qnameText dns call) = []
    case pos =>
      have hn := @nsec_root _ dns call (firstTTL call.req.ns) hz hl
      refine iff_of_false (fun hg => ?_) fun h => h.label hl
      have hp : (call.sign dns).Path [] none := by
        rw [sign_unsigned hm hd, hn]
        exact ⟨rfl, rfl⟩
      obtain ⟨res, hr, -⟩ := hg _ _ hp
      cases hr
    case neg =>
      obtain ⟨next, hn⟩ := @nsec_below _ dns call (firstTTL call.req.ns) hz hl
      rw [gets_iff_of_nsec hm hd hn rfl]
      constructor
      case mp => exact fun hp => ⟨hp.owner, hz, hl⟩
      case mpr => exact fun h => ⟨h.owner, next, delegationBitmap, rfl, by decide, by decide, by decide⟩

end Referral

-- Denials are proved as they should be. The record for a referral is one for the name that was asked for.
theorem proves_iff (dns : Signing κ) (call : Call) : Proves dns call ↔
      (mt dns call = .delegation → (∀ rr ∈ call.req.ns, rr.rrtype ≠ .ds) → AtCut dns call) := by
  constructor
  case mp => exact fun hp hm hd => (gets_delegates_iff hm hd).mp (hp.referral hm hd)
  case mpr =>
    intro h
    constructor
    case denial => exact fun hm hs ht n hq => gets_denies hm hs ht hq
    case referral => exact fun hm hd => (gets_delegates_iff hm hd).mpr (h hm hd)

section Sample

theorem org_valid : (unescape "org".toList).isSome := by decide

theorem www_valid : (unescape "www".toList).isSome := by decide

def cut : Name := [⟨"org".toList, cons_ne_nil _ _, org_valid⟩]

def below : Name := ⟨"www".toList, cons_ne_nil _ _, www_valid⟩ :: cut

-- The root zone refers a query to the servers of a name above the one that is asked for.
def referral : Call where
  req := { question := [⟨below.text, .a, Msg.classINET⟩], ns := [⟨cut.text, 300, .ns "ns.".toList⟩] }
  zone := ['.']
  now := 0
  clock := 0

theorem not_proves_referral : ¬Proves .reference referral := by
  have hm : mt .reference referral = .delegation := by decide +kernel
  have hd : ∀ rr ∈ referral.req.ns, rr.rrtype ≠ .ds := by decide +kernel
  intro hp
  have hc := (gets_delegates_iff hm hd).mp (hp.referral hm hd)
  obtain ⟨n, hn, he⟩ := hc.owner ⟨cut.text, 300, .ns "ns.".toList⟩ (mem_singleton_self _) rfl cut
    ⟨cut, rfl, Std.ReflCmp.compare_self⟩
  have hb : qnameText .reference referral = below.text := by decide +kernel
  obtain rfl : below = n := text_injective (hb.symm.trans hn)
  exact absurd he (by decide +kernel)

end Sample

end Dnssec
