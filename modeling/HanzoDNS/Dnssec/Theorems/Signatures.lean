import HanzoDNS.Dnssec.Shared

open Dns Strings Cache List Option Function

namespace Dnssec

open UInt32

variable {κ ι : Type}

section

variable (dns : Signing κ) (d : Config κ)

structure Fits (rrs : List RR) (zone : Str) (now : Time) (sig : Rrsig) : Prop where
  signer : sig.signerName = zone
  made : ∃ k ∈ d.keys, (∃ draft, dns.sign k.s draft rrs = some sig) ∧
    (d.splitkeys → (k.isKSK ↔ isDnskey rrs) ∧ (k.isZSK ↔ ¬isDnskey rrs))
  ttl : ∀ ttl, (∀ rr ∈ rrs, rr.ttl = ttl) → sig.ttl = ttl
  period : sig.inception.toNat ≤ unix now ∧ unix now ≤ sig.expiration.toNat

-- The records of one name and type in a section of a reply, or the NSEC record that is made for it.
inductive IsSet (call : Call) : List RR → Prop
  | found (hs : rrs ∈ [call.req.answer, call.req.ns, call.req.extra]) (h : ∃ rr ∈ rrs, rr.name = name ∧ rr.rrtype = t) :
    IsSet call (rrs.filter fun rr => rr.name = name ∧ rr.rrtype = t)
  | nsec {mt : ResponseType} (h : call.nsec dns mt ttl = some nsec) : IsSet call [nsec]

def Signed (call : Call) (res : Msg) : Prop :=
  ∀ rr ∈ res.records, rr.rrtype = .rrsig → rr ∈ call.req.records ∨
    ∃ rrs sig, IsSet dns call rrs ∧ rr = sig.rr dns ∧ Fits dns d rrs call.zone call.now sig

def zoneOf (name : Str) : Str :=
  Plugin.Zones.matches dns.isSubDomain d.zones name

def signable (call : Call) : List RR :=
  match typify dns.toLibrary call.req call.clock with
  | .delegation => call.req.ns.filter (·.rrtype = .ds)
  | .nameError => call.req.ns.filter (·.rrtype = .soa)
  | .noData => call.req.ns.filter (·.rrtype = .soa)
  | _ => call.req.records.filter fun rr => ¬(rr.rrtype = .rrsig ∨ rr.rrtype = .opt)

-- What is signed in a reply belongs to its zone and not to one below, and DS records are one set with the TTL of the
-- first record of their section.
structure Proper (call : Call) : Prop where
  zone : ∀ rr ∈ signable dns call, zoneOf dns d rr.name = call.zone
  question : zoneOf dns d (call.req.qname dns.toLibrary).text = call.zone
  ds : ∀ rr ∈ call.req.ns, rr.rrtype = .ds → rr.ttl = Call.firstTTL call.req.ns ∧
    ∀ rr' ∈ call.req.ns, rr'.rrtype = .ds → rr'.name = rr.name

-- The time of a call was read at most three hours ago, and signing takes no longer than that.
structure Timely (call : Call) (task : Task) (s : Shared) : Prop where
  now : call.now ≤ s.clock ∧ s.clock ≤ call.now + 3 * hour
  flight : ∀ flight, s.inflight (hash dns task.rrs) = some flight → s.clock ≤ flight.since + 3 * hour
  epoch : 3 * hour ≤ call.now
  era : unix (s.clock + eightDays) < 2 ^ 32

-- All tasks are answered in time, and are for sets of records among the ones given.
def Meets (calls : ι → Call) (sets : Set (List RR)) (s : Shared) : Action ι → Prop
  | .answer i e => Timely dns (calls i) e.1 s ∧ e.1.rrs ∈ sets
  | _ => True

end

section Tasks

structure Asked (dns : Signing κ) (d : Config κ) (call : Call) (task : Task) : Prop where
  set : IsSet dns call task.rrs
  signer : task.signerName = call.zone
  incep : task.incep = ofInt (unix (call.now - 3 * hour))
  expir : task.expir = ofInt (unix (call.now + eightDays))
  ttl : ∀ ttl, (∀ rr ∈ task.rrs, rr.ttl = ttl) → task.ttl = ttl
  owned : task.rrs ≠ []
  zone : ∀ rr ∈ task.rrs, zoneOf dns d rr.name = call.zone

def Known (dns : Signing κ) (call : Call) (es : List (Prog.Event Answer)) (rr : RR) : Prop :=
  rr.rrtype = .rrsig → rr ∈ call.req.records ∨
    ∃ e ∈ es, ∃ sigs, e.2 = some sigs ∧ ∃ sig ∈ sigs, rr = sig.rr dns

variable {dns : Signing κ} {d : Config κ} {call : Call} {es es' : List (Prog.Event Answer)} {rr nsec : RR}
variable {rrs more : List RR} {task : Task}

theorem Known.mono (h : Known dns call es rr) (hs : es ⊆ es') : Known dns call es' rr := by
  intro ht
  obtain h | ⟨e, he, h⟩ := h ht
  case inl => exact .inl h
  case inr => exact .inr ⟨e, hs he, h⟩

theorem known_attached {answer : Answer task} (hr : ∀ rr ∈ rrs, Known dns call es rr)
    (hm : ∀ rr ∈ more, rr.rrtype ≠ .rrsig) :
    ∀ rr ∈ (answer.elim rrs fun sigs => rrs ++ sigs.map (·.rr dns) ++ more),
      Known dns call (es ++ [⟨task, answer⟩]) rr := by
  have hr (rr : RR) (h : rr ∈ rrs) := (hr rr h).mono (subset_append_left es [⟨task, answer⟩])
  cases answer
  case none => exact hr
  case some sigs =>
    intro rr h ht
    rw [elim_some, mem_append, mem_append] at h
    obtain (h | h) | h := h
    case inl.inl => exact hr rr h ht
    case inl.inr =>
      obtain ⟨sig, hs, rfl⟩ := mem_map.mp h
      exact .inr ⟨_, mem_append_right _ (mem_singleton_self _), sigs, rfl, sig, hs, rfl⟩
    case inr => exact absurd ht (hm rr h)

variable {adm : List (Prog.Event Answer) → Task → Prop} {post : List (Prog.Event Answer) → α → Prop}

theorem meets_attach_bind {f : List RR → Prog Answer α} (ha : adm es task) (hr : ∀ rr ∈ rrs, Known dns call es rr)
    (hm : ∀ rr ∈ more, rr.rrtype ≠ .rrsig)
    (hf : ∀ es' rrs', es ⊆ es' → (∀ rr ∈ rrs', Known dns call es' rr) → (f rrs').Meets adm post es') :
    (Call.attach dns task rrs more >>= f).Meets adm post es :=
  ⟨ha, fun _ => hf _ _ (subset_append_left _ _) (known_attached hr hm)⟩

theorem meets_signSets {post : List (Prog.Event Answer) → List RR → Prop} {sets : List (List RR)}
    (ha : ∀ set ∈ sets, ∀ es, adm es (call.task set (Call.firstTTL set))) (hr : ∀ rr ∈ rrs, Known dns call es rr)
    (hp : ∀ es' rrs', es ⊆ es' → (∀ rr ∈ rrs', Known dns call es' rr) → post es' rrs') :
    (call.signSets dns sets rrs).Meets adm post es := by
  induction sets generalizing es rrs
  case nil => exact hp es rrs (List.Subset.refl _) hr
  case cons set sets hi =>
    obtain ⟨hs, ha⟩ := forall_mem_cons.mp ha
    refine meets_attach_bind (hs es) hr (forall_mem_nil _) fun es' rrs' he hr' => ?_
    exact hi ha hr' fun es'' rrs'' he' => hp es'' rrs'' (List.Subset.trans he he')

theorem known_of_mem (h : rr ∈ call.req.records) : Known dns call es rr :=
  fun _ => .inl h

def Result (dns : Signing κ) (call : Call) (es : List (Prog.Event Answer)) (out : Option Msg) : Prop :=
  ∀ res, out = some res → ∀ rr ∈ res.records, Known dns call es rr

theorem rrtype_nsec {mt : ResponseType} {ttl : UInt32} (h : call.nsec dns mt ttl = some nsec) :
    nsec.rrtype = .nsec ∧ nsec.ttl = ttl ∧ nsec.name = (call.req.qname dns.toLibrary).text := by
  rw [Call.nsec] at h
  split at h
  case isTrue => cases h; exact ⟨rfl, rfl, rfl⟩
  case isFalse =>
    split at h
    case isFalse => cases h; exact ⟨rfl, rfl, rfl⟩
    case isTrue =>
      split at h
      case isFalse => cases h; exact ⟨rfl, rfl, rfl⟩
      case isTrue =>
        split at h
        case h_1 => cases h
        case h_2 => cases h; exact ⟨rfl, rfl, rfl⟩

theorem mem_rrSets {section' set : List RR} (h : set ∈ rrSets section') :
    ∃ name t, t ≠ .rrsig ∧ t ≠ .opt ∧ (∃ rr ∈ section', rr.name = name ∧ rr.rrtype = t) ∧
      set = section'.filter fun rr => rr.name = name ∧ rr.rrtype = t := by
  obtain ⟨⟨name, t⟩, hk, rfl⟩ := mem_map.mp h
  obtain ⟨rr, hr, hk⟩ := mem_map.mp (mem_dedup.mp hk)
  obtain ⟨rfl, rfl⟩ := Prod.mk.inj hk
  obtain ⟨hm, hs⟩ := mem_filter.mp hr
  have hs : rr.rrtype ≠ .rrsig ∧ rr.rrtype ≠ .opt := by simpa using hs
  refine ⟨rr.name, rr.rrtype, hs.1, hs.2, ⟨rr, hm, rfl, rfl⟩, ?_⟩
  rw [List.filter_filter]
  refine filter_congr fun x _ => ?_
  by_cases hx : x.name = rr.name ∧ x.rrtype = rr.rrtype
  case pos => simp [hx, hs]
  case neg => simp [hx]

section Asked

variable (hp : Proper dns d call)

include hp

theorem asked_nsec {mt : ResponseType} {ttl : UInt32} (h : call.nsec dns mt ttl = some nsec) :
    Asked dns d call (call.task [nsec] ttl) where
  set := .nsec h
  signer := rfl
  incep := rfl
  expir := rfl
  ttl t ht := (rrtype_nsec h).2.1.symm.trans (ht nsec (mem_singleton_self _))
  owned := cons_ne_nil _ _
  zone rr hr := by
    obtain rfl := mem_singleton.mp hr
    rw [(rrtype_nsec h).2.2]
    exact hp.question

theorem asked_set {section' : List RR} {name : Str} {t : RRType}
    (hs : section' ∈ [call.req.answer, call.req.ns, call.req.extra])
    (hm : ∃ rr ∈ section', rr.name = name ∧ rr.rrtype = t)
    (hz : ∀ rr ∈ section', rr.name = name → rr.rrtype = t → rr ∈ signable dns call)
    {ttl : UInt32} (ht : ∀ ttl', (∀ rr ∈ section', rr.name = name → rr.rrtype = t → rr.ttl = ttl') → ttl = ttl') :
    Asked dns d call (call.task (section'.filter fun rr => rr.name = name ∧ rr.rrtype = t) ttl) := by
  have mem (rr : RR) (hr : rr ∈ section'.filter fun rr => rr.name = name ∧ rr.rrtype = t) :
      rr ∈ section' ∧ rr.name = name ∧ rr.rrtype = t := by simpa using hr
  constructor
  case set => exact .found hs hm
  case signer => rfl
  case incep => rfl
  case expir => rfl
  case ttl => exact fun ttl' h => ht ttl' fun rr hr hn hx => h rr (by simp [hr, hn, hx, Call.task])
  case owned =>
    obtain ⟨rr, hr, hx⟩ := hm
    exact ne_nil_of_mem (by simpa [Call.task] using ⟨hr, hx⟩)
  case zone =>
    intro rr hr
    obtain ⟨hr, hn, hx⟩ := mem rr hr
    exact hp.zone rr (hz rr hr hn hx)

theorem asked_ds (hm : typify dns.toLibrary call.req call.clock = .delegation)
    (hd : call.req.ns.filter (·.rrtype = .ds) ≠ []) :
    Asked dns d call (call.task (call.req.ns.filter (·.rrtype = .ds)) (Call.firstTTL call.req.ns)) := by
  obtain ⟨rr, hr⟩ := exists_mem_of_ne_nil _ hd
  obtain ⟨hr, ht⟩ : rr ∈ call.req.ns ∧ rr.rrtype = .ds := by simpa using hr
  obtain ⟨hl, hn⟩ := hp.ds rr hr ht
  have he : call.req.ns.filter (·.rrtype = .ds) = call.req.ns.filter fun x => x.name = rr.name ∧ x.rrtype = .ds := by
    refine filter_congr fun x hx => decide_eq_decide.mpr ?_
    exact ⟨fun h => ⟨hn x hx h, h⟩, And.right⟩
  rw [he]
  refine asked_set hp (by simp) ⟨rr, hr, rfl, ht⟩ (fun x hx _ hs => ?_) fun ttl h => hl.symm.trans (h rr hr rfl ht)
  simp [signable, hm, hx, hs]

theorem asked_soa {soa : RR} (hm : typify dns.toLibrary call.req call.clock = .nameError ∨
      typify dns.toLibrary call.req call.clock = .noData) (hs : call.req.ns = [soa]) (ht : soa.rrtype = .soa) :
    Asked dns d call (call.task call.req.ns (Call.firstTTL call.req.ns)) := by
  have he : call.req.ns = call.req.ns.filter fun x => x.name = soa.name ∧ x.rrtype = soa.rrtype := by simp [hs]
  rw [he]
  refine asked_set hp (by simp) ⟨soa, by simp [hs]⟩ (fun x hx _ hr => ?_) fun ttl h => ?_
  case refine_1 =>
    obtain hm | hm := hm
    all_goals simp [signable, hm, hx, hr, ht]
  case refine_2 => simpa [←he, hs, Call.firstTTL] using h soa (by simp [hs]) rfl rfl

theorem asked_section {rrs set : List RR} (hm : signable dns call =
      call.req.records.filter fun rr => ¬(rr.rrtype = .rrsig ∨ rr.rrtype = .opt))
    (hs : rrs ∈ [call.req.answer, call.req.ns, call.req.extra]) (h : set ∈ call.order (rrSets rrs)) :
    Asked dns d call (call.task set (Call.firstTTL set)) := by
  obtain ⟨name, t, ht, ho, he, rfl⟩ := mem_rrSets ((call.order_perm _).mem_iff.mp h)
  have hr (rr : RR) (h : rr ∈ rrs) : rr ∈ call.req.records := by
    obtain rfl | rfl | rfl : rrs = call.req.answer ∨ rrs = call.req.ns ∨ rrs = call.req.extra := by simpa using hs
    all_goals simp [Msg.records, h]
  refine asked_set hp hs he (fun rr h _ hx => ?_) fun ttl h => ?_
  case refine_1 => simp [hm, hr rr h, hx, ht, ho]
  case refine_2 =>
    obtain ⟨x, hx⟩ : ∃ x, (rrs.filter fun rr => rr.name = name ∧ rr.rrtype = t).head? = some x := by
      obtain ⟨rr, hr, hn⟩ := he
      rw [←isSome_iff_exists, isSome_head?]
      simpa using ⟨rr, hr, hn⟩
    have hm := mem_of_mem_head? hx
    obtain ⟨hr, hn, hs⟩ : x ∈ rrs ∧ x.name = name ∧ x.rrtype = t := by simpa using hm
    rw [Call.firstTTL, hx]
    exact h x hr hn hs

theorem signDelegation_meets (hm : typify dns.toLibrary call.req call.clock = .delegation) :
    (call.signDelegation dns).Meets (fun _ => Asked dns d call) (Result dns call) [] := by
  have hn : ∀ rr ∈ call.req.ns, Known dns call [] rr := fun rr h => known_of_mem (by simp [Msg.records, h])
  have replaced (es : List (Prog.Event Answer)) (ns : List RR) (h : ∀ rr ∈ ns, Known dns call es rr) :
      Result dns call es (some { call.req with ns }) := by
    rintro res ⟨rfl⟩
    refine forall_mem_append.mpr ⟨forall_mem_append.mpr ⟨fun rr hr => ?_, h⟩, fun rr hr => ?_⟩
    all_goals exact known_of_mem (by simp [Msg.records, hr])
  rw [Call.signDelegation]
  dsimp only
  split
  case isFalse hd =>
    exact meets_attach_bind (asked_ds hp hm hd) hn (forall_mem_nil _) fun es ns _ h => replaced es ns h
  case isTrue =>
    split
    case h_1 => exact fun res h => by cases h
    case h_2 nsec hs =>
      refine meets_attach_bind (asked_nsec hp hs) hn ?_ fun es ns _ h => replaced es ns h
      exact forall_mem_singleton.mpr (by simp [(rrtype_nsec hs).1, RRType.nsec, RRType.rrsig])

theorem signDenial_meets {soa : RR} (hm : typify dns.toLibrary call.req call.clock = .nameError ∨
      typify dns.toLibrary call.req call.clock = .noData) (hs : call.req.ns = [soa]) (ht : soa.rrtype = .soa)
    {mt : ResponseType} : (call.signDenial dns mt).Meets (fun _ => Asked dns d call) (Result dns call) [] := by
  have hn : ∀ rr ∈ call.req.ns, Known dns call [] rr := fun rr h => known_of_mem (by simp [Msg.records, h])
  have denied (es : List (Prog.Event Answer)) (ns : List RR) (h : ∀ rr ∈ ns, Known dns call es rr) :
      Result dns call es (some (call.denial ns)) := by
    rintro res ⟨rfl⟩
    intro rr hr
    have hr : rr ∈ call.req.records ∨ rr ∈ ns := by
      rw [Call.denial] at hr
      split_ifs at hr
      case pos =>
        have hd : rr ∈ ns.drop (ns.length - 2) ∨ rr ∈ call.req.extra := by simpa [Msg.records] using hr
        obtain hd | hd := hd
        case inl => exact .inr (mem_of_mem_drop hd)
        case inr => exact .inl (by simp [Msg.records, hd])
      all_goals
        have hd : rr ∈ call.req.answer ∨ rr ∈ ns ∨ rr ∈ call.req.extra := by simpa [Msg.records] using hr
        obtain hd | hd | hd := hd
        case inl => exact .inl (by simp [Msg.records, hd])
        case inr.inl => exact .inr hd
        case inr.inr => exact .inl (by simp [Msg.records, hd])
    obtain hr | hr := hr
    case inl => exact known_of_mem hr
    case inr => exact h rr hr
  rw [Call.signDenial]
  refine meets_attach_bind (asked_soa hp hm hs ht) hn (forall_mem_nil _) fun es ns _ h => ?_
  split
  case h_1 => exact fun res h => by cases h
  case h_2 nsec hq =>
    refine meets_attach_bind (asked_nsec hp hq) h ?_ fun es ns _ h => denied es ns h
    exact forall_mem_singleton.mpr (by simp [(rrtype_nsec hq).1, RRType.nsec, RRType.rrsig])

theorem sign_meets : (call.sign dns).Meets (fun _ => Asked dns d call) (Result dns call) [] := by
  have start : ∀ rr ∈ call.req.records, Known dns call [] rr := fun _ => known_of_mem
  have same : Result dns call [] (some call.req) := fun res h => by cases h; exact start
  rw [Call.sign]
  dsimp only
  split
  case isTrue hm =>
    split
    case isTrue => exact same
    case isFalse => exact signDelegation_meets hp hm
  case isFalse hd =>
    split
    case isTrue hm =>
      split
      case isTrue => exact same
      case isFalse hs =>
        obtain ⟨hl, ha⟩ : call.req.ns.length = 1 ∧ ∀ rr ∈ call.req.ns, rr.rrtype = .soa := by simpa using hs
        obtain ⟨soa, hs⟩ := length_eq_one_iff.mp hl
        exact signDenial_meets hp hm hs (ha soa (by simp [hs]))
    case isFalse hm =>
      have hg : signable dns call = call.req.records.filter fun rr => ¬(rr.rrtype = .rrsig ∨ rr.rrtype = .opt) := by
        rw [signable]
        split
        case h_4 => rfl
        all_goals simp_all
      refine Prog.meets_bind.mpr <| meets_signSets (fun set h _ => asked_section hp hg (by simp) h)
        (fun rr h => start rr (by simp [Msg.records, h])) fun es₁ answer _ ha => ?_
      refine Prog.meets_bind.mpr <| meets_signSets (fun set h _ => asked_section hp hg (by simp) h)
        (fun rr h => known_of_mem (by simp [Msg.records, h])) fun es₂ ns h₂ hn => ?_
      refine Prog.meets_bind.mpr <| meets_signSets (fun set h _ => asked_section hp hg (by simp) h)
        (fun rr h => known_of_mem (by simp [Msg.records, h])) fun es₃ extra h₃ he => ?_
      rintro res ⟨rfl⟩
      refine forall_mem_append.mpr ⟨forall_mem_append.mpr ⟨fun rr hr => ?_, fun rr hr => ?_⟩, he⟩
      case refine_1 => exact (ha rr hr).mono (List.Subset.trans h₂ h₃)
      case refine_2 => exact (hn rr hr).mono h₃

end Asked

end Tasks

section Runs

variable {dns : Signing κ} {d : Config κ} {call call' : Call} {task task' : Task} {sigs : List Rrsig} {sig : Rrsig}

theorem unix_eq (t : Time) : unix t = t / 1000000000 :=
  Int.fdiv_eq_ediv_of_nonneg t (by decide)

theorem unix_mono {t u : Time} (h : t ≤ u) : unix t ≤ unix u := by
  rw [unix_eq, unix_eq]
  exact Int.ediv_le_ediv (by decide) h

theorem toNat_ofInt {x : Int} (h : 0 ≤ x) (hx : x < 2 ^ 32) : ((ofInt x).toNat : Int) = x := by
  rw [ofInt, toNat_ofNat']
  omega

theorem mem_of_mapM {f : α → Option β} {as : List α} {bs : List β} {b : β} (h : as.mapM f = some bs) (hb : b ∈ bs) :
    ∃ a ∈ as, f a = some b := by
  induction as generalizing bs
  case nil =>
    obtain rfl : [] = bs := by simpa using h
    cases hb
  case cons a as hi =>
    obtain ⟨b', hf, bs', hm, rfl⟩ : ∃ b', f a = some b' ∧ ∃ bs', as.mapM f = some bs' ∧ b' :: bs' = bs := by
      simpa [mapM_cons, bind_eq_some_iff] using h
    obtain rfl | hb := mem_cons.mp hb
    case inl => exact ⟨a, mem_cons_self, hf⟩
    case inr =>
      obtain ⟨a', ha, hf⟩ := hi hm hb
      exact ⟨a', mem_cons_of_mem _ ha, hf⟩

theorem mem_make (hm : make dns d task = some sigs) (hs : sig ∈ sigs) :
    ∃ k ∈ signers d task.rrs, dns.sign k.s (k.newRRSIG task.signerName task.ttl task.incep task.expir)
      task.rrs = some sig :=
  mem_of_mapM hm hs

theorem mem_signers {k : DNSKEY κ} {rrs : List RR} (h : k ∈ signers d rrs) :
    k ∈ d.keys ∧ (d.splitkeys → (k.isKSK ↔ isDnskey rrs) ∧ (k.isZSK ↔ ¬isDnskey rrs)) := by
  obtain ⟨hk, h⟩ := mem_filter.mp h
  refine ⟨hk, fun hs => ?_⟩
  have hx : ¬(k.isKSK ∧ k.isZSK) := by
    simp only [DNSKEY.isKSK, DNSKEY.isZSK, decide_eq_true_eq]
    rintro ⟨⟨-, h₁⟩, -, h₀⟩
    exact absurd (h₁.symm.trans h₀) (by decide)
  cases hd : isDnskey rrs
  case true => simp_all
  case false => simp_all

theorem period_of_made (ha : Asked dns d call task) (hm : make dns d task = some sigs) (hs : sig ∈ sigs)
    (he : 3 * hour ≤ call.now) (hr : unix (call.now + eightDays) < 2 ^ 32) :
    (sig.inception.toNat : Int) = unix (call.now - 3 * hour) ∧
    (sig.expiration.toNat : Int) = unix (call.now + eightDays) := by
  obtain ⟨k, -, hk⟩ := mem_make hm hs
  obtain ⟨-, -, hi, hx⟩ := dns.sign_some hk
  have h₀ : 0 ≤ unix (call.now - 3 * hour) := by
    rw [unix_eq]
    exact Int.ediv_nonneg (Int.sub_nonneg_of_le he) (by decide)
  have h₁ : call.now - 3 * hour ≤ call.now + eightDays :=
    Int.add_le_add_left (by decide : -(3 * hour) ≤ eightDays) call.now
  have h₁ := unix_mono h₁
  rw [hi, hx, DNSKEY.newRRSIG, ha.incep, ha.expir]
  exact ⟨toNat_ofInt h₀ (by omega), toNat_ofInt (by omega) hr⟩

theorem fits_of_made (ha : Asked dns d call task) (ha' : Asked dns d call' task') (hr : task.rrs = task'.rrs)
    (hm : make dns d task = some sigs) (hs : sig ∈ sigs)
    (hp : sig.inception.toNat ≤ unix call'.now ∧ unix call'.now ≤ sig.expiration.toNat) :
    Fits dns d task'.rrs call'.zone call'.now sig := by
  obtain ⟨k, hk, hd⟩ := mem_make hm hs
  obtain ⟨hk, hx⟩ := mem_signers hk
  obtain ⟨ht, hn, -, -⟩ := dns.sign_some hd
  constructor
  case signer =>
    obtain ⟨rr, hm⟩ := exists_mem_of_ne_nil _ ha.owned
    rw [hn, DNSKEY.newRRSIG, ha.signer, ←ha.zone rr hm, ha'.zone rr (hr ▸ hm)]
  case made => exact ⟨k, hk, ⟨_, hr ▸ hd⟩, hr ▸ hx⟩
  case ttl =>
    intro ttl h
    rw [ht, DNSKEY.newRRSIG]
    exact ha.ttl ttl (hr ▸ h)
  case period => exact hp

structure Source (dns : Signing κ) (d : Config κ) (sets : Set (List RR)) (clock : Time) (key : UInt64)
    (answer : Option (List Rrsig)) (call : Call) (task : Task) : Prop where
  asked : Asked dns d call task
  member : task.rrs ∈ sets
  key : hash dns task.rrs = key
  made : make dns d task = answer
  past : call.now ≤ clock
  epoch : 3 * hour ≤ call.now
  era : unix (call.now + eightDays) < 2 ^ 32

structure Sound (dns : Signing κ) (d : Config κ) (sets : Set (List RR)) (s : Shared) : Prop where
  cache : ∀ key sigs, s.cache key = some sigs → ∃ call task, Source dns d sets s.clock key (some sigs) call task
  inflight : ∀ key flight, s.inflight key = some flight → ∃ call task,
    Source dns d sets s.clock key flight.answer call task ∧ flight.since ≤ call.now + 3 * hour

def Answered (dns : Signing κ) (d : Config κ) (call : Call) (e : Prog.Event Answer) : Prop :=
  ∀ sigs, e.2 = some sigs → ∀ sig ∈ sigs, Fits dns d e.1.rrs call.zone call.now sig

variable {sets : Set (List RR)} {s s' : Shared} {key : UInt64} {answer : Option (List Rrsig)}

theorem Source.mono {clock clock' : Time} (h : Source dns d sets clock key answer call task) (hc : clock ≤ clock') :
    Source dns d sets clock' key answer call task :=
  { h with past := h.past.trans hc }

theorem sound_init (clock : Time) : Sound dns d sets (.init clock) where
  cache _ _ h := by cases h
  inflight _ _ h := by cases h

theorem answered_of_source (hi : sets.InjOn (hash dns))
    (hs : Source dns d sets s.clock (hash dns task'.rrs) answer call task)
    (ha : Asked dns d call' task') (hr : task'.rrs ∈ sets) (hn : s.clock ≤ call'.now + 3 * hour)
    (hp : ∀ sigs, answer = some sigs → ∀ sig ∈ sigs, unix call'.now ≤ sig.expiration.toNat) :
    Answered dns d call' ⟨task', answer⟩ := by
  rintro sigs (rfl : answer = _) sig hm
  obtain ⟨hb, he⟩ := period_of_made hs.asked hs.made hm hs.epoch hs.era
  have hq : task.rrs = task'.rrs := hi hs.member hr hs.key
  refine fits_of_made hs.asked ha hq hs.made hm ⟨?_, hp sigs rfl sig hm⟩
  rw [hb]
  exact unix_mono (sub_le_iff_le_add.mpr (hs.past.trans hn))

theorem expiration_of_validAt (hs : Source dns d sets s.clock key (some sigs) call task) (hm : sig ∈ sigs)
    (hv : dns.validAt sig (s.clock + twoDays)) (he : unix (s.clock + eightDays) < 2 ^ 32) :
    unix s.clock ≤ sig.expiration.toNat := by
  obtain ⟨hi, hx⟩ := period_of_made hs.asked hs.made hm hs.epoch hs.era
  obtain ⟨hb, ha⟩ := dns.validAt_iff.mp hv
  have h₀ : unix s.clock ≤ unix (s.clock + twoDays) := unix_mono (le_add_of_nonneg_right (by decide))
  have h₁ : unix (call.now - 3 * hour) ≤ unix s.clock :=
    unix_mono ((sub_le_self _ (by decide)).trans hs.past)
  have h₂ : unix (s.clock + twoDays) ≤ unix (s.clock + eightDays) :=
    unix_mono (Int.add_le_add_left (by decide) _)
  have h₃ : unix (call.now - 3 * hour) ≤ unix (call.now + eightDays) :=
    unix_mono ((sub_le_self _ (by decide)).trans (le_add_of_nonneg_right (by decide)))
  have ht := @toNat_ofInt (unix (s.clock + twoDays)) (by omega) (by omega)
  -- The times are less than half a circle apart, so that serials compare as numbers.
  generalize ofInt (unix (s.clock + twoDays)) = t at *
  simp only [Serial.Older, ←UInt32.toNat_inj, UInt32.toNat_sub] at hb ha
  omega

theorem expiration_of_source (hs : Source dns d sets s.clock key (some sigs) call task) (hm : sig ∈ sigs)
    (hc : s.clock ≤ call.now + eightDays) : unix s.clock ≤ sig.expiration.toNat := by
  obtain ⟨-, hx⟩ := period_of_made hs.asked hs.made hm hs.epoch hs.era
  rw [hx]
  exact unix_mono hc

theorem get_eq_some_iff : s.get dns key = some sigs ↔
    s.cache key = some sigs ∧ ∀ sig ∈ sigs, dns.validAt sig (s.clock + twoDays) := by
  simp [Shared.get, filter_eq_some_iff]

section Updates

theorem Sound.update_cache (hs : Sound dns d sets s)
    (h : ∀ sigs, entry = some sigs → ∃ call task, Source dns d sets s.clock key (some sigs) call task) :
    Sound dns d sets { s with cache := Function.update s.cache key entry } where
  inflight := hs.inflight
  cache key' sigs := by
    by_cases hk : key' = key
    case pos => subst hk; simpa using h sigs
    case neg => simpa [update_of_ne hk] using hs.cache key' sigs

theorem Sound.update_inflight (hs : Sound dns d sets s)
    (h : ∀ flight, entry = some flight → ∃ call task, Source dns d sets s.clock key flight.answer call task ∧
      flight.since ≤ call.now + 3 * hour) :
    Sound dns d sets { s with inflight := Function.update s.inflight key entry } where
  cache := hs.cache
  inflight key' flight := by
    by_cases hk : key' = key
    case pos => subst hk; simpa using h flight
    case neg => simpa [update_of_ne hk] using hs.inflight key' flight

theorem Sound.tick {t : Time} (hs : Sound dns d sets s) (h : s.clock ≤ t) : Sound dns d sets { s with clock := t } where
  cache key sigs hc := by
    obtain ⟨call, task, hs⟩ := hs.cache key sigs hc
    exact ⟨call, task, hs.mono h⟩
  inflight key flight hf := by
    obtain ⟨call, task, hs, hn⟩ := hs.inflight key flight hf
    exact ⟨call, task, hs.mono h, hn⟩

end Updates

variable {calls : ι → Call} {i : ι}

theorem source_self (ht : Timely dns call task s) (ha : Asked dns d call task) (hr : task.rrs ∈ sets) :
    Source dns d sets s.clock (hash dns task.rrs) (make dns d task) call task where
  asked := ha
  member := hr
  key := rfl
  made := rfl
  past := ht.now.1
  epoch := ht.epoch
  era := (unix_mono (Int.add_le_add_right ht.now.1 _)).trans_lt ht.era

theorem step_sound (hi : sets.InjOn (hash dns)) (hs : Sound dns d sets s) {a : Action ι} (h : Step dns d s a s')
    (hm : Meets dns calls sets s a) (ha : ∀ i e, a = .answer i e → Asked dns d (calls i) e.1) :
    Sound dns d sets s' ∧ ∀ i e, a = .answer i e → Answered dns d (calls i) e := by
  have later {call : Call} {t : Time} (h : call.now ≤ t) : unix call.now ≤ unix t := unix_mono h
  cases h
  case hit h =>
    obtain ⟨hc, hv⟩ := get_eq_some_iff.mp h
    obtain ⟨ht, hr⟩ := hm
    obtain ⟨call, task₀, ho⟩ := hs.cache _ _ hc
    refine ⟨hs, ?_⟩
    rintro _ _ ⟨⟩
    refine answered_of_source hi ho (ha _ _ rfl) hr ht.now.2 ?_
    rintro _ ⟨⟩ sig hx
    exact (later ht.now.1).trans (expiration_of_validAt ho hx (hv sig hx) ht.era)
  case join flight h =>
    obtain ⟨ht, hr⟩ := hm
    obtain ⟨call, task₀, ho, hn⟩ := hs.inflight _ _ h
    refine ⟨hs, ?_⟩
    rintro _ _ ⟨⟩
    refine answered_of_source hi ho (ha _ _ rfl) hr ht.now.2 ?_
    intro sigs he sig hx
    have hc : s.clock ≤ call.now + eightDays := calc
      _ ≤ flight.since + 3 * hour := ht.flight _ h
      _ ≤ call.now + 3 * hour + 3 * hour := Int.add_le_add_right hn _
      _ = call.now + (3 * hour + 3 * hour) := Int.add_assoc ..
      _ ≤ call.now + eightDays := Int.add_le_add_left (by decide) _
    rw [he] at ho
    exact (later ht.now.1).trans (expiration_of_source ho hx hc)
  case lead h =>
    obtain ⟨ht, hr⟩ := hm
    have ho := source_self ht (ha _ _ rfl) hr
    refine ⟨hs.update_inflight ?_, ?_⟩
    case refine_1 =>
      rintro _ ⟨⟩
      exact ⟨_, _, ho, ht.now.2⟩
    case refine_2 =>
      rintro _ _ ⟨⟩
      refine answered_of_source hi ho (ha _ _ rfl) hr ht.now.2 ?_
      intro sigs he sig hx
      rw [he] at ho
      refine (later ht.now.1).trans (expiration_of_source ho hx (ht.now.2.trans ?_))
      exact Int.add_le_add_left (by decide) _
  case store hn h =>
    obtain ⟨call, task, ho, -⟩ := hs.inflight _ _ h
    refine ⟨hs.update_cache ?_, by rintro _ _ ⟨⟩⟩
    rintro _ ⟨⟩
    exact ⟨call, task, ho⟩
  case finish => exact ⟨hs.update_inflight fun _ h => (by cases h), by rintro _ _ ⟨⟩⟩
  case evict => exact ⟨hs.update_cache fun _ h => (by cases h), by rintro _ _ ⟨⟩⟩
  case tick h => exact ⟨hs.tick h, by rintro _ _ ⟨⟩⟩

theorem mem_events [DecidableEq ι] {as : List (Action ι)} {e : Prog.Event Answer} :
    e ∈ events i as ↔ .answer i e ∈ as := by
  rw [events, mem_filterMap]
  constructor
  case mp =>
    rintro ⟨a, ha, he⟩
    cases a
    case answer j e' =>
      obtain ⟨rfl, rfl⟩ : j = i ∧ e' = e := by simpa [Action.event] using he
      exact ha
    all_goals cases he
  case mpr => exact fun h => ⟨_, h, if_pos rfl⟩

-- Calls of which each has got as far as a run says. What they sign belongs to their zones.
structure History [DecidableEq ι] (dns : Signing κ) (d : Config κ) (calls : ι → Call) (as : List (Action ι)) : Prop where
  proper : ∀ i, Proper dns d (calls i)
  parts : ∀ i, ∃ es out, ((calls i).sign dns).Path (events i as ++ es) out

theorem History.asked [DecidableEq ι] {as : List (Action ι)} (h : History dns d calls as) {e : Prog.Event Answer}
    (he : .answer i e ∈ as) : Asked dns d (calls i) e.1 := by
  obtain ⟨es, out, hp⟩ := h.parts i
  obtain ⟨es₁, es₂, hs⟩ := append_of_mem (mem_events.mpr he)
  rw [hs, append_assoc, cons_append] at hp
  exact (sign_meets (h.proper i)).admissible hp

end Runs

-- In a run in which everything that is signed belongs to the zone for which it is signed, and in which signing does
-- not take hours, all signatures fit the replies that they are in.
theorem signed_of_proper [DecidableEq ι] (dns : Signing κ) (d : Config κ) (calls : ι → Call) (sets : Set (List RR))
    (hi : sets.InjOn (hash dns)) {as : List (Action ι)} {clock : Time} {s : Shared}
    (r : Steps (fun s a s' => Step dns d s a s' ∧ Meets dns calls sets s a) (.init clock) as s)
    (h : History dns d calls as) (i : ι) (res : Msg) (hr : ((calls i).sign dns).Path (events i as) (some res)) :
    Signed dns d (calls i) res := by
  have ha : ∀ a ∈ as, ∀ i e, a = .answer i e → Asked dns d (calls i) e.1 := by
    rintro _ hm i e rfl
    exact h.asked hm
  have hf : ∀ a ∈ as, ∀ i e, a = .answer i e → Answered dns d (calls i) e :=
    (r.restrict ha).labels (P := Sound dns d sets) (fun hs h => step_sound hi hs h.1.1 h.1.2 h.2) (sound_init clock)
  intro rr hm ht
  have hk : Known dns (calls i) ([] ++ events i as) rr := (sign_meets (h.proper i)).result hr res rfl rr hm
  obtain hk | ⟨e, he, sigs, hs, sig, hg, rfl⟩ := hk ht
  case inl => exact .inl hk
  case inr =>
    have he := mem_events.mp he
    exact .inr ⟨e.1.rrs, sig, (h.asked he).set, rfl, hf _ he i e rfl sigs hs sig hg⟩

section Sample

def www : RR where
  name := "www.org.".toList
  ttl := 300
  data := .mx 10 ['.']

def nested : Config Str where
  zones := [['.'], "org.".toList]
  keys := [⟨257, 13, 1, "key".toList⟩]
  splitkeys := false

def start : Time := 10 * hour

def replies (i : Bool) : Call :=
  let req : Msg := cond i { question := [⟨www.name, .mx, Msg.classINET⟩], answer := [www] }
    { question := [⟨['.'], .ns, Msg.classINET⟩], extra := [www] }
  { req, zone := cond i "org.".toList ['.'], now := start, clock := start }

def tasks (i : Bool) : Task :=
  (replies i).task [www] 300

def sigs (i : Bool) : List Rrsig :=
  (make .reference nested (tasks i)).getD []

theorem make_tasks (i : Bool) : make .reference nested (tasks i) = some (sigs i) := by
  revert i
  decide +kernel

def constant (sigs : List Rrsig) (_ : Unit) (task : Task) : Answer task × Unit :=
  (some sigs, ())

theorem path_constant {p : Prog Answer α} {es : List (Prog.Event Answer)} {out : α} (sigs : List Rrsig)
    (he : (p.serve (constant sigs) ()).events = es) (ho : (p.serve (constant sigs) ()).result = out) : p.Path es out :=
  he ▸ ho ▸ Prog.serve_path

def signedWith (i : Bool) : Msg :=
  { (replies true).req with answer := www :: (sigs i).map (·.rr .reference) }

theorem path_signedWith (i : Bool) :
    ((replies true).sign .reference).Path [⟨tasks true, some (sigs i)⟩] (some (signedWith i)) := by
  refine path_constant (sigs i) ?_ ?_
  all_goals
    revert i
    decide +kernel

theorem proper_reply : Proper .reference nested (replies true) :=
  ⟨by decide +kernel, by decide +kernel, by decide +kernel⟩

-- The second call finds what the first one has signed. Both are for the lower zone if the first one is.
def history (i : Bool) : List (Action Bool) :=
  [.answer false ⟨tasks i, some (sigs i)⟩, .store (hash .reference [www]), .finish (hash .reference [www]),
    .answer true ⟨tasks true, some (sigs i)⟩]

theorem timely (i : Bool) {task : Task} {s : Shared} (hc : s.clock = start)
    (hi : s.inflight (hash .reference task.rrs) = none) : Timely .reference (replies i) task s where
  now := hc ▸ (by decide : start ≤ start ∧ start ≤ start + 3 * hour)
  flight _ h := by cases hi.symm.trans h
  epoch := (by decide : 3 * hour ≤ start)
  era := hc ▸ (by decide : unix (start + eightDays) < 2 ^ 32)

theorem sigs_valid : ∀ i, sigs i ≠ [] ∧ ∀ sig ∈ sigs i, Signing.reference.validAt sig (start + twoDays) := by
  decide +kernel

theorem steps_history (i : Bool) : ∃ s,
    Steps (fun s a s' => Step .reference nested s a s' ∧ Meets .reference (fun j => replies (i || j)) {[www]} s a)
      (.init start) (history i) s := by
  let key := hash .reference [www]
  let flight : Flight := ⟨some (sigs i), start⟩
  let s₁ : Shared := { Shared.init start with inflight := Function.update (Shared.init start).inflight key (some flight) }
  let s₂ : Shared := { s₁ with cache := Function.update s₁.cache key (some (sigs i)) }
  let s₃ : Shared := { s₂ with inflight := Function.update s₂.inflight key none }
  have h₁ : Step .reference nested (.init start) (.answer false ⟨tasks i, make .reference nested (tasks i)⟩) _ := .lead rfl
  rw [make_tasks] at h₁
  have hf : s₁.inflight key = some flight := by simp only [s₁, update_self]
  have h₂ : Step .reference nested s₁ (.store key : Action Bool) s₂ := .store hf (sigs_valid i).1
  have hc : s₃.cache key = some (sigs i) := by simp only [s₃, s₂, update_self]
  have h₄ : Step .reference nested s₃ (.answer true ⟨tasks true, some (sigs i)⟩) s₃ :=
    .hit (get_eq_some_iff.mpr ⟨hc, (sigs_valid i).2⟩)
  have hn : s₃.inflight key = none := by simp only [s₃, update_self]
  exact ⟨s₃, .trans ⟨h₁, timely _ rfl rfl, rfl⟩ <| .trans ⟨h₂, trivial⟩ <|
    .trans ⟨.finish, trivial⟩ <| .single ⟨h₄, timely _ rfl hn, rfl⟩⟩

theorem signed_reply : Signed .reference nested (replies true) (signedWith true) := by
  obtain ⟨s, r⟩ := steps_history true
  have hp (i : Bool) : ((replies true).sign .reference).Path (events i (history true) ++ []) (some (signedWith true)) := by
    cases i <;> exact path_signedWith true
  exact signed_of_proper .reference nested (fun _ => replies true) {[www]} (Set.injOn_singleton ..) r
    ⟨fun _ => proper_reply, fun i => ⟨[], _, hp i⟩⟩ true _ (path_signedWith true)

theorem path_upper : ∃ out, ((replies false).sign .reference).Path (events false (history false)) out := by
  refine ⟨_, path_constant (sigs false) ?_ rfl⟩
  decide +kernel

-- The signature of the upper zone is in a reply for the lower one.
theorem not_signed_nested :
    (∀ i, (replies i).zone = zoneOf .reference nested ((replies i).req.name Library.reference)) ∧
    (∃ s, Steps (Step .reference nested) (.init start) (history false) s) ∧
    (∃ out, ((replies false).sign .reference).Path (events false (history false)) out) ∧
    ((replies true).sign .reference).Path (events true (history false)) (some (signedWith false)) ∧
    ¬Signed .reference nested (replies true) (signedWith false) := by
  obtain ⟨s, r⟩ := steps_history false
  refine ⟨by decide +kernel, ⟨s, r.mono And.left⟩, path_upper, path_signedWith false, fun h => ?_⟩
  have hm : ∃ rr ∈ (signedWith false).records, rr.rrtype = .rrsig ∧ rr ∉ (replies true).req.records ∧
      rr.data = .rrsig .mx ". key".toList := by
    decide +kernel
  obtain ⟨rr, hm, ht, hn, hd⟩ := hm
  obtain ⟨rrs, sig, -, rfl, hf⟩ := (h rr hm ht).resolve_left hn
  obtain ⟨-, hr⟩ := RData.rrsig.inj hd
  have hr : sig.signerName ++ [' '] ++ sig.signature = ". key".toList := hr
  rw [hf.signer] at hr
  exact absurd (congrArg List.head? hr) (by simp [replies])

end Sample

end Dnssec
