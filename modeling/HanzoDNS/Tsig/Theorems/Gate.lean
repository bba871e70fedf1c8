import HanzoDNS.Tsig.Basic

open Dns Strings List

namespace Tsig

open Msg Plugin.Zones TSIGServer

section

variable (env : Env) (raw : List UInt8) (r : Msg)

def Verified : Prop :=
  ∃ name tsig secret, env.dns.isTsig r = some (name, tsig) ∧ env.tsigSecret name = some secret ∧
    env.dns.tsigVerify raw secret = none

def Unsigned (m : Msg) : Prop :=
  ∀ rr ∈ m.extra, rr.rrtype ≠ .tsig

-- A reply has an OPT record if the request has one. If the request has a TSIG record, then the reply ends with
-- one for the same key and algorithm, and has no other.
structure WellFormed (m : Msg) : Prop where
  opt : r.HasOpt → m.HasOpt
  tsig : ∀ name tsig, env.dns.isTsig r = some (name, tsig) → ∃ extra ttl tsig',
    m.extra = extra ++ [⟨name, ttl, .tsig tsig'⟩] ∧ tsig'.algorithm = tsig.algorithm ∧ ∀ rr ∈ extra, rr.rrtype ≠ .tsig

-- The next plugin runs for the right requests only, and sees them without their TSIG record. The replies to
-- requests that have such a record, or need one, are well-formed.
structure Sound (t : TSIGServer) (next : Handler) : Prop where
  gate : ((t.serveDNS env next raw r).seen ≠ none) ↔
    Verified env raw r ∨ env.dns.isTsig r = none ∧ ¬t.tsigRequired r.qtype r.opcode
  seen : ∀ r', (t.serveDNS env next raw r).seen = some r' →
    (env.dns.isTsig r = none → r' = r) ∧
    (env.dns.isTsig r ≠ none → ∃ rr, rr.rrtype = .tsig ∧ r = { r' with extra := r'.extra ++ [rr] })
  replies : env.dns.isTsig r ≠ none ∨ t.tsigRequired r.qtype r.opcode →
    ∀ w ∈ (t.serveDNS env next raw r).written, Unsigned w.given → WellFormed env r w.sent

-- The only OPT record of a request is its last additional record.
def EndsWithOpt : Prop :=
  ∃ extra rr, r.extra = extra ++ [rr] ∧ rr.rrtype = .opt ∧ ∀ rr ∈ extra, rr.rrtype ≠ .opt

end

variable {env : Env} {raw : List UInt8} {t : TSIGServer} {next : Handler} {r req m : Msg}
variable {name : Str} {tsig tsig' : Dns.Tsig} {reqTSIG : Option (Str × Dns.Tsig)}

theorem strip_extra (r : Msg) : (strip r).extra = r.extra.dropLast := by
  rw [strip]
  split
  case isTrue => rfl
  case isFalse h =>
    have hl : r.extra.dropLast.length = 0 := by
      rw [length_dropLast]
      omega
    exact (eq_nil_of_length_eq_zero hl).symm

theorem exists_tsig (h : env.dns.isTsig r = some (name, tsig)) :
    ∃ extra rr, r.extra = extra ++ [rr] ∧ rr.rrtype = .tsig ∧ (strip r).extra = extra := by
  obtain ⟨ttl, hl⟩ := env.dns.isTsig_some h
  obtain ⟨extra, he⟩ := getLast?_eq_some_iff.mp hl
  exact ⟨extra, _, he, rfl, by simp [strip_extra, he]⟩

theorem strip_hasOpt (h : env.dns.isTsig r = some (name, tsig)) (ho : r.HasOpt) : (strip r).HasOpt := by
  obtain ⟨extra, rr, he, ht, hs⟩ := exists_tsig h
  obtain ⟨opt, hm, ho⟩ := ho
  rw [he, mem_append, mem_singleton] at hm
  obtain hm | rfl := hm
  case inl => exact ⟨opt, hs ▸ hm, ho⟩
  case inr => exact absurd (ho.symm.trans ht) (by decide)

theorem endsWithOpt_iff : EndsWithOpt r ↔ r.HasOpt ∧ ¬(strip r).HasOpt := by
  constructor
  case mp =>
    rintro ⟨extra, rr, he, ho, hn⟩
    refine ⟨⟨rr, by simp [he], ho⟩, fun ⟨rr', hm, ho'⟩ => hn rr' ?_ ho'⟩
    simpa [strip_extra, he] using hm
  case mpr =>
    rintro ⟨⟨rr, hm, ho⟩, hn⟩
    obtain he | ⟨extra, last, he⟩ := eq_nil_or_concat r.extra
    case inl => simp [he] at hm
    case inr =>
      rw [concat_eq_append] at he
      have hn : ∀ rr ∈ extra, rr.rrtype ≠ .opt := fun rr hm ho => hn ⟨rr, by simpa [strip_extra, he], ho⟩
      rw [he, mem_append, mem_singleton] at hm
      obtain hm | rfl := hm
      case inl => exact absurd ho (hn rr hm)
      case inr => exact ⟨extra, rr, he, ho, hn⟩

theorem setRcode_extra (r : Msg) (rcode : Nat) : (setRcode env r rcode).extra = [] := by
  have h := env.dns.setReply_records r
  rw [records, append_eq_nil_iff] at h
  exact h.2

theorem isTsig_eq_none (h : Unsigned m) : env.dns.isTsig m = none := by
  by_contra hn
  obtain ⟨⟨name, tsig⟩, hs⟩ := Option.ne_none_iff_exists'.mp hn
  obtain ⟨ttl, hl⟩ := env.dns.isTsig_some hs
  exact h _ (mem_of_getLast? hl) rfl

section Write

theorem sizeAndDo_unsigned {registered : UInt16 → Bool} (h : Unsigned m) :
    Unsigned (env.dns.sizeAndDo registered req m).2 := by
  have hn : RRType.tsig ∉ m.extra.map RR.rrtype := fun hm => by
    obtain ⟨rr, hm, ht⟩ := mem_map.mp hm
    exact h rr hm ht
  intro rr hm ht
  have hm : RRType.tsig ∈ (env.dns.sizeAndDo registered req m).2.extra.map RR.rrtype := mem_map.mpr ⟨rr, hm, ht⟩
  obtain ⟨-, ⟨he, -⟩ | he⟩ := @Edns.sizeAndDo_rrtype env.dns.toEdns req m registered
  case inl => exact hn (he ▸ hm)
  case inr =>
    rw [he, mem_append] at hm
    exact hn (hm.resolve_right (by decide))

theorem writeMsg_request_hasOpt (h : req.HasOpt) : (writeMsg env reqTSIG req m).1.HasOpt := by
  rw [writeMsg, Edns.hasOpt_iff, Edns.sizeAndDo_rrtype.1]
  exact Edns.hasOpt_iff.mp h

theorem writeMsg_hasOpt (h : req.HasOpt) : (writeMsg env reqTSIG req m).2.HasOpt := by
  obtain ⟨rr, hm, ho⟩ : (env.dns.sizeAndDo env.registered req m).2.HasOpt := Edns.sizeAndDo_hasOpt h
  change (restore env reqTSIG _).HasOpt
  rw [restore.eq_def]
  split
  case h_1 => exact ⟨rr, mem_append_left _ hm, ho⟩
  case h_2 => exact ⟨rr, hm, ho⟩

-- A record for the key of the request is put behind the others.
theorem writeMsg_extra (h : Unsigned m) :
    let m' := (env.dns.sizeAndDo env.registered req m).2
    (writeMsg env (some (name, tsig)) req m).2.extra = m'.extra ++ [repTSIG env m' name tsig] := by
  have hn : env.dns.isTsig (env.dns.sizeAndDo env.registered req m).2 = none := isTsig_eq_none (sizeAndDo_unsigned h)
  simp [writeMsg, restore, hn]

theorem repTSIG_eq (env : Env) (m : Msg) (name : Str) (tsig : Dns.Tsig) :
    ∃ tsig', repTSIG env m name tsig = ⟨name, 0, .tsig tsig'⟩ ∧ tsig'.algorithm = tsig.algorithm := by
  rw [repTSIG]
  split
  case isTrue => exact ⟨_, rfl, rfl⟩
  case isFalse => exact ⟨_, rfl, rfl⟩

theorem writeMsg_wellFormed (hr : env.dns.isTsig r = some (name, tsig)) (ha : tsig'.algorithm = tsig.algorithm)
    (ho : r.HasOpt → req.HasOpt) (h : Unsigned m) :
    WellFormed env r (writeMsg env (some (name, tsig')) req m).2 where
  opt h := writeMsg_hasOpt (ho h)
  tsig name' tsig₀ he := by
    obtain ⟨rfl, rfl⟩ : name = name' ∧ tsig = tsig₀ := by simpa [hr] using he
    obtain ⟨rep, hs, hp⟩ := repTSIG_eq env _ name tsig'
    exact ⟨_, 0, rep, by rw [writeMsg_extra h, hs], hp.trans ha, sizeAndDo_unsigned h⟩

theorem writeAll_wellFormed (hr : env.dns.isTsig r = some (name, tsig)) (ho : r.HasOpt → req.HasOpt) (ms : List Msg) :
    (r.HasOpt → (writeAll env (some (name, tsig)) req ms).1.HasOpt) ∧
    ∀ w ∈ (writeAll env (some (name, tsig)) req ms).2, Unsigned w.given → WellFormed env r w.sent := by
  induction ms generalizing req
  case nil => exact ⟨ho, forall_mem_nil _⟩
  case cons m ms hi =>
    obtain ⟨hq, hw⟩ := @hi (writeMsg env (some (name, tsig)) req m).1 fun h => writeMsg_request_hasOpt (ho h)
    refine ⟨hq, forall_mem_cons.mpr ⟨writeMsg_wellFormed hr rfl ho, hw⟩⟩

theorem reply_wellFormed (hr : env.dns.isTsig r = some (name, tsig)) (ho : r.HasOpt → req.HasOpt) (rcode : Nat) :
    ∀ w ∈ reply env (some (name, tsig)) req rcode, Unsigned w.given → WellFormed env r w.sent := by
  rw [reply]
  split
  case isTrue => exact forall_mem_nil _
  case isFalse => exact forall_mem_singleton.mpr (writeMsg_wellFormed hr rfl ho)

end Write

section Serve

variable (hz : Plugin.Zones.matches env.dns.isSubDomain t.zones (r.name env.dns.toLibrary) ≠ [])

theorem tsigStatus_eq_none (h : env.dns.isTsig r = none) : tsigStatus env raw r = none := by
  rw [tsigStatus, h]

theorem verified_iff (h : env.dns.isTsig r = some (name, tsig)) : Verified env raw r ↔ tsigStatus env raw r = none := by
  rw [tsigStatus, h]
  cases hs : env.tsigSecret name
  case none => simp [Verified, h, hs]
  case some secret => simp [Verified, h, hs]

include hz

theorem serveDNS_accepted (h : env.dns.isTsig r = some (name, tsig)) (hs : tsigStatus env raw r = none) :
    Sound env raw r t next := by
  have hw := @writeAll_wellFormed env r (strip r) name tsig h (strip_hasOpt h) (next (strip r)).1
  have hp := @reply_wellFormed env r (writeAll env (some (name, tsig)) (strip r) (next (strip r)).1).1 name tsig h hw.1
    (next (strip r)).2
  have he : t.serveDNS env next raw r = ⟨some (strip r),
      (writeAll env (some (name, tsig)) (strip r) (next (strip r)).1).2 ++
        reply env (some (name, tsig)) (writeAll env (some (name, tsig)) (strip r) (next (strip r)).1).1 (next (strip r)).2,
      some Msg.rcodeSuccess⟩ := by
    simp [serveDNS, if_neg hz, h, hs]
  obtain ⟨extra, rr, hx, ht, hd⟩ := exists_tsig h
  constructor
  case gate => simp [he, (verified_iff h).mpr hs]
  case seen =>
    rintro r' hr
    obtain rfl : strip r = r' := by simpa [he] using hr
    refine ⟨fun hn => absurd hn (by simp [h]), fun _ => ⟨rr, ht, ?_⟩⟩
    rw [hd, ←hx]
    rfl
  case replies =>
    rw [he]
    exact fun _ => forall_mem_append.mpr ⟨hw.2, hp⟩

theorem serveDNS_rejected {failure : Failure} (h : env.dns.isTsig r = some (name, tsig))
    (hs : tsigStatus env raw r = some failure) : Sound env raw r t next := by
  have he : t.serveDNS env next raw r = ⟨none, [⟨setRcode env r rcodeNotAuth,
      (writeMsg env (some (name, { tsig with error := failure.code })) r (setRcode env r rcodeNotAuth)).2⟩],
      some Msg.rcodeSuccess⟩ := by
    simp [serveDNS, if_neg hz, h, hs]
  constructor
  case gate => simp [he, verified_iff h, hs, h]
  case seen => simp [he]
  case replies =>
    rw [he]
    exact fun _ => forall_mem_singleton.mpr <| writeMsg_wellFormed h rfl id

theorem serveDNS_refused (h : env.dns.isTsig r = none) (hr : t.tsigRequired r.qtype r.opcode) :
    Sound env raw r t next ↔ ¬EndsWithOpt r := by
  have hu : Unsigned (setRcode env (strip r) rcodeRefused) := by
    rw [Unsigned, setRcode_extra]
    exact forall_mem_nil _
  have hv : ¬Verified env raw r := fun ⟨name, tsig, _, hs, _⟩ => by simp [h] at hs
  have he : t.serveDNS env next raw r = ⟨none, [⟨setRcode env (strip r) rcodeRefused,
      (env.dns.sizeAndDo env.registered (strip r) (setRcode env (strip r) rcodeRefused)).2⟩],
      some rcodeSuccess⟩ := by
    simp only [serveDNS, if_neg hz, h, tsigStatus_eq_none h, hr, if_true]
    rfl
  rw [endsWithOpt_iff, not_and, not_not]
  constructor
  case mp =>
    intro hp ho
    by_contra hn
    have hw := (hp.replies (.inr hr) _ (by rw [he]; exact mem_singleton_self _) hu).opt ho
    rw [Edns.sizeAndDo_eq_of_not_hasOpt hn] at hw
    obtain ⟨rr, hm, -⟩ := hw
    simp [setRcode_extra] at hm
  case mpr =>
    intro ho
    constructor
    case gate => simp [he, hv, hr]
    case seen => simp [he]
    case replies =>
      rw [he]
      refine fun _ => forall_mem_singleton.mpr fun _ => ⟨fun hr => Edns.sizeAndDo_hasOpt (ho hr), ?_⟩
      simp [h]

theorem serveDNS_passed (h : env.dns.isTsig r = none) (hr : ¬t.tsigRequired r.qtype r.opcode) :
    Sound env raw r t next := by
  have he : t.serveDNS env next raw r = pass next r := by
    simp only [serveDNS, if_neg hz, h, tsigStatus_eq_none h, hr]
    rfl
  constructor
  case gate => simp [he, pass, h, hr]
  case seen => simp [he, pass, h]
  case replies => simp [h, hr]

end Serve

-- A request for which the plugin is responsible, and that lacks the TSIG record that it needs, has its last
-- additional record taken away all the same.
theorem sound_iff (env : Env) (t : TSIGServer) (next : Handler) (raw : List UInt8) (r : Msg) :
    (Plugin.Zones.matches env.dns.isSubDomain t.zones (r.name env.dns.toLibrary) ≠ [] → Sound env raw r t next) ↔
    ¬(Plugin.Zones.matches env.dns.isSubDomain t.zones (r.name env.dns.toLibrary) ≠ [] ∧
      env.dns.isTsig r = none ∧ t.tsigRequired r.qtype r.opcode ∧ EndsWithOpt r) := by
  rw [not_and]
  refine forall_congr' fun hz => ?_
  rcases h : env.dns.isTsig r with _ | ⟨name, tsig⟩
  case none =>
    by_cases hr : t.tsigRequired r.qtype r.opcode
    case pos => simpa [hr] using serveDNS_refused hz h hr
    case neg => simpa [hr] using serveDNS_passed hz h hr
  case some =>
    refine iff_of_true ?_ (by simp)
    cases hs : tsigStatus env raw r
    case none => exact serveDNS_accepted hz h hs
    case some => exact serveDNS_rejected hz h hs

section Refused

def unsigned : Msg where
  question := [⟨"example.", .a, classINET⟩]
  extra := [⟨".", 0, .opt 4096 []⟩]

def bare : Env where
  dns := .reference
  registered _ := false
  tsigSecret _ := none
  now := 0

-- The refusal of a request with an OPT record has none.
theorem not_sound_unsigned :
    Plugin.Zones.matches bare.dns.isSubDomain [['.']] (unsigned.name bare.dns.toLibrary) ≠ [] ∧
    ¬Sound bare [] unsigned ⟨[['.']], [], [], true, false⟩ (fun _ => ([], Msg.rcodeSuccess)) := by
  have hz : Plugin.Zones.matches bare.dns.isSubDomain [['.']] (unsigned.name bare.dns.toLibrary) ≠ [] := by
    decide +kernel
  refine ⟨hz, fun h => (serveDNS_refused hz rfl rfl).mp h ?_⟩
  exact ⟨[], ⟨['.'], 0, .opt 4096 []⟩, rfl, rfl, forall_mem_nil _⟩

end Refused

end Tsig
