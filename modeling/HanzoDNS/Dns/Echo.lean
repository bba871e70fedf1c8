import HanzoDNS.Dns.Edns

open List

namespace Dns

open UInt32 Edns RData

-- The masks for the version, for the DO bit and for the other flags in the TTL of an OPT record.
def versionMask : UInt32 := 0xff0000

def doMask : UInt32 := 0x8000

def flagsMask : UInt32 := 0x7fff

def keptMask : UInt32 := 0x7f00

-- The functions of the DNS library that read and set the DO bit.
structure Edns.Flags (dns : Edns) : Prop where
  isDo_iff : ∀ m i rr, dns.isEdns0 m = some i → m.extra[i]? = some rr → (dns.isDo m ↔ rr.ttl &&& doMask ≠ 0)
  setDo_ttl : ∀ rr, (dns.setDo rr).ttl = rr.ttl ||| doMask
  setDo_name : ∀ rr, (dns.setDo rr).name = rr.name

-- An OPT record that says nothing but what the one of the request says.
structure Echo (o opt : RR) : Prop where
  name : opt.name = ['.']
  version : opt.ttl &&& versionMask = 0
  udpSize : opt.data.udpSize = o.data.udpSize
  isDo : opt.ttl &&& doMask ≠ 0 ↔ o.ttl &&& doMask ≠ 0
  flags : opt.ttl &&& flagsMask = 0

def Msg.opts (m : Msg) : List RR :=
  m.extra.filter (·.rrtype = .opt)

section Masks

variable (t : UInt32)

theorem or_and_distrib (a b c : UInt32) : (a ||| b) &&& c = (a &&& c) ||| (b &&& c) := by
  apply UInt32.toBitVec_inj.mp
  exact BitVec.and_or_distrib_right

theorem ttl_clearFlags (rr : RR) : (Edns.clearFlags rr).ttl = rr.ttl &&& 0xff00 := by
  have hv : (0 : UInt8).toUInt32 <<< (16 : UInt32) = 0 := rfl
  rw [Edns.clearFlags, Edns.setVersion, hv, UInt32.or_zero, UInt32.and_assoc]
  rfl

theorem cleared_and (mask : UInt32) : t &&& 0xff00 &&& mask = t &&& (0xff00 &&& mask) :=
  UInt32.and_assoc ..

end Masks

section Echo

variable {o rr : RR}

-- Clearing the flags leaves the DO bit, and seven others.
theorem echo_clearFlags_iff (hs : rr.data.udpSize = o.data.udpSize) : Echo o (clearFlags rr) ↔
    rr.ttl &&& keptMask = 0 ∧ (rr.ttl &&& doMask ≠ 0 ↔ o.ttl &&& doMask ≠ 0) := by
  have hd : (clearFlags rr).ttl &&& doMask = rr.ttl &&& doMask := by
    rw [ttl_clearFlags, cleared_and]
    rfl
  have hf : (clearFlags rr).ttl &&& flagsMask = rr.ttl &&& keptMask := by
    rw [ttl_clearFlags, cleared_and]
    rfl
  have hv : (clearFlags rr).ttl &&& versionMask = 0 := by
    rw [ttl_clearFlags, cleared_and]
    exact UInt32.and_zero
  constructor
  case mp =>
    intro h
    have ho := h.isDo
    rw [hd] at ho
    exact ⟨hf ▸ h.flags, ho⟩
  case mpr =>
    rintro ⟨hk, ho⟩
    exact ⟨rfl, hv, hs, by rwa [hd], hf.trans hk⟩

theorem echo_setDo_iff {dns : Edns} (l : dns.Flags) (hs : rr.data.udpSize = o.data.udpSize)
    (ho : o.ttl &&& doMask ≠ 0) : Echo o (dns.setDo (clearFlags rr)) ↔ rr.ttl &&& keptMask = 0 := by
  have ht (mask : UInt32) : (dns.setDo (clearFlags rr)).ttl &&& mask =
      (rr.ttl &&& (0xff00 &&& mask)) ||| (doMask &&& mask) := by
    rw [l.setDo_ttl, or_and_distrib, ttl_clearFlags, cleared_and]
  have hd : (dns.setDo (clearFlags rr)).ttl &&& doMask ≠ 0 := by
    intro hz
    have hz : (dns.setDo (clearFlags rr)).ttl &&& doMask &&& doMask = 0 := by
      rw [hz]
      rfl
    rw [ht, or_and_distrib] at hz
    have hm := (or_eq_zero_iff.mp hz).2
    exact absurd hm (by decide)
  have hf : (dns.setDo (clearFlags rr)).ttl &&& flagsMask = rr.ttl &&& keptMask := by
    rw [ht]
    exact UInt32.or_zero
  have hv : (dns.setDo (clearFlags rr)).ttl &&& versionMask = 0 := by
    rw [ht]
    exact UInt32.or_zero.trans UInt32.and_zero
  constructor
  case mp => exact fun h => hf ▸ h.flags
  case mpr =>
    intro hk
    exact ⟨l.setDo_name _, hv, by rwa [dns.setDo_data], iff_of_true hd ho, hf.trans hk⟩

end Echo

section SizeAndDo

variable {dns : Edns} {registered : UInt16 → Bool} {r m : Msg} {o : RR} {i : Nat}

theorem opts_modify {j : Nat} {f : RR → RR} (hj : dns.isEdns0 m = some j) (hm : m.opts.length ≤ 1)
    (hf : ∀ rr : RR, rr.rrtype = .opt → (f rr).rrtype = .opt) :
    ∃ opt udpSize options, opt.data = .opt udpSize options ∧ m.opts = [opt] ∧
      (m.extra.modify j f).filter (·.rrtype = .opt) = [f opt] := by
  obtain ⟨opt, udpSize, options, hr, hd⟩ := dns.isEdns0_some hj
  have ht : opt.rrtype = .opt := congrArg rrtype hd
  obtain ⟨hl, rfl⟩ := List.getElem?_eq_some_iff.mp hr
  refine ⟨_, udpSize, options, hd, ?_⟩
  have hsplit : m.extra = m.extra.take j ++ m.extra[j] :: m.extra.drop (j + 1) := by simp
  have hopts : m.opts = (m.extra.take j).filter (·.rrtype = .opt) ++
      m.extra[j] :: (m.extra.drop (j + 1)).filter (·.rrtype = .opt) := by
    rw [Msg.opts]
    conv_lhs => rw [hsplit]
    rw [filter_append, filter_cons_of_pos (by simpa using ht)]
  rw [hopts, length_append, length_cons] at hm
  have hbefore := eq_nil_of_length_eq_zero (by omega : ((m.extra.take j).filter (·.rrtype = .opt)).length = 0)
  have hafter := eq_nil_of_length_eq_zero (by omega : ((m.extra.drop (j + 1)).filter (·.rrtype = .opt)).length = 0)
  rw [hopts, modify_eq_take_cons_drop hl, filter_append, filter_cons_of_pos (by simpa using hf _ ht),
    hbefore, hafter]
  exact ⟨rfl, rfl⟩

-- A reply has one OPT record, and it is an echo if the flags that are not cleared were not set before.
theorem sizeAndDo_echo_iff (l : dns.Flags) (hi : dns.isEdns0 r = some i) (ho : r.extra[i]? = some o)
    (hm : m.opts.length ≤ 1) : (∃ opt, (dns.sizeAndDo registered r m).2.opts = [opt] ∧ Echo o opt) ↔
      (m.opts = [] → o.ttl &&& keptMask = 0) ∧
      ∀ opt ∈ m.opts, opt.ttl &&& keptMask = 0 ∧ (opt.ttl &&& doMask ≠ 0 → o.ttl &&& doMask ≠ 0) := by
  obtain ⟨o', udpSize, options, ho', hd⟩ := dns.isEdns0_some hi
  obtain rfl := Option.some.inj (ho.symm.trans ho')
  have hdo := l.isDo_iff r i o hi ho
  have hsize : dns.udpSize r = o.data.udpSize := by simp [Edns.udpSize, hi, ho]
  have hex {opt : RR} : (∃ opt', [opt] = [opt'] ∧ Echo o opt') ↔ Echo o opt := by simp
  rw [sizeAndDo, hi]
  dsimp only
  split
  case h_1 j hj =>
    obtain ⟨opt, size, opts, hopt, heq, hmod⟩ := opts_modify hj hm
      (f := fun rr =>
        let rr := clearFlags { rr with data := rr.data.setUDPSize (dns.udpSize r) }
        if dns.isDo r then dns.setDo rr else rr) fun rr hr => by
      dsimp only
      split
      case isTrue => exact (congrArg rrtype (dns.setDo_data _)).trans ((rrtype_setUDPSize _).trans hr)
      case isFalse => exact (rrtype_setUDPSize _).trans hr
    have hs : (opt.data.setUDPSize (dns.udpSize r)).udpSize = o.data.udpSize := by
      rw [hopt, ←hsize]
      rfl
    rw [Msg.opts, hmod, hex, heq]
    simp only [cons_ne_nil, false_imp_iff, true_and, mem_singleton, forall_eq]
    split
    case isTrue h =>
      rw [echo_setDo_iff l hs (hdo.mp h)]
      exact ⟨fun hk => ⟨hk, fun _ => hdo.mp h⟩, And.left⟩
    case isFalse h =>
      rw [echo_clearFlags_iff hs]
      have hn : ¬(o.ttl &&& doMask ≠ 0) := fun hn => h (hdo.mpr hn)
      exact and_congr_right fun _ => ⟨Iff.mp, fun hi => ⟨hi, fun h => absurd h hn⟩⟩
  case h_2 hn =>
    have hopts : m.opts = [] := by
      refine filter_eq_nil_iff.mpr fun rr hr ht => ?_
      exact dns.isEdns0_none hn rr hr (by simpa using ht)
    generalize supportedOptions registered (dns.options r) = supported
    have hlist : ((r.extra.modify i fun rr => clearFlags { rr with data := rr.data.setOptions supported })[i]?).toList =
        [clearFlags { o with data := o.data.setOptions supported }] := by
      simp [ho]
    have ht : (clearFlags { o with data := o.data.setOptions supported }).rrtype = .opt :=
      (rrtype_setOptions _).trans (congrArg rrtype hd)
    have hs : (o.data.setOptions supported).udpSize = o.data.udpSize := by
      rw [hd]
      rfl
    rw [Msg.opts, hlist, filter_append, ←Msg.opts, hopts, nil_append, filter_cons_of_pos (by simpa using ht),
      filter_nil, hex, echo_clearFlags_iff hs]
    simp

end SizeAndDo

theorem Edns.Flags.reference : reference.Flags where
  isDo_iff m i rr hi hr := by
    have hlast : m.opts.getLast? = some rr := by
      obtain ⟨j, hj, rfl⟩ := Option.map_eq_some_iff.mp hi
      obtain ⟨hl, -⟩ := findIdx?_eq_some_iff_getElem.mp hj
      rw [Msg.opts, getLast?_eq_head?_reverse, ←filter_reverse, head?_filter, find?_eq_bind_findIdx?_getElem?,
        hj, Option.bind_some, getElem?_reverse (by simpa using hl)]
      exact hr
    have hdo : Edns.reference.isDo m = m.opts.getLast?.any (·.ttl &&& 0x8000 ≠ 0) := rfl
    rw [hdo, hlast]
    simp [doMask]
  setDo_ttl _ := rfl
  setDo_name _ := rfl

namespace Sample

def message (ttl : UInt32) (udpSize : UInt16) : Msg where
  extra := [⟨['.'], ttl, .opt udpSize []⟩]

end Sample

open Sample

theorem sizeAndDo_echo_sample : ∃ opt, (reference.sizeAndDo (fun _ => false) (message 0x18000 1232) {}).2.opts = [opt] ∧
    Echo ⟨['.'], 0x18000, .opt 1232 []⟩ opt := by
  refine (sizeAndDo_echo_iff .reference (i := 0) rfl rfl (Nat.zero_le _)).mpr ⟨fun _ => by decide, ?_⟩
  exact forall_mem_nil _

-- The DO bit of a reply stays although the request does not have it, and so does a flag of the request.
theorem not_echo_sample :
    (reference.sizeAndDo (fun _ => false) (message 0 1232) (message 0x8000 4096)).2 = message 0x8000 1232 ∧
    ¬Echo ⟨['.'], 0, .opt 1232 []⟩ ⟨['.'], 0x8000, .opt 1232 []⟩ ∧
    (reference.sizeAndDo (fun _ => false) (message 0x100 1232) {}).2 = message 0x100 1232 ∧
    ¬Echo ⟨['.'], 0x100, .opt 1232 []⟩ ⟨['.'], 0x100, .opt 1232 []⟩ := by
  refine ⟨by decide, fun h => ?_, by decide, fun h => ?_⟩
  · exact h.isDo.mp (by decide) (by decide)
  · exact absurd h.flags (by decide)

end Dns
