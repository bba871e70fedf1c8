import HanzoDNS.Request

open List Option

namespace Dns

-- The functions of the DNS library on OPT records, and what its documentation says about them.
structure Edns extends Library where
  -- The position of the OPT record in the additional section.
  isEdns0 : Msg → Option Nat
  isEdns0_some : isEdns0 m = some i → ∃ rr udpSize options, m.extra[i]? = some rr ∧ rr.data = .opt udpSize options
  isEdns0_none : isEdns0 m = none → ∀ rr ∈ m.extra, rr.rrtype ≠ .opt
  -- A message with one more OPT record, for a buffer of 4096 bytes and without the DO bit.
  setEdns0 : Msg → Msg
  setEdns0_eq : ∀ m, ∃ rr udpSize options, rr.data = .opt udpSize options ∧
    setEdns0 m = { m with extra := m.extra ++ [rr] }
  setDo : RR → RR
  setDo_data : ∀ rr, (setDo rr).data = rr.data
  setReply_question : m.question = [q] → (setReply m).question = [q]
  setReply_records : ∀ m, (setReply m).records = []

namespace Edns

variable (dns : Edns)

def setOptions (options : List EDNS0) (m : Msg) : Msg :=
  match dns.isEdns0 m with
  | some i => { m with extra := m.extra.modify i fun rr => { rr with data := rr.data.setOptions options } }
  | none => m

def options (m : Msg) : List EDNS0 :=
  match (dns.isEdns0 m).bind (m.extra[·]?) with
  | some { data := .opt _ options, .. } => options
  | _ => []

def udpSize (m : Msg) : UInt16 :=
  (((dns.isEdns0 m).bind (m.extra[·]?)).map (·.data.udpSize)).getD 0

def codes : List UInt16 :=
  [EDNS0.codeNSID, 9, 10, 11, 12]

def supportedOptions (registered : UInt16 → Bool) (options : List EDNS0) : List EDNS0 :=
  options.filter fun o => o.option ∈ codes ∨ registered o.option

-- The TTL of an OPT record consists of the upper bits of a code, the version, the DO bit and other flags.
def setVersion (version : UInt8) (rr : RR) : RR :=
  { rr with ttl := (rr.ttl &&& (0xff00ffff : UInt32)) ||| (version.toUInt32 <<< (16 : UInt32)) }

def clearFlags (rr : RR) : RR :=
  let rr := setVersion 0 rr
  { rr with name := ['.'], ttl := rr.ttl &&& 0xff00 }

-- A reply with an OPT record if the request has one. The record of the request itself is used for it, unless
-- the reply has its own.
def sizeAndDo (registered : UInt16 → Bool) (r m : Msg) : Msg × Msg :=
  match dns.isEdns0 r with
  | none => (r, m)
  | some i =>
    match dns.isEdns0 m with
    | some j =>
      let opt (rr : RR) :=
        let rr := clearFlags { rr with data := rr.data.setUDPSize (dns.udpSize r) }
        if dns.isDo r then dns.setDo rr else rr
      (r, { m with extra := m.extra.modify j opt })
    | none =>
      let opt (rr : RR) :=
        clearFlags { rr with data := rr.data.setOptions (supportedOptions registered (dns.options r)) }
      let r := { r with extra := r.extra.modify i opt }
      (r, { m with extra := m.extra ++ r.extra[i]?.toList })

end Edns

def Msg.HasOpt (m : Msg) : Prop :=
  ∃ rr ∈ m.extra, rr.rrtype = .opt

theorem RData.exists_opt {data : RData} (h : data.rrtype = .opt) : ∃ udpSize options, data = opt udpSize options := by
  cases data
  case opt => exact ⟨_, _, rfl⟩
  case other untyped =>
    obtain rfl : _ = RRType.opt := h
    exact absurd (by decide) untyped
  all_goals
    simp only [rrtype] at h
    exact absurd h (by decide)

-- The last OPT record counts.
def Edns.reference : Edns where
  toLibrary := .reference
  isEdns0 m := (m.extra.reverse.findIdx? (·.rrtype = .opt)).map (m.extra.length - 1 - ·)
  isEdns0_some h := by
    obtain ⟨j, hj, rfl⟩ := map_eq_some_iff.mp h
    obtain ⟨hl, ho, -⟩ := findIdx?_eq_some_iff_getElem.mp hj
    rw [getElem_reverse] at ho
    obtain ⟨udpSize, options, ho⟩ := RData.exists_opt (of_decide_eq_true ho)
    exact ⟨_, udpSize, options, getElem?_eq_getElem _, ho⟩
  isEdns0_none h := by
    intro rr hm ho
    have hn := findIdx?_eq_none_iff.mp (map_eq_none_iff.mp h) rr (mem_reverse.mpr hm)
    exact absurd ho (of_decide_eq_false hn)
  setEdns0 m := { m with extra := m.extra ++ [{ name := ['.'], ttl := 0, data := .opt 4096 [] }] }
  setEdns0_eq m := ⟨_, 4096, [], rfl, rfl⟩
  setDo rr := { rr with ttl := rr.ttl ||| 0x8000 }
  setDo_data _ := rfl
  setReply_question := id
  setReply_records _ := rfl

namespace Edns

variable {dns : Edns} {r m : Msg} {registered : UInt16 → Bool}

theorem isEdns0_ne_none_iff : dns.isEdns0 m ≠ none ↔ m.HasOpt := by
  constructor
  case mp =>
    intro h
    obtain ⟨i, hi⟩ := ne_none_iff_exists'.mp h
    obtain ⟨rr, udpSize, options, hr, ho⟩ := dns.isEdns0_some hi
    exact ⟨rr, mem_of_getElem? hr, by rw [RR.rrtype, ho]; rfl⟩
  case mpr =>
    rintro ⟨rr, hm, hr⟩ hn
    exact dns.isEdns0_none hn rr hm hr

theorem sizeAndDo_question : (dns.sizeAndDo registered r m).1.question = r.question ∧
    (dns.sizeAndDo registered r m).2.question = m.question := by
  rw [sizeAndDo]
  repeat' split
  all_goals exact ⟨rfl, rfl⟩

theorem sizeAndDo_eq_of_not_hasOpt (h : ¬r.HasOpt) : (dns.sizeAndDo registered r m).2 = m := by
  have hn : dns.isEdns0 r = none := by_contra fun hn => h (isEdns0_ne_none_iff.mp hn)
  rw [sizeAndDo, hn]

theorem rrtype_modify {i : Nat} {f : RR → RR} (h : dns.isEdns0 m = some i)
    (hf : ∀ rr : RR, rr.rrtype = .opt → (f rr).rrtype = .opt) :
    (m.extra.modify i f).map RR.rrtype = m.extra.map RR.rrtype := by
  obtain ⟨rr, udpSize, options, hr, ho⟩ := dns.isEdns0_some h
  have ht : rr.rrtype = .opt := by rw [RR.rrtype, ho]; rfl
  refine ext_getElem? fun j => ?_
  rw [getElem?_map, getElem?_map, getElem?_modify]
  by_cases hj : i = j
  case neg => simp [hj]
  case pos => simp [←hj, hr, ht, hf]

-- Records other than OPT records are neither added nor removed, and the reply has an OPT record if the request
-- has one.
theorem sizeAndDo_rrtype : (dns.sizeAndDo registered r m).1.extra.map RR.rrtype = r.extra.map RR.rrtype ∧
    ((dns.sizeAndDo registered r m).2.extra.map RR.rrtype = m.extra.map RR.rrtype ∧ (r.HasOpt → m.HasOpt) ∨
      (dns.sizeAndDo registered r m).2.extra.map RR.rrtype = m.extra.map RR.rrtype ++ [.opt]) := by
  rw [sizeAndDo]
  split
  case h_1 hn => exact ⟨rfl, .inl ⟨rfl, fun h => absurd hn (isEdns0_ne_none_iff.mpr h)⟩⟩
  case h_2 i hi =>
    split
    case h_1 j hj =>
      have hm : m.HasOpt := isEdns0_ne_none_iff.mp (ne_none_iff_exists'.mpr ⟨j, hj⟩)
      refine ⟨rfl, .inl ⟨rrtype_modify hj fun rr hr => ?_, fun _ => hm⟩⟩
      have hc : (clearFlags { rr with data := rr.data.setUDPSize (dns.udpSize r) }).rrtype = .opt :=
        (RData.rrtype_setUDPSize _).trans hr
      dsimp only
      split
      case isTrue => rwa [RR.rrtype, dns.setDo_data]
      case isFalse => exact hc
    case h_2 =>
      obtain ⟨rr, udpSize, options, hr, ho⟩ := dns.isEdns0_some hi
      have hc {rr : RR} (hr : rr.rrtype = .opt) :
          (clearFlags { rr with data := rr.data.setOptions (supportedOptions registered (dns.options r)) }).rrtype = .opt :=
        (RData.rrtype_setOptions _).trans hr
      refine ⟨rrtype_modify hi fun _ hr => hc hr, .inr ?_⟩
      simp only [getElem?_modify, hr, map_append]
      simpa using hc (congrArg RData.rrtype ho)

theorem hasOpt_iff : m.HasOpt ↔ RRType.opt ∈ m.extra.map RR.rrtype :=
  mem_map.symm

theorem sizeAndDo_hasOpt (h : r.HasOpt) : (dns.sizeAndDo registered r m).2.HasOpt := by
  obtain ⟨-, ⟨ht, hm⟩ | ht⟩ := @sizeAndDo_rrtype dns r m registered
  case inl => exact hasOpt_iff.mpr (ht ▸ hasOpt_iff.mp (hm h))
  case inr => exact hasOpt_iff.mpr (by simp [ht])

end Edns
end Dns
