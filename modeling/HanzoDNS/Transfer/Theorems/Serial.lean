import HanzoDNS.Lib.Serial
import HanzoDNS.File.Theorems.Transfer
import HanzoDNS.K8sExternal.Transfer
import HanzoDNS.Kubernetes.Theorems.Transfer

open Dns Channel Serial Kubernetes K8sExternal

namespace Transfer

open Config Sample

inductive Source
  | file (range : File.Elem.Range) (z : File.Zone)
  | kubernetes (k : Kubernetes.Config) (order : Order) (c : Cluster) (zone : Str)
  | external (e : External) (env : Env) (order : KeyOrder) (zone : Str)

def serialOf (rr : RR) : Option UInt32 :=
  match rr.data with
  | .soa soa => some soa.serial
  | _ => none

def Wants (current serial : UInt32) : Prop :=
  serial = 0 ∨ Older serial current

namespace Source

variable (lib : Library)

def transfer (serial : UInt32) : Source → Option (List (Op (List RR)))
  | file range z => (z.transfer range serial).toOption.map fun batches => batches.map .send ++ [.close]
  | kubernetes k order c zone => (k.transfer lib order c zone serial).toOption
  | external e env order zone => (e.transfer lib env order zone serial).toOption

def owner (zone : Str) : Str :=
  if zone = ['.'] then [] else zone

def soa : Source → Option RR
  | file _ z => z.apex.soa
  | kubernetes k _ c zone => some (k.zoneSOA lib c zone)
  | external e env _ zone => some (e.soa lib env (owner zone))

def IsContent (records : List RR) : Source → Prop
  | file range z => records = z.body range
  | kubernetes k _ c zone => k.IsContent lib c zone records
  | external e env order zone => records = (e.body lib env order (owner zone)).flatten

def Full (src : Source) (soa : RR) (ops : List (Op (List RR))) : Prop :=
  ∃ batches content, run ops = (batches, .closed) ∧ src.IsContent lib content ∧ batches.flatten = soa :: content ++ [soa]

def Single (soa : RR) (ops : List (Op (List RR))) : Prop :=
  ∃ batches, run ops = (batches, .closed) ∧ batches.flatten = [soa]

-- A client with an older serial gets the zone, and one with the current serial or a newer one only gets the SOA.
structure Honours (src : Source) (soa : RR) (current serial : UInt32) (ops : List (Op (List RR))) : Prop where
  full : serial = 0 ∨ Older serial current → src.Full lib soa ops
  single : serial ≠ 0 ∧ (serial = current ∨ Older current serial) → Single soa ops

-- When a plugin does what it should. Two of them do not know newer serials, one compares them as numbers.
def Agrees (current serial : UInt32) : Source → Prop
  | file .. => ¬(serial ≠ 0 ∧ Older current serial)
  | kubernetes k _ c zone => k.sentSerial lib c = current ∧
    (serial ≠ 0 ∧ serial = current ∨
      (serial = 0 ∨ Older serial current) ∧ (k.nsAddrs c false false zone).length = 1)
  | external .. => serial = 0 ∨ serial = current ∨ (Older serial current ↔ serial < current)

section

variable {lib} {src : Source} {soa : RR} {current serial : UInt32} {ops : List (Op (List RR))}

theorem not_wants_iff (hd : (current - serial).toNat ≠ 2 ^ 31) :
    ¬Wants current serial ↔ serial ≠ 0 ∧ (serial = current ∨ Older current serial) := by
  rw [Wants, not_or]
  refine and_congr_right fun _ => ⟨fun h => ?_, ?_⟩
  · by_cases he : serial = current
    case pos => exact .inl he
    case neg => exact .inr ((older_or_older he hd).resolve_left h)
  · rintro (rfl | h) ho
    · exact ho.ne rfl
    · exact ho.asymm h

theorem honours_iff (hd : (current - serial).toNat ≠ 2 ^ 31) : src.Honours lib soa current serial ops ↔
      (Wants current serial → src.Full lib soa ops) ∧ (¬Wants current serial → Single soa ops) := by
  rw [not_wants_iff hd]
  exact ⟨fun h => ⟨h.full, h.single⟩, fun h => ⟨h.1, h.2⟩⟩

theorem Full.not_single (h : src.Full lib soa ops) : ¬Single soa ops := by
  obtain ⟨batches, content, hr, -, hf⟩ := h
  rintro ⟨batches', hr', hf'⟩
  obtain ⟨rfl, -⟩ := Prod.mk.inj (hr.symm.trans hr')
  simpa [hf] using congrArg List.length hf'

theorem honours_iff_of_full (hd : (current - serial).toNat ≠ 2 ^ 31) (h : src.Full lib soa ops) :
    src.Honours lib soa current serial ops ↔ Wants current serial := by
  rw [honours_iff hd]
  exact ⟨fun hh => not_not.mp fun hn => h.not_single (hh.2 hn), fun hw => ⟨fun _ => h, fun hn => absurd hw hn⟩⟩

theorem honours_iff_of_single (hd : (current - serial).toNat ≠ 2 ^ 31) (h : Single soa ops) :
    src.Honours lib soa current serial ops ↔ ¬Wants current serial := by
  rw [honours_iff hd]
  exact ⟨fun hh hw => (hh.1 hw).not_single h, fun hn => ⟨fun hw => absurd hw hn, fun _ => h⟩⟩

theorem ok_of_toOption {ε α : Type} {x : Except ε α} {a : α} (h : x.toOption = some a) : x = .ok a := by
  cases x
  case error => cases h
  case ok => exact congrArg _ (Option.some.inj h)

theorem single_sends : Single soa [.send [soa], .close] :=
  ⟨[[soa]], rfl, rfl⟩

section File

variable {range : File.Elem.Range} {z : File.Zone}

theorem getSOA_serial (hs : z.apex.soa = some soa) (hc : serialOf soa = some current) :
    z.apex.getSOA.map (·.serial) = some current := by
  obtain ⟨name, ttl, data⟩ := soa
  cases data
  case soa soa => simpa [File.Apex.getSOA, hs, serialOf] using hc
  all_goals cases hc

theorem file_sends (hs : z.apex.soa = some soa) (hc : serialOf soa = some current)
    (ht : (file range z).transfer lib serial = some ops) :
    if serial ≠ 0 ∧ serial = current then Single soa ops else (file range z).Full lib soa ops := by
  obtain ⟨batches, hb, rfl⟩ := Option.map_eq_some_iff.mp ht
  have hg := getSOA_serial hs hc
  have hb := ok_of_toOption hb
  split
  case isTrue h =>
    obtain ⟨hz, rfl⟩ := h
    simp only [File.Zone.transfer, File.Apex.records, hs, bind, Except.bind] at hb
    rw [if_pos ⟨hz, hg⟩] at hb
    obtain rfl := Except.ok.inj hb
    exact single_sends
  case isFalse h =>
    have hn : serial = 0 ∨ z.apex.getSOA.map (·.serial) ≠ some serial := by
      rw [hg, or_iff_not_imp_left]
      exact fun hz he => h ⟨hz, (Option.some.inj he).symm⟩
    have hf := File.Zone.transfer_eq range hs hn
    rw [hb] at hf
    exact ⟨batches, z.body range, run_eq_closed_iff.mpr rfl, rfl, Except.ok.inj hf⟩

theorem file_honours_iff (hs : z.apex.soa = some soa) (hc : serialOf soa = some current)
    (ht : (file range z).transfer lib serial = some ops) (hd : (current - serial).toNat ≠ 2 ^ 31) :
    (file range z).Honours lib soa current serial ops ↔ (file range z).Agrees lib current serial := by
  have hf := file_sends hs hc ht
  rw [Agrees]
  split at hf
  case isTrue h =>
    obtain ⟨hz, rfl⟩ := h
    rw [honours_iff_of_single hd hf, not_wants_iff hd]
    exact iff_of_true ⟨hz, .inl rfl⟩ fun h => h.2.ne rfl
  case isFalse h =>
    rw [honours_iff_of_full hd hf, ←not_not (a := Wants _ _), not_wants_iff hd, and_or_left, or_iff_right h]

end File

section External

variable {e : External} {env : Env} {order : KeyOrder} {zone : Str}

theorem external_sends (hs : (external e env order zone).soa lib = some soa) (hc : serialOf soa = some current)
    (ht : (external e env order zone).transfer lib serial = some ops) :
    if serial ≠ 0 ∧ current ≤ serial then Single soa ops else (external e env order zone).Full lib soa ops := by
  obtain rfl := Option.some.inj hs
  obtain rfl : externalSerial env.cluster = current := Option.some.inj hc
  rw [transfer, External.transfer] at ht
  split at ht
  case isTrue => cases ht
  case isFalse =>
    split
    case isTrue h =>
      rw [if_pos h] at ht
      obtain rfl := Option.some.inj ht
      exact single_sends
    case isFalse h =>
      rw [if_neg h] at ht
      obtain rfl := Option.some.inj ht
      refine ⟨_, _, run_eq_closed_iff.mpr rfl, rfl, ?_⟩
      simp [owner]

theorem external_honours_iff (hs : (external e env order zone).soa lib = some soa) (hc : serialOf soa = some current)
    (ht : (external e env order zone).transfer lib serial = some ops) (hd : (current - serial).toNat ≠ 2 ^ 31) :
    (external e env order zone).Honours lib soa current serial ops ↔
      (external e env order zone).Agrees lib current serial := by
  have hf := external_sends hs hc ht
  rw [Agrees]
  split at hf
  case isTrue h =>
    obtain ⟨hz, hle⟩ := h
    rw [honours_iff_of_single hd hf, Wants, or_iff_right hz, or_iff_right hz, iff_false_right (UInt32.not_lt.mpr hle)]
    exact ⟨.inr, fun h => h.elim (fun he ho => ho.ne he) id⟩
  case isFalse h =>
    rw [honours_iff_of_full hd hf, Wants]
    refine or_congr_right' fun hz => ?_
    have hlt : serial < current := UInt32.not_le.mp fun hle => h ⟨hz, hle⟩
    rw [or_iff_right (UInt32.ne_of_lt hlt), iff_true_right hlt]

end External

section Kubernetes

variable {k : Kubernetes.Config} {order : Order} {c : Cluster} {zone : Str}

theorem not_single_wholeZone : ¬Single (k.zoneSOA lib c zone) (k.wholeZone lib c zone order) := by
  rintro ⟨batches, hr, hb⟩
  have hl := length_of_wholeZone_closed (congrArg Prod.snd hr)
  have hf : (kubernetes k order c zone).Full lib (k.zoneSOA lib c zone) (k.wholeZone lib c zone order) :=
    full_wholeZone_iff.mpr hl
  exact hf.not_single ⟨batches, hr, hb⟩

theorem kubernetes_honours_iff (hs : (kubernetes k order c zone).soa lib = some soa) (hc : serialOf soa = some current)
    (ht : (kubernetes k order c zone).transfer lib serial = some ops) (hd : (current - serial).toNat ≠ 2 ^ 31) :
    (kubernetes k order c zone).Honours lib soa current serial ops ↔
      (kubernetes k order c zone).Agrees lib current serial := by
  obtain rfl := Option.some.inj hs
  obtain rfl : k.zoneSerial lib c zone = current := Option.some.inj hc
  obtain rfl := goroutine_of_transfer (ok_of_toOption ht)
  rw [Agrees]
  by_cases hsent : k.sentSerial lib c = k.zoneSerial lib c zone
  case neg =>
    -- The SOA that is sent is not the one of the zone.
    rw [honours_iff hd]
    refine iff_of_false (fun h => hsent ?_) (hsent ·.1)
    by_cases hw : Wants (k.zoneSerial lib c zone) serial
    case pos => exact sentSerial_eq_of_full (h.1 hw)
    case neg =>
      obtain ⟨batches, hr, hf⟩ := h.2 hw
      exact sentSerial_eq_of_head (congrArg Prod.fst hr) hf
  case pos =>
    rw [and_iff_right hsent]
    by_cases hcur : serial ≠ 0 ∧ serial = k.zoneSerial lib c zone
    case pos =>
      obtain ⟨hz, rfl⟩ := hcur
      rw [goroutine_of_current_serial hsent hz, honours_iff_of_single hd single_sends, not_wants_iff hd]
      exact iff_of_true ⟨hz, .inl rfl⟩ (.inl ⟨hz, rfl⟩)
    case neg =>
      have hn : serial = 0 ∨ serial ≠ k.zoneSerial lib c zone := (not_and_or.mp hcur).imp_left not_not.mp
      rw [or_iff_right hcur, honours_iff hd, goroutine_of_full_serial hsent hn]
      constructor
      case mp =>
        intro h
        have hw : Wants (k.zoneSerial lib c zone) serial := not_not.mp fun hn => not_single_wholeZone (h.2 hn)
        exact ⟨hw, full_wholeZone_iff.mp (h.1 hw)⟩
      case mpr =>
        rintro ⟨hw, hl⟩
        exact ⟨fun _ => full_wholeZone_iff.mpr hl, (absurd hw ·)⟩

end Kubernetes

theorem honours_iff_agrees (hs : src.soa lib = some soa) (hc : serialOf soa = some current)
    (ht : src.transfer lib serial = some ops) (hd : (current - serial).toNat ≠ 2 ^ 31) :
    src.Honours lib soa current serial ops ↔ src.Agrees lib current serial := by
  cases src
  case file => exact file_honours_iff hs hc ht hd
  case kubernetes => exact kubernetes_honours_iff hs hc ht hd
  case external => exact external_honours_iff hs hc ht hd

end

section

open Kubernetes.Sample

theorem honours_older :
    (kubernetes (config [[10, 0, 0, 1]]) .reference cluster "cluster.local.").Honours .reference
      ((config [[10, 0, 0, 1]]).zoneSOA .reference cluster "cluster.local.") 7 3
      ((config [[10, 0, 0, 1]]).goroutine .reference .reference cluster "cluster.local." 3) := by
  have ht : (kubernetes (config [[10, 0, 0, 1]]) .reference cluster "cluster.local.").transfer .reference 3 =
      some ((config [[10, 0, 0, 1]]).goroutine .reference .reference cluster "cluster.local." 3) := by
    rw [transfer, Config.transfer, if_neg]
    · rfl
    · decide +kernel
  refine (honours_iff_agrees rfl rfl ht (by decide)).mpr ⟨rfl, .inr ⟨.inr ?_, ?_⟩⟩
  · decide
  · decide +kernel

end

namespace Sample

def soa : RR where
  name := "example.org."
  ttl := 300
  data := .soa {
    ns := "ns.example.org."
    mbox := "admin.example.org."
    serial := 5
    refresh := 1
    retry := 1
    expire := 1
    minttl := 1
  }

def zone : File.Zone :=
  { File.Zone.new .reference "example.org." with apex := { soa := some soa } }

end Sample

-- A client with a newer serial gets the whole zone.
theorem not_honours_newer :
    (file File.Zone.Carried.range Sample.zone).transfer .reference 9 =
      some [.send [Sample.soa], .send [Sample.soa], .close] ∧
    Older 5 9 ∧ ¬(file File.Zone.Carried.range Sample.zone).Honours .reference Sample.soa 5 9
      [.send [Sample.soa], .send [Sample.soa], .close] := by
  refine ⟨rfl, by decide, fun h => ?_⟩
  obtain ⟨batches, hr, hf⟩ := h.single ⟨by decide, .inr (by decide)⟩
  obtain ⟨rfl, -⟩ := Prod.mk.inj hr
  cases hf

end Source
end Transfer
