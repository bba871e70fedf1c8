import HanzoDNS.Proxyproto.Basic

open Dns

namespace Proxyproto

open PacketConn

variable (lib : Library σ) (c : PacketConn)

-- The datagrams that are dropped for a reason that is worth a warning.
inductive Dropped (d : Datagram) : Prop
  | policy (h : c.policy d = .error err)
  | malformed (h : c.policy d = .ok p) (skip : p ≠ .skip) (parse : parseProxyProtocol lib d.packet = .error reason)
  | invalid (h : c.policy d = .ok p) (skip : p ≠ .skip)
              (parse : parseProxyProtocol lib d.packet = .ok (header, payload))
              (validate : c.validate d.time header = some err)
  | rejected (h : c.policy d = .ok .reject) (parse : parseProxyProtocol lib d.packet = .ok (some header, payload))
  | missing (h : c.policy d = .ok .require) (parse : parseProxyProtocol lib d.packet = .ok (none, payload))

def accepted : List Datagram → Option σ → List (List UInt8 × Remote)
  | [], _ => []
  | d :: ds, sessionCache =>
    match c.readFrom lib d sessionCache with
    | (.ok out, sessionCache) => out :: accepted ds sessionCache
    | (.error _, sessionCache) => accepted ds sessionCache

variable {lib c} {d : Datagram} {ds : List Datagram} {s : Option σ}

theorem parseProxyProtocol_ne_headerOnly {packet : List UInt8} :
    parseProxyProtocol lib packet ≠ .error .headerOnly := by
  intro h
  rw [parseProxyProtocol] at h
  split at h
  case h_1 => cases h
  case h_2 => cases h
  case h_3 =>
    dsimp only at h
    split_ifs at h
    all_goals cases h

theorem use_error {header : Option Header} {payload : List UInt8} {reason : Reason}
    (h : (c.use lib d header payload s).1 = .error reason) : reason = .headerOnly := by
  cases header
  all_goals
    simp only [use] at h
    repeat' split at h
    all_goals cases h
  rfl

theorem readFrom_error {reason : Reason} (h : (c.readFrom lib d s).1 = .error reason) :
    reason = .headerOnly ∨ Dropped lib c d := by
  cases hp : c.policy d
  case error => exact .inr (.policy hp)
  case ok p =>
    by_cases hs : p = .skip
    case pos => simp [readFrom, hp, hs] at h
    case neg =>
      cases ha : parseProxyProtocol lib d.packet
      case error => exact .inr (.malformed hp hs ha)
      case ok r =>
        obtain ⟨header, payload⟩ := r
        cases hv : c.validate d.time header
        case some => exact .inr (.invalid hp hs ha hv)
        case none =>
          simp only [readFrom, hp, ha, hv] at h
          cases p
          case skip => contradiction
          case ignore => cases h
          case use => exact .inl (use_error h)
          case reject =>
            cases header
            case none => cases h
            case some => exact .inr (.rejected hp ha)
          case require =>
            cases header
            case none => exact .inr (.missing hp ha)
            case some => exact .inl (use_error h)

theorem Dropped.readFrom (h : Dropped lib c d) :
    ∃ reason, reason ≠ .headerOnly ∧ c.readFrom lib d s = (.error reason, s) := by
  cases h
  case policy err hp => exact ⟨.policy err, by simp, by simp [PacketConn.readFrom, hp]⟩
  case malformed p reason hp hs ha =>
    refine ⟨reason, ?_, ?_⟩
    · rintro rfl
      exact parseProxyProtocol_ne_headerOnly ha
    · cases p
      case skip => contradiction
      all_goals simp [PacketConn.readFrom, hp, ha]
  case invalid p header payload err hp hs ha hv =>
    refine ⟨.invalid err, by simp, ?_⟩
    cases p
    case skip => contradiction
    all_goals simp [PacketConn.readFrom, hp, ha, hv]
  case rejected header payload hp ha =>
    cases hv : c.validate d.time (some header)
    case none => exact ⟨.rejected, by simp, by simp [PacketConn.readFrom, hp, ha, hv]⟩
    case some err => exact ⟨.invalid err, by simp, by simp [PacketConn.readFrom, hp, ha, hv]⟩
  case missing payload hp ha =>
    have hv : c.validate d.time none = none := by simp [PacketConn.validate]
    exact ⟨.missing, by simp, by simp [PacketConn.readFrom, hp, ha, hv]⟩

section Calls

variable {n : Nat} {s' : Option σ}

theorem calls_headerOnly (h : c.readFrom lib d s = (.error .headerOnly, s')) :
    c.calls lib (n + 1) (d :: ds) s = c.calls lib (n + 1) ds s' := by
  simp [calls, PacketConn.ReadFrom, h]

theorem calls_ok {out : List UInt8 × Remote} (h : c.readFrom lib d s = (.ok out, s')) :
    c.calls lib (n + 1) (d :: ds) s = (c.calls lib n ds s').map (out :: ·) := by
  simp [calls, PacketConn.ReadFrom, h]

theorem calls_dropped (h : Dropped lib c d) : c.calls lib (n + 1) (d :: ds) s = none := by
  obtain ⟨reason, hr, h⟩ := @Dropped.readFrom _ _ _ _ s h
  cases reason
  case headerOnly => contradiction
  all_goals simp [calls, PacketConn.ReadFrom, h]

theorem calls_accepted (h : ∀ d ∈ ds, ¬Dropped lib c d) :
    c.calls lib n ds s = some ((accepted lib c ds s).take n) := by
  induction ds generalizing n s
  case nil =>
    cases n
    all_goals simp [calls, PacketConn.ReadFrom, accepted]
  case cons d ds hi =>
    obtain ⟨hd, hds⟩ := List.forall_mem_cons.mp h
    cases n
    case zero => rfl
    case succ n =>
      rcases hr : c.readFrom lib d s with ⟨r, s'⟩
      cases r
      case error reason =>
        have hf : (c.readFrom lib d s).1 = .error reason := by rw [hr]
        obtain rfl := (readFrom_error hf).resolve_right hd
        rw [calls_headerOnly hr, hi hds, accepted, hr]
      case ok out => simp [calls_ok hr, hi hds, accepted, hr]

theorem calls_eq_none (h : d ∈ ds) (hd : Dropped lib c d) (hn : ds.length ≤ n) :
    c.calls lib (n + 1) ds s = none := by
  induction ds generalizing n s
  case nil => cases h
  case cons d' ds hi =>
    by_cases hd' : Dropped lib c d'
    case pos => exact calls_dropped hd'
    case neg =>
      have h : d ∈ ds := by
        obtain rfl | h := List.mem_cons.mp h
        · contradiction
        · exact h
      rcases hr : c.readFrom lib d' s with ⟨r, s'⟩
      cases r
      case error reason =>
        have hf : (c.readFrom lib d' s).1 = .error reason := by rw [hr]
        obtain rfl := (readFrom_error hf).resolve_right hd'
        rw [calls_headerOnly hr]
        exact hi h (Nat.le_of_succ_le hn)
      case ok out =>
        obtain ⟨n, rfl⟩ := Nat.exists_eq_succ_of_ne_zero (Nat.ne_zero_of_lt hn)
        rw [calls_ok hr, hi h (Nat.le_of_succ_le_succ hn), Option.map_none]

end Calls

-- A connection reads on, and passes on what it should, as long as no datagram is dropped.
theorem calls_accepted_iff (lib : Library σ) (c : PacketConn) (ds : List Datagram) (s : Option σ) :
    (∀ n, c.calls lib n ds s = some ((accepted lib c ds s).take n)) ↔ ∀ d ∈ ds, ¬Dropped lib c d := by
  constructor
  case mp =>
    intro h d hm hd
    have hn : c.calls lib (ds.length + 1) ds s = none := calls_eq_none hm hd le_rfl
    rw [h] at hn
    cases hn
  case mpr =>
    intro h n
    exact calls_accepted h

namespace Sample

def library : Library Unit where
  read _ := .error .noProxyProtocol
  newLRU _ _ := ()
  add _ _ _ _ := ()
  get _ _ _ := (none, ())

def conn : PacketConn where
  connPolicy := some fun _ addr => if addr.string = "192.0.2.1:53".toList then .error "blocked".toList else .ok .use

def datagram (string : Str) : Datagram where
  time := 0
  packet := [0]
  addr := { network := "udp", string }

def datagrams : List Datagram :=
  [datagram "192.0.2.1:53", datagram "192.0.2.2:53"]

end Sample

-- One datagram is enough for which there is no policy.
theorem calls_panicked : ¬∀ n, Sample.conn.calls Sample.library n Sample.datagrams none =
    some ((accepted Sample.library Sample.conn Sample.datagrams none).take n) := by
  intro h
  cases h 1

end Proxyproto
