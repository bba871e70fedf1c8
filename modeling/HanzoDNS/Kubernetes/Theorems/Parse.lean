import HanzoDNS.Kubernetes.Basic

open Dns Domain List

namespace Kubernetes

section Schema

def label (s : Str) (h : s ≠ [] ∧ (unescape s).isSome) : Label :=
  ⟨s, h.1, h.2⟩

inductive PodOrSvc
  | svc
  | pod
deriving DecidableEq

def PodOrSvc.label : PodOrSvc → Label
  | svc => Kubernetes.label Kubernetes.svc (by decide)
  | pod => Kubernetes.label Kubernetes.pod (by decide)

def underscored (l : Label) : Label where
  text := '_' :: l.text
  nonempty := cons_ne_nil _ _
  valid := by simpa [unescape] using l.valid

inductive Part
  | none
  | endpoint (endpoint : Label)
  | port (port protocol : Label)
  | cluster (endpoint cluster : Label)
deriving DecidableEq

def Part.labels : Part → Name
  | none => []
  | endpoint e => [e]
  | port p t => [underscored p, underscored t]
  | cluster e c => [e, c]

-- Only zones of several clusters have names with the id of a cluster, and neither of its labels begins with an
-- underscore.
def Part.Allowed (multicluster : Bool) : Part → Prop
  | cluster e c => multicluster ∧ e.text.head? ≠ some '_' ∧ c.text.head? ≠ some '_'
  | _ => True

structure Components where
  part : Part
  service : Label
  «namespace» : Label
  kind : PodOrSvc
deriving DecidableEq

namespace Components

def labels (x : Components) : Name :=
  x.part.labels ++ [x.service, x.namespace, x.kind.label]

def request (x : Components) : RecordRequest :=
  let r : RecordRequest :=
    { service := x.service.text, «namespace» := x.namespace.text, podOrSvc := x.kind.label.text }
  match x.part with
  | .none => r
  | .endpoint e => { r with endpoint := e.text }
  | .port p t => { r with port := p.text, protocol := t.text }
  | .cluster e c => { r with endpoint := e.text, cluster := c.text }

end Components
end Schema

variable {dns : Labels} {z n : Name} {multicluster : Bool} {x y : Components}

theorem text_label (k : PodOrSvc) : ¬(k.label.text ≠ pod ∧ k.label.text ≠ svc) := by
  cases k <;> decide

theorem label_injective : Function.Injective PodOrSvc.label := by
  intro k k' h
  cases k <;> cases k'
  case svc.svc => rfl
  case pod.pod => rfl
  all_goals exact absurd (congrArg Label.text h) (by decide)

-- The name of a kind alone is not parsed any further.
theorem parseRequest_append (trims : dns.Trims) (hn : n ≠ []) (hk : ∀ k : PodOrSvc, n ≠ [k.label]) :
    parseRequest dns (n ++ z).text z.text multicluster = parseSegments multicluster (n.map Label.text).reverse := by
  have hb (m : Name) (hm : m ≠ []) (h : n ≠ m) :
      List.intercalate ['.'] (n.map Label.text) ≠ List.intercalate ['.'] (m.map Label.text) := by
    intro he
    have hc := congrArg (· ++ ['.']) he
    rw [←Name.cat_eq_intercalate hn, ←Name.cat_eq_intercalate hm] at hc
    exact h (Name.cat_injective hc)
  have hne : List.intercalate ['.'] (n.map Label.text) ≠ [] := by
    intro he
    have hl := Name.cat_eq_intercalate hn
    rw [he, nil_append] at hl
    exact Name.cat_ne_root n hl
  have hsvc : _ ≠ svc := hb _ (cons_ne_nil _ _) (hk .svc)
  have hpod : _ ≠ pod := hb _ (cons_ne_nil _ _) (hk .pod)
  rw [parseRequest, trimZone_append trims hn, if_neg (not_or.mpr ⟨hne, not_or.mpr ⟨hsvc, hpod⟩⟩),
    trims.splitDomainName_relative n hn]

theorem parseRequest_components (trims : dns.Trims) (h : x.part.Allowed multicluster) :
    parseRequest dns (x.labels ++ z).text z.text multicluster = .ok x.request := by
  have hkind := text_label x.kind
  obtain ⟨part, service, «namespace», kind⟩ := x
  have hk (k : PodOrSvc) : Components.labels ⟨part, service, «namespace», kind⟩ ≠ [k.label] := by
    intro hk
    have hl := congrArg List.length hk
    simp [Components.labels] at hl
  rw [parseRequest_append trims (by simp [Components.labels]) hk]
  cases part
  case none => simp [Components.labels, Part.labels, parseSegments, if_neg hkind, Components.request]
  case endpoint => simp [Components.labels, Part.labels, parseSegments, if_neg hkind, Components.request]
  case port =>
    simp [Components.labels, Part.labels, parseSegments, if_neg hkind, Components.request, underscored, stripUnderscore]
  case cluster =>
    obtain ⟨hm, he, hc⟩ := h
    simp [Components.labels, Part.labels, parseSegments, if_neg hkind, Components.request, hm, he, hc]

theorem parseRequest_kind (trims : dns.Trims) (l : Label) (hl : l.text ≠ svc) (hl' : l.text ≠ pod) :
    parseRequest dns (n ++ l :: z).text z.text multicluster = .error .invalidRequest := by
  have hk (k : PodOrSvc) : n ++ [l] ≠ [k.label] := by
    intro h
    have hm : l ∈ [k.label] := h ▸ mem_append_right n mem_cons_self
    rw [mem_singleton.mp hm] at hl hl'
    exact text_label k ⟨hl', hl⟩
  rw [←singleton_append, ←append_assoc, parseRequest_append trims (by simp) hk, map_append, reverse_append]
  simp [parseSegments, hl, hl']

theorem parseRequest_long (trims : dns.Trims) (h : 5 < n.length) :
    parseRequest dns (n ++ z).text z.text multicluster = .error .invalidRequest := by
  have hk (k : PodOrSvc) : n ≠ [k.label] := by
    rintro rfl
    simp at h
  rw [parseRequest_append trims (ne_nil_of_length_pos (by omega)) hk]
  have hl : 5 < (n.map Label.text).reverse.length := by simpa using h
  generalize (n.map Label.text).reverse = segs at hl
  rcases segs with _ | ⟨_, _ | ⟨_, _ | ⟨_, _ | ⟨_, _ | ⟨_, _ | ⟨_, _⟩⟩⟩⟩⟩⟩
  all_goals simp [parseSegments] at hl ⊢

theorem Components.request_injective : Function.Injective request := by
  have hne (l : Label) : [] ≠ l.text := l.nonempty.symm
  intro x y h
  obtain ⟨part, service, «namespace», kind⟩ := x
  obtain ⟨part', service', namespace', kind'⟩ := y
  cases part <;> cases part' <;>
    simp_all [request, Label.nonempty, Label.text_injective.eq_iff, label_injective.eq_iff]

-- Names of the schema are parsed into what they are made of, and no others are.
theorem parseRequest_schema (trims : dns.Trims) (z : Name) (multicluster : Bool) :
    (∀ x : Components, x.part.Allowed multicluster →
      parseRequest dns (x.labels ++ z).text z.text multicluster = .ok x.request) ∧
    (∀ (n : Name) (l : Label), l.text ≠ svc → l.text ≠ pod →
      parseRequest dns (n ++ l :: z).text z.text multicluster = .error .invalidRequest) ∧
    (∀ n : Name, 5 < n.length → parseRequest dns (n ++ z).text z.text multicluster = .error .invalidRequest) ∧
    ∀ x y : Components, x.part.Allowed multicluster → y.part.Allowed multicluster →
      (x.labels ++ z).text = (y.labels ++ z).text → x = y := by
  refine ⟨fun x => parseRequest_components trims, fun n l => parseRequest_kind trims l,
    fun n => parseRequest_long trims, fun x y hx hy h => ?_⟩
  have hp := parseRequest_components (z := z) trims hx
  rw [h, parseRequest_components trims hy] at hp
  exact Components.request_injective (Except.ok.inj hp).symm

namespace Sample

def named : Components where
  part := .port (label "http".toList (by decide)) (label "tcp".toList (by decide))
  service := label "web".toList (by decide)
  «namespace» := label "default".toList (by decide)
  kind := .svc

end Sample

theorem parseRequest_web : parseRequest Labels.relative "_http._tcp.web.default.svc.local.".toList "local.".toList false =
    .ok { port := "http", protocol := "tcp", service := "web", «namespace» := "default", podOrSvc := svc } :=
  (parseRequest_schema .relative [label "local".toList (by decide)] false).1 Sample.named trivial

end Kubernetes
