import HanzoDNS.Lib.Net
import HanzoDNS.Lib.Replace
import HanzoDNS.Dns.Labels

open Strings Domain List

namespace Dns

def ip4arpa : Str := ".in-addr.arpa."

def ip6arpa : Str := ".ip6.arpa."

-- Groups of four labels. What is left over is dropped.
def nibbles : List Str → List Str
  | a :: b :: c :: d :: labels => (a ++ b ++ c ++ d) :: nibbles labels
  | _ => []

def extractAddressFromReverse (reverseName : Str) : Str :=
  let ip :=
    match cutSuffix reverseName ip4arpa, cutSuffix reverseName ip6arpa with
    | some search, _ => (Net.IP.parse (List.intercalate ['.'] (search.splitOn '.').reverse)).bind Net.IP.to4
    | _, some search => (Net.IP.parse (List.intercalate [':'] (nibbles (search.splitOn '.').reverse))).bind Net.IP.to16
    | _, _ => none
  ip.elim [] Net.IP.string

def isReverse (name : Str) : Bool :=
  hasSuffix name ip4arpa || hasSuffix name ip6arpa

-- A name without the zone that it is in, and without a dot at its end. It is empty if the name is not longer.
def trimZone (dns : Labels) (q z : Str) : Str :=
  match dns.prevLabel q (dns.countLabel z) with
  | (i, overshot) => if overshot ∨ i = 0 then [] else q.take (i - 1)

-- What the documentation says about a name below another: where the other one begins, and that a name can be split
-- without a dot at its end.
structure Labels.Trims (dns : Labels) : Prop where
  prevLabel_append : ∀ n z : Name, n ++ z ≠ [] → dns.prevLabel (n ++ z).text z.length = (n.cat.length, false)
  splitDomainName_relative : ∀ n : Name, n ≠ [] →
    dns.splitDomainName (List.intercalate ['.'] (n.map Label.text)) = n.map Label.text

theorem trimZone_append {dns : Labels} (trims : dns.Trims) {n : Name} (hn : n ≠ []) (z : Name) :
    trimZone dns (n ++ z).text z.text = List.intercalate ['.'] (n.map Label.text) := by
  have hc := Name.cat_eq_intercalate hn
  have hnz : n ++ z ≠ [] := by simp [hn]
  rw [trimZone, dns.countLabel_text, trims.prevLabel_append n z hnz, Name.text_of_ne_nil hnz]
  simp [Name.cat_append, hc]

-- Functions that split names with and without a dot at their end.
def Labels.relative : Labels :=
  { Labels.reference with
    splitDomainName := fun s => ((chunks (s ++ ['.'])).filter (· ≠ ['.'])).map List.dropLast
    splitDomainName_text := by
      intro n
      cases n
      case nil => rfl
      case cons l n =>
        rw [Name.text_of_ne_nil (cons_ne_nil l n)]
        induction l :: n
        case nil => rfl
        case cons l n hi => simpa [Name.cat_cons, chunks_append l.valid, l.nonempty] using hi }

theorem Labels.Trims.relative : Labels.relative.Trims where
  prevLabel_append n z hn := by
    have hr : (chunks (Name.cat (n ++ z))).rtake z.length = z.map (·.text ++ ['.']) := by
      rw [Name.chunks_cat, map_append]
      simp [rtake]
    have hl : z.cat = (z.map (·.text ++ ['.'])).flatten := flatMap_def
    have hd : ¬(Name.cat (n ++ z) = [] ∨ (chunks (Name.cat (n ++ z))).length < z.length) := by
      rw [Name.chunks_cat, Name.cat_eq_intercalate hn]
      simp
    rw [Name.text_of_ne_nil hn]
    refine Prod.ext ?_ (decide_eq_false hd)
    change _ - (rtake _ _).flatten.length = _
    rw [hr, ←hl, Name.cat_append, length_append, Nat.add_sub_cancel]
  splitDomainName_relative n hn := by
    change map _ (filter _ (chunks _)) = _
    rw [←Name.cat_eq_intercalate hn, Name.chunks_cat]
    simp [filter_map, Function.comp_def, Label.nonempty]

end Dns
