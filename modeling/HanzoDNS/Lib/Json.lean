import HanzoDNS.Lib.Ascii
import HanzoDNS.Lib.Strconv

open Strings List

-- Values of JSON. Numbers are kept as they are written.
inductive Json
  | null
  | bool (b : Bool)
  | number (literal : Str)
  | string (s : Str)
  | array (items : List Json)
  | object (members : List (Str × Json))

namespace Json

-- A parser that only knows some texts.
def parser (texts : List (Str × Json)) (body : List UInt8) : Option Json :=
  (texts.find? (bytes ·.1 = body)).map Prod.snd

-- How Go decodes a value into a variable that already has one. Nothing changes for null.
abbrev Decoder (α : Type) :=
  α → Json → Option α

def decodeString : Decoder Str
  | s, null => some s
  | _, string s => some s
  | _, _ => none

def decodeBool : Decoder Bool
  | b, null => some b
  | _, bool b => some b
  | _, _ => none

-- Only literals of integers that fit are decoded.
def decodeUint32 : Decoder UInt32
  | n, null => some n
  | _, number literal => (Strconv.parseUint literal 32).map UInt32.ofNat
  | _, _ => none

def decodeUint16 : Decoder UInt16
  | n, null => some n
  | _, number literal => (Strconv.parseUint literal 16).map UInt16.ofNat
  | _, _ => none

def decodeInt64 : Decoder Int
  | n, null => some n
  | _, number literal => Strconv.atoi literal
  | _, _ => none

-- Every item of an array is decoded into a new variable.
def decodeList (zero : α) (decode : Decoder α) : Decoder (List α)
  | _, null => some []
  | _, array items => items.mapM (decode zero)
  | _, _ => none

-- A field takes the members with its name, in any case, one after the other.
def field (name : Str) (decode : Decoder α) (members : List (Str × Json)) (a : α) : Option α :=
  (members.filter fun m => foldsAll name m.1).foldlM (fun a m => decode a m.2) a

def decodeStruct (decode : List (Str × Json) → α → Option α) : Decoder α
  | a, null => some a
  | a, object members => decode members a
  | _, _ => none

section

variable {name : Str} {decode : Decoder α} {key : Str} {value : Json} {members members' : List (Str × Json)} {a : α}

@[simp]
theorem field_nil : field name decode [] a = some a :=
  rfl

@[simp]
theorem field_cons : field name decode ((key, value) :: members) a =
    if foldsAll name key then (decode a value).bind (field name decode members) else field name decode members a := by
  rw [field, filter_cons]
  split
  case isTrue => exact foldlM_cons
  case isFalse => rfl

@[simp]
theorem decodeString_string {s t : Str} : decodeString s (string t) = some t :=
  rfl

@[simp]
theorem decodeBool_bool {b c : Bool} : decodeBool b (bool c) = some c :=
  rfl

@[simp]
theorem decodeUint32_itoa {m n : UInt32} : decodeUint32 m (number (Strconv.itoa n.toNat)) = some n := by
  rw [decodeUint32, Strconv.parseUint_itoa n.toNat_lt]
  exact congrArg some UInt32.ofNat_toNat

@[simp]
theorem decodeUint16_itoa {m n : UInt16} : decodeUint16 m (number (Strconv.itoa n.toNat)) = some n := by
  rw [decodeUint16, Strconv.parseUint_itoa n.toNat_lt]
  exact congrArg some UInt16.ofNat_toNat

theorem decodeInt64_itoa {m : Int} {n : Nat} (h : n < 2 ^ 63) :
    decodeInt64 m (number (Strconv.itoa n)) = some (n : Int) := by
  rw [decodeInt64, Strconv.atoi_itoa h]

theorem decodeList_map {β : Type} {zero : α} {encode : β → Json} {as : List α} {f : β → α} {bs : List β}
    (h : ∀ b ∈ bs, decode zero (encode b) = some (f b)) :
    decodeList zero decode as (array (bs.map encode)) = some (bs.map f) := by
  rw [decodeList]
  clear as
  induction bs
  case nil => rfl
  case cons b bs ih =>
    have hb := h b mem_cons_self
    have hs := ih fun b hm => h b (mem_cons_of_mem _ hm)
    simp [map_cons, mapM_cons, hb, hs, Option.bind_eq_bind, Option.bind_some, Option.pure_def]

def Has (members : List (Str × Json)) (name : Str) (value : Json) : Prop :=
  ∃ key, (members.filter fun m => foldsAll name m.1) = [(key, value)]

theorem field_of_has (h : Has members name value) : field name decode members a = decode a value := by
  obtain ⟨key, hk⟩ := h
  rw [field, hk, foldlM_cons]
  cases decode a value <;> rfl

end
end Json
