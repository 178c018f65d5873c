import SjmbSlack.Text

/-! The part of `serde_json::Value` that the program reads and writes. -/
namespace SjmbSlack

inductive Json where
  | null
  | bool (value : Bool)
  /-- A number that `as_u64` accepts. -/
  | unsigned (value : Nat)
  | number
  | str (value : Str)
  | arr (items : List Json)
  | obj (fields : List (Str × Json))

namespace Json

/-- Indexing by a field name; `null` where there is no such field. -/
def get (value : Json) (field : Str) : Json :=
  match value with
  | obj fields => ((fields.find? fun entry => entry.1 = field).map Prod.snd).getD null
  | _ => null

def asStr : Json → Option Str
  | str value => some value
  | _ => none

def asUnsigned : Json → Option Nat
  | unsigned value => some value
  | _ => none

def asArray : Json → Option (List Json)
  | arr items => some items
  | _ => none

def isTrue : Json → Bool
  | bool value => value
  | _ => false

def isText (value : Json) (text : Str) : Bool :=
  value.asStr = some text

def insertField (fields : List (Str × Json)) (field : Str) (value : Json) :
    List (Str × Json) :=
  (field, value) :: fields.filter fun entry => entry.1 ≠ field

def entryOrInsert (fields : List (Str × Json)) (field : Str) (value : Json) :
    List (Str × Json) :=
  if fields.any fun entry => entry.1 = field then fields else (field, value) :: fields

@[simp] theorem get_insertField_self (fields : List (Str × Json)) (field : Str) (value : Json) :
    (obj (insertField fields field value)).get field = value := by
  simp [get, insertField]

theorem get_insertField_ne (fields : List (Str × Json)) {field other : Str} (value : Json)
    (h : other ≠ field) :
    (obj (insertField fields field value)).get other = (obj fields).get other := by
  unfold get insertField
  simp only [List.find?_cons, Ne.symm h, decide_false, List.find?_filter]
  congr 3
  funext entry
  by_cases he : entry.1 = other
  · simp [he, h]
  · simp [he]

theorem get_entryOrInsert_ne (fields : List (Str × Json)) {field other : Str} (value : Json)
    (h : other ≠ field) :
    (obj (entryOrInsert fields field value)).get other = (obj fields).get other := by
  unfold entryOrInsert
  split
  · rfl
  · simp [get, Ne.symm h]

end Json

end SjmbSlack
