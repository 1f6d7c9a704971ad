/-!
# Documents

A document is a JSON value. Syntax trees are exchanged as documents, requests arrive as
documents and every answer is one, so the library reads and writes this type rather than a
concrete JSON text.

* `Doc`: null, booleans, integers, decimal fractions, strings, arrays and objects;
* `Doc.get?`: the field of an object under a key;
* `Doc.typeName`: the name under which a loaded document's kind shows up in messages.

A fraction `num m e` stands for `m · 10^(-e)`; integers are kept apart as `int` because the
programs this library describes treat whole numbers and fractions as different kinds.
-/

namespace Interstellar

/-- A JSON value. Object fields keep the order in which they were written. -/
inductive Doc where
  | null
  | bool (b : Bool)
  | int (n : Int)
  | num (mantissa : Int) (exponent : Nat)
  | str (s : String)
  | arr (items : List Doc)
  | obj (fields : List (String × Doc))
  deriving Inhabited

namespace Doc

/-- The field of an object under `key`; `none` for a missing key or a non-object. -/
def get? : Doc → String → Option Doc
  | .obj fields, key => (fields.find? (·.1 == key)).map (·.2)
  | _, _ => none

/-- Whether `key` is present in an object. -/
def has (d : Doc) (key : String) : Bool := (d.get? key).isSome

/-- Truthiness: null, `false`, zero and empty strings, arrays and objects are false. -/
def truthy : Doc → Bool
  | .null => false
  | .bool b => b
  | .int n => n != 0
  | .num m _ => m != 0
  | .str s => !s.isEmpty
  | .arr items => !items.isEmpty
  | .obj fields => !fields.isEmpty

theorem sizeOf_lt_of_get? {d v : Doc} {key : String} (h : d.get? key = some v) :
    sizeOf v < sizeOf d := by
  cases d with
  | obj fields =>
    simp only [get?, Option.map_eq_some_iff] at h
    obtain ⟨⟨k, v'⟩, hfind, rfl⟩ := h
    have hmem := List.mem_of_find?_eq_some hfind
    have h1 := List.sizeOf_lt_of_mem hmem
    simp only [obj.sizeOf_spec, Prod.mk.sizeOf_spec] at h1 ⊢
    omega
  | _ => simp [get?] at h

/-- The name of a loaded document's kind, as messages about it say it: `dict` for an object,
`list` for an array, `NoneType` for null. -/
def typeName : Doc → String
  | .null => "NoneType"
  | .bool _ => "bool"
  | .int _ => "int"
  | .num _ _ => "float"
  | .str _ => "str"
  | .arr _ => "list"
  | .obj _ => "dict"

end Doc

end Interstellar
