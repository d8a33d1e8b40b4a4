import Mathlib.Data.Rat.Defs

/-!
# JavaScript values

`JsNumber` is a value of type `number`; its finite values are exact, so the rounding of
the floating-point format is left out. `Json` is a value that `JSON.stringify` and
`JSON.parse` carry; a field of an object that is `undefined` is not in the list of its
fields. `JsError` is a thrown value.
-/

/-- A number; the infinities carry their sign. -/
inductive JsNumber where
  | finite (q : ℚ)
  | nan
  | infinity (negative : Bool)
deriving DecidableEq

namespace JsNumber

/-- `Number.isFinite(x)`, with the value. -/
def isFinite : JsNumber → Option ℚ
  | finite q => some q
  | _ => none

instance : NatCast JsNumber := ⟨fun n => finite n⟩

instance (n : ℕ) : OfNat JsNumber n := ⟨finite n⟩

end JsNumber

/-- A JSON value. -/
inductive Json where
  | null
  | bool (b : Bool)
  | num (q : ℚ)
  | str (s : String)
  | arr (items : List Json)
  | obj (fields : List (String × Json))

namespace Json

/-- `v !== null` is false exactly here. -/
def isNull : Json → Bool
  | null => true
  | _ => false

/-- `v.name`, for an object. -/
def field (fields : List (String × Json)) (name : String) : Option Json := fields.lookup name

@[simp] theorem field_nil (name : String) : field [] name = none := rfl

@[simp] theorem field_cons (name' : String) (v : Json) (fields : List (String × Json))
    (name : String) :
    field ((name', v) :: fields) name = if name = name' then some v else field fields name := by
  rw [field, List.lookup_cons]
  by_cases h : name = name'
  · rw [beq_iff_eq.mpr h, if_pos h]
  · rw [beq_false_of_ne h, if_neg h]
    rfl

end Json

/-- A thrown value: an `Error` of some class, or anything else. -/
inductive JsError where
  | error (message : String)
  | typeError (message : String)
  | zodError (paths : List String) (message : String)
  | appException (messageKey : String) (status : ℕ)
  | other (text : String)
deriving DecidableEq

/-- `e instanceof Error ? e.message : String(e)`; an `AppException` has its key as message. -/
def JsError.errMsg : JsError → String
  | error message => message
  | typeError message => message
  | zodError _ message => message
  | appException messageKey _ => messageKey
  | other text => text
