import JobScheduling.JobConstants
import Mathlib.Algebra.Group.Int.Defs

/-! # Message payloads and SQL parameters

    A payload on the broker is whatever `json.loads` makes of it: a `Json`
    value, or an exception.  Three things happen to such a value in the code,
    and each treats a different subset as acceptable: `dict.get`, the truth
    test of `if not x`, and binding it as an SQL parameter against a TEXT
    column.  A `str` of a request body (`PyStr`) can fail only at the last. -/

namespace JobPayload

open JobConstants

/-- The exceptions the modelled code raises, catches or lets through. -/
inductive PyExc where
  | JSONDecodeError
  | UnicodeDecodeError
  | UnicodeEncodeError
  | AttributeError
  | OverflowError
  | ProgrammingError
  | IntegrityError
  | OperationalError
  | other (name : String)
deriving DecidableEq, Repr

/-- What the code can observe of a `float`: whether it is zero, and the text
    SQLite renders for it (`none` for NaN, which binds as NULL). -/
structure PyFloat where
  nonzero : Bool
  text : Option String
deriving DecidableEq, Repr

/-- The values `json.loads` returns.  `surrogates` is a `str` holding a lone
    surrogate escape, which no UTF-8 text represents. -/
inductive Json where
  | null
  | bool (b : Bool)
  | int (n : Int)
  | float (x : PyFloat)
  | str (s : String)
  | surrogates (codePoints : List Nat)
  | arr (items : List Json)
  | obj (fields : List (String × Json))

/-- What `json.loads(msg.payload.decode("utf-8"))` does with a message. -/
abbrev Delivered := Except PyExc Json

/-- `payload.get(field)`. -/
def dictGet (fields : List (String × Json)) (field : String) : Json :=
  (fields.lookup field).getD .null

/-- The truth value of `if x`. -/
def Json.truthy : Json → Bool
  | .null => false
  | .bool b => b
  | .int n => n != 0
  | .float x => x.nonzero
  | .str s => s != ""
  | .surrogates cs => !cs.isEmpty
  | .arr xs => !xs.isEmpty
  | .obj fs => !fs.isEmpty

/-- Bind a value as an SQL parameter that is stored in, or compared with, a
    TEXT column: the text it becomes there, `none` for NULL. -/
def Json.bindText : Json → Except PyExc (Option String)
  | .null => .ok none
  | .bool b => .ok (some (if b then "1" else "0"))
  | .int n =>
      if -(2 ^ 63) ≤ n ∧ n < 2 ^ 63 then .ok (some (toString n))
      else .error .OverflowError
  | .float x => .ok x.text
  | .str s => .ok (some s)
  | .surrogates _ => .error .UnicodeEncodeError
  | .arr _ => .error .ProgrammingError
  | .obj _ => .error .ProgrammingError

/-- Binding the value does not raise. -/
def Json.bindable (v : Json) : Bool :=
  match v.bindText with
  | .ok _ => true
  | .error _ => false

/-- A text is stored as it is. -/
@[simp] theorem bindText_str (s : String) :
    (Json.str s).bindText = .ok (some s) := rfl

/-- Binding never raises exactly when there is a column value. -/
theorem bindable_iff {v : Json} :
    v.bindable = true ↔ ∃ t, v.bindText = .ok t := by
  rw [Json.bindable]
  cases h : v.bindText with
  | ok t => simp
  | error e => simp

/-! ## Texts of a request body -/

/-- No UTF-8 text holds this code point. -/
def isSurrogate (c : Nat) : Bool := decide (0xD800 ≤ c ∧ c ≤ 0xDFFF)

/-- A `str`: a text, or code points with a lone surrogate among them. -/
inductive PyStr where
  | text (s : String)
  | surrogates (codePoints : List Nat) (lone : codePoints.any isSurrogate = true)
deriving DecidableEq, Repr

instance : Coe String PyStr := ⟨PyStr.text⟩

/-- `len(s)`. -/
def PyStr.length : PyStr → Nat
  | .text s => s.length
  | .surrogates cs _ => cs.length

/-- `not s`. -/
def PyStr.isEmpty (s : PyStr) : Bool := s.length == 0

/-- The value `json.dumps` is given for it. -/
def PyStr.toJson : PyStr → Json
  | .text s => .str s
  | .surrogates cs _ => .surrogates cs

/-- `s.encode("utf-8")` does not raise. -/
def PyStr.encodable : PyStr → Bool
  | .text _ => true
  | .surrogates _ _ => false

/-- The texts are the strings that encode. -/
theorem encodable_iff {s : PyStr} : s.encodable = true ↔ ∃ t, s = .text t := by
  cases s with
  | text t => exact ⟨fun _ => ⟨t, rfl⟩, fun _ => rfl⟩
  | surrogates cs lone =>
      constructor
      · intro h
        cases h
      · rintro ⟨t, h⟩
        cases h

/-- A string binds as an SQL parameter exactly when it encodes. -/
theorem toJson_bindable (s : PyStr) : s.toJson.bindable = s.encodable := by
  cases s with
  | text t => rfl
  | surrogates cs lone => rfl

end JobPayload
