import JppDos.Lib.CText
import JppDos.Lib.JsonText

/-!
# JSON values

The values that a JSON package reads and prints, over a type of numbers, and the package as a
parameter.  What was printed is read back with `null` in the place of every number that has
no digits, as long as it is not nested too deeply.

Main fact:
* `Json.getItem_sanitize`, `Json.depth_sanitize`: what a value keeps when it is read back.
-/

namespace JppDos

open CText

/-- A JSON value. -/
inductive Json (ν : Type)
  | null
  | bool (b : Bool)
  | number (n : ν)
  | string (s : CStr)
  | array (items : List (Json ν))
  | object (members : List (CStr × Json ν))

namespace Json

variable {ν : Type}

/-- `cJSON_GetObjectItem`: the first member of that name, upper and lower case alike. -/
def getItem : Json ν → CStr → Option (Json ν)
  | object members, name => (members.find? fun m => m.1.fold = name.fold).map (·.2)
  | _, _ => none

/-- `cJSON_IsNumber`, and the number. -/
def number? : Json ν → Option ν
  | number n => some n
  | _ => none

/-- `cJSON_IsString`, and the string. -/
def string? : Json ν → Option CStr
  | string s => some s
  | _ => none

/-- `cJSON_IsTrue`. -/
def isTrue : Json ν → Bool
  | bool b => b
  | _ => false

/-- What `cJSON_ArrayForEach` goes through. -/
def children : Json ν → List (Json ν)
  | array items => items
  | object members => members.map (·.2)
  | _ => []

/-- `cJSON_IsObject`. -/
def isObject : Json ν → Bool
  | object _ => true
  | _ => false

mutual

/-- How deeply arrays and objects are nested. -/
def depth : Json ν → Nat
  | array items => depthItems items + 1
  | object members => depthMembers members + 1
  | _ => 0

/-- The depth of the items of an array. -/
def depthItems : List (Json ν) → Nat
  | [] => 0
  | v :: vs => max (depth v) (depthItems vs)

/-- The depth of the members of an object. -/
def depthMembers : List (CStr × Json ν) → Nat
  | [] => 0
  | (_, v) :: ms => max (depth v) (depthMembers ms)

end

mutual

/-- A value with `null` in the place of every number that is not finite. -/
def sanitize (finite : ν → Bool) : Json ν → Json ν
  | number n => if finite n then number n else null
  | array items => array (sanitizeItems finite items)
  | object members => object (sanitizeMembers finite members)
  | null => null
  | bool b => bool b
  | string s => string s

/-- The items of an array. -/
def sanitizeItems (finite : ν → Bool) : List (Json ν) → List (Json ν)
  | [] => []
  | v :: vs => sanitize finite v :: sanitizeItems finite vs

/-- The members of an object. -/
def sanitizeMembers (finite : ν → Bool) : List (CStr × Json ν) → List (CStr × Json ν)
  | [] => []
  | (name, v) :: ms => (name, sanitize finite v) :: sanitizeMembers finite ms

end

mutual

/-- The text of a value without blanks, from the texts of the numbers. -/
def compact (numberText : ν → List UInt8) : Json ν → List UInt8
  | null => ascii "null"
  | bool b => if b then ascii "true" else ascii "false"
  | number n => numberText n
  | string s => JsonText.stringText s.val
  | array items => 91 :: (JsonText.commas (compactItems numberText items) ++ [93])
  | object members => JsonText.braces (compactMembers numberText members)

/-- The texts of the items of an array. -/
def compactItems (numberText : ν → List UInt8) : List (Json ν) → List (List UInt8)
  | [] => []
  | v :: vs => compact numberText v :: compactItems numberText vs

/-- The texts of the members of an object. -/
def compactMembers (numberText : ν → List UInt8) : List (CStr × Json ν) → List (List UInt8)
  | [] => []
  | (name, v) :: ms =>
      (JsonText.stringText name.val ++ 58 :: compact numberText v) :: compactMembers numberText ms

end

/-- Where all keys differ, an entry is found by its key. -/
theorem find?_of_nodup {α β : Type*} [DecidableEq β] (f : α → β) {l : List α}
    (hnodup : (l.map f).Nodup) {a : α} (h : a ∈ l) : l.find? (fun b => f b = f a) = some a := by
  induction l with
  | nil => cases h
  | cons b l ih =>
      rw [List.map_cons, List.nodup_cons] at hnodup
      rcases List.mem_cons.mp h with rfl | hmem
      · exact List.find?_cons_of_pos (decide_eq_true rfl)
      · have hne : f b ≠ f a := fun heq => hnodup.1 (heq ▸ List.mem_map_of_mem hmem)
        rw [List.find?_cons_of_neg (by simpa using hne)]
        exact ih hnodup.2 hmem

theorem getItem_of_mem {members : List (CStr × Json ν)}
    (hnodup : (members.map fun m => m.1.fold).Nodup) {name : CStr} {value : Json ν}
    (h : (name, value) ∈ members) : (object members).getItem name = some value := by
  rw [getItem, find?_of_nodup (fun m : CStr × Json ν => m.1.fold) hnodup h]
  rfl

section Sanitize

attribute [local simp] sanitize sanitizeItems sanitizeMembers

variable (finite : ν → Bool)

theorem sanitizeMembers_eq_map (members : List (CStr × Json ν)) :
    sanitizeMembers finite members = members.map fun m => (m.1, sanitize finite m.2) := by
  induction members with
  | nil => rw [sanitizeMembers, List.map_nil]
  | cons m members ih => rw [sanitizeMembers, ih, List.map_cons]

theorem getItem_sanitize (v : Json ν) (name : CStr) :
    (sanitize finite v).getItem name = (v.getItem name).map (sanitize finite) := by
  cases v with
  | object members =>
      rw [sanitize, getItem, getItem, sanitizeMembers_eq_map, List.find?_map, Option.map_map,
        Option.map_map]
      rfl
  | number n =>
      rw [sanitize]
      split <;> rfl
  | null | bool b | string s | array items => rw [sanitize]; rfl

theorem string?_sanitize (v : Json ν) : (sanitize finite v).string? = v.string? := by
  cases v with
  | number n =>
      rw [sanitize]
      split <;> rfl
  | null | bool b | string s | array items | object members => simp only [sanitize, string?]

theorem isTrue_sanitize (v : Json ν) : (sanitize finite v).isTrue = v.isTrue := by
  cases v with
  | number n =>
      rw [sanitize]
      split <;> rfl
  | null | bool b | string s | array items | object members => simp only [sanitize, isTrue]

theorem number?_sanitize {v : Json ν} {n : ν} (h : v.number? = some n)
    (hfinite : finite n = true) : (sanitize finite v).number? = some n := by
  cases v with
  | number m =>
      obtain rfl := Option.some.inj h
      rw [sanitize, if_pos hfinite]
      rfl
  | null | bool b | string s | array items | object members => cases h

mutual

theorem depth_sanitize (v : Json ν) : depth (sanitize finite v) = depth v := by
  cases v with
  | number n =>
      rw [sanitize]
      split <;> simp [depth]
  | array items => rw [sanitize, depth, depth, depthItems_sanitize]
  | object members => rw [sanitize, depth, depth, depthMembers_sanitize]
  | null | bool b | string s => rw [sanitize]

theorem depthItems_sanitize (items : List (Json ν)) :
    depthItems (sanitizeItems finite items) = depthItems items := by
  cases items with
  | nil => rw [sanitizeItems]
  | cons v vs =>
      rw [sanitizeItems, depthItems, depthItems, depth_sanitize v, depthItems_sanitize vs]

theorem depthMembers_sanitize (members : List (CStr × Json ν)) :
    depthMembers (sanitizeMembers finite members) = depthMembers members := by
  cases members with
  | nil => rw [sanitizeMembers]
  | cons m ms =>
      rw [sanitizeMembers, depthMembers, depthMembers, depth_sanitize m.2,
        depthMembers_sanitize ms]

end

end Sanitize

section Finite

attribute [local simp] sanitize sanitizeItems sanitizeMembers

variable {finite : ν → Bool}

mutual

/-- A value all of whose numbers have digits is read back as it is. -/
theorem sanitize_eq_self (hfinite : ∀ n, finite n = true) (v : Json ν) :
    sanitize finite v = v := by
  cases v with
  | number n => rw [sanitize, if_pos (hfinite n)]
  | array items => rw [sanitize, sanitizeItems_eq_self hfinite items]
  | object members => rw [sanitize, sanitizeMembers_eq_self hfinite members]
  | null | bool b | string s => rw [sanitize]

theorem sanitizeItems_eq_self (hfinite : ∀ n, finite n = true) (items : List (Json ν)) :
    sanitizeItems finite items = items := by
  cases items with
  | nil => rw [sanitizeItems]
  | cons v vs => rw [sanitizeItems, sanitize_eq_self hfinite v, sanitizeItems_eq_self hfinite vs]

theorem sanitizeMembers_eq_self (hfinite : ∀ n, finite n = true)
    (members : List (CStr × Json ν)) : sanitizeMembers finite members = members := by
  cases members with
  | nil => rw [sanitizeMembers]
  | cons m ms =>
      rw [sanitizeMembers, sanitize_eq_self hfinite m.2, sanitizeMembers_eq_self hfinite ms]

end

end Finite

end Json

/-- A JSON package; its numbers are doubles. -/
structure JsonLib (ν : Type) where
  /-- `cJSON_Parse`. -/
  parse : CStr → Option (Json ν)
  /-- `cJSON_PrintUnformatted`. -/
  printUnformatted : Json ν → Option CStr
  /-- `(int)` of a number. -/
  toInt : ν → Int
  /-- `(double)` of an integer. -/
  ofInt : Int → ν
  /-- The number is finite. -/
  finite : ν → Bool
  /-- A number as it is printed. -/
  numberText : ν → List UInt8

/-- `CJSON_NESTING_LIMIT`. -/
def jsonNestingLimit : Nat := 1000

namespace JsonLib

variable {ν : Type} (json : JsonLib ν)

/-- A double holds every 32-bit integer, and what converts to one is finite. -/
structure Numbers : Prop where
  toInt_ofInt : ∀ n : Int, -2 ^ 31 ≤ n → n < 2 ^ 31 → json.toInt (json.ofInt n) = n
  finite_ofInt : ∀ n, json.finite (json.ofInt n) = true
  finite_of_toInt : ∀ x, json.toInt x = 2 → json.finite x = true

/-- A value is printed without blanks, and its text is read back unless it is nested too deeply. -/
def Rereads (v : Json ν) : Prop :=
  ∃ text, json.printUnformatted v = some text ∧ text.val = v.compact json.numberText ∧
    json.parse text =
      if v.depth ≤ jsonNestingLimit then some (v.sanitize json.finite) else none

end JsonLib

end JppDos
