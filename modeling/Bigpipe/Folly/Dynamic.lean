import Bigpipe.Lib.Insertions
import Bigpipe.Lib.Json
import Bigpipe.Lib.Throws
import Mathlib.Data.Rat.Init

/-!
# `Bigpipe.Folly.Dynamic`: what the program uses of `folly::dynamic`

`folly` is not part of the repository. `Folly` is a parameter of the
model: its parser and printer of JSON, and the texts it makes. The
functions over it are the operations of `folly::dynamic` that the
program calls, with the exceptions they throw. An exception is its
`what()`.

An object is the list of its insertions: a later field of the same
name takes the place of an earlier one, and the order of different
names means nothing. `Same` is the equality of `folly::dynamic` on
objects of strings, and `Folly.Lawful` says that parsing undoes
printing on these. `Folly.Reads` says more of the parser:
`folly::parseJson` is a parser of one value, which stops behind that
value, and then demands that nothing is left of the text.

Files are read whole through `std::ifstream`: a file that cannot be
opened reads as the empty text.
-/

set_option autoImplicit false

namespace Bigpipe

open Bigpipe.Lib (Json Throws lastOf_concat lastOf_of_mem mem_of_lastOf)

/-- A number of a `folly::dynamic`: an `int64_t` or a `double`. -/
inductive Number where
  | int (i : Int)
  | double (x : ℚ)

/-- `folly::dynamic`: a JSON value whose numbers are those of
`Number`. -/
abbrev Dynamic := Json Number

/-- `std::unordered_map<std::string, β>`. -/
abbrev UnorderedMap (β : Type) := AList fun _ : String => β

/-- What the program uses of the `folly` library. Nothing is assumed
of it here. A theorem that relies on the parser or the printer says so
by a hypothesis, such as `Folly.Lawful`. -/
structure Folly where
  /-- `folly::parseJson`. -/
  parseJson : String → Except String Dynamic
  /-- `folly::toJson`. -/
  toJson : Dynamic → String
  /-- A number as a string. -/
  numberText : Number → String
  /-- A boolean as a string. -/
  boolText : Bool → String
  /-- The text of `folly::TypeError`: the type that was expected, and
  the value. -/
  typeError : String → Dynamic → String

/-- The file system: the content of the file with a name, and nothing
where no file can be opened under the name. `ifstream` tells nobody,
and the content that is read is then empty. -/
def FileSystem := String → Option String

/-- The text that `std::ifstream` gives of a file. Nobody tests
whether the file is open, so a file that is not there reads as the
empty text. -/
def FileSystem.read (fs : FileSystem) (name : String) : String :=
  (fs name).getD ""

/-- The value of a field: the last insertion under the key. The parser
keeps the last field of a name, too. -/
def field (key : String) (fields : List (String × Dynamic)) : Option Dynamic :=
  fields.reverse.lookup key

namespace Folly

variable (folly : Folly)

/-- `asString`. Numbers and booleans have a text, and the other values
throw. -/
def asString : Dynamic → Except String String
  | .str s => .ok s
  | .num n => .ok (folly.numberText n)
  | .bool b => .ok (folly.boolText b)
  | d => .error (folly.typeError "int/double/bool/string" d)

/-- `operator[]` with a string. A field that is missing is inserted as
null. No caller looks at the object again, so only the value is
returned. -/
def index (d : Dynamic) (key : String) : Except String Dynamic :=
  match d with
  | .obj fields => .ok ((field key fields).getD .null)
  | .arr _ => .error (folly.typeError "int64" (.str key))
  | d => .error (folly.typeError "object/array" d)

/-- `count` of a string. -/
def count (d : Dynamic) (key : String) : Except String Nat :=
  match d with
  | .obj fields => .ok (if (field key fields).isSome then 1 else 0)
  | d => .error (folly.typeError "object" d)

/-- `items`. -/
def items : Dynamic → Except String (List (String × Dynamic))
  | .obj fields => .ok fields
  | d => .error (folly.typeError "object" d)

/-- `dict[key].asString()`. -/
def stringAt (dict : Dynamic) (key : String) : Except String String := do
  folly.asString (← folly.index dict key)

end Folly

/-! ### Objects of strings -/

/-- A string, or an object of such values with different keys. These
are the values that the messages of the program are printed from. -/
inductive OfStrings : Dynamic → Prop where
  | str (s : String) : OfStrings (.str s)
  | obj {fields : List (String × Dynamic)} (hkeys : (fields.map Prod.fst).Nodup)
      (hfields : ∀ f ∈ fields, OfStrings f.2) : OfStrings (.obj fields)

/-- An object whose fields are strings. -/
theorem OfStrings.of_str {fields : List (String × Dynamic)}
    (hkeys : (fields.map Prod.fst).Nodup) (hfields : ∀ f ∈ fields, ∃ s, f.2 = .str s) :
    OfStrings (.obj fields) := by
  refine .obj hkeys fun f hf => ?_
  obtain ⟨s, hs⟩ := hfields f hf
  rw [hs]
  exact .str s

/-- Equality of objects of strings: equal fields, in any order. It is
the one that a round trip can have, since an `unordered_map` fixes no
order of its entries. -/
inductive Same : Dynamic → Dynamic → Prop where
  | str (s : String) : Same (.str s) (.str s)
  | obj {fields fields' : List (String × Dynamic)}
      (hkeys : ∀ key, (field key fields).isSome = (field key fields').isSome)
      (hfields : ∀ key d d', field key fields = some d → field key fields' = some d' →
        Same d d') : Same (.obj fields) (.obj fields')

/-- `folly::parseJson` undoes `folly::toJson` on objects of strings,
up to the order of the fields. Numbers are left out: the messages
print none but an error code, which nobody reads back. -/
structure Folly.Lawful (folly : Folly) : Prop where
  parseJson_toJson : ∀ d, OfStrings d →
    ∃ d', folly.parseJson (folly.toJson d) = .ok d' ∧ OfStrings d' ∧ Same d d'

/-! ### Texts of several objects -/

/-- A string, or an integer that fits an `int64_t`. -/
inductive IsScalar : Dynamic → Prop where
  | str (s : String) : IsScalar (.str s)
  | int {i : Int} (hlow : -2 ^ 63 ≤ i) (hhigh : i < 2 ^ 63) : IsScalar (.num (.int i))

/-- Different keys with such values: the fields of a flat object. -/
structure IsFlat (fields : List (String × Dynamic)) : Prop where
  keys : (fields.map Prod.fst).Nodup
  values : ∀ f ∈ fields, IsScalar f.2

/-- What a value parser gives for the flat object with these fields:
an object with the same fields, inserted in any order. The order is
lost in a hash table, and no reader of the object can tell. -/
def IsReadAs (fields : List (String × Dynamic)) (d : Dynamic) : Prop :=
  ∃ fields', d = .obj fields' ∧ ∀ key, field key fields' = field key fields

/-- `folly::parseJson` reads a value with `parseValue`, which stops
behind it, skips the white space that follows, and throws if something
is left. `parseValue` undoes `folly::toJson` on flat objects in front
of any text, since an object ends with its own brace. -/
structure Folly.Reads (folly : Folly) (parseValue : List Char → Option (Dynamic × List Char)) :
    Prop where
  /-- An object is printed with its brace in front. -/
  toJson_brace : ∀ fields, IsFlat fields →
    ∃ cs, (folly.toJson (.obj fields)).toList = '\x7b' :: cs
  parseValue_toJson : ∀ fields, IsFlat fields → ∀ rest, ∃ d,
    parseValue ((folly.toJson (.obj fields)).toList ++ rest) = some (d, rest) ∧ IsReadAs fields d
  parseJson_end : ∀ text d, parseValue text.toList = some (d, []) → folly.parseJson text = .ok d
  parseJson_left : ∀ text d c rest, parseValue text.toList = some (d, c :: rest) →
    c.isWhitespace = false → c ≠ '\x00' → ∃ what, folly.parseJson text = .error what

/-! ### Fields -/

theorem field_nil (key : String) : field key [] = none := rfl

/-- The last insertion wins. -/
theorem field_concat (key : String) (fields : List (String × Dynamic)) (f : String × Dynamic) :
    field key (fields ++ [f]) = if key = f.1 then some f.2 else field key fields :=
  lastOf_concat key fields f

/-- A field that is found is one of the fields. -/
theorem mem_of_field {key : String} {fields : List (String × Dynamic)} {d : Dynamic}
    (h : field key fields = some d) : (key, d) ∈ fields :=
  mem_of_lastOf h

/-- With different keys every field is found. -/
theorem field_of_mem {key : String} {fields : List (String × Dynamic)} {d : Dynamic}
    (hkeys : (fields.map Prod.fst).Nodup) (h : (key, d) ∈ fields) :
    field key fields = some d :=
  lastOf_of_mem hkeys h

/-- An object of strings is the same as itself. -/
theorem Same.refl {d : Dynamic} (h : OfStrings d) : Same d d := by
  induction h with
  | str s => exact .str s
  | obj hkeys hfields ih =>
      refine .obj (fun key => rfl) fun key d d' hd hd' => ?_
      rw [hd] at hd'
      cases hd'
      exact ih _ (mem_of_field hd)

/-- Equality of objects of strings is symmetric. -/
theorem Same.symm {d d' : Dynamic} (h : Same d d') : Same d' d := by
  induction h with
  | str s => exact .str s
  | obj hkeys hfields ih =>
      refine .obj (fun key => (hkeys key).symm) fun key d d' hd hd' => ?_
      exact ih key d' d hd' hd

/-- Only a string is the same as a string. -/
theorem Same.eq_str {s : String} {d : Dynamic} (h : Same (.str s) d) : d = .str s := by
  cases h
  rfl

/-- Only an object is the same as an object. -/
theorem Same.eq_obj {fields : List (String × Dynamic)} {d : Dynamic} (h : Same (.obj fields) d) :
    ∃ fields', d = .obj fields' := by
  cases h
  exact ⟨_, rfl⟩

/-- The same objects have the same fields. -/
theorem Same.exists_field {fields fields' : List (String × Dynamic)}
    (h : Same (.obj fields) (.obj fields')) {key : String} {d : Dynamic}
    (hd : field key fields = some d) : ∃ d', field key fields' = some d' ∧ Same d d' := by
  cases h with
  | obj hkeys hfields =>
      have hsome := hkeys key
      rw [hd] at hsome
      obtain ⟨d', hd'⟩ := Option.isSome_iff_exists.mp hsome.symm
      exact ⟨d', hd', hfields key d d' hd hd'⟩

/-- The keys of an object of strings are different. -/
theorem OfStrings.nodup {fields : List (String × Dynamic)} (h : OfStrings (.obj fields)) :
    (fields.map Prod.fst).Nodup := by
  cases h with
  | obj hkeys hfields => exact hkeys

/-- The fields of an object of strings are objects of strings. -/
theorem OfStrings.of_mem {fields : List (String × Dynamic)} (h : OfStrings (.obj fields))
    {f : String × Dynamic} (hf : f ∈ fields) : OfStrings f.2 := by
  cases h with
  | obj hkeys hfields => exact hfields f hf

end Bigpipe
