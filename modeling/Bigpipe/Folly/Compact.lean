import Bigpipe.Folly.Conversions

/-!
# `Bigpipe.Folly.Compact`: a `folly` that prints and reads compact JSON

`compactFolly` instantiates the parameter `Folly`. On strings,
objects, arrays, integers, booleans and null it prints what
`folly::toJson` prints. A double is printed as its integer part. It
reads the texts that it prints.

It serves two ends. The hypotheses that theorems make about `folly`
are proved of it, so they can be met together. And it computes, so a
run of the program on a concrete request or file can be evaluated. No
theorem about the program is stated for it alone where the library
matters.
-/

set_option autoImplicit false

namespace Bigpipe

open Bigpipe.Lib

/-- Integers in decimal notation, and doubles by their integer
part. -/
def compactNumerals : Numerals Number where
  print
    | .int i => Json.intNumerals.print i
    | .double x => Json.intNumerals.print x.floor
  parse input := (Json.intNumerals.parse input).map fun (i, rest) => (.int i, rest)

/-- The name of the type of a value in the text of
`folly::TypeError`. -/
def typeName : Dynamic → String
  | .null => "null"
  | .bool _ => "boolean"
  | .num (.int _) => "int64"
  | .num (.double _) => "double"
  | .str _ => "string"
  | .arr _ => "array"
  | .obj _ => "object"

/-- A `folly` of compact JSON. Its parser takes a text that is one
value in the compact form, and nothing else. -/
def compactFolly : Folly where
  parseJson text :=
    match Json.parse compactNumerals text with
    | some d => .ok d
    | none => .error "json parse error"
  toJson d := d.toText compactNumerals
  numberText n := String.ofList (compactNumerals.print n)
  boolText b := if b then "1" else "0"
  typeError expected d :=
    "TypeError: expected dynamic type `" ++ expected ++ "', but had type `" ++ typeName d ++ "'"

/-- Conversions that change no number, where texts are decimal
integers. A double has to be an integer in the range of `int64_t` to
become one. -/
def compactConversions : Conversions where
  checkInt x :=
    if x.den = 1 ∧ Int64.minValue.toInt ≤ x.num ∧ x.num ≤ Int64.maxValue.toInt then .ok ()
    else .error "Loss of precision during arithmetic conversion"
  checkDouble i :=
    -- Every integer up to `2 ^ 53` is a `double`.
    if i.natAbs ≤ 9007199254740992 then .ok ()
    else .error "Loss of precision during arithmetic conversion"
  textToInt text :=
    match Json.intNumerals.parse text.toList with
    | some (i, []) => .ok i
    | _ => .error "Invalid leading character"
  textToDouble text :=
    match Json.intNumerals.parse text.toList with
    | some (i, []) => .ok i
    | _ => .error "Unable to convert string to floating point value"

/-- An integer is read back. -/
theorem compactNumerals_reads (i : Int) : Json.Reads compactNumerals (.int i) where
  start := (Json.intNumerals_reads i).start
  parse_print rest hrest := by
    show (Json.intNumerals.parse (Json.intNumerals.print i ++ rest)).map _ = _
    rw [(Json.intNumerals_reads i).parse_print rest hrest]
    rfl

/-- An integer can be read back. -/
@[simp] theorem readable_int (i : Int) : Json.Readable compactNumerals (.num (.int i)) :=
  .num (compactNumerals_reads i)

/-- An object of strings has no numbers to misread. -/
theorem readable_of_ofStrings {d : Dynamic} (h : OfStrings d) :
    Json.Readable compactNumerals d := by
  induction h with
  | str s => exact .str s
  | obj hkeys hfields ih => exact .obj ih

/-- What has no numbers to misread is read back. -/
theorem compactFolly_parseJson_readable {d : Dynamic} (h : Json.Readable compactNumerals d) :
    compactFolly.parseJson (compactFolly.toJson d) = .ok d := by
  show (match Json.parse compactNumerals (d.toText compactNumerals) with
    | some d => Except.ok d
    | none => Except.error "json parse error") = _
  rw [Json.parse_toText h]

/-- Compact JSON is read back. -/
theorem compactFolly_parseJson {d : Dynamic} (h : OfStrings d) :
    compactFolly.parseJson (compactFolly.toJson d) = .ok d :=
  compactFolly_parseJson_readable (readable_of_ofStrings h)

/-- A flat object has no numbers to misread. -/
theorem readable_of_isFlat {fields : List (String × Dynamic)} (h : IsFlat fields) :
    ∀ f ∈ fields, Json.Readable compactNumerals f.2 := by
  rintro ⟨key, d⟩ hf
  cases h.values _ hf with
  | str s => exact .str s
  | int => exact readable_int _

/-- The parser of compact JSON stops behind a value. So it can be used
on a text in which several objects stand one behind the other. -/
theorem compactFolly_reads : compactFolly.Reads (Json.read compactNumerals) where
  toJson_brace fields _ := ⟨_, String.toList_ofList⟩
  parseValue_toJson fields hflat rest := by
    refine ⟨.obj fields, ?_, fields, rfl, fun _ => rfl⟩
    show Json.read compactNumerals
      ((String.ofList ((Json.obj fields).print compactNumerals)).toList ++ rest) = _
    rw [String.toList_ofList]
    exact Json.read_obj (readable_of_isFlat hflat) rest
  parseJson_end text d h := by
    simp only [compactFolly, Json.parse_eq_some_iff.mpr h]
  parseJson_left text d c rest h _ _ := by
    have hnone : Json.parse compactNumerals text = none := by
      rw [Option.eq_none_iff_forall_ne_some]
      intro d' hd'
      cases h.symm.trans (Json.parse_eq_some_iff.mp hd')
    exact ⟨"json parse error", by simp only [compactFolly, hnone]⟩

/-- It undoes its printer on objects of strings, and keeps even the
order of the fields. -/
theorem compactFolly_lawful : compactFolly.Lawful where
  parseJson_toJson d h := ⟨d, compactFolly_parseJson h, h, .refl h⟩

end Bigpipe
