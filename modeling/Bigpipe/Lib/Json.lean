import Mathlib.Algebra.BigOperators.Group.List.Basic
import Mathlib.Data.List.TakeDrop
import Mathlib.Data.List.TakeWhile

/-!
# `Bigpipe.Lib.Json`: compact JSON texts

JSON values over any type of numbers, their compact text, and a parser
that reads such texts. Strings are escaped as JSON demands and no
further. The parser takes fuel, and the length of the text is always
enough: every step of it consumes a character or goes into a part of
the value that has a shorter text.

The numbers are a parameter because they are what libraries differ in.
`Numerals` says how they are written and read, and the round trip asks
of them only that a number is read back in front of any text that
cannot continue it. All the rest of a value ends with a character of
its own: a string with its quote, an array with its bracket, an object
with its brace. So an object can be read back in front of any text at
all, also in front of another object, which is what a reader of
several values in one text needs.

* `Numerals`: how numbers are written and read. `intNumerals_reads`:
  integers.
* `parseChars_escape`: reading back an escaped string.
* `parseValue_print`: reading back a value in front of any text that
  cannot continue a number.
* `parse_toText`: the parser undoes the printer on values whose
  numbers are read back.
* `read_obj`: an object is read back in front of any text, and
  `parse_eq_some_iff`: a text is one value where nothing is left
  behind it.
* `readAll_flatMap`: with any parser that reads each of some values
  back in front of any text, they are read back one after another.
-/

set_option autoImplicit false

namespace Bigpipe.Lib

/-- A JSON value with numbers `N`. The fields of an object are a list,
in the order in which they stand in the text, and a name may come
twice. -/
inductive Json (N : Type) where
  | null
  | bool (b : Bool)
  | num (n : N)
  | str (s : String)
  | arr (elems : List (Json N))
  | obj (fields : List (String × Json N))

/-- How numbers are written, and how one is read at the start of a
text. -/
structure Numerals (N : Type) where
  print : N → List Char
  parse : List Char → Option (N × List Char)

namespace Json

/-! ### Strings -/

/-- A character inside a string literal. The quote, the backslash and
the control characters are escaped, the latter by a letter where JSON
has one for them and by their code otherwise. -/
def escapeChar (c : Char) : List Char :=
  if c = '"' then ['\\', '"']
  else if c = '\\' then ['\\', '\\']
  else if c = '\x08' then ['\\', 'b']
  else if c = '\x0c' then ['\\', 'f']
  else if c = '\n' then ['\\', 'n']
  else if c = '\r' then ['\\', 'r']
  else if c = '\t' then ['\\', 't']
  else if c.toNat < 32 then
    ['\\', 'u', '0', '0', Nat.digitChar (c.toNat / 16), Nat.digitChar (c.toNat % 16)]
  else [c]

/-- The characters of a string literal, up to and with its closing
quote. -/
def escape : List Char → List Char
  | [] => ['"']
  | c :: s => escapeChar c ++ escape s

/-- The value of a hexadecimal digit. -/
def hexValue (c : Char) : Option Nat :=
  (List.range 16).find? fun n => Nat.digitChar n = c

/-- The character that a letter after a backslash stands for. A code
point in hexadecimal digits is read elsewhere. -/
def unescape (c : Char) : Option Char :=
  if c = 'b' then some '\x08'
  else if c = 'f' then some '\x0c'
  else if c = 'n' then some '\n'
  else if c = 'r' then some '\r'
  else if c = 't' then some '\t'
  else if c = '"' ∨ c = '\\' ∨ c = '/' then some c
  else none

/-- Reads the rest of a string literal, up to and with its closing
quote. It gives the characters and what is left of the text. A raw
control character is an error, as JSON says. -/
def parseChars : List Char → Option (List Char × List Char)
  | [] => none
  | '"' :: rest => some ([], rest)
  | '\\' :: 'u' :: a :: b :: c :: d :: rest =>
    match hexValue a, hexValue b, hexValue c, hexValue d with
    | some a, some b, some c, some d =>
      (parseChars rest).map fun (s, rest) =>
        (Char.ofNat (((a * 16 + b) * 16 + c) * 16 + d) :: s, rest)
    | _, _, _, _ => none
  | '\\' :: c :: rest =>
    match unescape c with
    | some c => (parseChars rest).map fun (s, rest) => (c :: s, rest)
    | none => none
  | c :: rest =>
    if c.toNat < 32 then none else (parseChars rest).map fun (s, rest) => (c :: s, rest)

theorem hexValue_digitChar : ∀ n < 16, hexValue (Nat.digitChar n) = some n := by decide

/-- A character that starts no escape and ends no string. -/
theorem parseChars_cons {c : Char} (hquote : c ≠ '"') (hback : c ≠ '\\') (rest : List Char) :
    parseChars (c :: rest) =
      if c.toNat < 32 then none else (parseChars rest).map fun (s, rest) => (c :: s, rest) := by
  rw [parseChars.eq_def]
  split <;> simp_all

/-- Reading back one escaped character. The cases are those of the
escape: a letter behind a backslash, a code point, or the character
itself. -/
theorem parseChars_escapeChar (c : Char) (rest : List Char) :
    parseChars (escapeChar c ++ rest) =
      (parseChars rest).map fun (s, rest) => (c :: s, rest) := by
  unfold escapeChar
  by_cases h₁ : c = '"'
  · subst h₁
    rfl
  by_cases h₂ : c = '\\'
  · subst h₂
    rfl
  by_cases h₃ : c = '\x08'
  · subst h₃
    rfl
  by_cases h₄ : c = '\x0c'
  · subst h₄
    rfl
  by_cases h₅ : c = '\n'
  · subst h₅
    rfl
  by_cases h₆ : c = '\r'
  · subst h₆
    rfl
  by_cases h₇ : c = '\t'
  · subst h₇
    rfl
  -- What is left are the control characters without a letter and the plain
  -- characters.
  simp only [h₁, h₂, h₃, h₄, h₅, h₆, h₇, if_false]
  by_cases h₈ : c.toNat < 32
  · -- The four hexadecimal digits give the code of the character back.
    have hhigh := hexValue_digitChar (c.toNat / 16) (by omega)
    have hlow := hexValue_digitChar (c.toNat % 16) (by omega)
    have hzero : hexValue '0' = some 0 := hexValue_digitChar 0 (by decide)
    have hcode : ((0 * 16 + 0) * 16 + c.toNat / 16) * 16 + c.toNat % 16 = c.toNat := by omega
    rw [if_pos h₈]
    show parseChars ('\\' :: 'u' :: '0' :: '0' :: _ :: _ :: rest) = _
    simp only [parseChars, hhigh, hlow, hzero, hcode, Char.ofNat_toNat]
  · rw [if_neg h₈]
    show parseChars (c :: rest) = _
    rw [parseChars_cons h₁ h₂, if_neg h₈]

/-- Reading back an escaped string. The rest of the text may be
anything, since an escaped string has no quote but the last. -/
theorem parseChars_escape (s rest : List Char) :
    parseChars (escape s ++ rest) = some (s, rest) := by
  induction s with
  | nil => rfl
  | cons c s ih =>
      rw [escape, List.append_assoc, parseChars_escapeChar, ih]
      rfl

/-! ### Numbers -/

/-- The text does not start with a digit. A number in front of such a
text ends where it was meant to end. -/
def NoDigit (rest : List Char) : Prop :=
  ∀ c ∈ rest.head?, c.isDigit = false

/-- Reads the digits of a number. -/
def parseNat (input : List Char) : Option (Nat × List Char) :=
  match input.span Char.isDigit with
  | ([], _) => none
  | (digits, rest) => some (Nat.ofDigitChars 10 digits 0, rest)

/-- Reading back a number. The digits are taken as long as there are
any, which is why the rest must not start with one. -/
theorem parseNat_toDigits (n : Nat) {rest : List Char} (hrest : NoDigit rest) :
    parseNat (Nat.toDigits 10 n ++ rest) = some (n, rest) := by
  have hdigits : ∀ c ∈ Nat.toDigits 10 n, c.isDigit = true := fun c hc =>
    Nat.isDigit_of_mem_toDigits (by decide) (by decide) hc
  have hspan : (Nat.toDigits 10 n ++ rest).span Char.isDigit = (Nat.toDigits 10 n, rest) := by
    rw [List.span_eq_takeWhile_dropWhile, List.takeWhile_append_of_pos hdigits,
      List.dropWhile_append_of_pos hdigits]
    cases rest with
    | nil => simp
    | cons c rest =>
        have hc : c.isDigit = false := hrest c rfl
        simp [hc]
  -- `parseNat` looks at the first digit, which `toDigits` does not show.
  have hvalue := Nat.ofDigitChars_ten_toDigits (n := n)
  have hne : Nat.toDigits 10 n ≠ [] := Nat.toDigits_ne_nil
  generalize Nat.toDigits 10 n = digits at hspan hvalue hne
  cases digits with
  | nil => exact absurd rfl hne
  | cons d ds =>
      rw [parseNat, hspan]
      show some (Nat.ofDigitChars 10 (d :: ds) 0, rest) = _
      rw [hvalue]

/-- The number is written with a sign or a digit in front, and is read
back before any text that cannot continue it. -/
structure Reads {N : Type} (numerals : Numerals N) (n : N) : Prop where
  start : ∃ c cs, numerals.print n = c :: cs ∧ (c = '-' ∨ c.isDigit = true)
  parse_print : ∀ rest, NoDigit rest →
    numerals.parse (numerals.print n ++ rest) = some (n, rest)

/-- Integers in decimal notation, with a minus sign in front of a
negative one. -/
def intNumerals : Numerals Int where
  print i := if i < 0 then '-' :: Nat.toDigits 10 i.natAbs else Nat.toDigits 10 i.natAbs
  parse input :=
    match input with
    | '-' :: rest => (parseNat rest).map fun (n, rest) => (-n, rest)
    | _ => (parseNat input).map fun (n, rest) => (n, rest)

/-- A number starts with a digit. -/
theorem toDigits_cons (n : Nat) :
    ∃ d ds, Nat.toDigits 10 n = d :: ds ∧ d.isDigit = true := by
  have hdigits : ∀ c ∈ Nat.toDigits 10 n, c.isDigit = true := fun c hc =>
    Nat.isDigit_of_mem_toDigits (by decide) (by decide) hc
  have hne : Nat.toDigits 10 n ≠ [] := Nat.toDigits_ne_nil
  obtain ⟨d, ds, h⟩ := List.exists_cons_of_ne_nil hne
  exact ⟨d, ds, h, hdigits d (by rw [h]; exact List.mem_cons_self)⟩

/-- Without a sign the digits are the number. -/
theorem intNumerals_parse_digit {d : Char} (hd : d.isDigit = true) (rest : List Char) :
    intNumerals.parse (d :: rest) = (parseNat (d :: rest)).map fun (n, rest) => (n, rest) := by
  unfold intNumerals
  simp only
  split
  · rename_i heq
    cases heq
    exact absurd hd (by decide)
  · rfl

/-- Every integer is read back, a negative one behind its sign. -/
theorem intNumerals_reads (i : Int) : Reads intNumerals i := by
  obtain ⟨d, ds, h, hd⟩ := toDigits_cons i.natAbs
  by_cases hi : i < 0
  · have hvalue : -(i.natAbs : Int) = i := by omega
    have hprint : intNumerals.print i = '-' :: Nat.toDigits 10 i.natAbs := if_pos hi
    refine ⟨⟨_, _, hprint, .inl rfl⟩, fun rest hrest => ?_⟩
    rw [hprint]
    show (parseNat (Nat.toDigits 10 i.natAbs ++ rest)).map _ = _
    rw [parseNat_toDigits _ hrest]
    show some (-(i.natAbs : Int), rest) = _
    rw [hvalue]
  · have hvalue : (i.natAbs : Int) = i := by omega
    have hprint : intNumerals.print i = Nat.toDigits 10 i.natAbs := if_neg hi
    refine ⟨⟨d, ds, hprint.trans h, .inr hd⟩, fun rest hrest => ?_⟩
    rw [hprint, h, List.cons_append, intNumerals_parse_digit hd, ← List.cons_append, ← h,
      parseNat_toDigits _ hrest]
    show some ((i.natAbs : Int), rest) = _
    rw [hvalue]

/-! ### Values -/

section

variable {N : Type} (numerals : Numerals N)

mutual

/-- The compact text of a value: no white space between the tokens,
and the fields in their order. -/
def print : Json N → List Char
  | .null => ['n', 'u', 'l', 'l']
  | .bool true => ['t', 'r', 'u', 'e']
  | .bool false => ['f', 'a', 'l', 's', 'e']
  | .num n => numerals.print n
  | .str s => '"' :: escape s.toList
  | .arr elems => '[' :: printElems true elems
  | .obj fields => '\x7b' :: printFields true fields
termination_by structural j => j

/-- The elements of an array, up to and with the closing bracket.
`first` says whether the comma in front of the next element is left
out. -/
def printElems (first : Bool) : List (Json N) → List Char
  | [] => [']']
  | j :: elems => (if first then [] else [',']) ++ (print j ++ printElems false elems)
termination_by structural elems => elems

/-- The fields of an object, up to and with the closing brace. -/
def printFields (first : Bool) : List (String × Json N) → List Char
  | [] => ['\x7d']
  | f :: fields => (if first then [] else [',']) ++ (printField f ++ printFields false fields)
termination_by structural fields => fields

/-- A field of an object. -/
def printField : String × Json N → List Char
  | (key, j) => '"' :: (escape key.toList ++ ':' :: print j)
termination_by structural f => f

end

/-- Reads the comma in front of every element but the first. The same
function serves for arrays and for objects. -/
def parseComma (first : Bool) (input : List Char) : Option (List Char) :=
  if first then some input
  else
    match input with
    | ',' :: rest => some rest
    | _ => none

mutual

/-- Reads a value at the start of the text, and gives it with what is
left of the text. The first characters decide which kind of value it
is, and whatever does not start as one of the other kinds is given to
the numerals. -/
def parseValue : Nat → List Char → Option (Json N × List Char)
  | 0, _ => none
  | fuel + 1, input =>
    match input with
    | 'n' :: 'u' :: 'l' :: 'l' :: rest => some (.null, rest)
    | 't' :: 'r' :: 'u' :: 'e' :: rest => some (.bool true, rest)
    | 'f' :: 'a' :: 'l' :: 's' :: 'e' :: rest => some (.bool false, rest)
    | '"' :: rest => (parseChars rest).map fun (s, rest) => (.str (String.ofList s), rest)
    | '[' :: rest => (parseElems fuel true rest).map fun (elems, rest) => (.arr elems, rest)
    | '\x7b' :: rest =>
      (parseFields fuel true rest).map fun (fields, rest) => (.obj fields, rest)
    | _ => (numerals.parse input).map fun (n, rest) => (.num n, rest)

/-- Reads the elements of an array, up to and with the closing
bracket. -/
def parseElems : Nat → Bool → List Char → Option (List (Json N) × List Char)
  | 0, _, _ => none
  | fuel + 1, first, input =>
    match input with
    | ']' :: rest => some ([], rest)
    | _ =>
      (parseComma first input).bind fun input =>
        (parseValue fuel input).bind fun (j, rest) =>
          (parseElems fuel false rest).map fun (elems, rest) => (j :: elems, rest)

/-- Reads the fields of an object, up to and with the closing
brace. -/
def parseFields : Nat → Bool → List Char → Option (List (String × Json N) × List Char)
  | 0, _, _ => none
  | fuel + 1, first, input =>
    match input with
    | '\x7d' :: rest => some ([], rest)
    | _ =>
      (parseComma first input).bind fun input =>
        (parseField fuel input).bind fun (f, rest) =>
          (parseFields fuel false rest).map fun (fields, rest) => (f :: fields, rest)

/-- Reads a field of an object: its key, a colon and its value. The
fuel goes down with each level of nesting, so that the functions of
the parser are structural. -/
def parseField : Nat → List Char → Option ((String × Json N) × List Char)
  | 0, _ => none
  | fuel + 1, input =>
    match input with
    | '"' :: rest =>
      match parseChars rest with
      | some (key, ':' :: rest) =>
        (parseValue fuel rest).map fun (j, rest) => ((String.ofList key, j), rest)
      | _ => none
    | _ => none

end

/-- The compact text of a value. -/
def toText (j : Json N) : String :=
  String.ofList (j.print numerals)

/-- Reads a text that is one value. Nothing may be left behind it, not
even white space, which a compact text does not have. -/
def parse (text : String) : Option (Json N) :=
  match parseValue numerals text.length text.toList with
  | some (j, []) => some j
  | _ => none

/-! ### The round trip -/

/-- All numbers of a value are read back. A value without numbers is
always readable. -/
inductive Readable : Json N → Prop where
  | null : Readable .null
  | bool (b : Bool) : Readable (.bool b)
  | num {n : N} (h : Reads numerals n) : Readable (.num n)
  | str (s : String) : Readable (.str s)
  | arr {elems : List (Json N)} (h : ∀ j ∈ elems, Readable j) : Readable (.arr elems)
  | obj {fields : List (String × Json N)} (h : ∀ f ∈ fields, Readable f.2) :
      Readable (.obj fields)

@[simp] theorem readable_str (s : String) : Readable numerals (.str s) := .str s

/-- The numbers of an array are those of its elements. -/
@[simp] theorem readable_arr_iff {elems : List (Json N)} :
    Readable numerals (.arr elems) ↔ ∀ j ∈ elems, Readable numerals j := by
  constructor
  · intro h
    cases h with
    | arr h => exact h
  · exact .arr

/-- The numbers of an object are those of its fields. -/
@[simp] theorem readable_obj_iff {fields : List (String × Json N)} :
    Readable numerals (.obj fields) ↔ ∀ f ∈ fields, Readable numerals f.2 := by
  constructor
  · intro h
    cases h with
    | obj h => exact h
  · exact .obj

/-- The characters a value may start with. None of them closes an
array or an object, so the parser tells an element from the end of the
list by one character. -/
def IsStart (c : Char) : Prop :=
  c ∈ ['n', 't', 'f', '"', '[', '\x7b', '-'] ∨ c.isDigit = true

/-- The closing bracket is none of them. -/
theorem IsStart.ne_bracket {c : Char} (h : IsStart c) : c ≠ ']' := by
  intro heq
  subst heq
  exact absurd h (by unfold IsStart; decide)

variable {numerals}

/-- The text of a value starts with one of these characters. So the
parser sees at the first character which kind of value it has to
read. -/
theorem print_cons {j : Json N} (hj : Readable numerals j) :
    ∃ c cs, j.print numerals = c :: cs ∧ IsStart c := by
  cases hj with
  | null => exact ⟨_, _, rfl, .inl (by decide)⟩
  | bool b => cases b <;> exact ⟨_, _, rfl, .inl (by decide)⟩
  | str s => exact ⟨_, _, rfl, .inl (by decide)⟩
  | arr h => exact ⟨_, _, rfl, .inl (by decide)⟩
  | obj h => exact ⟨_, _, rfl, .inl (by decide)⟩
  | num h =>
      obtain ⟨c, cs, heq, hc⟩ := h.start
      refine ⟨c, cs, heq, ?_⟩
      rcases hc with rfl | hc
      · exact .inl (by decide)
      · exact .inr hc

/-- So no text of a value is empty, which is what the fuel of the
parser rests on. -/
theorem length_print_pos {j : Json N} (hj : Readable numerals j) :
    0 < (j.print numerals).length := by
  obtain ⟨c, cs, h, -⟩ := print_cons hj
  rw [h]
  exact Nat.succ_pos _

variable (numerals) in
theorem length_printField_pos (f : String × Json N) : 0 < (printField numerals f).length := by
  obtain ⟨key, j⟩ := f
  exact Nat.succ_pos _

/-- What follows an element or a field never continues a number. -/
theorem noDigit_printElems (elems : List (Json N)) (rest : List Char) :
    NoDigit (printElems numerals false elems ++ rest) := by
  intro c hc
  cases elems <;> cases hc <;> rfl

theorem noDigit_printFields (fields : List (String × Json N)) (rest : List Char) :
    NoDigit (printFields numerals false fields ++ rest) := by
  intro c hc
  cases fields <;> cases hc <;> rfl

/-- The first character of an element with its comma. -/
theorem printElems_cons (first : Bool) {j : Json N} (hj : Readable numerals j)
    (elems : List (Json N)) :
    ∃ c cs, printElems numerals first (j :: elems) = c :: cs ∧ c ≠ ']' := by
  obtain ⟨c, cs, h, hc⟩ := print_cons hj
  rw [printElems, h]
  cases first with
  | true => exact ⟨c, _, rfl, hc.ne_bracket⟩
  | false => exact ⟨',', _, rfl, by decide⟩

variable (numerals) in
/-- The first character of a field with its comma. -/
theorem printFields_cons (first : Bool) (f : String × Json N)
    (fields : List (String × Json N)) :
    ∃ c cs, printFields numerals first (f :: fields) = c :: cs ∧ c ≠ '\x7d' := by
  obtain ⟨key, j⟩ := f
  cases first with
  | true => exact ⟨'"', _, rfl, by decide⟩
  | false => exact ⟨',', _, rfl, by decide⟩

/-- Reading back a number. What follows it must not be a digit, as the
numeral ends at the first character that is none. -/
theorem parseValue_num {n : N} (hn : Reads numerals n) (fuel : Nat) {rest : List Char}
    (hrest : NoDigit rest) :
    parseValue numerals (fuel + 1) ((Json.num n).print numerals ++ rest) =
      some (.num n, rest) := by
  obtain ⟨c, cs, h, hc⟩ := hn.start
  have hnumber : parseValue numerals (fuel + 1) (c :: (cs ++ rest)) =
      (numerals.parse (c :: (cs ++ rest))).map fun (n, rest) => (.num n, rest) := by
    rw [parseValue.eq_def]
    simp only
    -- No other kind of value starts with a sign or a digit.
    split <;> first
      | rfl
      | (rename_i heq; obtain ⟨rfl, -⟩ := List.cons.inj heq; exact absurd hc (by decide))
  rw [print, h, List.cons_append, hnumber, ← List.cons_append, ← h, hn.parse_print rest hrest]
  rfl

/-- After the comma of an element, if it has one, comes its text. -/
theorem parseComma_append (first : Bool) (input : List Char) :
    parseComma first ((if first then [] else [',']) ++ input) = some input := by
  cases first <;> rfl

/-- What does not start with a closing bracket is read as an
element. -/
theorem parseElems_cons (fuel : Nat) (first : Bool) {c : Char} (hc : c ≠ ']')
    (input : List Char) :
    parseElems numerals (fuel + 1) first (c :: input) =
      (parseComma first (c :: input)).bind fun input =>
        (parseValue numerals fuel input).bind fun (j, rest) =>
          (parseElems numerals fuel false rest).map fun (elems, rest) => (j :: elems, rest) := by
  rw [parseElems.eq_def]
  simp only
  split <;> first | rfl | (rename_i heq; cases heq; exact absurd rfl hc)

/-- What does not start with a closing brace is read as a field. -/
theorem parseFields_cons (fuel : Nat) (first : Bool) {c : Char} (hc : c ≠ '\x7d')
    (input : List Char) :
    parseFields numerals (fuel + 1) first (c :: input) =
      (parseComma first (c :: input)).bind fun input =>
        (parseField numerals fuel input).bind fun (f, rest) =>
          (parseFields numerals fuel false rest).map fun (fields, rest) => (f :: fields, rest) := by
  rw [parseFields.eq_def]
  simp only
  split <;> first | rfl | (rename_i heq; cases heq; exact absurd rfl hc)

/-- After the key of a field comes its value. -/
theorem parseField_escape (fuel : Nat) (key rest : List Char) :
    parseField numerals (fuel + 1) ('"' :: (escape key ++ ':' :: rest)) =
      (parseValue numerals fuel rest).map fun (j, rest) => ((String.ofList key, j), rest) := by
  simp only [parseField, parseChars_escape]

mutual

/-- Reading back a value. Each constructor reads back its parts with
less fuel, which the shorter texts of the parts allow.

The four theorems go through the value together, as the four printers
do. The fuel is any that is at least the length of the text, so that
the parts can be read with what their wholes have left. -/
theorem parseValue_print : ∀ (j : Json N) (fuel : Nat) (rest : List Char),
    Readable numerals j → (j.print numerals).length ≤ fuel → NoDigit rest →
      parseValue numerals fuel (j.print numerals ++ rest) = some (j, rest)
  | j, 0, rest, hj, hfuel, _ => by
      have hpos := length_print_pos hj
      omega
  | .null, fuel + 1, rest, _, _, _ => rfl
  | .bool true, fuel + 1, rest, _, _, _ => rfl
  | .bool false, fuel + 1, rest, _, _, _ => rfl
  | .num n, fuel + 1, rest, hj, _, hrest => by
      cases hj with
      | num hn => exact parseValue_num hn fuel hrest
  | .str s, fuel + 1, rest, _, _, _ => by
      show (parseChars (escape s.toList ++ rest)).map _ = _
      -- The literal ends at its own closing quote, whatever follows.
      rw [parseChars_escape]
      show some (Json.str (String.ofList s.toList), rest) = _
      rw [String.ofList_toList]
  | .arr elems, fuel + 1, rest, hj, hfuel, _ => by
      have helems : ∀ j ∈ elems, Readable numerals j := by
        cases hj with
        | arr h => exact h
      have hlength : (printElems numerals true elems).length ≤ fuel := by
        simpa [print] using hfuel
      show (parseElems numerals fuel true (printElems numerals true elems ++ rest)).map _ = _
      -- The opening bracket pays for the fuel.
      rw [parseElems_print elems true fuel rest helems hlength, Option.map_some]
  | .obj fields, fuel + 1, rest, hj, hfuel, _ => by
      have hfields : ∀ f ∈ fields, Readable numerals f.2 := by
        cases hj with
        | obj h => exact h
      have hlength : (printFields numerals true fields).length ≤ fuel := by
        simpa [print] using hfuel
      show (parseFields numerals fuel true (printFields numerals true fields ++ rest)).map _ = _
      rw [parseFields_print fields true fuel rest hfields hlength, Option.map_some]

/-- Reading back the elements of an array. Behind each element comes a
comma or the closing bracket, neither of which continues a number. -/
theorem parseElems_print : ∀ (elems : List (Json N)) (first : Bool) (fuel : Nat)
    (rest : List Char), (∀ j ∈ elems, Readable numerals j) →
      (printElems numerals first elems).length ≤ fuel →
      parseElems numerals fuel first (printElems numerals first elems ++ rest)
        = some (elems, rest)
  | [], first, 0, rest, _, hfuel => by simp [printElems] at hfuel
  | [], first, fuel + 1, rest, _, _ => rfl
  | j :: elems, first, 0, rest, helems, hfuel => by
      obtain ⟨c, cs, h, -⟩ := printElems_cons first (helems j List.mem_cons_self) elems
      rw [h] at hfuel
      simp at hfuel
  | j :: elems, first, fuel + 1, rest, helems, hfuel => by
      have hj : Readable numerals j := helems j List.mem_cons_self
      obtain ⟨c, cs, h, hc⟩ := printElems_cons first hj elems
      have hsplit : printElems numerals first (j :: elems) =
          (if first then [] else [',']) ++
            (j.print numerals ++ printElems numerals false elems) := by
        rw [printElems]
      have hpos := length_print_pos hj
      -- The element and what follows it have at least one character each, so
      -- both texts are shorter than the fuel.
      have hlength := congrArg List.length hsplit
      simp only [List.length_append] at hlength
      have hclose : 0 < (printElems numerals false elems).length := by
        cases elems <;> simp [printElems]
      rw [h, List.cons_append, parseElems_cons fuel first hc, ← List.cons_append, ← h, hsplit,
        List.append_assoc, parseComma_append, Option.bind_some, List.append_assoc,
        parseValue_print j fuel _ hj (by omega) (noDigit_printElems elems rest)]
      show (parseElems numerals fuel false (printElems numerals false elems ++ rest)).map _ = _
      rw [parseElems_print elems false fuel rest
        (fun j hj => helems j (List.mem_cons_of_mem _ hj)) (by omega), Option.map_some]

/-- Reading back the fields of an object, as the elements of an
array. -/
theorem parseFields_print : ∀ (fields : List (String × Json N)) (first : Bool) (fuel : Nat)
    (rest : List Char), (∀ f ∈ fields, Readable numerals f.2) →
      (printFields numerals first fields).length ≤ fuel →
      parseFields numerals fuel first (printFields numerals first fields ++ rest)
        = some (fields, rest)
  | [], first, 0, rest, _, hfuel => by simp [printFields] at hfuel
  | [], first, fuel + 1, rest, _, _ => rfl
  | f :: fields, first, 0, rest, _, hfuel => by
      obtain ⟨c, cs, h, -⟩ := printFields_cons numerals first f fields
      rw [h] at hfuel
      simp at hfuel
  | f :: fields, first, fuel + 1, rest, hfields, hfuel => by
      obtain ⟨c, cs, h, hc⟩ := printFields_cons numerals first f fields
      have hsplit : printFields numerals first (f :: fields) =
          (if first then [] else [',']) ++
            (printField numerals f ++ printFields numerals false fields) := by
        rw [printFields]
      have hpos := length_printField_pos numerals f
      -- Both parts are shorter than the fuel here too.
      have hlength := congrArg List.length hsplit
      simp only [List.length_append] at hlength
      have hclose : 0 < (printFields numerals false fields).length := by
        cases fields <;> simp [printFields]
      rw [h, List.cons_append, parseFields_cons fuel first hc, ← List.cons_append, ← h, hsplit,
        List.append_assoc, parseComma_append, Option.bind_some, List.append_assoc,
        parseField_print f fuel _ (hfields f List.mem_cons_self) (by omega)
          (noDigit_printFields fields rest)]
      show (parseFields numerals fuel false (printFields numerals false fields ++ rest)).map _ = _
      rw [parseFields_print fields false fuel rest
        (fun f hf => hfields f (List.mem_cons_of_mem _ hf)) (by omega), Option.map_some]

/-- Reading back a field. The fuel that is left for the value is
enough, since the key and the colon are part of the length of the
field. -/
theorem parseField_print : ∀ (f : String × Json N) (fuel : Nat) (rest : List Char),
    Readable numerals f.2 → (printField numerals f).length ≤ fuel → NoDigit rest →
      parseField numerals fuel (printField numerals f ++ rest) = some (f, rest)
  | (key, j), 0, rest, _, hfuel, _ => by simp [printField] at hfuel
  | (key, j), fuel + 1, rest, hj, hfuel, hrest => by
      have hlength : (j.print numerals).length ≤ fuel := by
        simp only [printField, List.length_cons, List.length_append] at hfuel
        omega
      have htext : printField numerals (key, j) ++ rest =
          '"' :: (escape key.toList ++ ':' :: (j.print numerals ++ rest)) := by
        simp [printField]
      rw [htext, parseField_escape, parseValue_print j fuel rest hj hlength hrest]
      show some ((String.ofList key.toList, j), rest) = _
      rw [String.ofList_toList]

end

/-- The parser undoes the printer. The length of the text is enough
fuel, and behind the value there is nothing, which cannot continue a
number either. -/
theorem parse_toText {j : Json N} (hj : Readable numerals j) :
    parse numerals (j.toText numerals) = some j := by
  have hread := parseValue_print j (j.print numerals).length [] hj (Nat.le_refl _)
    (fun c hc => nomatch hc)
  rw [List.append_nil] at hread
  rw [parse, toText, String.length_ofList, String.toList_ofList, hread]

/-! ### Values in front of other text -/

variable (numerals) in
/-- Reads a value at the start of a text, with the fuel that is always
enough. -/
def read (input : List Char) : Option (Json N × List Char) :=
  parseValue numerals input.length input

/-- A text is one value where nothing is left behind the value at its
start. -/
theorem parse_eq_some_iff {text : String} {j : Json N} :
    parse numerals text = some j ↔ read numerals text.toList = some (j, []) := by
  rw [parse, read, String.length_toList]
  split
  · rename_i j' heq
    rw [heq]
    simp
  · rename_i hne
    refine iff_of_false nofun fun heq => ?_
    exact hne _ heq

/-- An object ends with its own brace, so it is read back in front of
any text. Its numbers are followed by a comma or by the brace,
whatever comes behind the object. -/
theorem read_obj {fields : List (String × Json N)} (h : ∀ f ∈ fields, Readable numerals f.2)
    (rest : List Char) :
    read numerals ((Json.obj fields).print numerals ++ rest) = some (.obj fields, rest) := by
  have hlength : (printFields numerals true fields).length ≤
      (printFields numerals true fields ++ rest).length := by simp
  -- The opening brace pays for the fuel.
  show (parseFields numerals (printFields numerals true fields ++ rest).length true
    (printFields numerals true fields ++ rest)).map _ = _
  rw [parseFields_print fields true _ rest h hlength, Option.map_some]

end

/-! ### Several values -/

/-- Reads one value after another with `read`, up to the end of the
text. The fuel bounds the number of values. -/
def readMany {α : Type} (read : List Char → Option (α × List Char)) :
    Nat → List Char → Option (List α)
  | _, [] => some []
  | 0, _ :: _ => none
  | fuel + 1, c :: input =>
    (read (c :: input)).bind fun (a, rest) => (readMany read fuel rest).map fun as => a :: as

/-- The length of the text is enough for all its values. -/
def readAll {α : Type} (read : List Char → Option (α × List Char)) (input : List Char) :
    Option (List α) :=
  readMany read input.length input

section

variable {α β : Type} {read : List Char → Option (α × List Char)} {text : β → List Char}
  {R : β → α → Prop}

/-- What is read back at the start of any text, with fuel for each.
`R` is what a value that was printed is read back as, which need not
be the value itself: the fields of an object may come back in another
order. -/
theorem readMany_flatMap {bs : List β} (hne : ∀ b ∈ bs, text b ≠ [])
    (hread : ∀ b ∈ bs, ∀ rest, ∃ a, read (text b ++ rest) = some (a, rest) ∧ R b a) {fuel : Nat}
    (hfuel : bs.length ≤ fuel) :
    ∃ as, readMany read fuel (bs.flatMap text) = some as ∧ List.Forall₂ R bs as := by
  induction bs generalizing fuel with
  | nil => exact ⟨[], by cases fuel <;> rfl, .nil⟩
  | cons b bs ih =>
      cases fuel with
      | zero => cases hfuel
      | succ fuel =>
          obtain ⟨as, has, hall⟩ := ih (fun b hb => hne b (List.mem_cons_of_mem _ hb))
            (fun b hb => hread b (List.mem_cons_of_mem _ hb)) (Nat.le_of_succ_le_succ hfuel)
          obtain ⟨a, ha, hR⟩ := hread b List.mem_cons_self (bs.flatMap text)
          obtain ⟨c, cs, htext⟩ := List.exists_cons_of_ne_nil (hne b List.mem_cons_self)
          refine ⟨a :: as, ?_, .cons hR hall⟩
          rw [List.flatMap_cons, htext, List.cons_append, readMany, ← List.cons_append, ← htext, ha]
          show (readMany read fuel (bs.flatMap text)).map _ = _
          rw [has, Option.map_some]

/-- Texts that are read back at the start of any text are read back
one after another. -/
theorem readAll_flatMap {bs : List β} (hne : ∀ b ∈ bs, text b ≠ [])
    (hread : ∀ b ∈ bs, ∀ rest, ∃ a, read (text b ++ rest) = some (a, rest) ∧ R b a) :
    ∃ as, readAll read (bs.flatMap text) = some as ∧ List.Forall₂ R bs as := by
  refine readMany_flatMap hne hread ?_
  rw [List.length_flatMap]
  have hle := List.length_le_sum_of_one_le (bs.map fun b => (text b).length) fun n hn => by
    obtain ⟨b, hb, rfl⟩ := List.mem_map.mp hn
    exact List.length_pos_iff.mpr (hne b hb)
  rwa [List.length_map] at hle

end

end Json

end Bigpipe.Lib
