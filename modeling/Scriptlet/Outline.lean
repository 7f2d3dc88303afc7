import Scriptlet.Text.Escape
import Scriptlet.Text.Shown

/-!
# Record notation

A notation for nested data: records with named fields, constructors with
arguments, lists, and atoms.  It has a form on one line,

    Token { kind: Identifier, literal: "x", index: 0 }

and a form over many lines, in which every part stands on lines of its own, four
spaces further in, and ends in a comma.
-/

namespace Scriptlet

/-- Data to be shown. -/
inductive Outline where
  | atom (text : String)
  /-- A constructor with arguments. -/
  | apply (name : String) (arguments : List Outline)
  | record (name : String) (fields : List (String × Outline))
  | list (items : List Outline)

namespace Outline

/-- Puts a text in front of the first of some lines. -/
def leadWith (text : String) : List String → List String
  | [] => [text]
  | first :: rest => (text ++ first) :: rest

/-- Puts a text after the last of some lines. -/
def endWith (text : String) : List String → List String
  | [] => [text]
  | [last] => [last ++ text]
  | first :: rest => first :: endWith text rest

/-- The lines of a part: one step in, with a comma at the end. -/
def part (lines : List String) : List String := (endWith "," lines).map ("    " ++ ·)

mutual

/-- The form over many lines. -/
def lines : Outline → List String
  | .atom text => [text]
  | .apply name arguments => (name ++ "(") :: itemLines arguments ++ [")"]
  | .record name fields => (name ++ " \x7b") :: fieldLines fields ++ ["\x7d"]
  | .list items => if items.isEmpty then ["[]"] else "[" :: itemLines items ++ ["]"]

/-- The lines of arguments or items. -/
def itemLines : List Outline → List String
  | [] => []
  | first :: rest => part (lines first) ++ itemLines rest

/-- The lines of fields. -/
def fieldLines : List (String × Outline) → List String
  | [] => []
  | (name, value) :: rest => part (leadWith (name ++ ": ") (lines value)) ++ fieldLines rest

end

mutual

/-- The form on one line. -/
def line : Outline → String
  | .atom text => text
  | .apply name arguments => name ++ "(" ++ ", ".intercalate (itemTexts arguments) ++ ")"
  | .record name fields => name ++ " \x7b " ++ ", ".intercalate (fieldTexts fields) ++ " \x7d"
  | .list items => "[" ++ ", ".intercalate (itemTexts items) ++ "]"

/-- The texts of arguments or items. -/
def itemTexts : List Outline → List String
  | [] => []
  | first :: rest => line first :: itemTexts rest

/-- The texts of fields. -/
def fieldTexts : List (String × Outline) → List String
  | [] => []
  | (name, value) :: rest => (name ++ ": " ++ line value) :: fieldTexts rest

end

/-- How a character is written between two `quote` characters. -/
def quotedChar (quote c : Char) : String :=
  if c = '\x00' then "\\0"
  else if c = '\t' then "\\t"
  else if c = '\r' then "\\r"
  else if c = '\n' then "\\n"
  else if c = Escape.backslash ∨ c = quote then String.ofList [Escape.backslash, c]
  else if Text.isShown c then String.singleton c
  else "\\u\x7b" ++ String.ofList (Nat.toDigits 16 c.toNat) ++ "\x7d"

/-- A string in double quotes. -/
def ofString (s : String) : Outline :=
  .atom ("\"" ++ String.join (s.toList.map (quotedChar Escape.doubleQuote)) ++ "\"")

/-- A character in single quotes. -/
def ofChar (c : Char) : Outline :=
  .atom ("'" ++ quotedChar Escape.singleQuote c ++ "'")

/-- A natural number. -/
def ofNat (n : Nat) : Outline := .atom (toString n)

/-- A Boolean. -/
def ofBool (b : Bool) : Outline := .atom (if b then "true" else "false")

/-- Something that may be absent. -/
def ofOption {α : Type} (f : α → Outline) : Option α → Outline
  | none => .atom "None"
  | some a => .apply "Some" [f a]

end Outline
end Scriptlet
