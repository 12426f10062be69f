/-
Module: LoxLang.Literal
Purpose: Constants that a program can write down, and how listings show them.
Main exports: Literal, Literal.listing
-/
import LoxLang.Number
import LoxLang.Text.Quoted

namespace LoxLang

/-- A constant of the language. -/
inductive Literal where
  | nil
  | bool (value : Bool)
  | number (value : Float)
  | string (value : String)
deriving Repr, Inhabited

/-- The text of a constant in a listing. -/
def Literal.listing : Literal → String
  | .nil => "None"
  | .bool true => "True"
  | .bool false => "False"
  | .number value => Number.listing value
  | .string value => Text.quoted value

end LoxLang
