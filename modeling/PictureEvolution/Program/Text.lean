import PictureEvolution.Program.Element

/-!
# The text of a program

A program is written between parentheses with its elements separated by single spaces. Literals are
written as `true`, `false` or in decimal, names as they are, and blocks as programs.
-/

namespace PictureEvolution

def Literal.text : Literal → String
  | bool true => "true"
  | bool false => "false"
  | int n => toString n

namespace Element

mutual

def text : Element → String
  | literal value => value.text
  | instruction name => name
  | block elements => "(" ++ textAll elements ++ ")"

def textAll : List Element → String
  | [] => ""
  | [e] => text e
  | e :: rest => text e ++ " " ++ textAll rest

end

end Element

def Program.text (p : Program) : String := (Element.block p).text

end PictureEvolution
