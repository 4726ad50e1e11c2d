import CallFlow.Json.Basic

/-! Writing JSON text: the shortest spelling, without blanks between the parts. -/

namespace CallFlow.Json

def separated : List (List Char) → List Char
  | [] => []
  | [s] => s
  | s :: rest => s ++ ',' :: separated rest

mutual

def chars : Json → List Char
  | .null => ['n', 'u', 'l', 'l']
  | .bool true => ['t', 'r', 'u', 'e']
  | .bool false => ['f', 'a', 'l', 's', 'e']
  | .number written => written.toList
  | .string written => '"' :: written.toList ++ ['"']
  | .array items => '[' :: separated (itemChars items) ++ [']']
  | .object members => '\x7b' :: separated (memberChars members) ++ ['\x7d']

def itemChars : List Json → List (List Char)
  | [] => []
  | j :: rest => j.chars :: itemChars rest

def memberChars : List (String × Json) → List (List Char)
  | [] => []
  | (name, j) :: rest => ('"' :: name.toList ++ '"' :: ':' :: j.chars) :: memberChars rest

end

def render (j : Json) : String := String.ofList j.chars

end CallFlow.Json
