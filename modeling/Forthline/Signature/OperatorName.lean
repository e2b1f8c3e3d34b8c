import Forthline.Failure

/-!
# Operator names

Host functions that implement words are named `op_` and the word's name, with the characters that
an identifier cannot hold spelled out.
-/

namespace Forthline.OperatorName

def spell : Char → List Char
  | '-' => ['_']
  | '!' => ['_', 'b']
  | '?' => ['_', 'q']
  | c => [c]

def ofWord (name : String) : String := "op_" ++ String.ofList (name.toList.flatMap spell)

def unspell : List Char → List Char
  | [] => []
  | '_' :: 'b' :: rest => '!' :: unspell rest
  | '_' :: 'q' :: rest => '?' :: unspell rest
  | c :: rest => (if c = '_' then '-' else c) :: unspell rest

def toWord (name : String) : Except Cause String :=
  match name.toList with
  | 'o' :: 'p' :: '_' :: rest => .ok (String.ofList (unspell rest))
  | _ => .error (.signature (.hostName name))

end Forthline.OperatorName
