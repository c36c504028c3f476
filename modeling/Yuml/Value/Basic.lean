import Yuml.Diagram.Vocabulary
import Yuml.Number.Binary

namespace Yuml

inductive Value
  | none
  | bool (b : Bool)
  | int (n : Int)
  | float (x : Float)
  | text (s : Text)
  | list (items : List Value)
  | mapping (entries : List (Value × Value))
  | direction (d : Direction)
  | kind (k : DiagramKind)

namespace Value

def isTrue : Value → Bool
  | none => false
  | bool b => b
  | int n => n != 0
  | float x => x != 0
  | text s => !s.isEmpty
  | list items => !items.isEmpty
  | mapping entries => !entries.isEmpty
  | direction _ => true
  | kind _ => true

def isNone : Value → Bool
  | none => true
  | _ => false

def isText (s : Text) : Value → Bool
  | text t => t == s
  | _ => false

def rational? : Value → Option Rat
  | bool b => some (if b then 1 else 0)
  | int n => some n
  | float x => (Number.Double.ofFloat x).toRat?
  | _ => Option.none

def sameKey (v w : Value) : Bool :=
  match v, w with
  | text s, text t => s == t
  | none, none => true
  | _, _ =>
    match rational? v, rational? w with
    | some x, some y => x == y
    | _, _ => false

def insertKey (k v : Value) : List (Value × Value) → List (Value × Value)
  | [] => [(k, v)]
  | (k', v') :: rest => if k.sameKey k' then (k', v) :: rest else (k', v') :: insertKey k v rest

def ofPairs (pairs : List (Value × Value)) : Value :=
  mapping (pairs.foldl (fun m p => insertKey p.1 p.2 m) [])

def lookup (key : Text) (entries : List (Value × Value)) : Option Value :=
  (entries.find? (·.1.isText key)).map (·.2)

end Value

end Yuml
