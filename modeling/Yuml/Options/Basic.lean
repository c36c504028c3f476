import Yuml.Failure

namespace Yuml

structure Settings where
  direction : Direction
  kind : DiagramKind
  isDark : Bool
  overrides : Value
  generate : Value

structure Draft where
  direction : Direction := .topDown
  kind : Value := .kind .classes
  isDark : Bool := false
  overrides : Value := .none
  generate : Value := .none

abbrev Warning := Text

namespace Draft

def directionOf? (v : Value) : Option Direction :=
  match v with
  | .direction d => some d
  | _ => Direction.ofCode? (v.display.map Char.toUpper)

inductive Field
  | direction
  | kind
  | isDark
  | overrides
  | generate
  deriving DecidableEq, Repr

def Field.ofName? (name : Text) : Option Field :=
  [("dir", direction), ("direction", direction), ("type", kind), ("diagram_type", kind),
    ("isDark", isDark), ("is_dark", isDark), ("dotHeaderOverrides", overrides),
    ("header_overrides", overrides), ("generate", generate)].lookup (String.ofList name)

/-- Sets one option. An empty direction or kind changes nothing, an unknown direction is reported,
an unknown kind is kept until the options are settled. -/
def set (d : Draft) (v : Value) : Field → Draft × List Warning
  | .direction =>
    if !v.isTrue then (d, [])
    else match directionOf? v with
      | some dir => ({ d with direction := dir }, [])
      | none =>
        (d, ["Ignoring unknown direction " ++ v.shown ++ "; use one of " ++
          Text.joinWith ", " (Direction.all.map Direction.code)])
  | .kind =>
    match v with
    | .none => (d, [])
    | .text [] => (d, [])
    | .text s => ({ d with kind := ((DiagramKind.ofName? s).map .kind).getD v }, [])
    | _ => ({ d with kind := v }, [])
  | .isDark => ({ d with isDark := v.isTrue }, [])
  | .overrides => ({ d with overrides := v }, [])
  | .generate => ({ d with generate := v }, [])

def setAll (d : Draft) : List (Text × Value) → Draft × List Warning
  | [] => (d, [])
  | (name, v) :: rest =>
    match Field.ofName? name with
    | none => setAll d rest
    | some field =>
      let (d', first) := d.set v field
      let (d'', more) := setAll d' rest
      (d'', first ++ more)

def ofOptions (options : List (Text × Value)) : Draft × List Warning :=
  setAll {} options

def resolveKind (d : Draft) : Except Failure DiagramKind :=
  match d.kind with
  | .none => .error .missingKind
  | .kind k => .ok k
  | .text s =>
    match DiagramKind.ofName? s with
    | some k => .ok k
    | none => .error (.invalidKind d.kind)
  | _ => .error (.invalidKind d.kind)

def settle (d : Draft) : Except Failure Settings := do
  let kind ← d.resolveKind
  return ⟨d.direction, kind, d.isDark, d.overrides, d.generate⟩

end Draft

end Yuml
