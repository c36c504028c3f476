import Yuml.Value.Display
import Yuml.Source.Lines

namespace Yuml

inductive Failure
  | unreadable (reason : Text)
  | malformed (e : Utf8.Malformed)
  | missingKind
  | invalidKind (given : Value)
  | unsupportedEngine (given : Value)
  | unsupportedFormat (given : Value)
  | notAMapping
  | notANumber
  | invalidNumber (given : Text)
  | numberTooLarge
  | unknownOpener (c : Char)
  | cyclicGraph
  | missingLayer
  | noSuchLayer
  | missingPlace
  | unknownNode
  | malformedXml
  | shortViewBox (count : Nat)
  | longViewBox
  | flatIcon
  | outermostPlaceholder

namespace Failure

def ofSource : Source.Failure → Failure
  | .malformed e => malformed e
  | .unreadable reason => unreadable reason

def message? : Failure → Option Text
  | unreadable reason => some reason
  | malformed e => some e.message
  | missingKind => some "Missing mandatory 'type' directive"
  | invalidKind given => some ("Invalid diagram type: " ++ given.shown)
  | unsupportedEngine given =>
    some ("Unsupported layout engine " ++ given.shown ++ "; supported: dot")
  | unsupportedFormat given =>
    some ("Unsupported output format " ++ given.shown ++ "; supported: svg")
  | invalidNumber given => some ("could not convert string to float: " ++ Text.quoted given)
  | shortViewBox count =>
    some ("not enough values to unpack (expected 4, got " ++ Text.ofNat count ++ ")")
  | longViewBox => some "too many values to unpack (expected 4)"
  | _ => none

end Failure

end Yuml
