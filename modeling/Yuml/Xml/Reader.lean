import Yuml.Xml.Item
import Yuml.Xml.Prolog

namespace Yuml.Xml

structure Open where
  name : Text
  attributes : Attributes
  content : List Markup

def build? : List Open → List (Event Text) → Option Markup
  | [], .opening name attributes :: events => build? [⟨name, attributes, []⟩] events
  | o :: os, .opening name attributes :: events => build? (⟨name, attributes, []⟩ :: o :: os) events
  | o :: os, .text s :: events => build? ({ o with content := .text s :: o.content } :: os) events
  | o :: os, .closing name :: events =>
    if o.name = name then
      let done : Markup := .element o.name o.attributes o.content.reverse
      match os, events with
      | [], [] => some done
      | outer :: os, _ => build? ({ outer with content := done :: outer.content } :: os) events
      | [], _ :: _ => none
    else none
  | _, _ => none

def document (s : Text) : Expansion Markup := do
  let fuel := s.length + 1
  let (standsAlone, s) ← takeXmlDeclaration? s
  let (d, s) ← Doctype.take { standsAlone } (← skipMisc? fuel s)
  let (events, rest) ← takeElement? (← skipMisc? fuel s)
  guard (← skipMisc? fuel rest).isEmpty
  build? [] (← d.content d.depth [] events)

def read? (source : Text) : Option Markup := do
  let s := Text.unifyLineEnds source
  guard (s.all isLegal)
  let s := (Text.dropPrefix? [Char.ofNat 0xFEFF] s).getD s
  (document s).run' (Expansion.allowance (Text.byteSize s))

end Yuml.Xml
