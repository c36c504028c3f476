import Yuml.Notation.Token
import Yuml.Notation.Connector

namespace Yuml.Sequence

open Notation

structure Participant where
  name : Text
  fill : Option Text
  deriving DecidableEq, Repr

structure Message where
  sender : Text
  receiver : Text
  text : Text
  sending : Sending
  deriving DecidableEq, Repr

structure Script where
  participants : List Participant := []
  messages : List Message := []
  deriving DecidableEq, Repr

namespace Script

def meet (s : Script) (t : NodeToken) : Script :=
  let (name, fill) := splitStyle t.text
  if s.participants.any (·.name = name) then s
  else { s with participants := s.participants ++ [⟨name, fill⟩] }

def messageOf (l : Link) : Message :=
  let (text, sending) := readMessage l.connector
  ⟨l.tail.bare, l.head.bare, text, sending⟩

def takeTokens (s : Script) (ts : List Token) : Script :=
  let s := (nodes ts).foldl meet s
  { s with messages := s.messages ++ (links ts).map messageOf }

def ofTokens (lines : List (List Token)) : Script :=
  lines.foldl takeTokens {}

def parse (lines : List Text) : Script :=
  ofTokens (lines.map (split [.square]))

end Script

end Yuml.Sequence
