import CardText.Pattern.Sketch
import CardText.Tree

/-!
# Plain clauses

A clause is an optional subject, a verb, a direct and an indirect object. The subject can be read
as short or as long as possible; the clause is accepted only if both readings end the verb at the
same place.
-/

namespace CardText.Pattern

/-- A clause taken apart. The parts joined in order give the clause back. -/
structure Reading where
  subject : List Lexeme
  verb : List Lexeme
  direct : List Lexeme
  indirect : List Lexeme

namespace Reading

def afterVerb (r : Reading) : Nat := r.direct.length + r.indirect.length

def extend (l : Lexeme) (r : Reading) : Reading := { r with subject := l :: r.subject }

def toNode (r : Reading) : Node :=
  .branch .sentence (Node.leaf? .subject r.subject ++ Node.leaf? .verb r.verb ++
    Node.leaf? .directObject r.direct ++ Node.leaf? .indirectObject r.indirect)

end Reading

/-- The objects: the direct one is as short as can be, and the indirect one begins with a
preposition that something follows. -/
def objects? : List Lexeme → Option (List Lexeme × List Lexeme)
  | [] => some ([], [])
  | l :: rest =>
    if isClass .preposition l && !rest.isEmpty && rest.all isClausePart then some ([], l :: rest)
    else if isClausePart l then
      (objects? rest).map fun (direct, indirect) => (l :: direct, indirect)
    else none

def verb? : List Lexeme → Option (List Lexeme × List Lexeme)
  | [] => none
  | [l] => if isClass .verb l then some ([l], []) else none
  | l :: m :: rest =>
    if isClass .modal l && isClass .verb m then some ([l, m], rest)
    else if isClass .verb l then some ([l], m :: rest)
    else none

def verbFirst? (ls : List Lexeme) : Option Reading := do
  let (verb, rest) ← verb? ls
  let (direct, indirect) ← objects? rest
  return ⟨[], verb, direct, indirect⟩

def shortest? : List Lexeme → Option Reading
  | [] => none
  | l :: rest =>
    match verbFirst? (l :: rest) with
    | some r => some r
    | none => if isClausePart l then (shortest? rest).map (.extend l) else none

def longest? : List Lexeme → Option Reading
  | [] => none
  | l :: rest =>
    match if isClausePart l then (longest? rest).map (.extend l) else none with
    | some r => some r
    | none => verbFirst? (l :: rest)

def clause (ls : List Lexeme) : Except Refusal Node :=
  match shortest? ls, longest? ls with
  | some short, some long =>
    if short.afterVerb = long.afterVerb then .ok short.toNode else .error (.twoReadings ls)
  | _, _ => .error (.noSentence ls)

end CardText.Pattern
