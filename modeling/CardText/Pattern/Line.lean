import CardText.Pattern.Clause
import CardText.Pattern.Keyword

/-!
# Lines and whole texts by pattern

The deterministic stage: a line is cut at its first colon, its first comma or its full stops, and
every piece must be a plain clause. What it cannot cut this way is left to the general grammar.
-/

namespace CardText.Pattern

open Vocabulary

def cutAt? (t : Token) : List Lexeme → Option (List Lexeme × List Lexeme)
  | [] => none
  | l :: rest =>
    if l.token = t then some ([], rest)
    else (cutAt? t rest).map fun (before, after) => (l :: before, after)

def dropAbilityWord (ls : List Lexeme) : List Lexeme :=
  match ls.takeWhile (·.token.isAnyWord), ls.dropWhile (·.token.isAnyWord) with
  | _ :: _, ⟨.emDash, _, _⟩ :: rest => rest
  | _, _ => ls

def isPhasePart (l : Lexeme) : Bool :=
  isClass .plain l || l.token == .possessive || l.token.isReference

def phase? (ls : List Lexeme) : Option (Lexeme × List Lexeme × List Lexeme) :=
  match ls with
  | at' :: rest =>
    let rest := if rest.head?.any (·.isWord "the") then rest.drop 1 else rest
    match rest with
    | when :: of' :: rest =>
      if at'.isWord "at" && (when.isWord "beginning" || when.isWord "end") && of'.isWord "of" then
        match rest.takeWhile isPhasePart, rest.dropWhile isPhasePart with
        | phase@(_ :: _), ⟨.comma, _, _⟩ :: rest => some (when, phase, rest)
        | _, _ => none
      else none
    | _ => none
  | [] => none

def isLoyaltyItem : List Lexeme → Bool
  | [⟨.signed _, _, _⟩] | [⟨.number _, _, _⟩] => true
  | _ => false

def costItem (ls : List Lexeme) : Except Refusal Node :=
  if !ls.isEmpty && ls.all isSymbol then .ok (.ofSymbols .mana ls)
  else if isLoyaltyItem ls then .ok (.leaf .loyalty ls)
  else clause ls

def cost (ls : List Lexeme) : Except Refusal Node :=
  ((Lexeme.splitOn .comma ls).mapM costItem).map (.branch .cost)

def effects (ls : List Lexeme) : Except Refusal Node :=
  match Lexeme.dropLast .period ls with
  | [] => .error .noEffects
  | ls =>
    ((Lexeme.splitOn .period ls).mapM fun piece =>
      (clause piece).map fun s => .branch .atomicEffect [s]).map (.branch .effects)

def withEffects (head : List Node) (ls : List Lexeme) : Except Refusal Node :=
  (effects ls).map fun e => .branch .ability (head ++ [e])

def eventTrigger (when : Lexeme) (ls : List Lexeme) : Except Refusal Node := do
  let some (event, rest) := cutAt? .comma ls | .error .triggerWithoutComma
  let s ← clause event
  withEffects [⟨.trigger .event, [when], [s]⟩] rest

def phaseTrigger (ls : List Lexeme) : Except Refusal Node := do
  let some (when, phase, rest) := phase? ls | .error (.noPhase ls)
  withEffects [.branch (.trigger .phase) [.leaf .verb [when], .leaf .subject phase]] rest

def ability (line : List Lexeme) : Except Refusal Node :=
  match dropAbilityWord line with
  | [] => .error .emptyLine
  | first :: rest =>
    match cutAt? .colon (first :: rest) with
    | some (before, after) => do
      let c ← cost before
      withEffects [c] after
    | none =>
      if first.token.isWordOf isTrigger then eventTrigger first rest
      else if first.isWord "at" then phaseTrigger (first :: rest)
      else withEffects [] (first :: rest)

def dropBullet : List Lexeme → List Lexeme
  | ⟨.bullet, _, _⟩ :: rest => rest
  | ls => ls

def line (ls : List Lexeme) : Except Refusal Node :=
  match keywordLine? (dropBullet ls) with
  | some n => .ok n
  | none => ability (dropBullet ls)

def rulesText (ls : List Lexeme) : Except Refusal Node :=
  if ls.isEmpty then .ok (.branch .rulesText [])
  else ((Lexeme.splitOn .newline ls).mapM line).map (.branch .rulesText)

def typeLine (ls : List Lexeme) : Except Refusal Node :=
  let isSuper (l : Lexeme) := l.token.isWordOf isSupertype
  let isType (l : Lexeme) := l.token.isWordOf isCardType
  let types := ls.dropWhile isSuper
  let front := Node.leaves .supertype (ls.takeWhile isSuper) ++
    Node.leaves .cardType (types.takeWhile isType)
  match types.takeWhile isType, types.dropWhile isType with
  | _ :: _, [] => .ok (.branch .typeLine front)
  | _ :: _, ⟨.emDash, _, _⟩ :: subtypes =>
    if !subtypes.isEmpty && subtypes.all (·.token.isAnyWord) then
      .ok (.branch .typeLine (front ++ Node.leaves .subtype subtypes))
    else .error (.noTypeLine ls)
  | _, _ => .error (.noTypeLine ls)

def manaCost (ls : List Lexeme) : Except Refusal Node :=
  if ls.all isSymbol then .ok (.ofSymbols .manaCost ls) else .error (.notSymbols ls)

end CardText.Pattern
