import Headfirst.Fault
import Headfirst.Tree.View

namespace Headfirst

/-! Construct heads: the parenthesized group after a marker. -/

/-- The constructs an operand can be moved into. -/
inductive Construct where
  | matchArms
  | ifThen
  | ifLet
  | whileLoop
  | whileLet
  | forIn
  | loop
  | block
  | unsafeBlock
  | asyncBlock
  | tryBlock
  | reference
  | box
  | unary
  | letBinding
  | breakOut
  | returnOut
  | yieldOut
deriving DecidableEq, Repr

namespace Construct

def name : Construct → String
  | matchArms => "MATCH"
  | ifThen => "IF"
  | ifLet => "IF_LET"
  | whileLoop => "WHILE"
  | whileLet => "WHILE_LET"
  | forIn => "FOR_IN"
  | loop => "LOOP"
  | block => "BLOCK"
  | unsafeBlock => "UNSAFE"
  | asyncBlock => "ASYNC"
  | tryBlock => "TRY_BLOCK"
  | reference => "REFERENCE"
  | box => "BOX"
  | unary => "UNARY"
  | letBinding => "LET"
  | breakOut => "BREAK"
  | returnOut => "RETURN"
  | yieldOut => "YIELD"

def takesBody : Construct → Bool
  | matchArms | ifThen | ifLet | whileLoop | whileLet | forIn => true
  | _ => false

def takesElse : Construct → Bool
  | ifThen | ifLet => true
  | _ => false

def allowsLabel : Construct → Bool
  | whileLoop | whileLet | forIn | loop | block => true
  | _ => false

end Construct

/-- A construct head taken apart.  A part that the construct does not have is empty. -/
structure Head where
  construct : Construct
  /-- The lifetime and the colon of a labelled loop or block. -/
  label : List Tree := []
  keywords : List Token := []
  /-- What belongs to the keyword, such as the label after `break`. -/
  argument : List Tree := []
  pattern : List Tree := []
  link : Option Token := none
deriving Repr

namespace Head

/-- The trees of a head in the order in which they stand before the operand. -/
def trees (head : Head) : List Tree :=
  head.label ++ head.keywords.map .leaf ++ head.argument ++ head.pattern ++
    head.link.toList.map .leaf

def keywordText (keywords : List Token) : String :=
  " ".intercalate (keywords.map (·.text))

/-- A tree as it is named in messages. -/
def describe : Tree → String
  | .leaf token => token.text
  | .group bracket _ => bracket.delimiter.opening ++ "..." ++ bracket.delimiter.closing

def unknown (tree : Tree) : Failure :=
  ⟨.unknownConstruct (describe tree), tree.span, none⟩

def stray (construct : String) (tree : Tree) : Failure :=
  ⟨.strayInHead (describe tree) construct, tree.span, none⟩

def complete (construct : String) (head : Head) : (rest : List Tree) → Except Failure Head
  | [] => .ok head
  | tree :: _ => .error (stray construct tree)

/-- A head that goes on with a pattern and ends in a link. -/
def binding (head : Head) (link : String) (rest : List Tree) : Except Failure Head :=
  let keywords := keywordText head.keywords
  match rest.getLast?, rest.dropLast with
  | none, _ =>
      let span := head.keywords.getLast?.elim Span.nowhere fun token => (Tree.leaf token).span
      .error ⟨.noPattern keywords, span, none⟩
  | some (.leaf token), pattern =>
      let span := (Tree.leaf token).span
      if token.isKeyword link || token.isPunct link then
        if pattern.isEmpty then .error ⟨.noPatternBefore keywords link, span, none⟩
        else .ok { head with pattern, link := some token }
      else .error ⟨.noLink keywords link, span, none⟩
  | some (.group bracket children), _ =>
      .error ⟨.noLink keywords link, (Tree.group bracket children).span, none⟩

def condition (plain withLet : Construct) (label : List Tree) (keyword : Token) :
    (rest : List Tree) → Except Failure Head
  | [] => .ok { construct := plain, label, keywords := [keyword] }
  | .leaf second :: rest =>
      if second.isKeyword "let" then
        binding { construct := withLet, label, keywords := [keyword, second] } "=" rest
      else
        .error ⟨.conditionInHead second.text keyword.text, (Tree.leaf second).span, none⟩
  | tree :: _ => .error ⟨.conditionInHead (describe tree) keyword.text, tree.span, none⟩

/-- A head whose keyword may be followed by a second one. -/
def modified (construct : Construct) (what modifier : String) (label : List Tree)
    (keyword : Token) : (rest : List Tree) → Except Failure Head
  | .leaf second :: rest =>
      if second.isKeyword modifier then
        complete what { construct, label, keywords := [keyword, second] } rest
      else .error (stray what (.leaf second))
  | rest => complete what { construct, label, keywords := [keyword] } rest

def leaving (label : List Tree) (keyword : Token) : (rest : List Tree) → Except Failure Head
  | tree :: rest =>
      if tree.isLifetime then
        complete "break"
          { construct := .breakOut, label, keywords := [keyword], argument := [tree] } rest
      else .error (stray "break" tree)
  | [] => .ok { construct := .breakOut, label, keywords := [keyword] }

def ofKeyword (label : List Tree) (keyword : Token) (rest : List Tree) : Except Failure Head :=
  let bare (construct : Construct) (what : String) : Except Failure Head :=
    complete what { construct, label, keywords := [keyword] } rest
  if keyword.isReserved then
    match keyword.text with
    | "match" => bare .matchArms "match"
    | "loop" => bare .loop "loop"
    | "unsafe" => bare .unsafeBlock "unsafe"
    | "try" => bare .tryBlock "try"
    | "box" => bare .box "box"
    | "return" => bare .returnOut "return"
    | "yield" => bare .yieldOut "yield"
    | "if" => condition .ifThen .ifLet label keyword rest
    | "while" => condition .whileLoop .whileLet label keyword rest
    | "for" => binding { construct := .forIn, label, keywords := [keyword] } "in" rest
    | "let" => binding { construct := .letBinding, label, keywords := [keyword] } "=" rest
    | "async" => modified .asyncBlock "async" "move" label keyword rest
    | "break" => leaving label keyword rest
    | _ => .error (unknown (.leaf keyword))
  else if keyword.kind = .punct then
    match keyword.text with
    | "&" | "&&" => modified .reference "reference" "mut" label keyword rest
    | "*" | "!" | "-" => bare .unary "unary"
    | _ => .error (unknown (.leaf keyword))
  else .error (unknown (.leaf keyword))

/-- The head after its label, which may be empty.  A label alone makes a block. -/
def ofLabelled (label : List Tree) : (rest : List Tree) → Except Failure Head
  | [] => .ok { construct := .block, label }
  | .leaf keyword :: rest =>
      match ofKeyword label keyword rest with
      | .error failure => .error failure
      | .ok head =>
          if label.isEmpty || head.construct.allowsLabel then .ok head
          else .error ⟨.misplacedLabel keyword.text, (Tree.leaf keyword).span, none⟩
  | tree :: _ => .error (unknown tree)

def ofTrees (group : Tree) : (children : List Tree) → Except Failure Head
  | [] => .error ⟨.emptyHead, group.span, none⟩
  | first :: rest =>
      if first.isLifetime then
        match rest with
        | colon :: rest =>
            if colon.isPunct ":" then ofLabelled [first, colon] rest
            else .error ⟨.loneLabel (describe first), first.span, none⟩
        | [] => .error ⟨.loneLabel (describe first), first.span, none⟩
      else ofLabelled [] (first :: rest)

def missing (tree : Tree) : Failure :=
  ⟨.noHeadGroup, tree.span, none⟩

def ofGroup (tree : Tree) : Except Failure Head :=
  if tree.isGroup .paren then ofTrees tree tree.children else .error (missing tree)

def parse (tree : Option Tree) (marker : Tree) : Except Failure Head :=
  match tree with
  | none => .error (missing marker)
  | some tree => ofGroup tree

end Head

end Headfirst
