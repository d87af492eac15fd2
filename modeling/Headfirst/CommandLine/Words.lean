import Headfirst.Text.Integer
import Headfirst.Text.Printable

namespace Headfirst.CommandLine

/-! The words of a command line: which of them are options, and where values belong.

Long options may be shortened as long as they stay unique.  A value follows its option as
the next word or after `=`; a short option may also have it right behind, or be followed
by further short options.  After `--` no word is an option. -/

/-- An option of a command: its spellings, and whether it takes a value. -/
structure Switch (Name : Type) where
  name : Name
  spellings : List String
  takesValue : Bool

def Switch.label {Name : Type} (switch : Switch Name) : String :=
  "/".intercalate switch.spellings

/-- An option as it was found: the spelling it stands for, and the text attached to it. -/
structure Found (Name : Type) where
  switch : Switch Name
  spelling : String
  attached : Option String

inductive Word (Name : Type) where
  | separator
  | plain (text : String)
  | unknown (text : String)
  | option (found : Found Name)

variable {Name : Type}

def Switch.find? (switches : List (Switch Name)) (spelling : String) : Option (Switch Name) :=
  switches.find? (·.spellings.contains spelling)

def spellings (switches : List (Switch Name)) : List (Switch Name × String) :=
  switches.flatMap fun switch => switch.spellings.map (switch, ·)

def splitValue (text : String) : String × Option String :=
  match Text.cut? ['='] text.toList with
  | some (before, after) => (String.ofList before, some (String.ofList after))
  | none => (text, none)

/-- The switches that a shortened long option can stand for. -/
def abbreviated (switches : List (Switch Name)) (text : String) : List (Found Name) :=
  let (start, value) := splitValue text
  ((spellings switches).filter fun (_, spelling) => start.toList.isPrefixOf spelling.toList).map
    fun (switch, spelling) => ⟨switch, spelling, value⟩

/-- The switches that a short option with something right behind it can stand for. -/
def clustered (switches : List (Switch Name)) (text : String) : List (Found Name) :=
  let short := String.ofList (text.toList.take 2)
  let behind := String.ofList (text.toList.drop 2)
  (spellings switches).filterMap fun (switch, spelling) =>
    if spelling = short then some ⟨switch, spelling, some behind⟩
    else if text.toList.isPrefixOf spelling.toList then some ⟨switch, spelling, none⟩
    else none

/-- Decides what a word in front of any separator is.  The failure is a message. -/
def classify (switches : List (Switch Name)) (text : String) : Except String (Word Name) :=
  match text.toList with
  | '-' :: second :: _ =>
      match Switch.find? switches text with
      | some switch => .ok (.option ⟨switch, text, none⟩)
      | none =>
          match splitValue text with
          | (spelling, some value) =>
              match Switch.find? switches spelling with
              | some switch => .ok (.option ⟨switch, spelling, some value⟩)
              | none => guess second
          | (_, none) => guess second
  | _ => .ok (.plain text)
where
  guess (second : Char) : Except String (Word Name) :=
    match if second = '-' then abbreviated switches text else clustered switches text with
    | [found] => .ok (.option found)
    | [] =>
        if Text.looksNegative text || text.toList.contains ' ' then .ok (.plain text)
        else .ok (.unknown text)
    | several =>
        let matching := ", ".intercalate (several.map (·.spelling))
        .error s!"ambiguous option: {text} could match {matching}"

def classifyAll (switches : List (Switch Name)) : List String → Except String (List (Word Name))
  | [] => .ok []
  | "--" :: rest => .ok (.separator :: rest.map .plain)
  | text :: rest =>
      match classify switches text with
      | .error message => .error message
      | .ok word =>
          match classifyAll switches rest with
          | .error message => .error message
          | .ok words => .ok (word :: words)

abbrev Setting (Name : Type) := Switch Name × Option String

def ignoredValue (switch : Switch Name) (value : String) : String :=
  s!"argument {switch.label}: ignored explicit argument {Text.quoted value}"

/-- Takes short options apart that share a word.  `behind` is what follows the given one;
the rest of the word after an option that takes a value is that value. -/
def uncluster (switches : List (Switch Name)) (switch : Switch Name) :
    (behind : List Char) → Except String (List (Setting Name))
  | [] => .ok [(switch, none)]
  | char :: behind =>
      match Switch.find? switches (String.ofList ['-', char]) with
      | none => .error (ignoredValue switch (String.ofList (char :: behind)))
      | some next =>
          if next.takesValue && !behind.isEmpty then
            .ok [(switch, none), (next, some (String.ofList behind))]
          else
            match uncluster switches next behind with
            | .error message => .error message
            | .ok settings => .ok ((switch, none) :: settings)

/-- The switches an option word stands for.  The last of them may still lack its value.
What is attached to a short option without a value is read as further short options,
even after `=`. -/
def expandOption (switches : List (Switch Name)) (found : Found Name) :
    Except String (List (Setting Name)) :=
  match found.attached with
  | none => .ok [(found.switch, none)]
  | some text =>
      if found.switch.takesValue then .ok [(found.switch, some text)]
      else if found.spelling.startsWith "--" || text = "" then
        .error (ignoredValue found.switch text)
      else uncluster switches found.switch text.toList

end Headfirst.CommandLine
