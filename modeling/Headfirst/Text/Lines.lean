namespace Headfirst.Text

/-! Splitting a text into the lines a reader sees. -/

/-- The characters that end a line when a text is shown. -/
def isLineBreak (char : Char) : Bool :=
  let code := char.toNat
  (0x0A ≤ code && code ≤ 0x0D) || (0x1C ≤ code && code ≤ 0x1E) || code == 0x85 ||
    code == 0x2028 || code == 0x2029

/-- The lines of a text without their breaks.  A carriage return and the line feed
after it are one break, and nothing follows the last break. -/
def splitLines : List Char → List (List Char)
  | [] => []
  | '\r' :: '\n' :: rest => [] :: splitLines rest
  | char :: rest =>
      if isLineBreak char then [] :: splitLines rest
      else
        match splitLines rest with
        | [] => [[char]]
        | line :: lines => (char :: line) :: lines

def lines (text : String) : List String :=
  (splitLines text.toList).map String.ofList

/-- Every line break in the CR LF and CR conventions becomes a line feed. -/
def unifyBreaks : List Char → List Char
  | [] => []
  | '\r' :: '\n' :: rest => '\n' :: unifyBreaks rest
  | '\r' :: rest => '\n' :: unifyBreaks rest
  | char :: rest => char :: unifyBreaks rest

end Headfirst.Text
