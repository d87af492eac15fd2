namespace Headfirst

/-- A place in a source fragment.  Lines and columns count from one and offsets from
zero, all in characters.  A place with line zero is unknown. -/
structure Loc where
  file : String
  line : Int
  col : Int
  offset : Int
deriving DecidableEq, Repr

namespace Loc

def unknown : Loc := ⟨"<unknown>", 0, 0, -1⟩

instance : Inhabited Loc := ⟨unknown⟩

def start (file : String) : Loc := ⟨file, 1, 1, 0⟩

/-- The place after one character.  Only a line feed starts a new line. -/
def next (loc : Loc) (char : Char) : Loc :=
  if char = '\n' then ⟨loc.file, loc.line + 1, 1, loc.offset + 1⟩
  else ⟨loc.file, loc.line, loc.col + 1, loc.offset + 1⟩

def past (loc : Loc) (text : List Char) : Loc :=
  text.foldl next loc

theorem past_append (loc : Loc) (left right : List Char) :
    loc.past (left ++ right) = (loc.past left).past right := by
  simp [past, List.foldl_append]

theorem offset_past (loc : Loc) (text : List Char) :
    (loc.past text).offset = loc.offset + text.length := by
  induction text generalizing loc with
  | nil => simp [past]
  | cons char rest ih =>
      have step : (loc.next char).offset = loc.offset + 1 := by
        rw [next]
        split <;> rfl
      change ((loc.next char).past rest).offset = _
      rw [ih, step, List.length_cons]
      omega

def lineColumn (loc : Loc) : String :=
  toString loc.line ++ ":" ++ toString loc.col

def text (loc : Loc) : String :=
  loc.file ++ ":" ++ loc.lineColumn

end Loc

end Headfirst
