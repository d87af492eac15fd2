namespace Headfirst.Text

/-! Texts as lists of characters: classes of characters, and parts of texts. -/

/-- Closed code-point intervals, in increasing order. -/
abbrev Ranges := List (Nat × Nat)

def Ranges.contains (ranges : Ranges) (code : Nat) : Bool :=
  ranges.any fun range => range.1 ≤ code && code ≤ range.2

/-- Unicode's `White_Space` property.  The separators U+001C to U+001F do not have it. -/
def isBlank (char : Char) : Bool :=
  let code := char.toNat
  (0x09 ≤ code && code ≤ 0x0D) || code == 0x20 || code == 0x85 || code == 0xA0 ||
    code == 0x1680 || (0x2000 ≤ code && code ≤ 0x200A) || code == 0x2028 ||
    code == 0x2029 || code == 0x202F || code == 0x205F || code == 0x3000

/-- The text without the characters at both ends that satisfy `drops`. -/
def trim (drops : Char → Bool) (text : List Char) : List Char :=
  ((text.dropWhile drops).reverse.dropWhile drops).reverse

/-- The text before the first place where `mark` stands, and the text after it. -/
def cut? (mark : List Char) : (text : List Char) → Option (List Char × List Char)
  | [] => if mark.isEmpty then some ([], []) else none
  | char :: rest =>
      if mark.isPrefixOf (char :: rest) then some ([], (char :: rest).drop mark.length)
      else (cut? mark rest).map fun (before, after) => (char :: before, after)

theorem cut?_append {mark text before after : List Char}
    (found : cut? mark text = some (before, after)) : before ++ mark ++ after = text := by
  fun_induction cut? mark text generalizing before after with
  | case1 empty => simp_all
  | case2 => contradiction
  | case3 char rest starts =>
      cases found
      obtain ⟨tail, whole⟩ := List.isPrefixOf_iff_prefix.mp starts
      simp [← whole]
  | case4 char rest other ih =>
      simp only [Option.map_eq_some_iff, Prod.exists, Prod.mk.injEq] at found
      obtain ⟨start, _, inner, rfl, rfl⟩ := found
      simpa using ih inner

/-- The last `width` hexadecimal digits of a number, in lower case. -/
def hex : (width value : Nat) → List Char
  | 0, _ => []
  | width + 1, value => hex width (value / 16) ++ [Nat.digitChar (value % 16)]

theorem length_hex (width value : Nat) : (hex width value).length = width := by
  induction width generalizing value with
  | zero => rfl
  | succ width ih => simp [hex, ih]

end Headfirst.Text
