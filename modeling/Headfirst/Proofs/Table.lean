import Headfirst.Occurrence.Conservation
import Headfirst.Proofs.Reading
import Mathlib.Computability.Language

namespace Headfirst

open Headfirst.Tree

/-! The table of construct heads, as languages of trees, and the parser against it.

A row says what the children of a head group can be.  The parser looks at them from the front and
compares its options one after another, but the rows have nothing in common: a head that is in the
table is in one row, whichever comes first. -/

/-! Languages of trees. -/

namespace Table

def one (test : Tree → Bool) : Language Tree :=
  {trees | ∃ tree, trees = [tree] ∧ test tree = true}

def word (text : String) : Language Tree :=
  one (isKeyword text)

def sign (text : String) : Language Tree :=
  one (isPunct text)

def lifetime : Language Tree :=
  one isLifetime

/-- Any trees, but at least one. -/
def pattern : Language Tree :=
  {trees | trees ≠ []}

def label : Language Tree :=
  lifetime * sign ":"

def opt (language : Language Tree) : Language Tree :=
  1 + language

variable {test : Tree → Bool} {language other : Language Tree} {tree : Tree} {trees : List Tree}

@[simp] theorem nil_mem_one : [] ∈ one test ↔ False := by
  refine iff_false_intro ?_
  rintro ⟨tree, same, -⟩
  contradiction

@[simp] theorem cons_mem_one : tree :: trees ∈ one test ↔ test tree = true ∧ trees = [] := by
  constructor
  · rintro ⟨only, same, holds⟩
    cases same
    exact ⟨holds, rfl⟩
  · rintro ⟨holds, rfl⟩
    exact ⟨tree, rfl, holds⟩

@[simp] theorem nil_mem_one_mul : [] ∈ one test * language ↔ False := by
  refine iff_false_intro ?_
  rintro ⟨_, ⟨tree, rfl, -⟩, rest, -, same⟩
  contradiction

@[simp] theorem cons_mem_one_mul :
    tree :: trees ∈ one test * language ↔ test tree = true ∧ trees ∈ language := by
  constructor
  · rintro ⟨_, ⟨only, rfl, holds⟩, rest, member, same⟩
    cases same
    exact ⟨holds, member⟩
  · rintro ⟨holds, member⟩
    exact ⟨[tree], ⟨tree, rfl, holds⟩, trees, member, rfl⟩

@[simp] theorem mem_opt : trees ∈ opt language ↔ trees = [] ∨ trees ∈ language := by
  rw [opt, Language.mem_add, Language.mem_one]

@[simp] theorem mem_opt_mul : trees ∈ opt language * other ↔
    trees ∈ other ∨ trees ∈ language * other := by
  rw [opt, add_mul, one_mul, Language.mem_add]

/-- What ends in a token of a kind. -/
theorem mem_pattern_mul_one :
    trees ∈ pattern * one test ↔
      ∃ front last, front ≠ [] ∧ trees = front ++ [last] ∧ test last = true := by
  constructor
  · rintro ⟨front, nonempty, _, ⟨last, rfl, holds⟩, rfl⟩
    exact ⟨front, last, nonempty, rfl, holds⟩
  · rintro ⟨front, last, nonempty, rfl, holds⟩
    exact ⟨front, nonempty, [last], ⟨last, rfl, holds⟩, rfl⟩

theorem isKeyword_eq_false {text : String} (free : text ∉ reservedWords) (tree : Tree) :
    tree.isKeyword text = false := by
  cases tree with
  | group => rfl
  | leaf token =>
      rw [Bool.eq_false_iff]
      intro is
      simp only [isKeyword, anyToken, Token.isKeyword, Token.isReserved, Bool.and_eq_true,
        beq_iff_eq, List.contains_iff_mem] at is
      exact free (is.2 ▸ is.1.2)

theorem exists_word_of_isKeyword {text : String} (is : tree.isKeyword text = true) :
    ∃ keyword, tree = .leaf keyword ∧ keyword.isReserved = true ∧ keyword.text = text := by
  cases tree with
  | group => contradiction
  | leaf keyword => exact ⟨keyword, rfl, by simpa [isKeyword, anyToken, Token.isKeyword] using is⟩

theorem exists_sign_of_isPunct {text : String} (is : tree.isPunct text = true) :
    ∃ token, tree = .leaf token ∧ token.kind = .punct ∧ token.text = text := by
  cases tree with
  | group => contradiction
  | leaf token => exact ⟨token, rfl, by simpa [isPunct, anyToken, Token.isPunct] using is⟩

end Table

open Table

namespace Construct

/-- What a head holds behind its label.  A block holds nothing beside it. -/
def bare : Construct → Language Tree
  | matchArms => word "match"
  | ifThen => word "if"
  | ifLet => word "if" * word "let" * pattern * sign "="
  | whileLoop => word "while"
  | whileLet => word "while" * word "let" * pattern * sign "="
  -- a sign that is spelled like the keyword would do as well, but no source has one
  | forIn => word "for" * pattern * (word "in" + sign "in")
  | loop => word "loop"
  | block => 1
  | unsafeBlock => word "unsafe"
  | asyncBlock => word "async" * opt (word "move")
  | tryBlock => word "try"
  | reference => (sign "&" + sign "&&") * opt (word "mut")
  | box => word "box"
  | unary => sign "*" + sign "!" + sign "-"
  | letBinding => word "let" * pattern * sign "="
  | breakOut => word "break" * opt lifetime
  | returnOut => word "return"
  | yieldOut => word "yield"

/-- The row of a construct: the loops may have a label, a block needs one. -/
def row : Construct → Language Tree
  | block => label
  | whileLoop => opt label * bare whileLoop
  | whileLet => opt label * bare whileLet
  | forIn => opt label * bare forIn
  | loop => opt label * bare loop
  | other => bare other

variable {construct : Construct} {first : Tree} {trees rest : List Tree}

theorem nil_mem_bare : [] ∈ construct.bare ↔ construct = block := by
  cases construct <;>
    simp [bare, word, sign, mul_assoc, add_mul, Language.mem_add, Language.mem_one]

/-- What stands behind a label begins with a keyword or a sign. -/
theorem exists_first (member : first :: rest ∈ construct.bare) :
    ∃ keyword, first = .leaf keyword ∧ (keyword.isReserved = true ∨ keyword.kind = .punct) := by
  have spelled : (∃ text, first.isKeyword text = true) ∨ ∃ text, first.isPunct text = true := by
    cases construct <;>
      simp only [bare, word, sign, mul_assoc, add_mul, Language.mem_add, Language.mem_one,
        cons_mem_one, cons_mem_one_mul] at member <;> grind
  rcases spelled with ⟨text, is⟩ | ⟨text, is⟩
  · obtain ⟨keyword, rfl, reserved, -⟩ := exists_word_of_isKeyword is
    exact ⟨keyword, rfl, .inl reserved⟩
  · obtain ⟨token, rfl, punct, -⟩ := exists_sign_of_isPunct is
    exact ⟨token, rfl, .inr punct⟩

theorem isLifetime_first (member : first :: rest ∈ construct.bare) :
    first.isLifetime = false := by
  obtain ⟨keyword, rfl, reserved | punct⟩ := exists_first member
  · simp_all [isLifetime, anyToken, Token.isReserved]
  · simp [isLifetime, anyToken, punct]

theorem mem_row : trees ∈ construct.row ↔
    (construct ≠ block ∧ trees ∈ construct.bare) ∨
      (construct.allowsLabel = true ∧ trees ∈ label * construct.bare) := by
  cases construct <;> simp [row, allowsLabel, bare]

end Construct

namespace Head

/-- What comes to a head of a construct. -/
def Gives (outcome : Except Failure Head) (construct : Construct) : Prop :=
  ∃ head, outcome = .ok head ∧ head.construct = construct

variable {construct other : Construct} {label rest : List Tree} {keyword : Token} {head : Head}

theorem not_gives_error {failure : Failure} : ¬ Gives (.error failure) construct := by
  rintro ⟨head, same, -⟩
  contradiction

theorem gives_ok : Gives (.ok head) construct ↔ head.construct = construct := by
  constructor
  · rintro ⟨_, ⟨⟩, same⟩
    exact same
  · exact fun same => ⟨head, rfl, same⟩

theorem complete_gives {what : String} :
    Gives (complete what head rest) construct ↔ rest = [] ∧ head.construct = construct := by
  cases rest with
  | nil => simp [complete, gives_ok]
  | cons tree rest => simp [complete, not_gives_error]

theorem binding_gives {link : String} :
    Gives (binding head link rest) construct ↔
      rest ∈ Table.pattern * (word link + sign link) ∧ head.construct = construct := by
  rw [mul_add, Language.mem_add, word, sign, mem_pattern_mul_one, mem_pattern_mul_one]
  rcases List.eq_nil_or_concat rest with rfl | ⟨front, last, rfl⟩
  · simp [binding, not_gives_error]
  · rw [List.concat_eq_append]
    have parted (test : Tree → Bool) :
        (∃ before tree, before ≠ [] ∧ front ++ [last] = before ++ [tree] ∧ test tree = true) ↔
          front ≠ [] ∧ test last = true := by
      constructor
      · rintro ⟨before, tree, nonempty, same, holds⟩
        obtain ⟨rfl, single⟩ := List.append_inj' same rfl
        cases single
        exact ⟨nonempty, holds⟩
      · exact fun ⟨nonempty, holds⟩ => ⟨front, last, nonempty, rfl, holds⟩
    rw [parted, parted, ← and_or_left, binding, List.getLast?_append, List.dropLast_concat]
    cases last with
    | group bracket children => simp [not_gives_error, isKeyword, isPunct, anyToken]
    | leaf token =>
        simp only [List.getLast?_singleton, Option.some_or, isKeyword, isPunct, anyToken]
        rw [← Bool.or_eq_true]
        by_cases joins : (token.isKeyword link || token.isPunct link) = true
        · cases front with
          | nil => simp [joins, not_gives_error]
          | cons => simp [joins, gives_ok]
        · simp [joins, not_gives_error]

/-- No keyword is spelled `=`. -/
theorem binding_gives_equals :
    Gives (binding head "=" rest) construct ↔
      rest ∈ Table.pattern * sign "=" ∧ head.construct = construct := by
  have none : word "=" = 0 := by
    refine Language.ext fun trees => iff_of_false ?_ (Language.notMem_zero trees)
    rintro ⟨tree, -, is⟩
    rw [isKeyword_eq_false (by decide)] at is
    contradiction
  rw [binding_gives, none, zero_add]

theorem condition_gives {plain withLet : Construct} :
    Gives (condition plain withLet label keyword rest) construct ↔
      (rest = [] ∧ plain = construct) ∨
        (rest ∈ word "let" * (Table.pattern * sign "=") ∧ withLet = construct) := by
  match rest with
  | [] => simp [condition, gives_ok, word]
  | .group bracket children :: rest =>
      simp [condition, not_gives_error, word, isKeyword, anyToken]
  | .leaf second :: rest =>
      rw [condition]
      by_cases binds : second.isKeyword "let" = true
      · simp [binds, binding_gives_equals, word, isKeyword, anyToken]
      · simp [binds, not_gives_error, word, isKeyword, anyToken]

theorem modified_gives {what modifier : String} :
    Gives (modified construct what modifier label keyword rest) other ↔
      rest ∈ opt (word modifier) ∧ construct = other := by
  match rest with
  | [] => simp [modified, complete, gives_ok]
  | .group bracket children :: rest =>
      simp [modified, complete, not_gives_error, word, isKeyword, anyToken]
  | .leaf second :: rest =>
      rw [modified]
      by_cases modifies : second.isKeyword modifier = true
      · simp [modifies, complete_gives, word, isKeyword, anyToken]
      · simp [modifies, not_gives_error, word, isKeyword, anyToken]

theorem leaving_gives :
    Gives (leaving label keyword rest) construct ↔
      rest ∈ opt lifetime ∧ .breakOut = construct := by
  cases rest with
  | nil => simp [leaving, gives_ok]
  | cons tree rest =>
      rw [leaving]
      by_cases named : tree.isLifetime = true
      · simp [named, complete_gives, lifetime]
      · simp [named, not_gives_error, lifetime]

/-- What begins with a keyword or a sign is parsed only by a row that it is in. -/
theorem mem_bare_of_ofKeyword (gives : Gives (ofKeyword label keyword rest) construct) :
    .leaf keyword :: rest ∈ construct.bare := by
  unfold ofKeyword at gives
  simp only at gives
  split at gives
  · rename_i reserved
    have is {text : String} (spelled : keyword.text = text) :
        (Tree.leaf keyword).isKeyword text = true := by
      simp [isKeyword, anyToken, Token.isKeyword, reserved, spelled]
    split at gives
    case h_8 | h_9 =>
      rename_i spelled
      rcases condition_gives.mp gives with ⟨rfl, rfl⟩ | ⟨member, rfl⟩
      · exact cons_mem_one.mpr ⟨is spelled, rfl⟩
      · rw [Construct.bare, mul_assoc, mul_assoc]
        exact cons_mem_one_mul.mpr ⟨is spelled, member⟩
    case h_10 =>
      rename_i spelled
      obtain ⟨member, rfl⟩ := binding_gives.mp gives
      rw [Construct.bare, mul_assoc]
      exact cons_mem_one_mul.mpr ⟨is spelled, member⟩
    case h_11 =>
      rename_i spelled
      obtain ⟨member, rfl⟩ := binding_gives_equals.mp gives
      rw [Construct.bare, mul_assoc]
      exact cons_mem_one_mul.mpr ⟨is spelled, member⟩
    case h_12 =>
      rename_i spelled
      obtain ⟨member, rfl⟩ := modified_gives.mp gives
      exact cons_mem_one_mul.mpr ⟨is spelled, member⟩
    case h_13 =>
      rename_i spelled
      obtain ⟨member, rfl⟩ := leaving_gives.mp gives
      exact cons_mem_one_mul.mpr ⟨is spelled, member⟩
    case h_14 => exact absurd gives not_gives_error
    all_goals
      rename_i spelled
      obtain ⟨rfl, rfl⟩ := complete_gives.mp gives
      exact cons_mem_one.mpr ⟨is spelled, rfl⟩
  · split at gives
    · rename_i punct
      have is {text : String} (spelled : keyword.text = text) :
          (Tree.leaf keyword).isPunct text = true := by
        simp [isPunct, anyToken, Token.isPunct, punct, spelled]
      split at gives
      case h_1 | h_2 =>
        rename_i spelled
        obtain ⟨member, rfl⟩ := modified_gives.mp gives
        simp [Construct.bare, add_mul, Language.mem_add, sign, is spelled, member]
      case h_6 => exact absurd gives not_gives_error
      all_goals
        rename_i spelled
        obtain ⟨rfl, rfl⟩ := complete_gives.mp gives
        simp [Construct.bare, Language.mem_add, sign, is spelled]
    · exact absurd gives not_gives_error

/-- What is in a row that begins with a keyword or a sign is parsed by it. -/
theorem ofKeyword_of_mem_bare (member : .leaf keyword :: rest ∈ construct.bare) :
    Gives (ofKeyword label keyword rest) construct := by
  have word {text : String} (is : (Tree.leaf keyword).isKeyword text = true) :
      keyword.isReserved = true ∧ keyword.text = text := by
    simpa [isKeyword, anyToken, Token.isKeyword] using is
  have sign {text : String} (is : (Tree.leaf keyword).isPunct text = true) :
      keyword.isReserved = false ∧ keyword.kind = .punct ∧ keyword.text = text := by
    obtain ⟨punct, spelled⟩ : keyword.kind = .punct ∧ keyword.text = text := by
      simpa [isPunct, anyToken, Token.isPunct] using is
    exact ⟨by simp [Token.isReserved, punct], punct, spelled⟩
  unfold ofKeyword
  cases construct with
  | block => contradiction
  | matchArms | loop | unsafeBlock | tryBlock | box | returnOut | yieldOut =>
      obtain ⟨is, rfl⟩ := cons_mem_one.mp member
      obtain ⟨reserved, spelled⟩ := word is
      simp [reserved, spelled, complete_gives]
  | ifThen | whileLoop =>
      obtain ⟨is, rfl⟩ := cons_mem_one.mp member
      obtain ⟨reserved, spelled⟩ := word is
      simp [reserved, spelled, condition_gives]
  | ifLet | whileLet =>
      rw [Construct.bare, mul_assoc, mul_assoc] at member
      obtain ⟨is, member⟩ := cons_mem_one_mul.mp member
      obtain ⟨reserved, spelled⟩ := word is
      simp [reserved, spelled, condition_gives, member]
  | forIn =>
      rw [Construct.bare, mul_assoc] at member
      obtain ⟨is, member⟩ := cons_mem_one_mul.mp member
      obtain ⟨reserved, spelled⟩ := word is
      simp [reserved, spelled, binding_gives, member]
  | letBinding =>
      rw [Construct.bare, mul_assoc] at member
      obtain ⟨is, member⟩ := cons_mem_one_mul.mp member
      obtain ⟨reserved, spelled⟩ := word is
      simp [reserved, spelled, binding_gives_equals, member]
  | asyncBlock =>
      obtain ⟨is, member⟩ := cons_mem_one_mul.mp member
      obtain ⟨reserved, spelled⟩ := word is
      simpa [reserved, spelled, modified_gives] using member
  | breakOut =>
      obtain ⟨is, member⟩ := cons_mem_one_mul.mp member
      obtain ⟨reserved, spelled⟩ := word is
      simpa [reserved, spelled, leaving_gives] using member
  | reference =>
      rw [Construct.bare, add_mul, Language.mem_add] at member
      rcases member with member | member
      all_goals
        obtain ⟨is, member⟩ := cons_mem_one_mul.mp member
        obtain ⟨free, punct, spelled⟩ := sign is
        simpa [free, punct, spelled, modified_gives] using member
  | unary =>
      rw [Construct.bare, Language.mem_add, Language.mem_add] at member
      rcases member with (member | member) | member
      all_goals
        obtain ⟨is, rfl⟩ := cons_mem_one.mp member
        obtain ⟨free, punct, spelled⟩ := sign is
        simp [free, punct, spelled, complete_gives]

theorem ofKeyword_gives :
    Gives (ofKeyword label keyword rest) construct ↔ .leaf keyword :: rest ∈ construct.bare :=
  ⟨mem_bare_of_ofKeyword, ofKeyword_of_mem_bare⟩

/-- What stands behind a label, or without one is not nothing, is parsed by the row it is in. -/
theorem ofLabelled_gives (given : label = [] → rest ≠ []) :
    Gives (ofLabelled label rest) construct ↔
      rest ∈ construct.bare ∧ (label = [] ∨ construct.allowsLabel = true) := by
  match rest with
  | [] =>
      have labelled : label ≠ [] := fun none => given none rfl
      simp only [ofLabelled, gives_ok, Construct.nil_mem_bare, labelled, false_or]
      constructor
      · rintro rfl
        exact ⟨rfl, rfl⟩
      · exact fun ⟨same, _⟩ => same.symm
  | .group bracket children :: rest =>
      refine iff_of_false not_gives_error ?_
      rintro ⟨member, -⟩
      obtain ⟨keyword, same, -⟩ := Construct.exists_first member
      contradiction
  | .leaf keyword :: rest =>
      rw [← @ofKeyword_gives construct label rest keyword, ofLabelled]
      cases parsed : ofKeyword label keyword rest with
      | error failure => simp [not_gives_error]
      | ok head =>
          simp only [gives_ok]
          by_cases allowed : (label.isEmpty || head.construct.allowsLabel) = true
          · rw [if_pos allowed, gives_ok]
            rw [Bool.or_eq_true, List.isEmpty_iff] at allowed
            constructor
            · rintro rfl
              exact ⟨rfl, allowed⟩
            · exact And.left
          · rw [if_neg allowed]
            refine iff_of_false not_gives_error ?_
            rintro ⟨rfl, labelled⟩
            rw [Bool.or_eq_true, List.isEmpty_iff] at allowed
            exact allowed labelled

/-- A head is parsed by the row that it is in. -/
theorem ofTrees_gives {group : Tree} {children : List Tree} :
    Gives (ofTrees group children) construct ↔ children ∈ construct.row := by
  rw [Construct.mem_row, Table.label, mul_assoc]
  match children with
  | [] =>
      refine iff_of_false not_gives_error ?_
      rintro (⟨other, member⟩ | ⟨-, member⟩)
      · exact other (Construct.nil_mem_bare.mp member)
      · exact nil_mem_one_mul.mp member
  | first :: rest =>
      rw [lifetime, cons_mem_one_mul]
      by_cases named : first.isLifetime = true
      · have labelled : ¬ first :: rest ∈ construct.bare := fun member =>
          Bool.false_ne_true ((Construct.isLifetime_first member).symm.trans named)
        match rest with
        | [] => simp [ofTrees, named, labelled, not_gives_error, sign]
        | colon :: rest =>
            rw [sign, cons_mem_one_mul]
            by_cases isColon : colon.isPunct ":" = true
            · simp [ofTrees, named, isColon, labelled, ofLabelled_gives, and_comm]
            · simp [ofTrees, named, isColon, labelled, not_gives_error]
      · have parsed : ofTrees group (first :: rest) = ofLabelled [] (first :: rest) := by
          simp [ofTrees, named]
        have other : first :: rest ∈ construct.bare → construct ≠ .block := by
          rintro member rfl
          contradiction
        rw [parsed, ofLabelled_gives (by simp)]
        simp only [named, true_or, and_true, Bool.false_eq_true, false_and, and_false, or_false]
        exact ⟨fun member => ⟨other member, member⟩, And.right⟩

/-- No head is in two rows of the table. -/
theorem row_unique {trees : List Tree} (first : trees ∈ construct.row)
    (second : trees ∈ other.row) : construct = other := by
  have gives (row : Construct) := @ofTrees_gives row default trees
  obtain ⟨head, parsed, rfl⟩ := (gives construct).mpr first
  obtain ⟨_, same, rfl⟩ := (gives other).mpr second
  cases parsed.symm.trans same
  rfl

/-- A group in parentheses is a head exactly if its children are in a row of the table.  They are
in no other row, and it is the row of the construct that is found.  The trees of the head are the
children of the group, each of them and in their order. -/
theorem parse_eq_ok_iff {group : Tree} (marker : Tree) (paren : group.isGroup .paren = true) :
    ((∃ head, parse (some group) marker = .ok head) ↔
        ∃ construct : Construct, group.children ∈ construct.row) ∧
      (∀ (trees : List Tree) (construct other : Construct), trees ∈ construct.row →
        trees ∈ other.row → construct = other) ∧
      ∀ head, parse (some group) marker = .ok head →
        group.children ∈ head.construct.row ∧ head.trees = group.children := by
  have parsed : parse (some group) marker = ofTrees group group.children := if_pos paren
  refine ⟨?_, fun trees construct other => row_unique, fun head found => ?_⟩
  · rw [parsed]
    constructor
    · rintro ⟨head, found⟩
      exact ⟨head.construct, ofTrees_gives.mp ⟨head, found, rfl⟩⟩
    · rintro ⟨construct, member⟩
      obtain ⟨head, found, -⟩ := ofTrees_gives.mpr member
      exact ⟨head, found⟩
  · exact ⟨ofTrees_gives.mp ⟨head, parsed.symm.trans found, rfl⟩, ofGroup_trees found⟩

/-- A labelled loop whose pattern holds the words and signs that could end it. -/
theorem parse_eq_ok_iff_labelled :
    ∃ fragment group, Fragment.read "('a: for in = (x) in)" "main.rs" = .ok fragment ∧
      fragment.children.head? = some group ∧ group.isGroup .paren = true ∧
      group.children ∈ Construct.forIn.row ∧ group.children ∉ Construct.letBinding.row ∧
      ∃ head, parse (some group) default = .ok head ∧ head.trees = group.children := by
  have run : (Fragment.read "('a: for in = (x) in)" "main.rs").toOption.any fun fragment =>
      fragment.children.head?.any fun group => group.isGroup .paren &&
        (parse (some group) default).toOption.any (·.construct == .forIn) := by
    decide +kernel
  obtain ⟨fragment, lexed, run⟩ := exists_ok_of_any run
  rw [Option.any_eq_true] at run
  obtain ⟨group, first, run⟩ := run
  obtain ⟨paren, run⟩ := Bool.and_eq_true_iff.mp run
  obtain ⟨head, parsed, same⟩ := exists_ok_of_any run
  obtain ⟨-, unique, accepts⟩ := parse_eq_ok_iff default paren
  obtain ⟨member, trees⟩ := accepts head parsed
  rw [beq_iff_eq.mp same] at member
  refine ⟨fragment, group, lexed, first, paren, member, fun other => ?_, head, parsed, trees⟩
  exact absurd (unique _ _ _ member other) (by decide)

end Head

end Headfirst
