import Mathlib.Algebra.BigOperators.Group.List.Basic
import Mathlib.Algebra.Ring.Nat
import Headfirst.Proofs.Exhaustion
import Headfirst.Proofs.Seamless
import Headfirst.Proofs.Treatments

namespace Headfirst

open Headfirst.Tree

/-! What a check counts: the markers of the source that are not in the result.

A splice takes one marker away, but markers come and go otherwise too.  A `::` in front of an
invocation goes on with a path, and is a marker once the expansion has taken the invocation's
place; a marker that is left untouched in front of a group without brackets can go on with a path
once the group is dissolved. -/

namespace Tree

/-- The markers that are none once groups are dissolved. -/
def lost (trees : List Tree) : Nat :=
  (posts trees).countP fun post => !post.isKept

theorem markersAll_flattenAll_add_lost (trees : List Tree) :
    markersAll (flattenAll trees) + lost trees = markersAll trees := by
  rw [markersAll_flattenAll_eq, ← List.countP_eq_length_filter, lost, ← length_posts trees,
    List.length_eq_countP_add_countP Post.isKept]
  simp

/-- The markers of a sequence, and one more if a `::` in front of it is a marker. -/
def markersFrom (separator : Bool) (trees : List Tree) : Nat :=
  (separator && !trees.head?.any Marker.continuesPath).toNat + markersAll trees

@[simp] theorem markersFrom_false (trees : List Tree) : markersFrom false trees = markersAll trees := by
  simp [markersFrom]

theorem markersFrom_leaf (separator : Bool) (token : Token) (rest : List Tree) :
    markersFrom separator (leaf token :: rest) =
      (separator && !Marker.continuesPath (leaf token)).toNat +
        markersFrom (token.isPunct "::") rest := by
  rw [markersFrom, markersAll_cons, markers, Nat.add_zero]
  rfl

/-- A tree in front of a group does not see what is in it. -/
theorem markersFrom_group (separator : Bool) (bracket : Bracket) (children rest : List Tree) :
    markersFrom separator (group bracket children :: rest) =
      (separator && bracket.delimiter != .brace).toNat +
        (markersAll children + markersAll rest) := by
  have outside : (some (group bracket children)).any Marker.continuesPath =
      (bracket.delimiter == .brace) := rfl
  rw [markersFrom, markersAll_cons, Marker.test_group, markers, Bool.toNat_false, Nat.zero_add,
    List.head?_cons, outside]
  rfl

end Tree

namespace Part

/-- Whether what follows is behind a `::`. -/
def isSeparator : Part → Bool
  | leaf token => token.isPunct "::"
  | group .. | call .. => false

mutual

/-- The invocations directly behind a `::`, at any depth. -/
def guards (guarded : Bool) : Part → Nat
  | leaf _ => 0
  | group _ inside => guardsAll false inside
  | call _ inside => guarded.toNat + guardsAll false inside

def guardsAll (guarded : Bool) : List Part → Nat
  | [] => 0
  | part :: parts => part.guards guarded + guardsAll part.isSeparator parts

end

end Part

namespace Fragment

variable {settings : Settings} {fragment result : Fragment}

/-- The working tree at the end of a run, before groups are dissolved. -/
def left (settings : Settings) (fragment : Fragment) : List Tree :=
  (fragment.front (settings.keeping true)).children

/-- The markers of a fragment are spliced, lost, or left in the result. -/
theorem markersAll_front (dissolved : settings.keepGroups = false)
    (succeeded : (fragment.front settings).result = .ok result) :
    markersAll fragment.children =
      markersAll result.children + (fragment.front settings).splices +
        lost (fragment.left settings) := by
  obtain ⟨shallow, -⟩ := front_admitted succeeded
  obtain ⟨final, number, after, loop, rfl, made, -⟩ := front_final succeeded
  have kept : fragment.left settings = final := by
    have same := Fronting.fixpoint_keeping settings true fragment.tree.span 0
      (markersAll fragment.children) fragment.children fragment.begun
    rw [loop] at same
    rw [left, front_of_done shallow same]
    rfl
  have completes := Fronting.fixpoint_completes settings fragment.tree.span 0 fragment.children
    fragment.begun
  rw [loop] at completes
  obtain ⟨rounds, passes, -, counted, -⟩ := completes
  have spliced := passes.trace.markersAll_final
  have flattened := markersAll_flattenAll_add_lost final
  rw [splices_begun, Nat.zero_add] at counted
  simp only [kept, settle, dissolved, Bool.false_eq_true, if_false]
  omega

/-- A strict run splices every marker. -/
theorem markersAll_front_strict (strict : settings.tolerant = false)
    (succeeded : (fragment.front settings).result = .ok result) :
    markersAll result.children = 0 ∧
      (fragment.front settings).splices = markersAll fragment.children := by
  obtain ⟨shallow, room, trees, after, pass⟩ := front_admitted succeeded
  have unmarked := Fronting.markersAll_of_strict strict pass
  obtain ⟨same, -, made, -⟩ := front_once shallow room pass unmarked
  have exact := Fronting.markersAll_sequence pass
  rw [succeeded, Except.ok.injEq] at same
  rw [same, made]
  rw [splices_begun, unmarked] at exact
  exact ⟨markersAll_settle settings unmarked, by omega⟩

end Fragment

namespace Invocation

variable {settings : Settings} {macroName : String}

/-- The working tree at the end of the run over an argument. -/
def left (settings : Settings) (macroName : String) (invocation : Invocation) : List Tree :=
  (Expansion.argument invocation.bracket (invocation.expanded settings macroName)).left settings

end Invocation

namespace Expansion

variable {settings : Settings} {macroName : String} {trees : List Tree}

theorem markersAll_run (dissolved : settings.keepGroups = false) {invocation : Invocation}
    (succeeds : ∃ expansion, (invocation.run settings macroName).result = .ok expansion) :
    markersAll (invocation.expanded settings macroName) =
      markersAll (invocation.run settings macroName).children +
        ((invocation.run settings macroName).splices +
          lost (invocation.left settings macroName)) := by
  obtain ⟨expansion, succeeded⟩ := succeeds
  have whole := Fragment.markersAll_front dissolved succeeded
  rw [Run.children, succeeded, ← Nat.add_assoc]
  exact whole

/-- The trees in front of an argument hold no marker. -/
theorem markersFrom_call {invocation : Invocation} (calls : invocation.Calls macroName)
    (rest : List Tree) (guarded : Bool) :
    markersFrom guarded (invocation.trees ++ rest) =
      markersAll invocation.argument + markersAll rest := by
  obtain ⟨name, bang, bracket, argument⟩ := invocation
  have called : isInvocation macroName name bang bracket = true := calls
  simp only [isInvocation, Bool.and_eq_true, beq_iff_eq] at called
  obtain ⟨⟨⟨ident, -⟩, bangs⟩, -⟩ := called
  have path : Marker.continuesPath (leaf name) = true := by
    simp [Marker.continuesPath, isAnyIdent, anyToken, ident]
  have plain : name.isPunct "::" = false := by simp [Token.isPunct, ident]
  have plain' : bang.isPunct "::" = false := Token.isPunct_of_isPunct bangs (by decide)
  simp only [Invocation.trees, List.cons_append, List.nil_append]
  rw [markersFrom_leaf, markersFrom_leaf, markersFrom_group, path, plain, plain']
  simp

/-- In front of a replacement every `::` is a marker. -/
theorem markersFrom_replacement (invocation : Invocation) (rest : List Tree) (guarded : Bool) :
    markersFrom guarded (invocation.replacement settings macroName ++ rest) =
      guarded.toNat + (markersAll (invocation.run settings macroName).children +
        markersAll rest) := by
  have noBrace : (Delimiter.invisible != Delimiter.brace) = true := rfl
  rw [Invocation.replacement, List.singleton_append, replacement, markersFrom_group, noBrace,
    Bool.and_true]

/-- The splices that the runs of an expansion make, and the markers that are lost after them. -/
def used (settings : Settings) (macroName : String) (trees : List Tree) : Nat :=
  ((Invocation.all macroName trees).map fun invocation =>
    (invocation.run settings macroName).splices +
      lost (invocation.left settings macroName)).sum

theorem used_token {token : Token} {rest : List Tree}
    (none : Invocation.first? macroName (.leaf token :: rest) = none) :
    used settings macroName (.leaf token :: rest) = used settings macroName rest := by
  rw [used, Invocation.all_token none, used]

theorem used_group (bracket : Bracket) (children rest : List Tree) :
    used settings macroName (.group bracket children :: rest) =
      used settings macroName children + used settings macroName rest := by
  rw [used, Invocation.all_group, List.map_append, List.sum_append, used, used]

theorem used_call {invocation : Invocation} (calls : invocation.Calls macroName)
    (rest : List Tree) :
    used settings macroName (invocation.trees ++ rest) =
      used settings macroName invocation.argument +
        ((invocation.run settings macroName).splices + lost (invocation.left settings macroName) +
          used settings macroName rest) := by
  rw [used, Invocation.all_call calls, List.map_append, List.map_cons, List.sum_append,
    List.sum_cons, used, used]

/-- The markers of a program and its guarded invocations are used up in the runs, or are left in
what the runs are filled into.  The statement is carried along a sequence with what stands in front
of it, a `::` or something else. -/
theorem markersFrom_fillAll (dissolved : settings.keepGroups = false)
    (succeeds : ∀ invocation ∈ Invocation.all macroName trees,
      ∃ expansion, (invocation.run settings macroName).result = .ok expansion)
    (guarded : Bool) :
    markersFrom guarded trees + Part.guardsAll guarded (Part.read macroName trees) =
      markersFrom guarded
          (Part.fillAll (·.replacement settings macroName) (Part.read macroName trees)) +
        used settings macroName trees := by
  induction trees using Invocation.induction macroName generalizing guarded with
  | nil => simp [Part.read, Part.fillAll, Part.guardsAll, used, Invocation.all_nil]
  | token token rest none later =>
      rw [Invocation.all_token none] at succeeds
      have tail := later succeeds (token.isPunct "::")
      rw [Part.read_token none, used_token none, Part.fillAll, Part.fill, List.singleton_append,
        markersFrom_leaf, markersFrom_leaf, Part.guardsAll, Part.guards, Part.isSeparator]
      omega
  | group bracket children rest within later =>
      rw [Invocation.all_group, List.forall_mem_append] at succeeds
      have inside := within succeeds.1 false
      have tail := later succeeds.2 false
      rw [Part.read_group, used_group, Part.fillAll, Part.fill, List.singleton_append,
        markersFrom_group, markersFrom_group, Part.guardsAll, Part.guards, Part.isSeparator]
      simp only [markersFrom_false] at inside tail
      omega
  | invocation invocation rest calls within later =>
      rw [Invocation.all_call calls, List.forall_mem_append, List.forall_mem_cons] at succeeds
      obtain ⟨inner, here, outer⟩ := succeeds
      have inside := within inner false
      have tail := later outer false
      have run := markersAll_run dissolved here
      rw [Invocation.expanded_eq inner] at run
      rw [Part.read_invocation calls, used_call calls, Part.fillAll, Part.fill,
        markersFrom_call calls, markersFrom_replacement, Part.guardsAll, Part.guards,
        Part.isSeparator]
      simp only [markersFrom_false] at inside tail
      omega

/-- The run over an argument leaves no marker if it is strict. -/
theorem run_strict (strict : settings.tolerant = false) (dissolved : settings.keepGroups = false)
    {invocation : Invocation}
    (succeeds : ∃ expansion, (invocation.run settings macroName).result = .ok expansion) :
    markersAll (invocation.run settings macroName).children = 0 ∧
      lost (invocation.left settings macroName) = 0 := by
  obtain ⟨expansion, succeeded⟩ := succeeds
  obtain ⟨none, every⟩ := Fragment.markersAll_front_strict strict succeeded
  have whole := Fragment.markersAll_front dissolved succeeded
  refine ⟨by rw [Run.children, succeeded, none], ?_⟩
  have same : invocation.left settings macroName = (argument invocation.bracket
      (invocation.expanded settings macroName)).left settings := rfl
  rw [same]
  omega

/-- Where runs are strict, no marker of a program goes but by a splice. -/
theorem markersFrom_le (strict : settings.tolerant = false)
    (dissolved : settings.keepGroups = false) (visible : areVisible trees = true)
    (succeeds : ∀ invocation ∈ Invocation.all macroName trees,
      ∃ expansion, (invocation.run settings macroName).result = .ok expansion)
    (guarded : Bool) :
    markersFrom guarded trees ≤
      markersFrom guarded (Fragment.settle settings
        (Part.fillAll (·.replacement settings macroName) (Part.read macroName trees))) +
        used settings macroName trees := by
  rw [Part.settle_fillAll visible]
  simp only [Fragment.settle_replacement, Fragment.filling, dissolved, Bool.false_eq_true, if_false]
  induction trees using Invocation.induction macroName generalizing guarded with
  | nil => simp [Part.read, Part.fillAll]
  | token token rest none later =>
      rw [Invocation.all_token none] at succeeds
      have tail := later visible succeeds (token.isPunct "::")
      rw [Part.read_token none, used_token none, Part.fillAll, Part.fill, List.singleton_append,
        markersFrom_leaf, markersFrom_leaf]
      omega
  | group bracket children rest within later =>
      simp only [areVisible, isVisible, Bool.and_eq_true] at visible
      rw [Invocation.all_group, List.forall_mem_append] at succeeds
      have inside := within visible.1.2 succeeds.1 false
      have tail := later visible.2 succeeds.2 false
      rw [Part.read_group, used_group, Part.fillAll, Part.fill, List.singleton_append,
        markersFrom_group, markersFrom_group]
      simp only [markersFrom_false] at inside tail
      omega
  | invocation invocation rest calls within later =>
      rw [areVisible_append, Bool.and_eq_true] at visible
      rw [Invocation.all_call calls, List.forall_mem_append, List.forall_mem_cons] at succeeds
      obtain ⟨inner, here, outer⟩ := succeeds
      have tail := later visible.2 outer false
      have inside := markersFrom_fillAll dissolved inner false
      have run := markersAll_run dissolved here
      rw [Invocation.expanded_eq inner, (run_strict strict dissolved here).1] at run
      rw [Part.read_invocation calls, used_call calls, Part.fillAll, Part.fill,
        markersFrom_call calls, markersFrom, markersAll_append]
      simp only [markersFrom_false] at inside tail
      omega

end Expansion

namespace Fragment

variable {settings : Settings} {macroName : String} {fragment result : Fragment}

theorem countP_isSplice_runs {runs : List Run}
    (succeeds : ∀ run ∈ runs, run.events.countP Event.isSplice = run.splices) :
    (runs.flatMap (·.events.filter Event.isSplice)).length = (runs.map (·.splices)).sum := by
  rw [List.length_flatMap]
  refine congrArg _ (List.map_congr_left fun run member => ?_)
  rw [← succeeds run member, List.countP_eq_length_filter]

/-- An expansion tells of as many splices as its runs make. -/
theorem countP_isSplice_expand (enough : Expansion.ample fragment.children ≤ Stack.frames)
    (whole : (fragment.expand settings macroName).2.1 = none) :
    let name := settings.called macroName
    (fragment.expand settings macroName).2.2.events.reverse.countP Event.isSplice =
      ((Invocation.all name fragment.children).map (·.run settings name |>.splices)).sum := by
  intro name
  obtain ⟨succeeds, -⟩ := expand_whole (eq_of_whole whole)
  obtain ⟨-, events⟩ := expand_tally settings macroName fragment
  have complete := (halt_expand settings macroName fragment).symm.trans whole
  obtain ⟨-, told⟩ :=
    (Expansion.expand_tells settings name fragment.children _ {} enough).whole complete
  rw [List.countP_eq_length_filter, events _ fun _ => rfl, told.events _ fun _ => rfl]
  rw [List.reverse_nil, List.filter_nil, List.nil_append, countP_isSplice_runs, List.map_map]
  · rfl
  · intro run member
    obtain ⟨invocation, among, rfl⟩ := List.mem_map.mp member
    obtain ⟨expansion, succeeded⟩ := succeeds invocation among
    exact front_countP_isSplice succeeded

/-- The invocations of a fragment that are directly behind a `::`. -/
def guards (macroName : String) (fragment : Fragment) : Nat :=
  Part.guardsAll false (Part.read macroName fragment.children)

/-- The markers that an expansion leaves untouched and that are lost where groups are dissolved,
after one of its runs or at its end. -/
def lostExpanding (settings : Settings) (macroName : String) (fragment : Fragment) : Nat :=
  ((Invocation.all macroName fragment.children).map
      (lost <| ·.left settings macroName)).sum +
    lost (Part.fillAll (·.replacement settings macroName) (Part.read macroName fragment.children))

/-- The markers of a program and its guarded invocations are spliced, lost, or left in the result of
an expansion.  A strict one loses no more than it is guarded. -/
theorem markersAll_expand (dissolved : settings.keepGroups = false)
    (visible : areVisible fragment.children = true)
    (whole : (fragment.expand settings macroName).2.1 = none) :
    let name := settings.called macroName
    let result := (fragment.expand settings macroName).1
    let splices := ((Invocation.all name fragment.children).map
      (·.run settings name |>.splices)).sum
    markersAll fragment.children + fragment.guards name =
        markersAll result.children + splices + fragment.lostExpanding settings name ∧
      (settings.tolerant = false →
        markersAll fragment.children ≤ markersAll result.children + splices) := by
  intro name result splices
  obtain ⟨succeeds, same, -⟩ := expand_whole (eq_of_whole whole)
  let filled := Part.fillAll (·.replacement settings name) (Part.read name fragment.children)
  have exact : markersAll fragment.children + fragment.guards name =
      markersAll filled + Expansion.used settings name fragment.children := by
    have whole := Expansion.markersFrom_fillAll dissolved succeeds false
    simp only [markersFrom_false] at whole
    exact whole
  have parts : Expansion.used settings name fragment.children = splices +
      ((Invocation.all name fragment.children).map (lost <| ·.left settings name)).sum := by
    rw [Expansion.used, List.sum_map_add]
  have children : result.children = flattenAll filled := by
    have settled : result.children = settle settings filled := congrArg Fragment.children same
    rw [settled, settle, dissolved, if_neg Bool.false_ne_true]
  have flattened := markersAll_flattenAll_add_lost filled
  have lostIn : fragment.lostExpanding settings name =
      ((Invocation.all name fragment.children).map (lost <| ·.left settings name)).sum +
        lost filled := rfl
  rw [children]
  refine ⟨by omega, fun strict => ?_⟩
  have clean : ((Invocation.all name fragment.children).map
      (lost <| ·.left settings name)).sum = 0 := by
    refine List.sum_eq_zero fun markers member => ?_
    obtain ⟨invocation, among, rfl⟩ := List.mem_map.mp member
    exact (Expansion.run_strict strict dissolved (succeeds invocation among)).2
  have fewer : markersAll fragment.children ≤
      markersAll (settle settings filled) + Expansion.used settings name fragment.children := by
    have least := Expansion.markersFrom_le strict dissolved visible succeeds false
    simp only [markersFrom_false] at least
    exact least
  rw [settle, dissolved, if_neg Bool.false_ne_true] at fewer
  omega

end Fragment

end Headfirst
