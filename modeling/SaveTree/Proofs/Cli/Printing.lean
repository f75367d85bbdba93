import SaveTree.Cli.Run
import SaveTree.Proofs.Json.RoundTrip
import SaveTree.Proofs.Text.Dump
import SaveTree.Proofs.Virtual.ListedTree

namespace SaveTree

/-!
# What is printed

What is printed for an answer is said here without the functions that print it.

A plain listing has one line for every place that it shows, a directory right before what is
listed in it.  The line is read off the place alone, by its path: there are two blanks for
every step that leads to it from the directory that was listed, but the last, and then its
name.  The functions that print a listing count the levels of its tree instead.  The two
agree, since each place has one step more than the one it is listed in.

A listing in JSON is a text that the grammar of JSON reads as an array of objects, one for
each place.  Their members are given here by name.
-/

open Program

namespace Listed

/-- Listings are put together place by place, with the listing of its children for a place that
has one. -/
@[elab_as_elim]
theorem places_induction {motive : List Listed → Prop} (nil : motive [])
    (leaf : ∀ path name kind rest, motive rest → motive (.mk path name kind none :: rest))
    (opened : ∀ path name kind children rest, motive children → motive rest →
      motive (.mk path name kind (some children) :: rest)) :
    ∀ nodes, motive nodes
  | [] => nil
  | .mk path name kind none :: rest =>
    leaf path name kind rest (places_induction nil leaf opened rest)
  | .mk path name kind (some children) :: rest =>
    opened path name kind children rest (places_induction nil leaf opened children)
      (places_induction nil leaf opened rest)

/-! ## Plain listings -/

theorem flatAll_closed (nodes : List Listed) :
    flatAll (nodes.map closed) = nodes.map closed := by
  induction nodes with
  | nil => rfl
  | cons listed rest ih =>
    rcases listed with ⟨path, name, kind, children⟩
    rw [List.map_cons, flatAll, ih]
    rfl

/-- The line of a place, in the listing of a directory that `above` steps lead to. -/
def line (above : Nat) (listed : Listed) : String :=
  String.ofList (List.replicate (2 * ((Key.steps listed.path).length - (above + 1))) ' ') ++
    listed.name ++ (if listed.kind = .directory then "/\n" else "\n")

/-- The first places are one step below the directory that was listed, and each other one is
one step below the place that it is listed in. -/
structure StepByStep (above : Nat) (nodes : List Listed) : Prop where
  first : ∀ listed ∈ nodes, (Key.steps listed.path).length = above + 1
  further : ∀ listed ∈ flatAll nodes, ∀ children, listed.children = some children →
    ∀ child ∈ children, (Key.steps child.path).length = (Key.steps listed.path).length + 1

namespace StepByStep

variable {above : Nat} {nodes rest inner : List Listed} {listed : Listed} {path name : String}
  {kind : Kind}

theorem tail (regular : StepByStep above (listed :: rest)) : StepByStep above rest where
  first other member := regular.first other (.tail _ member)
  further other member := regular.further other (List.mem_append_right _ member)

theorem children (regular : StepByStep above (.mk path name kind (some inner) :: rest)) :
    StepByStep (above + 1) inner where
  first child member := by
    rw [regular.further _ List.mem_cons_self inner rfl child member,
      regular.first _ List.mem_cons_self]
  further other member :=
    regular.further other (List.mem_append_left _ (List.mem_cons_of_mem _ member))

theorem closed (regular : StepByStep above nodes) :
    StepByStep above (nodes.map Listed.closed) where
  first := by
    intro listed member
    rcases List.mem_map.mp member with ⟨⟨path, name, kind, children⟩, inside, rfl⟩
    exact regular.first (.mk path name kind children) inside
  further := by
    intro listed member children opened
    rw [flatAll_closed] at member
    rcases List.mem_map.mp member with ⟨⟨path, name, kind, inner⟩, _, rfl⟩
    cases opened

end StepByStep

end Listed

namespace Catalog

open Key Listed

variable {catalog : Catalog} {directory : String} {nodes : List Listed}

/-- The children of a directory are one step below it. -/
theorem IsLevel.length_steps (level : catalog.IsLevel directory nodes) (tree : catalog.IsSaveTree)
    (address : ∃ steps, AreNames steps ∧ directory = text steps) {listed : Listed}
    (member : listed ∈ nodes) :
    (steps listed.path).length = (steps directory).length + 1 := by
  rcases address with ⟨upper, areNames, rfl⟩
  rcases (level.children listed.path).mp (List.mem_map_of_mem member) with ⟨⟨node, stored⟩, above⟩
  rcases (parent_eq_text_iff areNames (tree.canonical stored)).mp above with ⟨name, isName, path_eq⟩
  have areLower := areNames_append_iff.mpr ⟨areNames, isName⟩
  rw [path_eq, areLower.steps_text, areNames.steps_text, List.length_append, List.length_singleton]

theorem ListsTree.stepByStep (lists : catalog.ListsTree directory nodes) (tree : catalog.IsSaveTree)
    (address : ∃ steps, AreNames steps ∧ directory = text steps) :
    StepByStep (steps directory).length nodes where
  first _ member := lists.level.length_steps tree address member
  further := by
    intro listed member children opened child inside
    have describes := lists.described listed member
    rcases (lists.all listed.path).mp (List.mem_map_of_mem member) with ⟨⟨node, stored⟩, _⟩
    rcases (tree.canonical stored).exists_steps with ⟨upper, _, areNames, path_eq⟩
    cases kind : listed.kind with
    | file =>
      rw [describes.file kind] at opened
      cases opened
    | directory =>
      rcases describes.directory kind with ⟨inner, opens, level⟩
      rw [opens] at opened
      cases opened
      exact level.length_steps tree ⟨upper, areNames, path_eq⟩ inside

end Catalog

namespace Virtual

open Key

variable {catalog next : Catalog} {path : String} {recursive : Bool} {nodes : List Listed}

theorem stepByStep_of_list (tree : catalog.IsSaveTree)
    (lists : attempt Store.memory (list path recursive) catalog = (.ok nodes, next)) :
    Listed.StepByStep (steps (ofPath path)).length nodes := by
  have directory (isDirectory : ofPath path = "" ∨ catalog.get? (ofPath path) = some .directory)
      (present : ofPath path = "" ∨ catalog.Stored (ofPath path)) :
      Listed.StepByStep (steps (ofPath path)).length nodes := by
    rcases exists_listing_listsTree tree isDirectory with ⟨found, whole, shows⟩
    have regular := shows.stepByStep tree (exists_steps_of_directory tree isDirectory)
    cases recursive with
    | true =>
      rw [attempt_list_of_stored present whole] at lists
      cases lists
      exact regular
    | false =>
      rw [attempt_list_of_stored present (listing_closed whole)] at lists
      cases lists
      exact regular.closed
  by_cases root : ofPath path = ""
  · exact directory (.inl root) (.inl root)
  · cases stored : catalog.get? (ofPath path) with
    | none =>
      rw [attempt_list_of_missing recursive root stored] at lists
      cases lists
    | some node =>
      cases node with
      | directory => exact directory (.inr stored) (.inr ⟨_, stored⟩)
      | file content =>
        have empty := listing_of_file tree stored recursive
        rw [attempt_list_of_stored (.inr ⟨_, stored⟩) empty] at lists
        cases lists
        exact ⟨nofun, nofun⟩

end Virtual

namespace Cli

open Listed

/-- The blanks before a place are as many as its path says. -/
theorem line_eq {above depth : Nat} {path name : String} {kind : Kind}
    {children? : Option (List Listed)} (steps : (Key.steps path).length = above + depth + 1) :
    line above (.mk path name kind children?) =
      String.ofList (List.replicate (2 * depth) ' ') ++ name ++
        (if kind = .directory then "/" else "") ++ "\n" := by
  have here : (Key.steps path).length - (above + 1) = depth := by omega
  rw [line, Listed.path, here, Listed.name, Listed.kind]
  cases kind with
  | file => simp
  | directory => simp [String.append_assoc]

theorem treeText_eq {above depth : Nat} {nodes : List Listed}
    (regular : StepByStep (above + depth) nodes) :
    treeText depth nodes = String.join ((flatAll nodes).map (line above)) := by
  induction nodes using places_induction generalizing depth with
  | nil => rfl
  | leaf path name kind rest ih =>
    have first : line above (.mk path name kind none) = _ :=
      line_eq (regular.first _ List.mem_cons_self)
    rw [treeText, itemText, belowText, ← first, ih regular.tail, flatAll, flat,
      List.map_append, List.map_singleton, String.join_append, String.join_cons, String.join_nil]
  | opened path name kind children rest ihChildren ihRest =>
    have first : line above (.mk path name kind (some children)) = _ :=
      line_eq (regular.first _ List.mem_cons_self)
    rw [treeText, itemText, belowText, ← first, ihChildren regular.children,
      ihRest regular.tail, flatAll, flat, List.map_append, List.map_cons, String.join_append,
      String.join_cons]

/-- A plain listing has one line for every place. -/
theorem listingText_false {above : Nat} {nodes : List Listed} (regular : StepByStep above nodes) :
    listingText false nodes = String.join ((flatAll nodes).map (line above)) := by
  rw [listingText, if_neg Bool.false_ne_true]
  exact treeText_eq regular

/-! ## Listings in JSON -/

/-- The object of a place, and what it says of it. -/
inductive Portrays : Listed → Json.Value → Prop where
  | leaf (path name : String) (kind : Kind) :
      Portrays (.mk path name kind none) (.object [
        ("path", .string path), ("name", .string name),
        ("isFile", .bool (kind = .file)), ("isDirectory", .bool (kind = .directory))])
  | opened (path name : String) (kind : Kind) {children : List Listed} {values : List Json.Value}
      (below : List.Forall₂ Portrays children values) :
      Portrays (.mk path name kind (some children)) (.object [
        ("path", .string path), ("name", .string name),
        ("isFile", .bool (kind = .file)), ("isDirectory", .bool (kind = .directory)),
        ("children", .array values)])

theorem portrays_toValues (nodes : List Listed) :
    List.Forall₂ Portrays nodes (toValues nodes) := by
  induction nodes using places_induction with
  | nil => exact .nil
  | leaf path name kind rest ih => exact .cons (.leaf path name kind) ih
  | opened path name kind children rest ihChildren ihRest =>
    exact .cons (.opened path name kind ihChildren) ihRest

theorem wholeItems_toValues (nodes : List Listed) : Json.Value.WholeItems (toValues nodes) := by
  induction nodes using places_induction with
  | nil => trivial
  | leaf path name kind rest ih => exact ⟨⟨trivial, trivial, trivial, trivial, trivial⟩, ih⟩
  | opened path name kind children rest ihChildren ihRest =>
    exact ⟨⟨trivial, trivial, trivial, trivial, ihChildren, trivial⟩, ihRest⟩

/-! ## Answers -/

/-- The text is printed for the answer to an operation.  Bytes are printed in the rows of a
dump, and listings as JSON if that is asked for. -/
inductive Renders : (json : Bool) → Operation → Answer → String → Prop where
  | done {json : Bool} {operation : Operation} : Renders json operation .done ""
  | text {json : Bool} {operation : Operation} (text : String) :
      Renders json operation (.text text) text
  | bytes {json : Bool} {operation : Operation} (bytes : ByteArray) :
      Renders json operation (.bytes bytes)
        (String.ofList ((Hex.rows bytes.toList).flatMap (· ++ ['\n'])))
  | present {json : Bool} {operation : Operation} : Renders json operation (.found true) "true\n"
  | absent {json : Bool} {operation : Operation} : Renders json operation (.found false) "false\n"
  | lines (path : String) (recursive : Bool) (nodes : List Listed) :
      Renders false (.list path recursive) (.listing nodes)
        (String.join ((flatAll nodes).map (line (Key.steps (Key.ofPath path)).length)))
  | json {path : String} {recursive : Bool} {nodes : List Listed} {values : List Json.Value}
      (portrayed : List.Forall₂ Portrays nodes values)
      (spelled : (Json.Draft.ofValue (.array values)).Spelled
        (Json.Value.array values).pretty.toList) :
      Renders true (.list path recursive) (.listing nodes)
        ((Json.Value.array values).pretty ++ "\n")

namespace Renders

variable {path text : String} {recursive : Bool} {nodes : List Listed}

theorem eq_lines (renders : Renders false (.list path recursive) (.listing nodes) text) :
    text = String.join
      ((flatAll nodes).map (Listed.line (Key.steps (Key.ofPath path)).length)) := by
  cases renders
  rfl

theorem exists_values (renders : Renders true (.list path recursive) (.listing nodes) text) :
    ∃ values, List.Forall₂ Portrays nodes values ∧
      text = (Json.Value.array values).pretty ++ "\n" := by
  cases renders with
  | json portrayed _ => exact ⟨_, portrayed, rfl⟩

end Renders

variable {catalog next : Catalog} {operation : Operation} {answer : Answer} {json : Bool}

theorem renders_listing {path : String} {recursive : Bool} {nodes : List Listed}
    (tree : catalog.IsSaveTree)
    (lists : attempt Store.memory (Virtual.list path recursive) catalog = (.ok nodes, next)) :
    Renders json (.list path recursive) (.listing nodes) (listingText json nodes) := by
  cases json with
  | false =>
    rw [listingText_false (Virtual.stepByStep_of_list tree lists)]
    exact .lines path recursive nodes
  | true =>
    rw [listingText, if_pos rfl]
    apply Renders.json (portrays_toValues nodes)
    rw [Json.Value.pretty, String.toList_ofList]
    exact Json.Draft.spelled_chars _ .indented 0 (wholeItems_toValues nodes)

/-- The answer to an operation on a save tree is printed as it should be. -/
theorem renders_answerText (tree : catalog.IsSaveTree)
    (performed : attempt Store.memory (Virtual.perform operation) catalog = (.ok answer, next)) :
    Renders json operation answer (answerText json answer) := by
  have answers {α : Type} {session : Session α} (result : α → Answer)
      (ends : attempt Store.memory (do return result (← session)) catalog = (.ok answer, next)) :
      ∃ value,
        attempt Store.memory session catalog = (.ok value, next) ∧ answer = result value := by
    rcases outcome : attempt Store.memory session catalog with ⟨error | value, after⟩
    · rw [attempt_answer, outcome] at ends
      cases ends
    · rw [attempt_answer, outcome] at ends
      cases ends
      exact ⟨value, outcome, rfl⟩
  cases operation with
  | writeText path text =>
    rcases answers (fun _ => .done) performed with ⟨_, _, rfl⟩
    exact .done
  | write path bytes =>
    rcases answers (fun _ => .done) performed with ⟨_, _, rfl⟩
    exact .done
  | readText path =>
    rcases answers .text performed with ⟨text, _, rfl⟩
    exact .text text
  | read path =>
    rcases answers .bytes performed with ⟨bytes, _, rfl⟩
    rw [answerText, Hex.dump, Hex.lines_eq_rows]
    exact .bytes bytes
  | find path =>
    rcases answers .found performed with ⟨found, _, rfl⟩
    cases found with
    | true => exact .present
    | false => exact .absent
  | makeDirectory path recursive =>
    rcases answers (fun _ => .done) performed with ⟨_, _, rfl⟩
    exact .done
  | list path recursive =>
    rcases answers .listing performed with ⟨nodes, lists, rfl⟩
    exact renders_listing tree lists
  | remove path recursive =>
    rcases answers (fun _ => .done) performed with ⟨_, _, rfl⟩
    exact .done
  | copy source target =>
    rcases answers (fun _ => .done) performed with ⟨_, _, rfl⟩
    exact .done
  | rename source target =>
    rcases answers (fun _ => .done) performed with ⟨_, _, rfl⟩
    exact .done

end Cli

end SaveTree
