import SaveTree.Proofs.Native.Confinement
import SaveTree.Proofs.Native.Mirror
import SaveTree.Proofs.Virtual.Atomicity

namespace SaveTree

/-- The text of a file is what its bytes spell. -/
theorem Content.toText?_eq (content : Content) :
    content.toText? = String.fromUTF8? content.toBytes := by
  cases content with
  | bytes value => rfl
  | text value =>
    have valid : value.toUTF8.IsValidUTF8 := value.isValidUTF8
    rw [toText?, toBytes, String.fromUTF8?, dif_pos valid]
    rfl

/-- Makes a directory where no file is. -/
def Virtual.makePlace (key : String) : Session Unit := do
  match ← Session.get key with
  | some (.file _) => throw (.conflict key)
  | _ => ensureDirectories key

namespace Native

open Host Location Machine Program Catalog

/-!
# The same operation on two trees

A save tree in a directory and one in a store are given the same operation.  Both
look at what is there before they change anything, and as long as no file is above
a key they see the same.  Where a file is in the way one side is refused by the
host and the other one finds nothing, but neither of them changes anything then.
-/

variable {α β : Type} {root path : String} {place : Place} {initial machine : Machine}
  {catalog : Catalog} {steps : List String} {content : Content} {condition : Prop}

/-! ## Walks down to a directory -/

/-- One step of the walk. -/
def ensurePlace (root place : String) : Act Unit := do
  match ← kind? root place with
  | some .file => throw (.notADirectory place)
  | some .directory => pure ()
  | none => onHost (Host.makeDirectory (hostPath root place))

theorem ensureDirectories_eq (root key : String) :
    ensureDirectories root key = (Key.chain key).forM (ensurePlace root) :=
  rfl

theorem ensurePlace_agrees (follows : Follows root place initial machine catalog)
    (addressed : Addressed root steps) (grounded : Grounded catalog (Key.text steps)) :
    Agree (Follows root place initial)
      (attempt Machine.serve (ensurePlace root (Key.text steps)) machine)
      (attempt Store.memory (Virtual.ensurePlace (Key.text steps)) catalog) := by
  have looks := follows.attempt_kind_of_clear addressed grounded.clear
  rw [ensurePlace, attempt_bind_of_ok looks, Virtual.ensurePlace,
    attempt_bind_of_ok (Store.attempt_get catalog (Key.text steps))]
  cases found : catalog.get? (Key.text steps) with
  | none =>
    rcases follows.attempt_makeDirectory addressed grounded found with ⟨after, makes, grown⟩
    have made : Agree (Follows root place initial)
        (attempt Machine.serve (onHost (Host.makeDirectory (hostPath root (Key.text steps)))) machine)
        (attempt Store.memory (Session.put ⟨Key.text steps, .directory⟩) catalog) := by
      rw [makes]
      exact ⟨rfl, grown⟩
    exact made
  | some node =>
    cases node with
    | file content => exact ⟨rfl, follows⟩
    | directory => exact ⟨rfl, follows⟩

/-- The walk along `rest`, when everything down to `passed` is a directory on both
sides. -/
theorem forM_ensurePlace_agrees (passed rest : List String)
    (follows : Follows root place initial machine catalog) (areNames : Key.AreNames (passed ++ rest))
    (fits : Fits root (passed ++ rest))
    (ready : ∀ upper, upper ≠ [] → upper <+: passed →
      catalog.get? (Key.text upper) = some .directory) :
    Agree (Follows root place initial)
      (attempt Machine.serve (((Key.beginnings rest).map fun names =>
        Key.text (passed ++ names)).forM (ensurePlace root)) machine)
      (attempt Store.memory (((Key.beginnings rest).map fun names =>
        Key.text (passed ++ names)).forM Virtual.ensurePlace) catalog) := by
  induction rest generalizing passed machine catalog with
  | nil => exact ⟨rfl, follows⟩
  | cons name rest ih =>
    have places : (Key.beginnings (name :: rest)).map (fun names => Key.text (passed ++ names)) =
        Key.text (passed ++ [name]) ::
          (Key.beginnings rest).map (fun names => Key.text ((passed ++ [name]) ++ names)) := by
      simp [Key.beginnings, Function.comp_def]
    rw [List.append_cons] at areNames fits
    have beginning : passed ++ [name] <+: (passed ++ [name]) ++ rest := List.prefix_append _ _
    have addressed : Addressed root (passed ++ [name]) :=
      ⟨by simp, areNames.of_beginning beginning,
        fits.of_beginning follows.root_ne_empty (areSteps_of_areNames areNames) beginning⟩
    have grounded : Grounded catalog (Key.text (passed ++ [name])) := by
      intro above below
      rcases (Key.isBelow_text_iff addressed.areNames).mp below with
        ⟨upper, nonempty, inside, proper, rfl⟩
      rcases List.prefix_concat_iff.mp inside with whole | shorter
      · exact absurd whole proper
      · exact ready upper nonempty shorter
    rw [places]
    apply (ensurePlace_agrees follows addressed grounded).bind
    intro _ after between _ walked related
    rcases Virtual.directory_of_ensurePlace walked with ⟨directory, kept⟩
    apply ih (passed ++ [name]) related areNames fits
    intro upper nonempty inside
    rcases List.prefix_concat_iff.mp inside with whole | shorter
    · rw [whole]
      exact directory
    · exact kept _ _ (ready upper nonempty shorter)

theorem ensureDirectories_agrees (follows : Follows root place initial machine catalog)
    (areNames : Key.AreNames steps) (fits : Fits root steps) :
    Agree (Follows root place initial)
      (attempt Machine.serve (ensureDirectories root (Key.text steps)) machine)
      (attempt Store.memory (Virtual.ensureDirectories (Key.text steps)) catalog) := by
  rw [ensureDirectories_eq, Virtual.ensureDirectories_eq, Key.chain_text areNames]
  apply forM_ensurePlace_agrees [] steps follows areNames fits
  intro upper nonempty beginning
  exact absurd (List.prefix_nil.mp beginning) nonempty

theorem ensureParent_agrees (follows : Follows root place initial machine catalog)
    (addressed : Addressed root steps) :
    Agree (Follows root place initial)
      (attempt Machine.serve (ensureDirectories root (Key.parent (Key.text steps))) machine)
      (attempt Store.memory (Virtual.ensureDirectories (Key.parent (Key.text steps))) catalog) := by
  have rooted := follows.root_ne_empty
  have areSteps := addressed.areSteps
  rcases addressed.exists_last with ⟨front, last, rfl⟩
  have beginning : front <+: front ++ [last] := List.prefix_append front [last]
  rw [Key.parent_text_concat (addressed.areNames last (by simp))]
  exact ensureDirectories_agrees follows (addressed.areNames.of_beginning beginning)
    (addressed.fits.of_beginning rooted areSteps beginning)

/-! ## Files -/

theorem putFile_agrees (follows : Follows root place initial machine catalog)
    (addressed : Addressed root steps) :
    Agree (Follows root place initial)
      (attempt Machine.serve (putFile root (Key.text steps) content.toBytes) machine)
      (attempt Store.memory (Virtual.putFile (Key.text steps) content) catalog) := by
  apply (ensureParent_agrees follows addressed).bind
  intro _ after between _ walked related
  have grounded : Grounded between (Key.text steps) := fun above below =>
    Virtual.directory_of_ensureParent follows.tree addressed.canonical walked below
  rw [attempt_bind_of_ok (related.attempt_kind_of_clear addressed grounded.clear),
    attempt_bind_of_ok (Store.attempt_get between (Key.text steps))]
  -- where no directory is in the way
  have writes (notDirectory : between.get? (Key.text steps) ≠ some .directory) :
      Agree (Follows root place initial)
        (attempt Machine.serve (onHost (Host.write (hostPath root (Key.text steps)) content.toBytes))
          after)
        (attempt Store.memory (Session.put ⟨Key.text steps, .file content⟩) between) := by
    rcases related.attempt_write addressed grounded notDirectory with ⟨_, written, grown⟩
    rw [written]
    exact ⟨rfl, grown⟩
  cases found : between.get? (Key.text steps) with
  | none =>
    rw [found] at writes
    exact writes nofun
  | some node =>
    rw [found] at writes
    cases node with
    | file old => exact writes nofun
    | directory => exact ⟨rfl, related⟩

/-- Both sides leave the same tree, and under a condition they give the same. -/
structure InStep (root : String) (place : Place) (initial : Machine) (condition : Prop)
    (left : Except FsError α × Machine) (right : Except FsError α × Catalog) : Prop where
  follows : Follows root place initial left.2 right.2
  same : condition → left.1 = right.1

theorem InStep.of_agree {left : Except FsError α × Machine} {right : Except FsError α × Catalog}
    (agree : Agree (Follows root place initial) left right) :
    InStep root place initial condition left right :=
  ⟨agree.related, fun _ => agree.same⟩

theorem InStep.mono {stronger : Prop} {left : Except FsError α × Machine}
    {right : Except FsError α × Catalog} (inStep : InStep root place initial condition left right)
    (implies : stronger → condition) : InStep root place initial stronger left right :=
  ⟨inStep.follows, fun holds => inStep.same (implies holds)⟩

/-- What is answered in the end is made of what was given. -/
theorem InStep.answer {act : Act α} {session : Session α}
    (inStep : InStep root place initial condition (attempt Machine.serve act machine)
      (attempt Store.memory session catalog)) (result : α → β) :
    InStep root place initial condition
      (attempt Machine.serve (do return result (← act)) machine)
      (attempt Store.memory (do return result (← session)) catalog) := by
  rw [attempt_answer, attempt_answer]
  exact ⟨inStep.follows, fun holds => congrArg (Except.map result) (inStep.same holds)⟩

theorem InStep.bind_of_ok {γ δ : Type} {act : Act γ} {session : Session δ} {next : γ → Act α}
    {nextOther : δ → Session α} {value : γ} {valueOther : δ} {after : Machine} {afterOther : Catalog}
    (first : attempt Machine.serve act machine = (.ok value, after))
    (firstOther : attempt Store.memory session catalog = (.ok valueOther, afterOther))
    (later : InStep root place initial condition (attempt Machine.serve (next value) after)
      (attempt Store.memory (nextOther valueOther) afterOther)) :
    InStep root place initial condition (attempt Machine.serve (act >>= next) machine)
      (attempt Store.memory (session >>= nextOther) catalog) := by
  rw [attempt_bind_of_ok first, attempt_bind_of_ok firstOther]
  exact later

theorem idle_bind {session : Session β} {next : β → Session α} {value : β}
    (first : attempt Store.memory session catalog = (.ok value, catalog))
    (later : (attempt Store.memory (next value) catalog).2 = catalog) :
    (attempt Store.memory (session >>= next) catalog).2 = catalog := by
  rw [attempt_bind_of_ok first, later]

/-- A side that fails clean, while the other one comes to nothing. -/
theorem InStep.of_refusal {act : Act β} {next : β → Act α} {session : Session α} {error : FsError}
    (follows : Follows root place initial machine catalog)
    (fails : attempt Machine.serve act machine = (.error error, machine))
    (idle : (attempt Store.memory session catalog).2 = catalog) (unmet : ¬ condition) :
    InStep root place initial condition (attempt Machine.serve (act >>= next) machine)
      (attempt Store.memory session catalog) := by
  rw [attempt_bind_of_error fails]
  exact ⟨idle.symm ▸ follows, fun holds => absurd holds unmet⟩

/-- The host admits the path of the key, where there is one. -/
def Admits (root path : String) : Prop :=
  ∀ key, Key.require path = .ok key → Fits root (Key.steps key)

/-- A path that is admitted on both sides, or nothing happens. -/
theorem InStep.require {next : String → Act α} {nextOther : String → Session α}
    (follows : Follows root place initial machine catalog) (admitted : Admits root path)
    (later : ∀ steps, Addressed root steps → Key.ofPath path = Key.text steps →
      InStep root place initial condition (attempt Machine.serve (next (Key.text steps)) machine)
        (attempt Store.memory (nextOther (Key.text steps)) catalog)) :
    InStep root place initial condition
      (attempt Machine.serve (do next (← (Key.require path : Except FsError String))) machine)
      (attempt Store.memory (do nextOther (← (Key.require path : Except FsError String))) catalog) := by
  cases required : Key.require path with
  | error error => exact ⟨follows, fun _ => rfl⟩
  | ok key =>
    have fits := admitted key required
    have key_eq := (Key.require_eq_ok_iff.mp required).1
    rcases (Key.canonical_of_require required).exists_steps with ⟨steps, nonempty, areNames, rfl⟩
    rw [areNames.steps_text] at fits
    exact later steps ⟨nonempty, areNames, fits⟩ key_eq.symm

/-- Both sides find the same bytes at a key, or none. -/
theorem bytesAt_cases (follows : Follows root place initial machine catalog)
    (addressed : Addressed root steps) :
    (∃ content, catalog.get? (Key.text steps) = some (.file content) ∧
      attempt Machine.serve (bytesAt root (Key.text steps)) machine = (.ok content.toBytes, machine)) ∨
    (catalog.isFile (Key.text steps) = false ∧ ∃ error,
      attempt Machine.serve (bytesAt root (Key.text steps)) machine = (.error error, machine) ∧
      (Clear catalog (Key.text steps) → error = .fileNotFound (Key.text steps))) := by
  by_cases clear : Clear catalog (Key.text steps)
  · have looks := follows.attempt_kind_of_clear addressed clear
    rw [bytesAt, attempt_bind_of_ok looks]
    cases found : catalog.get? (Key.text steps) with
    | none =>
      refine .inr ⟨?_, _, rfl, fun _ => rfl⟩
      rw [isFile, found]
      rfl
    | some node =>
      cases node with
      | directory =>
        refine .inr ⟨?_, _, rfl, fun _ => rfl⟩
        rw [isFile, found]
        rfl
      | file content => exact .inl ⟨content, rfl, follows.attempt_read addressed found⟩
  · have looks := follows.attempt_kind_of_blocked addressed clear
    refine .inr ⟨?_, .host .notADirectory, ?_, fun clears => absurd clears clear⟩
    · rw [isFile, missing_of_not_clear follows.tree clear]
      rfl
    · rw [bytesAt, attempt_bind_of_error looks]

theorem writeFile_inStep (follows : Follows root place initial machine catalog)
    (admitted : Admits root path) :
    InStep root place initial condition
      (attempt Machine.serve (writeFile root path content.toBytes) machine)
      (attempt Store.memory (Virtual.writeFile path content) catalog) :=
  .require follows admitted fun _ addressed _ => .of_agree (putFile_agrees follows addressed)

theorem readBytes_inStep (follows : Follows root place initial machine catalog)
    (admitted : Admits root path) :
    InStep root place initial (Clear catalog (Key.ofPath path))
      (attempt Machine.serve (readBytes root path) machine)
      (attempt Store.memory (Virtual.readBytes path) catalog) := by
  apply InStep.require follows admitted
  intro steps addressed key_eq
  rw [key_eq]
  rcases bytesAt_cases follows addressed with ⟨content, file, reads⟩ | ⟨notFile, error, fails, clear⟩
  · rw [reads, attempt_bind_of_ok (Virtual.attempt_contentAt_of_file file)]
    exact ⟨follows, fun _ => rfl⟩
  · rw [fails, attempt_bind_of_error (Virtual.attempt_contentAt_of_not_file notFile)]
    exact ⟨follows, fun holds => congrArg _ (clear holds)⟩

theorem readText_inStep (follows : Follows root place initial machine catalog)
    (admitted : Admits root path) :
    InStep root place initial (Clear catalog (Key.ofPath path))
      (attempt Machine.serve (readText root path) machine)
      (attempt Store.memory (Virtual.readText path) catalog) := by
  apply InStep.require follows admitted
  intro steps addressed key_eq
  rw [key_eq]
  rcases bytesAt_cases follows addressed with ⟨content, file, reads⟩ | ⟨notFile, error, fails, clear⟩
  · rw [attempt_bind_of_ok reads, attempt_bind_of_ok (Virtual.attempt_contentAt_of_file file),
      content.toText?_eq]
    cases String.fromUTF8? content.toBytes with
    | none => exact ⟨follows, fun _ => rfl⟩
    | some text => exact ⟨follows, fun _ => rfl⟩
  · rw [attempt_bind_of_error fails, attempt_bind_of_error (Virtual.attempt_contentAt_of_not_file notFile)]
    exact ⟨follows, fun holds => congrArg _ (clear holds)⟩

theorem copy_inStep {source target : String} (follows : Follows root place initial machine catalog)
    (admitted : Admits root source) (admittedTarget : Admits root target) :
    InStep root place initial (Clear catalog (Key.ofPath source))
      (attempt Machine.serve (copy root source target) machine)
      (attempt Store.memory (Virtual.copy source target) catalog) := by
  apply InStep.require follows admitted
  intro source addressed key_eq
  rw [key_eq]
  apply InStep.require follows admittedTarget
  intro target addressedTarget _
  rcases bytesAt_cases follows addressed with ⟨content, file, reads⟩ | ⟨notFile, error, fails, clear⟩
  · rw [attempt_bind_of_ok reads, attempt_bind_of_ok (Virtual.attempt_contentAt_of_file file)]
    exact .of_agree (putFile_agrees follows addressedTarget)
  · rw [attempt_bind_of_error fails, attempt_bind_of_error (Virtual.attempt_contentAt_of_not_file notFile)]
    exact ⟨follows, fun holds => congrArg _ (clear holds)⟩

/-! ## Directories -/

/-- Looking for a key, which may be the root's. -/
theorem find_cases (follows : Follows root place initial machine catalog)
    (areNames : Key.AreNames steps) (fits : Fits root steps) (key_eq : Key.ofPath path = Key.text steps) :
    ∃ found, attempt Store.memory (Virtual.find path) catalog = (.ok found, catalog) ∧
      (attempt Machine.serve (find root path) machine = (.ok found, machine) ∨
        ¬ Clear catalog (Key.text steps) ∧ ∃ error,
          attempt Machine.serve (find root path) machine = (.error error, machine)) := by
  unfold find Virtual.find
  dsimp only
  rw [key_eq]
  by_cases top : steps = []
  · subst top
    exact ⟨true, rfl, .inl rfl⟩
  have addressed : Addressed root steps := ⟨top, areNames, fits⟩
  rw [if_neg addressed.canonical.nonempty, if_neg addressed.canonical.nonempty,
    attempt_bind_of_ok (Store.attempt_get catalog (Key.text steps))]
  refine ⟨_, rfl, ?_⟩
  by_cases clear : Clear catalog (Key.text steps)
  · rw [attempt_bind_of_ok (follows.attempt_kind_of_clear addressed clear)]
    left
    rw [Option.isSome_map]
    rfl
  · rw [attempt_bind_of_error (follows.attempt_kind_of_blocked addressed clear)]
    exact .inr ⟨clear, _, rfl⟩

/-- Makes a directory where no file is. -/
def makePlace (root key : String) : Act Unit := do
  if (← kind? root key) = some .file then throw (.conflict key)
  ensureDirectories root key

theorem idle_makePlace (follows : Follows root place initial machine catalog)
    (addressed : Addressed root steps) (blocked : ¬ Clear catalog (Key.text steps)) :
    (attempt Store.memory (Virtual.makePlace (Key.text steps)) catalog).2 = catalog := by
  rcases exists_of_not_clear blocked with ⟨above, below, file⟩
  have inside := (Key.mem_chain_iff addressed.canonical).mpr (.inr below)
  rcases Virtual.exists_error_of_file inside file with ⟨error, after, fails⟩
  rw [Virtual.makePlace, attempt_bind_of_ok (Store.attempt_get catalog (Key.text steps)),
    missing_of_not_clear follows.tree blocked]
  dsimp only
  rw [fails]
  exact Virtual.ensureDirectories_failsClean follows.tree addressed.canonical error after fails

theorem makePlace_inStep (follows : Follows root place initial machine catalog)
    (addressed : Addressed root steps) :
    InStep root place initial (Clear catalog (Key.text steps))
      (attempt Machine.serve (makePlace root (Key.text steps)) machine)
      (attempt Store.memory (Virtual.makePlace (Key.text steps)) catalog) := by
  by_cases clear : Clear catalog (Key.text steps)
  · have ensures := ensureDirectories_agrees follows addressed.areNames addressed.fits
    apply InStep.bind_of_ok (follows.attempt_kind_of_clear addressed clear)
      (Store.attempt_get catalog (Key.text steps))
    cases found : catalog.get? (Key.text steps) with
    | none => exact .of_agree ensures
    | some node =>
      cases node with
      | file content => exact ⟨follows, fun _ => rfl⟩
      | directory => exact .of_agree ensures
  · exact .of_refusal follows (follows.attempt_kind_of_blocked addressed clear)
      (idle_makePlace follows addressed clear) clear

theorem makeDirectory_inStep (recursive : Bool)
    (follows : Follows root place initial machine catalog) (admitted : Admits root path) :
    InStep root place initial (Clear catalog (Key.ofPath path))
      (attempt Machine.serve (makeDirectory root path recursive) machine)
      (attempt Store.memory (Virtual.makeDirectory path recursive) catalog) := by
  apply InStep.require follows admitted
  intro steps addressed key_eq
  rw [key_eq]
  have made := makePlace_inStep follows addressed
  cases recursive with
  | true => exact made
  | false =>
    rcases addressed.exists_last with ⟨front, last, rfl⟩
    have beginning : front <+: front ++ [last] := List.prefix_append front [last]
    have areFront := addressed.areNames.of_beginning beginning
    have fits := addressed.fits.of_beginning follows.root_ne_empty addressed.areSteps beginning
    have parent_eq : Key.parent (Key.text (front ++ [last])) = Key.text front :=
      Key.parent_text_concat (addressed.areNames last (by simp))
    rw [parent_eq]
    rcases find_cases follows areFront fits (Key.ofPath_text areFront) with
      ⟨found, finds, same | ⟨blocked, error, fails⟩⟩
    · apply InStep.bind_of_ok same finds
      cases found with
      | true => exact made
      | false => exact ⟨follows, fun _ => rfl⟩
    · have blocked : ¬ Clear catalog (Key.text (front ++ [last])) :=
        fun clear => blocked (clear.of_beginning addressed.areNames beginning)
      refine .of_refusal follows fails (idle_bind finds ?_) blocked
      cases found with
      | true => exact idle_makePlace follows addressed blocked
      | false => rfl

/-! ## Removing -/

/-- Nothing is stored below a key at which no directory is. -/
theorem below_eq_nil_of_leaf {key : String} (tree : catalog.IsSaveTree)
    (leaf : catalog.get? key ≠ some .directory) : catalog.below key = [] :=
  below_eq_nil_iff.mpr fun _ _ stored => tree.isBelow_eq_false leaf stored

/-- A key below the root that is removed. -/
theorem removeKey_inStep {recursive : Bool} (follows : Follows root place initial machine catalog)
    (admitted : Admits root path) (inside : Key.ofPath path ≠ "") :
    InStep root place initial (Clear catalog (Key.ofPath path))
      (attempt Machine.serve (remove root path recursive) machine)
      (attempt Store.memory (Virtual.remove path recursive) catalog) := by
  unfold remove Virtual.remove
  rw [if_neg inside, if_neg inside]
  apply InStep.require follows admitted
  intro steps addressed key_eq
  rw [key_eq]
  have gets := Store.attempt_get catalog (Key.text steps)
  have lists := Virtual.attempt_descendants catalog (Key.text steps)
  by_cases clear : Clear catalog (Key.text steps)
  · apply InStep.bind_of_ok (follows.attempt_kind_of_clear addressed clear) gets
    rw [attempt_bind_of_ok lists]
    cases found : catalog.get? (Key.text steps) with
    | none =>
      rw [below_eq_nil_of_leaf follows.tree (found ▸ nofun)]
      exact ⟨follows, fun _ => rfl⟩
    | some node =>
      cases node with
      | file content =>
        have leaf : catalog.below (Key.text steps) = [] :=
          below_eq_nil_of_leaf follows.tree (found ▸ nofun)
        have removed : InStep root place initial (Clear catalog (Key.text steps))
            (attempt Machine.serve (onHost (Host.removeFile (hostPath root (Key.text steps)))) machine)
            (attempt Store.memory (Session.deleteMany [Key.text steps]) catalog) := by
          rcases follows.attempt_removeFile addressed found with ⟨after, removes, shrunk⟩
          rw [uproot, leaf] at shrunk
          rw [removes]
          exact ⟨shrunk, fun _ => rfl⟩
        rw [leaf]
        exact removed
      | directory =>
        have removed : InStep root place initial (Clear catalog (Key.text steps))
            (attempt Machine.serve (onHost (Host.removeTree (hostPath root (Key.text steps)))) machine)
            (attempt Store.memory (Session.deleteMany
              ((catalog.below (Key.text steps)).map Entry.path ++ [Key.text steps])) catalog) := by
          rcases follows.attempt_removeTree addressed found with ⟨after, removes, shrunk⟩
          rw [removes]
          exact ⟨shrunk, fun _ => rfl⟩
        cases recursive with
        | false => exact ⟨follows, fun _ => rfl⟩
        | true => exact removed
  · have missing := missing_of_not_clear follows.tree clear
    refine .of_refusal follows (follows.attempt_kind_of_blocked addressed clear)
      (idle_bind gets (idle_bind lists ?_)) clear
    rw [missing, below_eq_nil_of_leaf follows.tree (missing ▸ nofun)]
    rfl

/-- Removes what a directory lists, below the root. -/
def removeChild (root : String) : String × Kind → Act Unit
  | (name, .directory) => onHost (Host.removeTree (join root name))
  | (name, .file) => onHost (Host.removeFile (join root name))

/-- A loop whose body goes on in any case. -/
theorem forIn_eq_forM {list : List α} {body : α → PUnit → Act (ForInStep PUnit)} {act : α → Act Unit}
    (each : ∀ item, body item ⟨⟩ = (do act item; pure (.yield ⟨⟩))) :
    ForIn.forIn list PUnit.unit body = list.forM act := by
  induction list with
  | nil => rfl
  | cons item rest ih =>
    rw [List.forIn_cons, each, bind_assoc]
    apply bind_congr
    intro _
    rw [pure_bind]
    exact ih

theorem removeAll_eq (root : String) :
    removeAll root = (do
      if (← kind? root "") = some .directory then
        (← onHost (Host.list root)).forM (removeChild root)) := by
  apply bind_congr
  intro found
  split
  · apply bind_congr
    intro children
    rw [bind_pure_unit]
    apply forIn_eq_forM
    rintro ⟨name, kind⟩
    cases kind <;> rfl
  · rfl

theorem removeChild_follows {name : String} {kind : Kind}
    (follows : Follows root place initial machine catalog) (isName : Key.AreNames [name])
    (stored : (catalog.get? name).map Node.kind = some kind) :
    ∃ after, attempt Machine.serve (removeChild root (name, kind)) machine = (.ok (), after) ∧
      Follows root place initial after (catalog.uproot name) := by
  rcases Option.map_eq_some_iff.mp stored with ⟨node, found, rfl⟩
  rw [← Key.text_singleton name] at found
  have addressed : Addressed root [name] :=
    ⟨List.cons_ne_nil name [], isName, follows.shallow name node isName found⟩
  have path_eq : hostPath root (Key.text [name]) = join root name :=
    (hostPath_name (addressed.areSteps name (List.mem_singleton_self name)) root).2
  cases node with
  | file content =>
    have removes := follows.attempt_removeFile addressed found
    rwa [path_eq, Key.text_singleton] at removes
  | directory =>
    have removes := follows.attempt_removeTree addressed found
    rwa [path_eq, Key.text_singleton] at removes

/-- Removing what stands in the root, one after the other, leaves nothing of it. -/
theorem forM_removeChild_follows {children : List (String × Kind)}
    (follows : Follows root place initial machine catalog)
    (distinct : (children.map Prod.fst).Nodup)
    (stored : ∀ child ∈ children, Key.AreNames [child.1] ∧
      (catalog.get? child.1).map Node.kind = some child.2) :
    ∃ after left, attempt Machine.serve (children.forM (removeChild root)) machine = (.ok (), after) ∧
      Follows root place initial after left ∧
      ∀ steps node, Key.AreNames steps → left.get? (Key.text steps) = some node →
        catalog.get? (Key.text steps) = some node ∧ ∀ child ∈ children, ¬ [child.1] <+: steps := by
  induction children generalizing machine catalog with
  | nil => exact ⟨machine, catalog, rfl, follows, fun _ _ _ found => ⟨found, nofun⟩⟩
  | cons child rest ih =>
    rcases child with ⟨name, kind⟩
    rcases stored (name, kind) List.mem_cons_self with ⟨isName, here⟩
    rcases removeChild_follows follows isName here with ⟨between, removes, shrunk⟩
    have found : ∀ {others}, Key.AreNames others → (catalog.uproot name).get? (Key.text others) =
        if [name] <+: others then none else catalog.get? (Key.text others) := by
      intro others areNames
      rw [← get?_uproot isName (List.cons_ne_nil name []) areNames, Key.text_singleton]
    rw [List.map_cons, List.nodup_cons] at distinct
    have later : ∀ child ∈ rest, Key.AreNames [child.1] ∧
        ((catalog.uproot name).get? child.1).map Node.kind = some child.2 := by
      intro child member
      rcases stored child (.tail _ member) with ⟨isOther, there⟩
      refine ⟨isOther, ?_⟩
      have other := found isOther
      rw [Key.text_singleton, if_neg] at other
      · rw [other, there]
      · intro same
        have equal : name = child.1 := by simpa using same
        exact distinct.1 (List.mem_map.mpr ⟨child, member, equal.symm⟩)
    rcases ih shrunk distinct.2 later with ⟨after, left, removed, followsLeft, kept⟩
    refine ⟨after, left, ?_, followsLeft, ?_⟩
    · rw [← removed]
      exact attempt_bind_of_ok removes
    · intro steps node areNames remains
      rcases kept steps node areNames remains with ⟨before, apart⟩
      rw [found areNames] at before
      split at before
      · cases before
      · rename_i outside
        refine ⟨before, ?_⟩
        intro child member
        rcases List.mem_cons.mp member with first | behind
        · rw [first]
          exact outside
        · exact apart child behind

theorem removeAll_inStep (follows : Follows root place initial machine catalog) :
    InStep root place initial condition (attempt Machine.serve (removeAll root) machine)
      (attempt Store.memory Virtual.removeAll catalog) := by
  have lists : attempt Machine.serve (onHost (Host.list root)) machine =
      (.ok (machine.disk.children place), machine) := by
    have areSteps : AreSteps [] := nofun
    have listed := follows.attempt_list areSteps follows.fits_root
      ((List.append_nil place).symm ▸ follows.directory)
    rwa [List.append_nil] at listed
  have stored : ∀ child ∈ machine.disk.children place, Key.AreNames [child.1] ∧
      (catalog.get? child.1).map Node.kind = some child.2 :=
    fun child member => follows.mirrors.mem_children_root_iff.mp member
  rcases forM_removeChild_follows follows (machine.disk.nodup_children place) stored with
    ⟨after, left, removes, followsLeft, kept⟩
  -- whatever stood in the root was listed and removed
  have emptied : ∀ key, left.get? key = none := by
    apply followsLeft.tree.get?_eq_none
    intro name isName
    apply Option.eq_none_iff_forall_ne_some.mpr
    intro node remains
    rw [← Key.text_singleton name] at remains
    rcases kept [name] node isName remains with ⟨before, apart⟩
    rw [Key.text_singleton] at before
    apply apart (name, node.kind) _ (List.prefix_refl [name])
    rw [follows.mirrors.mem_children_root_iff, before]
    exact ⟨isName, rfl⟩
  have erased : ∀ key, (catalog.eraseAll (catalog.entries.map Entry.path)).get? key = left.get? key := by
    intro key
    rw [emptied, get?_eraseAll]
    split
    · rfl
    · rename_i unlisted
      apply Option.eq_none_iff_forall_ne_some.mpr
      intro node found
      exact unlisted (List.mem_map.mpr ⟨⟨key, node⟩, mem_entries_iff.mpr found, rfl⟩)
  rw [removeAll_eq, attempt_bind_of_ok follows.attempt_kind_root, if_pos rfl,
    attempt_bind_of_ok lists, removes]
  exact ⟨followsLeft.congr erased, fun _ => rfl⟩

theorem remove_inStep (recursive : Bool) (follows : Follows root place initial machine catalog)
    (admitted : Admits root path) :
    InStep root place initial (Clear catalog (Key.ofPath path))
      (attempt Machine.serve (remove root path recursive) machine)
      (attempt Store.memory (Virtual.remove path recursive) catalog) := by
  by_cases whole : Key.ofPath path = ""
  · unfold remove Virtual.remove
    rw [if_pos whole, if_pos whole]
    cases recursive with
    | true => exact removeAll_inStep follows
    | false => exact ⟨follows, fun _ => rfl⟩
  · exact removeKey_inStep follows admitted whole

end Native
end SaveTree
