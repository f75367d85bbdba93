import SaveTree.Host.Machine
import SaveTree.Proofs.Host.Location

namespace SaveTree
namespace Host

/-!
# Walks on a disk

What a disk holds after each change, and how the walk along a path depends on it.
A walk that arrives passes through directories only.  So it arrives at the same
place on every disk on which these directories still stand, whatever else there
is different.
-/

namespace Disk

variable {disk : Disk} {place other : Place} {bytes : ByteArray}

theorem kind?_eq_directory_iff :
    disk.kind? place = some .directory ↔ disk.get? place = some .directory := by
  unfold kind?
  cases disk.get? place with
  | none => simp
  | some item => cases item <;> simp [Item.kind]

theorem kind?_eq_file_iff :
    disk.kind? place = some .file ↔ ∃ bytes, disk.get? place = some (.file bytes) := by
  unfold kind?
  cases disk.get? place with
  | none => simp
  | some item => cases item <;> simp [Item.kind]

theorem kind_eq_file {kind : Kind} (file : disk.get? place = some (.file bytes))
    (stands : disk.kind? place = some kind) : kind = .file := by
  rw [kind?_eq_file_iff.mpr ⟨bytes, file⟩] at stands
  cases stands
  rfl

theorem get?_of_ne_nil (nonempty : place ≠ []) : disk.get? place = disk.items.get? place := by
  rw [get?, if_neg nonempty]

theorem holds_iff : Holds disk.items place ↔ disk.kind? place = some .directory := by
  rw [kind?_eq_directory_iff]
  by_cases root : place = []
  · simp [Holds, get?, root]
  · simp [Holds, get?, root]

/-- Whatever stands somewhere stands in a directory. -/
theorem kind?_dropLast {kind : Kind} (stands : disk.kind? place = some kind) :
    disk.kind? place.dropLast = some .directory := by
  by_cases root : place = []
  · subst root
    rfl
  · rw [kind?, get?_of_ne_nil root] at stands
    rcases Option.map_eq_some_iff.mp stands with ⟨item, found, _⟩
    have listed : place ∈ disk.items.keys :=
      List.mem_map_of_mem (f := Prod.fst) (disk.items.mem_of_get? found)
    exact holds_iff.mp (disk.isTree place listed).2

theorem ne_nil_of_kind? (free : disk.kind? place ≠ some .directory) : place ≠ [] := by
  rintro rfl
  exact free rfl

theorem get?_putFile (parent : disk.kind? place.dropLast = some .directory)
    (free : disk.kind? place ≠ some .directory) :
    (disk.putFile place bytes).get? other =
      if other = place then some (.file bytes) else disk.get? other := by
  have nonempty := ne_nil_of_kind? free
  have fits : place ≠ [] ∧ Holds disk.items place.dropLast ∧
      disk.items.get? place ≠ some .directory := by
    refine ⟨nonempty, holds_iff.mpr parent, ?_⟩
    rw [← get?_of_ne_nil nonempty]
    exact fun directory => free (kind?_eq_directory_iff.mpr directory)
  rw [putFile, dif_pos fits]
  by_cases root : other = []
  · subst root
    rw [if_neg nonempty.symm]
    rfl
  · rw [get?_of_ne_nil root, get?_of_ne_nil root, Table.get?_insert]

theorem get?_makeDirectory (parent : disk.kind? place.dropLast = some .directory)
    (free : disk.kind? place = none) :
    (disk.makeDirectory place).get? other =
      if other = place then some .directory else disk.get? other := by
  have nonempty : place ≠ [] := by
    rintro rfl
    cases free
  have fits : place ≠ [] ∧ Holds disk.items place.dropLast ∧ disk.items.get? place = none := by
    refine ⟨nonempty, holds_iff.mpr parent, ?_⟩
    rw [← get?_of_ne_nil nonempty]
    exact Option.map_eq_none_iff.mp free
  rw [makeDirectory, dif_pos fits]
  by_cases root : other = []
  · subst root
    rw [if_neg nonempty.symm]
    rfl
  · rw [get?_of_ne_nil root, get?_of_ne_nil root, Table.get?_insert]

/-- Everything above a place at which something stands is a directory. -/
theorem kind?_above {kind : Kind} (stands : disk.kind? other = some kind)
    (above : place <+: other) (different : place ≠ other) :
    disk.kind? place = some .directory := by
  induction length : other.length generalizing other kind with
  | zero =>
    have root := List.length_eq_zero_iff.mp length
    subst root
    exact absurd (List.prefix_nil.mp above) different
  | succ count ih =>
    have parent := kind?_dropLast stands
    have inside : place <+: other.dropLast := by
      have nonempty : other ≠ [] := by
        rintro rfl
        cases length
      have split := List.dropLast_concat_getLast nonempty
      rw [← split] at above
      rcases List.prefix_concat_iff.mp above with whole | shorter
      · exact absurd (whole.trans split) different
      · exact shorter
    by_cases same : place = other.dropLast
    · exact same ▸ parent
    · exact ih parent inside same (by rw [List.length_dropLast, length]; rfl)

/-- What is found under a new key was found under some old one. -/
theorem exists_of_get?_mapKeys {items : Table Place Item} {rename : Place → Place}
    (apart : ∀ k ∈ items.keys, ∀ k' ∈ items.keys, rename k = rename k' → k = k') {item : Item}
    (found : (items.mapKeys rename apart).get? place = some item) :
    ∃ old, rename old = place ∧ items.get? old = some item := by
  rcases List.mem_map.mp (Table.mem_of_get? _ found) with ⟨row, listed, same⟩
  cases same
  exact ⟨row.1, rfl, items.get?_of_mem listed⟩

section Move

variable {source target : Place} {item : Item}

/-- Nothing stands below a place that is no directory. -/
theorem eq_of_above {kind : Kind} (above : place <+: other)
    (stands : disk.kind? other = some kind) (leaf : disk.kind? place ≠ some .directory) :
    place = other := by
  by_cases same : place = other
  · exact same
  · exact absurd (kind?_above stands above same) leaf

theorem ne_nil_of_get? (found : disk.items.get? place = some item) : place ≠ [] :=
  (disk.isTree place (List.mem_map_of_mem (f := Prod.fst) (disk.items.mem_of_get? found))).1

theorem kind?_of_get? (found : disk.items.get? place = some item) :
    disk.kind? place = some item.kind := by
  rw [kind?, get?_of_ne_nil (ne_nil_of_get? found), found]
  rfl

/-- Removing a leaf removes nothing else. -/
theorem get?_remove_iff (leaf : disk.kind? target ≠ some .directory) :
    (disk.remove target).items.get? place = some item ↔
      disk.items.get? place = some item ∧ place ≠ target := by
  rw [remove, Table.get?_filter]
  constructor
  · intro found
    split at found
    · rename_i kept
      refine ⟨found, ?_⟩
      rintro rfl
      rw [List.isPrefixOf_iff_prefix.mpr (List.prefix_refl place)] at kept
      cases kept
    · cases found
  · rintro ⟨found, different⟩
    have outside : ¬ target <+: place := fun above =>
      different (eq_of_above above (kind?_of_get? found) leaf).symm
    simp [outside, found]

/-- A leaf is not above a place in a directory. -/
theorem not_prefix_of_leaf (leaf : disk.kind? source ≠ some .directory)
    (parent : disk.kind? target.dropLast = some .directory) (nonempty : target ≠ [])
    (different : source ≠ target) : ¬ source <+: target := by
  intro above
  have split := List.dropLast_concat_getLast nonempty
  rw [← split] at above
  rcases List.prefix_concat_iff.mp above with whole | shorter
  · exact different (whole.trans split)
  · have same := eq_of_above shorter parent leaf
    exact leaf (same ▸ parent)

theorem holds_remove (parent : disk.kind? target.dropLast = some .directory)
    (free : disk.kind? target ≠ some .directory) :
    Holds (disk.remove target).items target.dropLast := by
  by_cases root : target.dropLast = []
  · exact .inl root
  · have different := dropLast_ne_self (ne_nil_of_kind? free)
    refine .inr ((get?_remove_iff free).mpr ⟨?_, different⟩)
    rw [← get?_of_ne_nil root]
    exact kind?_eq_directory_iff.mp parent

/-- Moving a leaf leaves everything else where it is. -/
theorem moved_of_ne {kind : Kind} (leaf : disk.kind? source ≠ some .directory)
    (stands : disk.kind? other = some kind) (different : other ≠ source) :
    moved source target other = other :=
  moved_outside fun above => different (eq_of_above above stands leaf).symm

theorem moved_self : moved source target source = target := by
  rw [moved_inside (List.prefix_refl source), List.drop_length, List.append_nil]

/-- What is found after a leaf was moved to a place without a directory. -/
theorem get?_move_iff (leaf : disk.kind? source ≠ some .directory)
    (parent : disk.kind? target.dropLast = some .directory)
    (free : disk.kind? target ≠ some .directory) (different : source ≠ target) :
    (disk.move source target).items.get? place = some item ↔
      ∃ old, disk.items.get? old = some item ∧ old ≠ target ∧ moved source target old = place := by
  have nonempty := ne_nil_of_kind? free
  have outside := not_prefix_of_leaf leaf parent nonempty different
  have apart : ∀ k ∈ (disk.remove target).items.keys, ∀ k' ∈ (disk.remove target).items.keys,
      moved source target k = moved source target k' → k = k' :=
    fun _ member _ memberOther => moved_apart (move.free member) (move.free memberOther)
  rw [move, dif_pos ⟨nonempty, holds_remove parent free, outside⟩]
  constructor
  · intro found
    rcases exists_of_get?_mapKeys apart found with ⟨old, renamed, kept⟩
    rcases (get?_remove_iff free).mp kept with ⟨before, notTarget⟩
    exact ⟨old, before, notTarget, renamed⟩
  · rintro ⟨old, before, notTarget, rfl⟩
    exact Table.get?_mapKeys _ (moved source target) apart
      ((get?_remove_iff free).mpr ⟨before, notTarget⟩)

/-- A file that is moved is found at its new place and no longer at the old one. -/
theorem get?_move (file : disk.get? source = some (.file bytes))
    (parent : disk.kind? target.dropLast = some .directory)
    (free : disk.kind? target ≠ some .directory) (different : source ≠ target) :
    (disk.move source target).get? other =
      if other = target then some (.file bytes) else if other = source then none
      else disk.get? other := by
  have leaf : disk.kind? source ≠ some .directory := by
    rw [kind?_eq_file_iff.mpr ⟨bytes, file⟩]
    nofun
  have sourceNonempty := ne_nil_of_kind? leaf
  have sourceItem : disk.items.get? source = some (.file bytes) := by
    rw [← get?_of_ne_nil sourceNonempty, file]
  by_cases root : other = []
  · subst root
    rw [if_neg (ne_nil_of_kind? free).symm, if_neg sourceNonempty.symm]
    rfl
  rw [get?_of_ne_nil root, get?_of_ne_nil root]
  apply Option.ext
  intro item
  rw [get?_move_iff leaf parent free different]
  constructor
  · rintro ⟨old, before, notTarget, renamed⟩
    by_cases atSource : old = source
    · subst atSource
      rw [moved_self] at renamed
      rw [if_pos renamed.symm, ← before, sourceItem]
    · rw [moved_of_ne leaf (kind?_of_get? before) atSource] at renamed
      subst renamed
      rw [if_neg notTarget, if_neg atSource, before]
  · intro found
    split at found
    · rename_i atTarget
      cases found
      exact ⟨source, sourceItem, different, atTarget ▸ moved_self⟩
    · rename_i notTarget
      split at found
      · cases found
      · rename_i notSource
        exact ⟨other, found, notTarget, moved_of_ne leaf (kind?_of_get? found) notSource⟩

end Move

end Disk

namespace Machine

variable {disk other : Disk} {place next start : Place} {segment name : String}
  {segments : List String}

/-! ## One segment -/

/-- What one segment of a walk does where the walk does not stand on a file. -/
inductive Entered (disk : Disk) (place : Place) : String → Place → Prop where
  | stay : Entered disk place "." place
  | up : Entered disk place ".." place.dropLast
  | down {name : String} {kind : Kind} (notDot : name ≠ ".") (notUp : name ≠ "..")
      (admitted : admitName name = .ok ()) (stands : disk.kind? (place ++ [name]) = some kind) :
      Entered disk place name (place ++ [name])

theorem enter_of_file (file : disk.kind? place = some .file) :
    enter disk place segment = .error .notADirectory := by
  simp [enter, file, throw, throwThe, MonadExceptOf.throw, bind, Except.bind]

theorem enter_of_entered (notFile : disk.kind? place ≠ some .file)
    (entered : Entered disk place segment next) : enter disk place segment = .ok next := by
  cases entered with
  | stay => simp [enter, notFile, pure, Except.pure]
  | up => simp [enter, notFile, pure, Except.pure]
  | down notDot notUp admitted stands =>
    simp [enter, notFile, notDot, notUp, admitted, stands, pure, Except.pure, bind, Except.bind]

theorem entered_of_enter (arrives : enter disk place segment = .ok next) :
    disk.kind? place ≠ some .file ∧ Entered disk place segment next := by
  by_cases file : disk.kind? place = some .file
  · rw [enter_of_file file] at arrives
    cases arrives
  · refine ⟨file, ?_⟩
    by_cases dot : segment = "."
    · subst dot
      rw [enter_of_entered file .stay] at arrives
      cases arrives
      exact .stay
    by_cases up : segment = ".."
    · subst up
      rw [enter_of_entered file .up] at arrives
      cases arrives
      exact .up
    simp only [enter, file, dot, up, if_false, bind, Except.bind, pure, Except.pure] at arrives
    cases admitted : admitName segment with
    | error error =>
      rw [admitted] at arrives
      cases arrives
    | ok =>
      rw [admitted] at arrives
      cases stands : disk.kind? (place ++ [segment]) with
      | none =>
        rw [stands] at arrives
        cases arrives
      | some kind =>
        rw [stands] at arrives
        cases arrives
        exact .down dot up admitted stands

/-! ## Whole walks -/

/-- What a computation that can fail is bound to. -/
theorem exists_of_bind {ε α β : Type} {first : Except ε α} {later : α → Except ε β} {result : β}
    (succeeds : (first >>= later) = .ok result) :
    ∃ value, first = .ok value ∧ later value = .ok result := by
  cases first with
  | error error => cases succeeds
  | ok value => exact ⟨value, rfl, succeeds⟩

/-- The walk along the segments arrives at a place. -/
def Leads (disk : Disk) (start : Place) (segments : List String) (place : Place) : Prop :=
  segments.foldlM (enter disk) start = .ok place

theorem leads_nil : Leads disk start [] place ↔ start = place := by
  simp [Leads, pure, Except.pure]

theorem leads_cons :
    Leads disk start (segment :: segments) place ↔
      ∃ next, enter disk start segment = .ok next ∧ Leads disk next segments place := by
  unfold Leads
  rw [List.foldlM_cons]
  constructor
  · exact exists_of_bind
  · rintro ⟨next, entered, rest⟩
    rw [entered]
    exact rest

theorem leads_append {later : List String} :
    Leads disk start (segments ++ later) place ↔
      ∃ between, Leads disk start segments between ∧ Leads disk between later place := by
  unfold Leads
  rw [List.foldlM_append]
  constructor
  · exact exists_of_bind
  · rintro ⟨between, first, rest⟩
    rw [first]
    exact rest

theorem Entered.stands {kind : Kind} (entered : Entered disk place segment next)
    (stands : disk.kind? place = some kind) : ∃ kind, disk.kind? next = some kind := by
  cases entered with
  | stay => exact ⟨kind, stands⟩
  | up => exact ⟨.directory, Disk.kind?_dropLast stands⟩
  | down _ _ _ found => exact ⟨_, found⟩

/-- A walk from somewhere leads somewhere. -/
theorem Leads.stands {kind : Kind} (leads : Leads disk start segments place)
    (stands : disk.kind? start = some kind) : ∃ kind, disk.kind? place = some kind := by
  induction segments generalizing start kind with
  | nil => exact ⟨kind, leads_nil.mp leads ▸ stands⟩
  | cons segment rest ih =>
    rcases leads_cons.mp leads with ⟨next, entered, later⟩
    rcases (entered_of_enter entered).2.stands stands with ⟨_, found⟩
    exact ih later found

/-- A walk to a directory begins in one. -/
theorem Leads.directory_start {kind : Kind} (leads : Leads disk start segments place)
    (stands : disk.kind? start = some kind) (arrives : disk.kind? place = some .directory) :
    disk.kind? start = some .directory := by
  cases segments with
  | nil => exact leads_nil.mp leads ▸ arrives
  | cons segment rest =>
    rcases leads_cons.mp leads with ⟨next, entered, _⟩
    cases kind with
    | directory => exact stands
    | file => exact absurd stands (entered_of_enter entered).1

/-- All directories of a disk still stand on another one. -/
def Keeps (disk other : Disk) : Prop :=
  ∀ place, disk.kind? place = some .directory → other.kind? place = some .directory

theorem Keeps.refl (disk : Disk) : Keeps disk disk :=
  fun _ directory => directory

theorem Keeps.trans {last : Disk} (first : Keeps disk other) (second : Keeps other last) :
    Keeps disk last :=
  fun place directory => second place (first place directory)

/-- A walk to a directory leads to it as long as the directories still stand. -/
theorem Leads.of_keeps {kind : Kind} (keeps : Keeps disk other)
    (leads : Leads disk start segments place) (stands : disk.kind? start = some kind)
    (arrives : disk.kind? place = some .directory) : Leads other start segments place := by
  induction segments generalizing start kind with
  | nil => exact leads_nil.mpr (leads_nil.mp leads)
  | cons segment rest ih =>
    have here := keeps start (leads.directory_start stands arrives)
    rcases leads_cons.mp leads with ⟨next, entered, later⟩
    have step := (entered_of_enter entered).2
    rcases step.stands stands with ⟨_, found⟩
    have nextDirectory := keeps next (later.directory_start found arrives)
    have notFile : other.kind? start ≠ some .file := by
      rw [here]
      nofun
    refine leads_cons.mpr ⟨next, enter_of_entered notFile ?_, ih later found⟩
    cases step with
    | stay => exact .stay
    | up => exact .up
    | down notDot notUp admitted _ => exact .down notDot notUp admitted nextDirectory

/-- A walk goes on into what stands under its last name. -/
theorem Leads.of_dropLast {kind : Kind} (leads : Leads disk start segments.dropLast place)
    (directory : disk.kind? place = some .directory) (isLast : segments.getLast? = some name)
    (notDot : name ≠ ".") (notUp : name ≠ "..") (admitted : admitName name = .ok ())
    (stands : disk.kind? (place ++ [name]) = some kind) :
    Leads disk start segments (place ++ [name]) := by
  have notFile : disk.kind? place ≠ some .file := by
    rw [directory]
    nofun
  rcases List.getLast?_eq_some_iff.mp isLast with ⟨front, split⟩
  rw [split, List.dropLast_concat] at leads
  rw [split]
  exact leads_append.mpr ⟨place, leads, leads_cons.mpr ⟨place ++ [name],
    enter_of_entered notFile (.down notDot notUp admitted stands), leads_nil.mpr rfl⟩⟩

/-- Dots lead nowhere. -/
theorem leads_dots (dots : Location.AllDots segments) (directory : disk.kind? place = some .directory) :
    Leads disk place segments place := by
  induction segments with
  | nil => exact leads_nil.mpr rfl
  | cons segment rest ih =>
    have notFile : disk.kind? place ≠ some .file := by
      rw [directory]
      nofun
    have dot : segment = "." := dots segment List.mem_cons_self
    subst dot
    exact leads_cons.mpr ⟨place, enter_of_entered notFile .stay,
      ih fun other member => dots other (List.mem_cons_of_mem _ member)⟩

theorem Entered.eq_of_dot (entered : Entered disk place segment next) (dot : segment = ".") :
    next = place := by
  cases entered with
  | stay => rfl
  | up => exact absurd dot (by decide)
  | down notDot _ _ _ => exact absurd dot notDot

theorem eq_of_leads_dots (dots : Location.AllDots segments) (leads : Leads disk place segments next) :
    next = place := by
  induction segments with
  | nil => exact (leads_nil.mp leads).symm
  | cons segment rest ih =>
    rcases leads_cons.mp leads with ⟨between, entered, later⟩
    have stays := (entered_of_enter entered).2.eq_of_dot (dots segment List.mem_cons_self)
    subst stays
    exact ih (fun other member => dots other (List.mem_cons_of_mem _ member)) later

/-! ## What a walk depends on -/

theorem eq_of_enter_name (notDot : name ≠ ".") (notUp : name ≠ "..")
    (arrives : enter disk place name = .ok next) : next = place ++ [name] := by
  cases (entered_of_enter arrives).2 with
  | stay => exact absurd rfl notDot
  | up => exact absurd rfl notUp
  | down _ _ _ _ => rfl

theorem eq_of_enter_up {disk : Disk} {next : Place} (arrives : enter disk place ".." = .ok next) :
    next = place.dropLast := by
  have notFile := (entered_of_enter arrives).1
  rw [enter_of_entered notFile .up] at arrives
  cases arrives
  rfl

theorem enter_congr (here : other.kind? place = disk.kind? place)
    (below : other.kind? (place ++ [segment]) = disk.kind? (place ++ [segment])) :
    enter other place segment = enter disk place segment := by
  rw [enter, enter, here, below]

theorem foldlM_dots_congr (dots : Location.AllDots segments)
    (here : other.kind? place = disk.kind? place) :
    segments.foldlM (enter other) place = segments.foldlM (enter disk) place := by
  induction segments with
  | nil => rfl
  | cons segment rest ih =>
    have dot : segment = "." := dots segment List.mem_cons_self
    subst dot
    rw [List.foldlM_cons, List.foldlM_cons]
    by_cases file : disk.kind? place = some .file
    · rw [enter_of_file file, enter_of_file (here.trans file)]
      rfl
    · have notFile : other.kind? place ≠ some .file := by rwa [here]
      rw [enter_of_entered file .stay, enter_of_entered notFile .stay]
      exact ih fun other member => dots other (List.mem_cons_of_mem _ member)

end Machine

end Host
end SaveTree
