import SaveTree.Proofs.Store.Transactions

namespace SaveTree

/-!
# Documents are lossless and canonical

A catalog is a finite map, and its document is a function of that map alone: the
entries are sorted by path, and no two of them share a path, so there is only one
way to sort them.  Conversely the document tells what is stored under every path.
A store opens on any file with the document's bytes, because the directories
above a file that can be read are there.
-/

namespace Catalog

variable {left right : Catalog}

theorem pairwise_sorted (catalog : Catalog) :
    catalog.sorted.Pairwise fun first second => decide (first.path ≤ second.path) = true := by
  apply List.pairwise_mergeSort
  · intro first second third early late
    exact decide_eq_true (String.le_trans (of_decide_eq_true early) (of_decide_eq_true late))
  · intro first second
    rw [Bool.or_eq_true, decide_eq_true_iff, decide_eq_true_iff]
    exact String.le_total first.path second.path

/-- Sorting by path leaves nothing of the order in which the rows were made. -/
theorem sorted_eq (same : ∀ key, left.get? key = right.get? key) : left.sorted = right.sorted := by
  have perm : left.sorted.Perm right.sorted :=
    (List.mergeSort_perm _ _).trans ((entries_perm same).trans (List.mergeSort_perm _ _).symm)
  apply perm.eq_of_pairwise _ left.pairwise_sorted right.pairwise_sorted
  intro first second inLeft inRight early late
  have path_eq : first.path = second.path :=
    String.le_antisymm (of_decide_eq_true early) (of_decide_eq_true late)
  -- of two entries with one path there is only one node to find
  have firstFound := mem_entries_iff.mp (List.mem_mergeSort.mp inLeft)
  have secondFound := mem_entries_iff.mp (List.mem_mergeSort.mp inRight)
  rw [same, path_eq, secondFound] at firstFound
  cases first
  cases second
  cases path_eq
  cases firstFound
  rfl

end Catalog

namespace Document

/-- Documents are the same exactly if the catalogs find the same. -/
theorem encode_eq_iff {left right : Catalog} :
    encode left = encode right ↔ ∀ key, left.get? key = right.get? key := by
  constructor
  · intro same key
    rcases decode_encode "" left with ⟨fromLeft, decodedLeft, agreesLeft⟩
    rcases decode_encode "" right with ⟨fromRight, decodedRight, agreesRight⟩
    rw [same, decodedRight] at decodedLeft
    cases decodedLeft
    rw [← agreesLeft, ← agreesRight]
  · intro same
    rw [encode, encode, toValue, toValue, Catalog.sorted_eq same]

end Document

/-- An entry is read back from its own text. -/
theorem Entry.parse_text (entry : Entry) : Entry.parse entry.text = .ok entry := by
  have read := Json.parse_chars (Entry.ofDraft Json.Draft.nesting) .compact entry.whole_toValue
  rw [Entry.parse, Entry.text, Json.Value.compact, read]
  exact Entry.ofDraft_ofValue entry (by decide)

namespace Durable

open Host

/-- The document of a catalog is a matter of its look-ups alone, and tells them all
apart: a commit of another catalog makes the same host calls exactly if the two find
the same.  A store opens wherever a file has these bytes, with the same look-ups
and without touching the host.  And every single entry is read back from its text. -/
theorem document_lossless_canonical (catalog : Catalog) :
    (∀ document other, commit document other = commit document catalog ↔
      ∀ key, other.get? key = catalog.get? key) ∧
    (∀ document (machine : Machine), machine.disk.kind? (machine.start document) = some .directory →
      machine.contents document = .ok (Document.encode catalog) →
      ∃ image, machine.run (openAt document).run = (.ok ⟨document, image⟩, machine) ∧
        ∀ key, Table.get? image key = catalog.get? key) ∧
    ∀ entry : Entry, Entry.parse entry.text = .ok entry := by
  refine ⟨?_, ?_, Entry.parse_text⟩
  · intro document other
    rw [← Document.encode_eq_iff]
    constructor
    · intro same
      -- the bytes are those of the first host call
      have calls : (commit document other).run = (commit document catalog).run :=
        congrArg ExceptT.run same
      injection calls with first
      injection first
    · intro same
      rw [commit, same, commit]
  · intro document machine begins holds
    exact reopens_of_encode (site_of_contents begins holds) holds

/-- Entries whose paths and texts need every kind of escape, in a file that a store
opens. -/
theorem document_lossless_canonical_escapes :
    ∃ (catalog : Catalog) (machine : Machine) (image : Catalog),
      catalog.get? "" = some (.file (.text "\x00\"\\\n")) ∧
      catalog.get? "/\t" = some (.file (.bytes .empty)) ∧ catalog.get? "é" = some .directory ∧
      machine.contents "saves" = .ok (Document.encode catalog) ∧
      machine.run (openAt "saves").run = (.ok ⟨"saves", image⟩, machine) ∧
      image.get? "" = some (.file (.text "\x00\"\\\n")) ∧
      image.get? "/\t" = some (.file (.bytes .empty)) ∧ image.get? "é" = some .directory := by
  let catalog := Catalog.ofEntries
    [⟨"é", .directory⟩, ⟨"/\t", .file (.bytes .empty)⟩, ⟨"", .file (.text "\x00\"\\\n")⟩]
  let machine : Machine := ⟨Disk.empty.putFile ["saves"] (Document.encode catalog), []⟩
  have holds : machine.contents "saves" = .ok (Document.encode catalog) := rfl
  rcases (document_lossless_canonical catalog).2.1 "saves" machine rfl holds with
    ⟨image, opens, agrees⟩
  refine ⟨catalog, machine, image, rfl, rfl, rfl, holds, opens, ?_, ?_, ?_⟩
  · exact agrees ""
  · exact agrees "/\t"
  · exact agrees "é"

end Durable
end SaveTree
